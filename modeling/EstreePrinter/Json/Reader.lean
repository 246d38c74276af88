import EstreePrinter.Json.Basic
import EstreePrinter.Decimal.Reader

/-!
# Reading JSON text

The reader takes standard JSON and, beyond it, the words `NaN`, `Infinity` and `-Infinity`.  A
number is a whole number unless it has a point or an exponent; of two fields with the same key the
later value is kept.

Two things are left to the caller (`ReadStyle`): how many digits a whole number may have, and what
is read for half of a surrogate pair that an escape gives without the other half.  No character
belongs to such a half, so that one has to be found for it.

Reading stops at the first thing that is wrong (`ReadError`): the text has no such form, or a whole
number has more digits than there may be.

Every reader takes the characters still to be read and gives back a value together with the
characters behind it.  Values nest, and no value nests deeper, and no list is longer, than its text:
the number of steps allowed to `value` is taken from the length of the text, and it never runs out
on a text that can be read.
-/

namespace EstreePrinter

/-- Why a text cannot be read. -/
inductive ReadError where
  /-- It does not have the form of a value. -/
  | malformed
  /-- A whole number in it has too many digits. -/
  | longNumber
  deriving Repr, DecidableEq

/-- Something read, or nothing because the text does not have the form for it. -/
def ReadError.orMalformed {α : Type} : Option α → Except ReadError α
  | some a => .ok a
  | none => .error .malformed

namespace Json

/-- What a caller decides about reading. -/
structure ReadStyle where
  /-- How many digits a whole number may have, if there is a bound. -/
  maxDigits : Option Nat := some Decimal.maxDigits
  /-- The character that is read for half of a surrogate pair that stands alone. -/
  half : Nat → Char := fun _ => Char.ofNat 0xFFFD

namespace Reader

/-- Skip blanks between tokens. -/
def skipBlanks : List Char → List Char
  | [] => []
  | c :: rest =>
    if c = ' ' ∨ c = '\t' ∨ c = '\n' ∨ c = '\r' then skipBlanks rest else c :: rest

/-- The value of a hexadecimal digit. -/
def hexValue? (c : Char) : Option Nat :=
  if c.isDigit then some (c.toNat - '0'.toNat)
  else if 'a' ≤ c ∧ c ≤ 'f' then some (c.toNat - 'a'.toNat + 10)
  else if 'A' ≤ c ∧ c ≤ 'F' then some (c.toNat - 'A'.toNat + 10)
  else none

/-- The value of four hexadecimal digits. -/
def hexQuad? (a b c d : Char) : Option Nat := do
  let w ← hexValue? a
  let x ← hexValue? b
  let y ← hexValue? c
  let z ← hexValue? d
  pure (((w * 16 + x) * 16 + y) * 16 + z)

/-- The character of a code unit, where `half` stands for half of a surrogate pair. -/
def unitChar (half : Nat → Char) (n : Nat) : Char :=
  if 0xD800 ≤ n ∧ n < 0xE000 then half n else Char.ofNat n

/-- The character that a one-letter escape stands for. -/
def shortEscape? (c : Char) : Option Char :=
  if c = '"' then some '"'
  else if c = '\\' then some '\\'
  else if c = '/' then some '/'
  else if c = 'b' then some (Char.ofNat 8)
  else if c = 'f' then some (Char.ofNat 12)
  else if c = 'n' then some '\n'
  else if c = 'r' then some '\r'
  else if c = 't' then some '\t'
  else none

/-- The characters that code units stand for: two halves of a surrogate pair make one character.
`high` is a first half that still waits for its second one. -/
def joinUnits (half : Nat → Char) (high : Option Nat) : List Nat → List Char
  | [] => (high.map (unitChar half)).toList
  | n :: rest =>
    match high with
    | none =>
      if 0xD800 ≤ n ∧ n < 0xDC00 then joinUnits half (some n) rest
      else unitChar half n :: joinUnits half none rest
    | some h =>
      if 0xDC00 ≤ n ∧ n < 0xE000 then
        Char.ofNat (0x10000 + (h - 0xD800) * 0x400 + (n - 0xDC00)) :: joinUnits half none rest
      else if 0xD800 ≤ n ∧ n < 0xDC00 then unitChar half h :: joinUnits half (some n) rest
      else unitChar half h :: unitChar half n :: joinUnits half none rest

/-- Read the rest of a string, after its opening quote.  `done` holds what has been read so far in
reverse, as code points and as the code units of escapes. -/
def stringFrom (half : Nat → Char) (done : List Nat) : List Char → Option (String × List Char)
  | [] => none
  | '"' :: rest => some (String.ofList (joinUnits half none done.reverse), rest)
  | '\\' :: 'u' :: a :: b :: c :: d :: rest =>
    match hexQuad? a b c d with
    | none => none
    | some n => stringFrom half (n :: done) rest
  | '\\' :: c :: rest =>
    match shortEscape? c with
    | none => none
    | some e => stringFrom half (e.toNat :: done) rest
  | c :: rest => if c.toNat < 0x20 then none else stringFrom half (c.toNat :: done) rest

/-- The whole part of a number: a zero, or digits that do not begin with one. -/
def wholePart : List Char → Option (List Char × List Char)
  | '0' :: rest => some (['0'], rest)
  | c :: rest =>
    if c.isDigit then some (c :: rest.takeWhile Char.isDigit, rest.dropWhile Char.isDigit) else none
  | [] => none

/-- The digits behind a point, if a point with digits follows. -/
def fractionPart (text : List Char) : Option (List Char) × List Char :=
  match text with
  | '.' :: c :: rest =>
    if c.isDigit then (some (c :: rest.takeWhile Char.isDigit), rest.dropWhile Char.isDigit)
    else (none, text)
  | _ => (none, text)

/-- The exponent, if a mark with digits follows. -/
def exponentPart (text : List Char) : Option Int × List Char :=
  match text with
  | mark :: rest =>
    if mark = 'e' ∨ mark = 'E' then
      let (down, digits) := Decimal.splitSign rest
      let run := digits.takeWhile Char.isDigit
      if run.isEmpty then (none, text)
      else
        let n : Int := Decimal.digitsValue run
        (some (if down then -n else n), digits.dropWhile Char.isDigit)
    else (none, text)
  | [] => (none, [])

/-- The number that its sign, its digits and its exponent make: a whole number, of `maxDigits`
digits at most, if there are neither a point nor an exponent. -/
def numberOf (maxDigits : Option Nat) (negative : Bool) (whole : List Char)
    (fraction : Option (List Char)) (exponent : Option Int) : Except ReadError Json :=
  if fraction.isSome || exponent.isSome then
    .ok (.float (Decimal.ofDigits negative whole (fraction.getD []) (exponent.getD 0)))
  else if maxDigits.any (· < whole.length) then .error .longNumber
  else
    let n : Int := Decimal.digitsValue whole
    .ok (.int (if negative then -n else n))

/-- Read a number whose sign has been read. -/
def number (maxDigits : Option Nat) (negative : Bool) (text : List Char) :
    Except ReadError (Json × List Char) :=
  match wholePart text with
  | none => .error .malformed
  | some (whole, rest) =>
    let (fraction, rest) := fractionPart rest
    let (exponent, rest) := exponentPart rest
    (numberOf maxDigits negative whole fraction exponent).map fun v => (v, rest)

/-- Take `word` off the front of a text. -/
def dropWord? (word : String) (text : List Char) : Option (List Char) :=
  if word.toList.isPrefixOf text then some (text.drop word.length) else none

/-- The words that stand for a value. -/
def words : List (String × Json) :=
  [("null", .null), ("true", .bool true), ("false", .bool false),
    ("NaN", .float (0.0 / 0.0)), ("Infinity", .float (1.0 / 0.0)),
    ("-Infinity", .float (-(1.0 / 0.0)))]

/-- Read one of the words that stand for a value. -/
def word (text : List Char) : Option (Json × List Char) :=
  words.findSome? fun w => (dropWord? w.1 text).map fun rest => (w.2, rest)

/-- Read a string, a number or a word. -/
def scalar (style : ReadStyle) (text : List Char) : Except ReadError (Json × List Char) :=
  match text with
  | '"' :: rest =>
    ReadError.orMalformed ((stringFrom style.half [] rest).map fun r => (.str r.1, r.2))
  | '-' :: rest =>
    match word text with
    | some r => .ok r
    | none => number style.maxDigits true rest
  | c :: _ =>
    if c.isDigit then number style.maxDigits false text else ReadError.orMalformed (word text)
  | [] => .error .malformed

mutual

/-- Read a value at the front of a text without blanks before it. -/
def value (style : ReadStyle) (steps : Nat) (text : List Char) :
    Except ReadError (Json × List Char) :=
  match steps with
  | 0 => .error .malformed
  | steps + 1 =>
    match text with
    | '[' :: rest =>
      match skipBlanks rest with
      | ']' :: rest => .ok (.arr [], rest)
      | rest => (items style steps rest).map fun r => (.arr r.1, r.2)
    | '\x7b' :: rest =>
      match skipBlanks rest with
      | '\x7d' :: rest => .ok (.obj [], rest)
      | rest => (fields style steps [] rest).map fun r => (.obj r.1, r.2)
    | _ => scalar style text

/-- Read the elements of a list and its closing bracket. -/
def items (style : ReadStyle) (steps : Nat) (text : List Char) :
    Except ReadError (List Json × List Char) :=
  match steps with
  | 0 => .error .malformed
  | steps + 1 =>
    match value style steps text with
    | .error e => .error e
    | .ok (v, rest) =>
      match skipBlanks rest with
      | ']' :: rest => .ok ([v], rest)
      | ',' :: rest => (items style steps (skipBlanks rest)).map fun r => (v :: r.1, r.2)
      | _ => .error .malformed

/-- Read the fields of an object and its closing brace; `done` holds the fields read so far. -/
def fields (style : ReadStyle) (steps : Nat) (done : List (String × Json)) (text : List Char) :
    Except ReadError (List (String × Json) × List Char) :=
  match steps with
  | 0 => .error .malformed
  | steps + 1 =>
    match text with
    | '"' :: rest =>
      match stringFrom style.half [] rest with
      | none => .error .malformed
      | some (key, rest) =>
        match skipBlanks rest with
        | ':' :: rest =>
          match value style steps (skipBlanks rest) with
          | .error e => .error e
          | .ok (v, rest) =>
            let done := insertField key v done
            match skipBlanks rest with
            | '\x7d' :: rest => .ok (done, rest)
            | ',' :: rest => fields style steps done (skipBlanks rest)
            | _ => .error .malformed
        | _ => .error .malformed
    | _ => .error .malformed

end

end Reader

/-- The value a text stands for, with blanks around it allowed. -/
def readAs (style : ReadStyle) (text : List Char) : Except ReadError Json :=
  match Reader.value style (text.length + 1) (Reader.skipBlanks text) with
  | .ok (v, rest) => if (Reader.skipBlanks rest).isEmpty then .ok v else .error .malformed
  | .error e => .error e

/-- The value a text stands for, with the replacement character for half of a surrogate pair. -/
def read (text : List Char) : Except ReadError Json := readAs {} text

end Json

end EstreePrinter
