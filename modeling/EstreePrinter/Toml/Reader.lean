import EstreePrinter.Json.Reader
import EstreePrinter.Toml.Document

/-!
# Reading configuration texts

A configuration text is TOML: assignments to keys and headers of tables, with numbers, flags, texts
of every form, days and times, lists, and tables on one line as values.

As in the reader of JSON, every reader gives back a value and the characters behind it, reading
stops at the first thing that is wrong, and the steps allowed to nested values are taken from the
length of the text.
-/

namespace EstreePrinter

namespace Toml

namespace Reader

/-! ## Blanks and comments -/

/-- Skip blanks within a line. -/
def skipBlanks (text : List Char) : List Char := text.dropWhile fun c => c = ' ' ∨ c = '\t'

/-- Whether a character may not stand in a string or a comment. -/
def isControl (c : Char) : Bool := (c.toNat < 0x20 && c != '\t') || c.toNat == 0x7f

/-- Skip a comment, up to the end of its line. -/
def skipComment : List Char → Option (List Char)
  | '#' :: rest =>
    if (rest.takeWhile (· != '\n')).any isControl then none else some (rest.dropWhile (· != '\n'))
  | text => some text

/-- Skip blanks, line ends and comments between the elements of a list. -/
def skipLines : Nat → List Char → Option (List Char)
  | 0, text => some text
  | steps + 1, text =>
    match text.dropWhile fun c => c = ' ' ∨ c = '\t' ∨ c = '\n' with
    | '#' :: rest => (skipComment ('#' :: rest)).bind (skipLines steps)
    | rest => some rest

/-! ## Strings on one line -/

/-- The character that a one-letter escape stands for. -/
def shortEscape? (c : Char) : Option Char :=
  if c = '/' then none else Json.Reader.shortEscape? c

/-- The number that hexadecimal digits stand for. -/
def hexValue? (digits : List Char) : Option Nat :=
  digits.foldl (fun n c => n.bind fun n => (Json.Reader.hexValue? c).map (16 * n + ·)) (some 0)

/-- The character with a code point given by hexadecimal digits. -/
def hexChar? (digits : List Char) : Option Char :=
  (hexValue? digits).bind fun n =>
    if n < 0xD800 ∨ (0xDFFF < n ∧ n < 0x110000) then some (Char.ofNat n) else none

/-- Read the rest of a string with escapes, after its opening quote; `done` holds what has been
read so far in reverse. -/
def basicFrom (done : List Char) : List Char → Option (String × List Char)
  | [] => none
  | '"' :: rest => some (String.ofList done.reverse, rest)
  | '\\' :: 'u' :: a :: b :: c :: d :: rest =>
    match hexChar? [a, b, c, d] with
    | some e => basicFrom (e :: done) rest
    | none => none
  | '\\' :: 'U' :: a :: b :: c :: d :: e :: f :: g :: h :: rest =>
    match hexChar? [a, b, c, d, e, f, g, h] with
    | some e => basicFrom (e :: done) rest
    | none => none
  | '\\' :: c :: rest =>
    match shortEscape? c with
    | some e => basicFrom (e :: done) rest
    | none => none
  | c :: rest => if c = '\\' || isControl c then none else basicFrom (c :: done) rest

/-- Read the rest of a string without escapes, after its opening quote. -/
def literalFrom (text : List Char) : Option (String × List Char) :=
  let body := text.takeWhile (· != '\'')
  match text.dropWhile (· != '\'') with
  | _ :: rest => if body.any isControl then none else some (String.ofList body, rest)
  | [] => none

/-! ## Strings on several lines -/

/-- Whether a character may not stand in a string on several lines. -/
def isLineControl (c : Char) : Bool := isControl c && c != '\n'

/-- Skip what a backslash at the end of a line skips: the rest of the line, which has to be blank,
and all blanks and line ends behind it. -/
def skipLineEnd (text : List Char) : Option (List Char) :=
  match skipBlanks text with
  | '\n' :: rest => some (rest.dropWhile fun c => c = ' ' ∨ c = '\t' ∨ c = '\n')
  | _ => none

/-- Read the rest of a string with escapes on several lines, up to its closing quotes; `done` holds
what has been read so far in reverse. -/
def basicLinesFrom : Nat → List Char → List Char → Option (List Char × List Char)
  | 0, _, _ => none
  | _, _, [] => none
  | _ + 1, done, '"' :: '"' :: '"' :: rest => some (done.reverse, rest)
  | steps + 1, done, '\\' :: 'u' :: a :: b :: c :: d :: rest =>
    match hexChar? [a, b, c, d] with
    | some e => basicLinesFrom steps (e :: done) rest
    | none => none
  | steps + 1, done, '\\' :: 'U' :: a :: b :: c :: d :: e :: f :: g :: h :: rest =>
    match hexChar? [a, b, c, d, e, f, g, h] with
    | some e => basicLinesFrom steps (e :: done) rest
    | none => none
  | steps + 1, done, '\\' :: c :: rest =>
    match shortEscape? c with
    | some e => basicLinesFrom steps (e :: done) rest
    | none => (skipLineEnd (c :: rest)).bind (basicLinesFrom steps done)
  | steps + 1, done, c :: rest =>
    if c = '\\' || isLineControl c then none else basicLinesFrom steps (c :: done) rest

/-- Read the rest of a string without escapes on several lines, up to its closing quotes. -/
def literalLinesFrom : List Char → Option (List Char × List Char)
  | '\'' :: '\'' :: '\'' :: rest => some ([], rest)
  | c :: rest =>
    if isLineControl c then none else (literalLinesFrom rest).map fun r => (c :: r.1, r.2)
  | [] => none

/-- Read the rest of a string on several lines, after its opening quotes.  A line end right behind
them is left out, and one or two quotes right behind the closing ones belong to the string. -/
def linesFrom (quote : Char) (text : List Char) : Option (String × List Char) :=
  let body := if text.head? = some '\n' then text.tail else text
  let found :=
    if quote = '"' then basicLinesFrom (body.length + 1) [] body else literalLinesFrom body
  found.map fun r =>
    let extra := (r.2.take 2).takeWhile (· == quote)
    (String.ofList (r.1 ++ extra), r.2.drop extra.length)

/-! ## Keys -/

/-- Whether a character may stand in a key without quotes. -/
def isBare (c : Char) : Bool := c.isAlphanum || c == '-' || c == '_'

/-- Read one part of a key. -/
def keyPart (text : List Char) : Option (String × List Char) :=
  match text with
  | '"' :: rest => basicFrom [] rest
  | '\'' :: rest => literalFrom rest
  | c :: _ =>
    if isBare c then some (String.ofList (text.takeWhile isBare), text.dropWhile isBare) else none
  | [] => none

/-- Read a key, whose parts are separated by dots, and the blanks behind it. -/
def keyPath : Nat → List Char → Option (KeyPath × List Char)
  | 0, _ => none
  | steps + 1, text =>
    match keyPart text with
    | none => none
    | some (part, rest) =>
      match skipBlanks rest with
      | '.' :: rest => (keyPath steps (skipBlanks rest)).map fun r => (part :: r.1, r.2)
      | rest => some ([part], rest)

/-! ## Numbers -/

/-- Digits with single underscores between them, the underscores left out, and what follows. -/
def digitRun (isDigit : Char → Bool) : List Char → List Char × List Char
  | '_' :: c :: rest =>
    if isDigit c then
      let r := digitRun isDigit rest
      (c :: r.1, r.2)
    else ([], '_' :: c :: rest)
  | c :: rest =>
    if isDigit c then
      let r := digitRun isDigit rest
      (c :: r.1, r.2)
    else ([], c :: rest)
  | [] => ([], [])

/-- Digits of which the first is no underscore. -/
def digits (isDigit : Char → Bool) (text : List Char) : List Char × List Char :=
  match text with
  | c :: _ => if isDigit c then digitRun isDigit text else ([], text)
  | [] => ([], [])

/-- Read a whole number in a base other than ten, after the zero and the mark of the base. -/
def based (base : Nat) (text : List Char) : Option (Json × List Char) :=
  let isDigit (c : Char) : Bool := (Json.Reader.hexValue? c).any (· < base)
  match digits isDigit text with
  | ([], _) => none
  | (found, rest) =>
    let value := found.foldl (fun n c => base * n + (Json.Reader.hexValue? c).getD 0) 0
    some (.int value, rest)

/-- The whole part of a number: a zero, or digits that do not begin with one. -/
def wholePart (text : List Char) : Option (List Char × List Char) :=
  match text with
  | '0' :: rest => some (['0'], rest)
  | _ =>
    match digits Char.isDigit text with
    | ([], _) => none
    | found => some found

/-- The digits behind a point, if a point with digits follows. -/
def fractionPart (text : List Char) : Option (List Char) × List Char :=
  match text with
  | '.' :: rest =>
    match digits Char.isDigit rest with
    | ([], _) => (none, text)
    | (found, rest) => (some found, rest)
  | _ => (none, text)

/-- The exponent, if a mark with digits follows. -/
def exponentPart (text : List Char) : Option Int × List Char :=
  match text with
  | mark :: rest =>
    if mark = 'e' ∨ mark = 'E' then
      let (down, rest) := Decimal.splitSign rest
      match digits Char.isDigit rest with
      | ([], _) => (none, text)
      | (found, rest) =>
        let n : Int := Decimal.digitsValue found
        (some (if down then -n else n), rest)
    else (none, text)
  | [] => (none, [])

/-- Read a number in base ten. -/
def decimal (text : List Char) : Except ReadError (Json × List Char) :=
  let (negative, body) := Decimal.splitSign text
  match wholePart body with
  | none => .error .malformed
  | some (whole, rest) =>
    let (fraction, rest) := fractionPart rest
    let (exponent, rest) := exponentPart rest
    (Json.Reader.numberOf (some Decimal.maxDigits) negative whole fraction exponent).map fun v =>
      (v, rest)

/-- Read a whole number in base two, eight or sixteen, which may have any number of digits. -/
def prefixed (text : List Char) : Option (Json × List Char) :=
  match text with
  | '0' :: 'x' :: rest => based 16 rest
  | '0' :: 'o' :: rest => based 8 rest
  | '0' :: 'b' :: rest => based 2 rest
  | _ => none

/-- The words that stand for a value. -/
def words : List (String × Json) :=
  [("true", .bool true), ("false", .bool false), ("inf", .float (1.0 / 0.0)),
    ("+inf", .float (1.0 / 0.0)), ("-inf", .float (-(1.0 / 0.0))), ("nan", .float (0.0 / 0.0)),
    ("+nan", .float (0.0 / 0.0)), ("-nan", .float (0.0 / 0.0))]

/-- Read one of the words that stand for a value. -/
def word (text : List Char) : Option (Json × List Char) :=
  words.findSome? fun w => (Json.Reader.dropWord? w.1 text).map fun rest => (w.2, rest)

/-- Read a number or a word. -/
def number (text : List Char) : Except ReadError (Json × List Char) :=
  match (prefixed text).or (word text) with
  | some r => .ok r
  | none => decimal text

/-! ## Days and times -/

/-- Read a number of exactly `count` digits. -/
def fixedDigits (count : Nat) (text : List Char) : Option (Nat × List Char) :=
  let digits := text.take count
  if digits.length = count ∧ digits.all Char.isDigit then
    some (Decimal.digitsValue digits, text.drop count)
  else none

/-- Take the character `c` off the front of a text. -/
def dropChar (c : Char) (text : List Char) : Option (List Char) :=
  if text.head? = some c then some text.tail else none

/-- The millionths of a second behind a point, if a point with digits follows; further digits are
left out. -/
def microPart (text : List Char) : Nat × List Char :=
  match text with
  | '.' :: rest =>
    let digits := rest.takeWhile Char.isDigit
    if digits.isEmpty then (0, text)
    else (Decimal.digitsValue ((digits ++ List.replicate 6 '0').take 6), rest.drop digits.length)
  | _ => (0, text)

/-- Read a day. -/
def day (text : List Char) : Option (Day × List Char) := do
  let (year, rest) ← fixedDigits 4 text
  let (month, rest) ← fixedDigits 2 (← dropChar '-' rest)
  let (day, rest) ← fixedDigits 2 (← dropChar '-' rest)
  pure (← Day.ofNumbers? year month day, rest)

/-- Read a time of day. -/
def clock (text : List Char) : Option (Clock × List Char) := do
  let (hour, rest) ← fixedDigits 2 text
  let (minute, rest) ← fixedDigits 2 (← dropChar ':' rest)
  let (second, rest) ← fixedDigits 2 (← dropChar ':' rest)
  let (micro, rest) := microPart rest
  pure (← Clock.ofNumbers? hour minute second micro, rest)

/-- Read how far a zone is ahead or behind, after its sign. -/
def zoneAfter (behind : Bool) (text : List Char) : Option (Zone × List Char) := do
  let (hours, rest) ← fixedDigits 2 text
  let (minutes, rest) ← fixedDigits 2 (← dropChar ':' rest)
  if h : hours < 24 ∧ minutes < 60 then
    let ahead : Nat := 60 * hours + minutes
    some (⟨if behind then -ahead else ahead, by split <;> omega⟩, rest)
  else none

/-- Read a zone. -/
def zone (text : List Char) : Option (Zone × List Char) :=
  match text with
  | 'Z' :: rest => some (⟨0, by decide⟩, rest)
  | 'z' :: rest => some (⟨0, by decide⟩, rest)
  | '+' :: rest => zoneAfter false rest
  | '-' :: rest => zoneAfter true rest
  | _ => none

/-- Read the time of day and the zone behind a day. -/
def clockAndZone (text : List Char) : Option (Clock × Option Zone × List Char) :=
  match text with
  | mark :: rest =>
    if mark = 'T' ∨ mark = 't' ∨ mark = ' ' then
      (clock rest).map fun t =>
        match zone t.2 with
        | some z => (t.1, some z.1, z.2)
        | none => (t.1, none, t.2)
    else none
  | [] => none

/-- Read a day, a time of day, or both. -/
def moment (text : List Char) : Option (Moment × List Char) :=
  match day text with
  | some (d, rest) =>
    match clockAndZone rest with
    | some (t, zone, rest) => some (.both d t zone, rest)
    | none => some (.day d, rest)
  | none => (clock text).map fun t => (.clock t.1, t.2)

/-- Read a moment, a number or a word. -/
def scalar (text : List Char) : Except ReadError (Value × List Char) :=
  match moment text with
  | some (m, rest) => .ok (.moment m, rest)
  | none => (number text).map fun r => (.plain r.1, r.2)

/-! ## Values -/

mutual

/-- Read a value. -/
def value (steps : Nat) (text : List Char) : Except ReadError (Value × List Char) :=
  match steps with
  | 0 => .error .malformed
  | steps + 1 =>
    match text with
    | '"' :: '"' :: '"' :: rest =>
      ReadError.orMalformed ((linesFrom '"' rest).map fun r => (.text r.1, r.2))
    | '\'' :: '\'' :: '\'' :: rest =>
      ReadError.orMalformed ((linesFrom '\'' rest).map fun r => (.text r.1, r.2))
    | '"' :: rest => ReadError.orMalformed ((basicFrom [] rest).map fun r => (.text r.1, r.2))
    | '\'' :: rest => ReadError.orMalformed ((literalFrom rest).map fun r => (.text r.1, r.2))
    | '[' :: rest =>
      match skipLines rest.length rest with
      | some rest => items steps [] rest
      | none => .error .malformed
    | '\x7b' :: rest =>
      match skipBlanks rest with
      | '\x7d' :: rest => .ok (.table [], rest)
      | rest => inlineTable steps {} rest
    | _ => scalar text

/-- Read the elements of a list and its closing bracket; a comma may stand behind the last one. -/
def items (steps : Nat) (done : List Value) (text : List Char) :
    Except ReadError (Value × List Char) :=
  match steps with
  | 0 => .error .malformed
  | steps + 1 =>
    match text with
    | ']' :: rest => .ok (.list done.reverse, rest)
    | _ =>
      match value steps text with
      | .error e => .error e
      | .ok (v, rest) =>
        match skipLines rest.length rest with
        | some (']' :: rest) => .ok (.list (v :: done).reverse, rest)
        | some (',' :: rest) =>
          match skipLines rest.length rest with
          | some rest => items steps (v :: done) rest
          | none => .error .malformed
        | _ => .error .malformed

/-- Read the assignments of a table on one line and its closing brace. -/
def inlineTable (steps : Nat) (done : InlineTable) (text : List Char) :
    Except ReadError (Value × List Char) :=
  match steps with
  | 0 => .error .malformed
  | steps + 1 =>
    match keyPath text.length text with
    | some (path, '=' :: rest) =>
      match value steps (skipBlanks rest) with
      | .error e => .error e
      | .ok (v, rest) =>
        match done.assign path v with
        | none => .error .malformed
        | some done =>
          match skipBlanks rest with
          | '\x7d' :: rest => .ok (.table done.table, rest)
          | ',' :: rest => inlineTable steps done (skipBlanks rest)
          | _ => .error .malformed
    | _ => .error .malformed

end

/-! ## Statements -/

/-- Read the header of a table, after its opening bracket, or that of one more table of a list. -/
def header (d : Document) (text : List Char) : Option (Document × List Char) :=
  match text with
  | '[' :: text =>
    match keyPath text.length (skipBlanks text) with
    | some (path, ']' :: ']' :: rest) => (d.openItem path).map fun d => (d, rest)
    | _ => none
  | text =>
    match keyPath text.length (skipBlanks text) with
    | some (path, ']' :: rest) => (d.openTable path).map fun d => (d, rest)
    | _ => none

/-- Read an assignment. -/
def assignment (d : Document) (text : List Char) : Except ReadError (Document × List Char) :=
  match keyPath text.length text with
  | some (path, '=' :: rest) =>
    match value (rest.length + 1) (skipBlanks rest) with
    | .error e => .error e
    | .ok (v, rest) => ReadError.orMalformed ((d.assign path v).map fun d => (d, rest))
  | _ => .error .malformed

/-- Read one statement, without the end of its line; an empty line is one too. -/
def statement (d : Document) (text : List Char) : Except ReadError (Document × List Char) :=
  match skipBlanks text with
  | [] => .ok (d, [])
  | '\n' :: rest => .ok (d, '\n' :: rest)
  | '#' :: rest => .ok (d, '#' :: rest)
  | '[' :: rest => ReadError.orMalformed (header d rest)
  | rest => assignment d rest

/-- Read statements, each up to the end of its line. -/
def statements : Nat → Document → List Char → Except ReadError Document
  | 0, _, _ => .error .malformed
  | steps + 1, d, text =>
    match statement d text with
    | .error e => .error e
    | .ok (d, rest) =>
      match skipComment (skipBlanks rest) with
      | some [] => .ok d
      | some ('\n' :: rest) => statements steps d rest
      | _ => .error .malformed

/-- Write the line ends of two characters as one. -/
def joinLineEnds : List Char → List Char
  | [] => []
  | '\r' :: '\n' :: rest => '\n' :: joinLineEnds rest
  | c :: rest => c :: joinLineEnds rest

end Reader

/-- The table a configuration text stands for. -/
def read (text : List Char) : Except ReadError Table :=
  (Reader.statements (text.length + 1) {} (Reader.joinLineEnds text)).map Document.table

end Toml

end EstreePrinter
