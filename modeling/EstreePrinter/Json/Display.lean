import EstreePrinter.Json.Basic
import EstreePrinter.Decimal.Reader
import EstreePrinter.Decimal.Style
import EstreePrinter.Text.Printable

/-!
# Values shown in messages and in code

Where a value of an unexpected kind ends up in printed code or in a message, it is shown in one
fixed form: null is `None`, flags are `True` and `False`, a list stands in square brackets and an
object in braces.  A text on its own is shown as it is (`display`), and inside a list or where its
quotes matter as a quoted text (`shown`).
-/

namespace EstreePrinter

namespace Json

/-- The form of a shown double. -/
def floatStyle : Decimal.Style := {}

/-- A number in hexadecimal, padded with zeros to `width` digits. -/
def hexDigits (width n : Nat) : List Char :=
  let digits := Nat.toDigits 16 n
  List.replicate (width - digits.length) '0' ++ digits

/-- How one character stands inside a shown text. -/
def shownChar (quote c : Char) : List Char :=
  if c = quote ∨ c = '\\' then ['\\', c]
  else if c = '\n' then ['\\', 'n']
  else if c = '\r' then ['\\', 'r']
  else if c = '\t' then ['\\', 't']
  else if Text.isPrintable c then [c]
  else if c.toNat < 0x100 then '\\' :: 'x' :: hexDigits 2 c.toNat
  else if c.toNat < 0x10000 then '\\' :: 'u' :: hexDigits 4 c.toNat
  else '\\' :: 'U' :: hexDigits 8 c.toNat

/-- A text between quotes: single ones, unless the text has single quotes and no double ones. -/
def shownText (s : String) : String :=
  let chars := s.toList
  let quote := if chars.contains '\'' && !chars.contains '"' then '"' else '\''
  String.ofList (quote :: chars.flatMap (shownChar quote) ++ [quote])

mutual

/-- The form of a value with its texts quoted. -/
def shown : Json → String
  | .null => "None"
  | .bool b => if b then "True" else "False"
  | .int n => toString n
  | .float x => floatStyle.write x
  | .str s => shownText s
  | .arr items => "[" ++ String.intercalate ", " (shownItems items) ++ "]"
  | .obj fields => "\x7b" ++ String.intercalate ", " (shownFields fields) ++ "\x7d"

/-- The forms of the elements of a list. -/
def shownItems : List Json → List String
  | [] => []
  | v :: rest => shown v :: shownItems rest

/-- The forms of the fields of an object. -/
def shownFields : List (String × Json) → List String
  | [] => []
  | (k, v) :: rest => (shownText k ++ ": " ++ shown v) :: shownFields rest

end

/-- The form of a value on its own: a text as it is, everything else as shown. -/
def display : Json → String
  | .str s => s
  | v => shown v

mutual

/-- Whether a value can be shown: no whole number in it has too many digits. -/
def isShowable : Json → Bool
  | .int n => (Nat.toDigits 10 n.natAbs).length ≤ Decimal.maxDigits
  | .arr items => areShowable items
  | .obj fields => haveShowable fields
  | _ => true

/-- Whether all elements of a list can be shown. -/
def areShowable : List Json → Bool
  | [] => true
  | v :: rest => isShowable v && areShowable rest

/-- Whether all fields of an object can be shown. -/
def haveShowable : List (String × Json) → Bool
  | [] => true
  | (_, v) :: rest => isShowable v && haveShowable rest

end

end Json

end EstreePrinter
