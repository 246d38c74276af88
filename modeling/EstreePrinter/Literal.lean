import EstreePrinter.Json.Display

/-!
# Text of literal values

A literal without a text of its own is written from its value: null, a flag, a number or a string.

**Strings.**  A string value is written between two quote characters.  Only what such a literal
cannot hold is escaped: the backslash, the chosen quote, and the four line terminators of the
language.  All else, the other quote included, stands as it is.

**Numbers.**  A number that is whole is written without a point as long as it is below `10 ^ 21`;
other numbers have the fewest digits that read back, with an exponent only where it is needed.
-/

namespace EstreePrinter

namespace Text

/-- How one character stands inside a literal delimited by `quote`. -/
def escapeChar (quote c : Char) : List Char :=
  if c = '\\' then ['\\', '\\']
  else if c = quote then ['\\', c]
  else if c = '\n' then ['\\', 'n']
  else if c = '\r' then ['\\', 'r']
  else if c.toNat = 0x2028 then ['\\', 'u', '2', '0', '2', '8']
  else if c.toNat = 0x2029 then ['\\', 'u', '2', '0', '2', '9']
  else [c]

/-- The characters of a literal, between its quotes. -/
def escape (quote : Char) (value : List Char) : List Char := value.flatMap (escapeChar quote)

/-- The literal that stands for a string value. -/
def quoted (quote : Char) (value : String) : String :=
  String.ofList (quote :: escape quote value.toList ++ [quote])

end Text

namespace Literal

/-- The form of numbers in code. -/
def numberStyle : Decimal.Style :=
  { exponentWidth := 1, nan := "NaN", infinity := "Infinity", negativeInfinity := "Infinity" }

/-- The text of a double in code. -/
def ofFloat (x : Float) : String :=
  match Decimal.toInt? x with
  | some n => if n.natAbs < Nat.pow 10 21 then toString n else numberStyle.write x
  | none => numberStyle.write x

/-- The text of a literal value in code. -/
def ofValue (quote : Char) : Json → String
  | .null => "null"
  | .bool b => if b then "true" else "false"
  | .int n => toString n
  | .float x => ofFloat x
  | .str s => Text.quoted quote s
  | v => v.display

end Literal

end EstreePrinter
