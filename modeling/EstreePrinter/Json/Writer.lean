import EstreePrinter.Json.Display

/-!
# Writing JSON text

Values are written without blanks.  A string escapes its quotes, its backslashes and the control
characters, and nothing else: characters of every script stand as they are.
-/

namespace EstreePrinter

namespace Json

namespace Writer

/-- The form of a written double. -/
def floatStyle : Decimal.Style :=
  { nan := "NaN", infinity := "Infinity", negativeInfinity := "-Infinity" }

/-- How one character stands inside a string. -/
def escapeChar (c : Char) : List Char :=
  if c = '"' then ['\\', '"']
  else if c = '\\' then ['\\', '\\']
  else if c = '\n' then ['\\', 'n']
  else if c = '\r' then ['\\', 'r']
  else if c = '\t' then ['\\', 't']
  else if c.toNat = 8 then ['\\', 'b']
  else if c.toNat = 12 then ['\\', 'f']
  else if c.toNat < 0x20 then '\\' :: 'u' :: hexDigits 4 c.toNat
  else [c]

/-- A string between quotes. -/
def string (s : String) : String :=
  String.ofList ('"' :: s.toList.flatMap escapeChar ++ ['"'])

end Writer

open Writer in
mutual

/-- The text of a value. -/
def write : Json → String
  | .null => "null"
  | .bool b => if b then "true" else "false"
  | .int n => toString n
  | .float x => Writer.floatStyle.write x
  | .str s => string s
  | .arr items => "[" ++ String.intercalate "," (writeItems items) ++ "]"
  | .obj fields => "\x7b" ++ String.intercalate "," (writeFields fields) ++ "\x7d"

/-- The texts of the elements of a list. -/
def writeItems : List Json → List String
  | [] => []
  | v :: rest => write v :: writeItems rest

/-- The texts of the fields of an object. -/
def writeFields : List (String × Json) → List String
  | [] => []
  | (k, v) :: rest => (string k ++ ":" ++ write v) :: writeFields rest

end

end Json

end EstreePrinter
