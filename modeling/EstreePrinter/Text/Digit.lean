import EstreePrinter.Decimal.Reader

/-!
# Digits of every script, and whole numbers in text

A whole number given as text may use the decimal digits of any script, ten of which follow one
another in each.  Some further characters, such as superscripts, count as digits without being
decimal digits: a text made of them looks like a number and is none.

* `digitValue?` — the value of a decimal digit.
* `isDigit` — decimal digits and the other digit characters.
* `wholeNumber?` — blanks around it, a sign, decimal digits, single underscores between digits; at
  most `Decimal.maxDigits` digits.
-/

namespace EstreePrinter

namespace Text

/-- The code points of the digit zero in each script. -/
def digitZeros : List Nat := [
    48, 1632, 1776, 1984, 2406, 2534, 2662, 2790, 2918, 3046, 3174, 3302, 3430, 3558, 3664, 3792,
    3872, 4160, 4240, 6112, 6160, 6470, 6608, 6784, 6800, 6992, 7088, 7232, 7248, 42528, 43216,
    43264, 43472, 43504, 43600, 44016, 65296, 66720, 68912, 69734, 69872, 69942, 70096, 70384,
    70736, 70864, 71248, 71360, 71472, 71904, 72016, 72784, 73040, 73120, 92768, 92864, 93008,
    120782, 120792, 120802, 120812, 120822, 123200, 123632, 125264, 130032
  ]

/-- The ranges of digit characters that are not decimal digits. -/
def otherDigits : List (Nat × Nat) := [
    (178, 179), (185, 185), (4969, 4977), (6618, 6618), (8304, 8304), (8308, 8313), (8320, 8329),
    (9312, 9320), (9332, 9340), (9352, 9360), (9450, 9450), (9461, 9469), (9471, 9471),
    (10102, 10110), (10112, 10120), (10122, 10130), (68160, 68163), (69216, 69224),
    (69714, 69722), (127232, 127242)
  ]

/-- The ranges of blank characters. -/
def blanks : List (Nat × Nat) := [
    (9, 13), (32, 32), (133, 133), (160, 160), (5760, 5760), (8192, 8202), (8232, 8233),
    (8239, 8239), (8287, 8287), (12288, 12288)
  ]

/-- The value of a decimal digit of any script. -/
def digitValue? (c : Char) : Option Nat :=
  (digitZeros.find? fun z => z ≤ c.toNat && c.toNat < z + 10).map fun z => c.toNat - z

/-- Whether a character is a digit of some kind. -/
def isDigit (c : Char) : Bool :=
  (digitValue? c).isSome || otherDigits.any fun r => r.1 ≤ c.toNat && c.toNat ≤ r.2

/-- Whether a character is blank. -/
def isBlank (c : Char) : Bool := blanks.any fun r => r.1 ≤ c.toNat && c.toNat ≤ r.2

/-- Drop the blanks at both ends. -/
def trimBlanks (text : List Char) : List Char :=
  ((text.dropWhile isBlank).reverse.dropWhile isBlank).reverse

/-- The number written by decimal digits with single underscores between them; `value` is what has
been read so far, and `afterDigit` tells whether an underscore may come next. -/
def digitRun? (value : Nat) (afterDigit : Bool) : List Char → Option Nat
  | [] => if afterDigit then some value else none
  | c :: rest =>
    if c = '_' then
      if afterDigit then digitRun? value false rest else none
    else
      (digitValue? c).bind fun d => digitRun? (10 * value + d) true rest

/-- The number written by digits of which there are not too many. -/
def magnitude? (digits : List Char) : Option Nat :=
  if Decimal.maxDigits < digits.countP (· != '_') then none else digitRun? 0 false digits

/-- The whole number a text stands for. -/
def wholeNumber? (text : List Char) : Option Int :=
  match trimBlanks text with
  | '-' :: digits => (magnitude? digits).map fun n => -(n : Int)
  | '+' :: digits => (magnitude? digits).map fun n => (n : Int)
  | digits => (magnitude? digits).map fun n => (n : Int)

end Text

end EstreePrinter
