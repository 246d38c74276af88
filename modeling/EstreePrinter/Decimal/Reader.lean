/-!
# Reading a double

A decimal fraction with an optional exponent is read as the nearest double.  An exponent far
outside the range of doubles is answered directly, before any power of ten is computed.

A fraction may have any number of digits; a whole number may have `maxDigits` of them.
-/

namespace EstreePrinter

namespace Decimal

/-- How many digits a whole number in base ten may have, the leading zeros counted. -/
def maxDigits : Nat := 4300

/-- The value of a run of decimal digits. -/
def digitsValue (digits : List Char) : Nat :=
  digits.foldl (fun n c => 10 * n + (c.toNat - '0'.toNat)) 0

/-- The double nearest to `± mantissa * 10 ^ exponent`. -/
def nearest (negative : Bool) (mantissa : Nat) (exponent : Int) : Float :=
  let size := exponent + ((Nat.toDigits 10 mantissa).length : Int)
  let magnitude : Float :=
    if mantissa = 0 ∨ size < -400 then 0
    else if 400 < size then 1.0 / 0.0
    else if exponent < 0 then Float.ofScientific mantissa true exponent.natAbs
    else Float.ofScientific mantissa false exponent.natAbs
  if negative then -magnitude else magnitude

/-- The double nearest to the number whose digits before and after the point and whose exponent
are given. -/
def ofDigits (negative : Bool) (whole fraction : List Char) (exponent : Int) : Float :=
  nearest negative (digitsValue (whole ++ fraction)) (exponent - fraction.length)

/-- Split a leading sign off. -/
def splitSign : List Char → Bool × List Char
  | '-' :: rest => (true, rest)
  | '+' :: rest => (false, rest)
  | text => (false, text)

/-- Read a decimal number: a sign, digits with an optional point, an optional exponent, or one of
the words `inf` and `nan`. -/
def read (text : List Char) : Option Float :=
  let (negative, body) := splitSign text
  if body = ['i', 'n', 'f'] then
    some (if negative then -(1.0 / 0.0) else 1.0 / 0.0)
  else if body = ['n', 'a', 'n'] then
    some (0.0 / 0.0)
  else
    let whole := body.takeWhile Char.isDigit
    let afterWhole := body.dropWhile Char.isDigit
    let (fraction, afterFraction) :=
      match afterWhole with
      | '.' :: rest => (rest.takeWhile Char.isDigit, rest.dropWhile Char.isDigit)
      | rest => ([], rest)
    if whole.isEmpty && fraction.isEmpty then none
    else
      match afterFraction with
      | [] => some (ofDigits negative whole fraction 0)
      | mark :: rest =>
        if mark = 'e' ∨ mark = 'E' then
          let (down, digits) := splitSign rest
          if digits.isEmpty || !digits.all Char.isDigit then none
          else
            let e : Int := digitsValue digits
            some (ofDigits negative whole fraction (if down then -e else e))
        else none

end Decimal

end EstreePrinter
