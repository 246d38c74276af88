import EstreePrinter.Decimal.Shortest

/-!
# Writing a double

The digits of a double are fixed by `Decimal.shortest`; everything else about its text is a choice
of the format that writes it.  A `Style` collects these choices, and `Style.write` carries them out.
-/

namespace EstreePrinter

namespace Decimal

/-- The choices a format makes about the text of a double. -/
structure Style where
  /-- The least number of digits before the point for which the text is positional. -/
  least : Int := -3
  /-- The greatest number of digits before the point for which the text is positional. -/
  greatest : Int := 16
  /-- The least number of digits of a written exponent. -/
  exponentWidth : Nat := 2
  /-- The text of a value that is not a number. -/
  nan : String := "nan"
  /-- The text of positive infinity. -/
  infinity : String := "inf"
  /-- The text of negative infinity. -/
  negativeInfinity : String := "-inf"

/-- Zeros. -/
def zeros (n : Nat) : List Char := List.replicate n '0'

/-- The text of a written exponent: mark, sign, digits padded on the left. -/
def exponentText (minWidth : Nat) (e : Int) : List Char :=
  let digits := Nat.toDigits 10 e.natAbs
  'e' :: (if e < 0 then '-' else '+') :: zeros (minWidth - digits.length) ++ digits

/-- The text of a positive decimal. -/
def Style.digits (style : Style) (d : Scientific) : List Char :=
  let digits := Nat.toDigits 10 d.digits
  -- where the point stands, counted from the first digit
  let point : Int := digits.length + d.exponent
  if style.least ≤ point ∧ point ≤ style.greatest then
    if point ≤ 0 then
      '0' :: '.' :: zeros (-point).toNat ++ digits
    else if (digits.length : Int) ≤ point then
      digits ++ zeros (point - digits.length).toNat ++ ['.', '0']
    else
      digits.take point.toNat ++ '.' :: digits.drop point.toNat
  else
    let mantissa :=
      match digits with
      | first :: second :: rest => first :: '.' :: second :: rest
      | short => short
    mantissa ++ exponentText style.exponentWidth (point - 1)

/-- The text of a double. -/
def Style.write (style : Style) (x : Float) : String :=
  match unpack x with
  | .nan => style.nan
  | .infinite negative => if negative then style.negativeInfinity else style.infinity
  | .finite negative m q =>
    let text := if m = 0 then ['0', '.', '0'] else style.digits (shortest m q)
    String.ofList (if negative then '-' :: text else text)

end Decimal

end EstreePrinter
