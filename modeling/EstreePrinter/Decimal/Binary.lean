/-!
# Doubles taken apart

A finite double is a whole number times a power of two.  `Float.unpack` gives the two numbers
exactly, so that printing and comparing can go on in `Nat` and `Int`, where nothing is rounded.
-/

namespace EstreePrinter

/-- What the sixty-four bits of a double stand for. -/
inductive Unpacked where
  | nan
  | infinite (negative : Bool)
  /-- The value `± mantissa * 2 ^ exponent`. -/
  | finite (negative : Bool) (mantissa : Nat) (exponent : Int)
  deriving Repr, DecidableEq

namespace Decimal

/-- Take a double apart: one sign bit, eleven exponent bits, fifty-two fraction bits. -/
def unpack (x : Float) : Unpacked :=
  let bits : Nat := x.toBits.toNat
  let negative := bits / Nat.pow 2 63 == 1
  let exponent : Nat := bits / Nat.pow 2 52 % Nat.pow 2 11
  let fraction : Nat := bits % Nat.pow 2 52
  if exponent = 2047 then
    if fraction = 0 then .infinite negative else .nan
  else if exponent = 0 then
    .finite negative fraction (-1074)
  else
    .finite negative (fraction + Nat.pow 2 52) ((exponent : Int) - 1075)

/-- The whole number a double is equal to, if it is one. -/
def toInt? (x : Float) : Option Int :=
  match unpack x with
  | .finite negative m q =>
    let magnitude :=
      if q < 0 then
        let unit := Nat.pow 2 (-q).toNat
        if m % unit = 0 then some (m / unit) else none
      else
        some (m * Nat.pow 2 q.toNat)
    magnitude.map fun (n : Nat) => if negative then -(n : Int) else (n : Int)
  | _ => none

/-- How a whole number compares with a double, without rounding; nothing if the double is not a
number. -/
def compareInt (n : Int) (x : Float) : Option Ordering :=
  match unpack x with
  | .nan => none
  | .infinite negative => some (if negative then .gt else .lt)
  | .finite negative m q =>
    let signed : Int := if negative then -(m : Int) else (m : Int)
    some <|
      if q < 0 then compare (n * (Nat.pow 2 (-q).toNat : Nat)) signed
      else compare n (signed * (Nat.pow 2 q.toNat : Nat))

end Decimal

end EstreePrinter
