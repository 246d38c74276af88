import EstreePrinter.Decimal.Binary

/-!
# The shortest decimal that reads back

A double is written with the fewest decimal digits that still read back as the same double.  The
numbers that read back form an interval around the value, half a unit in the last binary place to
each side; its ends belong to it exactly if the mantissa is even.

`shortest` goes through the decimal grids from coarse to fine.  On each it looks at the two grid
points next to the value: the first grid with a point in the interval wins, of two such points the
nearer, and of two equally near ones the even one.  All of it is exact arithmetic in `Nat`.
-/

namespace EstreePrinter

namespace Decimal

/-- The number `digits * 10 ^ exponent`. -/
structure Scientific where
  digits : Nat
  exponent : Int
  deriving Repr, DecidableEq

/-- The number of decimal digits of a positive number. -/
def width (n : Nat) : Nat := (Nat.toDigits 10 n).length

/-- How many digits stand before the decimal point of `m * 2 ^ q`; zero or less when the first
digit is behind the point. -/
def magnitude (m : Nat) (q : Int) : Int :=
  if 0 ≤ q then
    width (m * Nat.pow 2 q.toNat)
  else
    let unit := Nat.pow 2 (-q).toNat
    if unit ≤ m then width (m / unit)
    else (width (m * Nat.pow 10 350 / unit) : Int) - 350

/-- The point of the grid of multiples of `10 ^ i` that reads back as `m * 2 ^ q`, if there is
one.  Positions are counted in quarters of the last binary place, so that both ends of the interval
are whole numbers; below a power of two the next double is only half as far away. -/
def candidate (m : Nat) (q i : Int) : Option Nat :=
  let scale := Nat.pow 2 (q - 2).toNat * Nat.pow 10 (-i).toNat
  let unit := Nat.pow 2 (2 - q).toNat * Nat.pow 10 i.toNat
  let value := 4 * m * scale
  let low := (4 * m - (if m = Nat.pow 2 52 ∧ -1074 < q then 1 else 2)) * scale
  let high := (4 * m + 2) * scale
  let below := value / unit
  let above := below + 1
  let belowReads := if m % 2 = 0 then low ≤ below * unit else low < below * unit
  let aboveReads := if m % 2 = 0 then above * unit ≤ high else above * unit < high
  if belowReads ∧ aboveReads then
    if 2 * value < (below + above) * unit then some below
    else if (below + above) * unit < 2 * value then some above
    else if below % 2 = 0 then some below else some above
  else if belowReads then some below
  else if aboveReads then some above
  else none

/-- Drop the zeros at the end of a number's digits. -/
def dropZeros (fuel : Nat) (d : Scientific) : Scientific :=
  match fuel with
  | 0 => d
  | fuel + 1 =>
    if d.digits ≠ 0 ∧ d.digits % 10 = 0 then dropZeros fuel ⟨d.digits / 10, d.exponent + 1⟩ else d

/-- The shortest decimal that reads back as `m * 2 ^ q`.  Seventeen digits always suffice, so the
search over digit counts needs no more steps than that. -/
def shortest (m : Nat) (q : Int) : Scientific :=
  let top := magnitude m q
  let hit := (List.range 17).findSome? fun (k : Nat) =>
    let i : Int := top - 1 - (k : Int)
    (candidate m q i).map fun n => (⟨n, i⟩ : Scientific)
  match hit with
  | some d => dropZeros 20 d
  | none => ⟨m, 0⟩

end Decimal

end EstreePrinter
