import EstreePrinter.Json.Basic
import EstreePrinter.Decimal.Binary

/-!
# Comparing and counting with values

Numbers compare by their value, whole or not, and a flag counts as the number one or zero; texts
compare by their characters, lists element by element, objects by their fields in any order.
-/

namespace EstreePrinter

namespace Json

/-- The whole number a value stands for, a flag counting as one or zero. -/
def toInt? : Json → Option Int
  | .int n => some n
  | .bool b => some (if b then 1 else 0)
  | _ => none

/-- How two numbers compare; nothing if one of them is no number. -/
def compareNumbers : Json → Json → Option Ordering
  | .float x, .float y =>
    if x < y then some .lt else if y < x then some .gt else if x == y then some .eq else none
  | .float x, w => w.toInt?.bind fun n => (Decimal.compareInt n x).map Ordering.swap
  | v, .float y => v.toInt?.bind fun n => Decimal.compareInt n y
  | v, w => v.toInt?.bind fun n => w.toInt?.map fun k => compare n k

mutual

/-- Whether two values are equal. -/
def same : Json → Json → Bool
  | .null, w => w.isNull
  | .str s, w => w.isText s
  | .arr items, w =>
    match w with
    | .arr others => sameItems items others
    | _ => false
  | .obj fields, w =>
    match w with
    | .obj others => fields.length == others.length && sameFields fields others
    | _ => false
  | v, w => compareNumbers v w == some .eq

/-- Whether two lists have equal elements. -/
def sameItems : List Json → List Json → Bool
  | [], others => others.isEmpty
  | v :: rest, others =>
    match others with
    | [] => false
    | w :: otherRest => same v w && sameItems rest otherRest

/-- Whether every field has an equal one in the other object. -/
def sameFields : List (String × Json) → List (String × Json) → Bool
  | [], _ => true
  | (k, v) :: rest, others =>
    (match lookup k others with
      | some w => same v w.1
      | none => false) && sameFields rest others

end

mutual

/-- Whether one value comes before another; nothing if the two have no order. -/
def before? : Json → Json → Option Bool
  | .str s, w =>
    match w with
    | .str t => some (decide (s < t))
    | _ => none
  | .arr items, w =>
    match w with
    | .arr others => beforeItems? items others
    | _ => none
  | .null, _ => none
  | .obj _, _ => none
  | .float x, w =>
    match w with
    | .float y => some (decide (x < y))
    | _ => w.toInt?.map fun n => Decimal.compareInt n x == some .gt
  | v, w =>
    match w with
    | .float y => v.toInt?.map fun n => Decimal.compareInt n y == some .lt
    | _ => v.toInt?.bind fun n => w.toInt?.map fun k => decide (n < k)

/-- The order of two lists: that of the first elements that differ, else the shorter first. -/
def beforeItems? : List Json → List Json → Option Bool
  | [], others => some (!others.isEmpty)
  | v :: rest, others =>
    match others with
    | [] => some false
    | w :: otherRest => if same v w then beforeItems? rest otherRest else before? v w

end

/-- A number with `n` added to it; nothing for a value that is no number. -/
def plus? (v : Json) (n : Int) : Option Json :=
  match v with
  | .float x => some (.float (x + Float.ofInt n))
  | v => v.toInt?.map fun k => .int (k + n)

end Json

end EstreePrinter
