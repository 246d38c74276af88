import Mathlib
import EstreePrinter.Proofs.SourceMap.Decoder

/-!
# Reading Base64

A reader of Base64, written from the description of the format: four digits stand for three bytes,
and a last group may be filled up with one or two `=`, which stand for nothing.

What `Base64.encode` writes is read back, for each of the three lengths that the last group can have
(**`decode?_encode`**).
-/

namespace EstreePrinter

namespace Base64

/-- The bytes that a text of digits stands for. -/
def decode? : List Char → Option (List UInt8)
  | [] => some []
  | [a, b, '=', '='] => do
    let a ← value? a
    let b ← value? b
    pure [.ofNat (a * 4 + b / 16)]
  | [a, b, c, '='] => do
    let a ← value? a
    let b ← value? b
    let c ← value? c
    pure [.ofNat (a * 4 + b / 16), .ofNat (b % 16 * 16 + c / 4)]
  | a :: b :: c :: d :: rest => do
    let a ← value? a
    let b ← value? b
    let c ← value? c
    let d ← value? d
    let bytes ← decode? rest
    pure (.ofNat (a * 4 + b / 16) :: .ofNat (b % 16 * 16 + c / 4) :: .ofNat (c % 4 * 64 + d) ::
      bytes)
  | _ => none

/-- What a group is filled up with is no digit. -/
lemma digit_ne_filling {n : Nat} (h : n < 64) : digit n ≠ '=' := by
  have hall : ∀ n < 64, digit n ≠ '=' := by decide
  exact hall n h

/-- **Bytes are read back from their digits.** -/
theorem decode?_encode (bytes : List UInt8) : decode? (encode bytes) = some bytes := by
  fun_induction encode bytes with
  | case1 x y z rest a b c ih =>
      have ha : a < 256 := x.toNat_lt
      have hb : b < 256 := y.toNat_lt
      have hc : c < 256 := z.toNat_lt
      have hx : a / 4 * 4 + (a % 4 * 16 + b / 16) / 16 = x.toNat := by omega
      have hy : (a % 4 * 16 + b / 16) % 16 * 16 + (b % 16 * 4 + c / 64) / 4 = y.toNat := by omega
      have hz : (b % 16 * 4 + c / 64) % 4 * 64 + c % 64 = z.toNat := by omega
      have hfilled : digit (c % 64) ≠ '=' := digit_ne_filling (by omega)
      rw [decode?]
      · simp only [value?_digit (show a / 4 < 64 by omega),
          value?_digit (show a % 4 * 16 + b / 16 < 64 by omega),
          value?_digit (show b % 16 * 4 + c / 64 < 64 by omega),
          value?_digit (show c % 64 < 64 by omega), ih, Option.bind_eq_bind, Option.bind_some,
          Option.pure_def, hx, hy, hz, UInt8.ofNat_toNat]
      · exact fun _ h _ => hfilled h
      · exact fun h _ => hfilled h
  | case2 x y a b =>
      have ha : a < 256 := x.toNat_lt
      have hb : b < 256 := y.toNat_lt
      have hx : a / 4 * 4 + (a % 4 * 16 + b / 16) / 16 = x.toNat := by omega
      have hy : (a % 4 * 16 + b / 16) % 16 * 16 + b % 16 * 4 / 4 = y.toNat := by omega
      rw [decode?]
      · simp only [value?_digit (show a / 4 < 64 by omega),
          value?_digit (show a % 4 * 16 + b / 16 < 64 by omega),
          value?_digit (show b % 16 * 4 < 64 by omega), Option.bind_eq_bind, Option.bind_some,
          Option.pure_def, hx, hy, UInt8.ofNat_toNat]
      · exact digit_ne_filling (by omega)
  | case3 x a =>
      have ha : a < 256 := x.toNat_lt
      have hx : a / 4 * 4 + a % 4 * 16 / 16 = x.toNat := by omega
      simp only [decode?, value?_digit (show a / 4 < 64 by omega),
        value?_digit (show a % 4 * 16 < 64 by omega), Option.bind_eq_bind, Option.bind_some,
        Option.pure_def, hx, UInt8.ofNat_toNat]
  | case4 => rfl

end Base64

end EstreePrinter
