import Mathlib
import EstreePrinter.Proofs.SourceMap.Decoder

/-!
# The canonical form of a number

Digits of five bits leave a choice: a number can be filled up with zeros, and zero has a sign.  Of
all the texts that stand for a whole number `Vlq.encode` writes one, and this file says which.

**Reading.**  `Vlq.whole?` takes one number off the front of a text.  Where the number ends is told
by its own digits, so what stands behind it may be anything, not only more numbers
(`whole?_encode`).

**Canonical texts.**  `Vlq.IsCanonical` is said of the digits alone: all but the last one are
continued, no zero is put behind the number, and there is no negative zero.  The converse induction
goes over the continued digits (`exists_groups_eq`): what stands behind a continued digit is never
zero, which is just what makes `groups` go on.

* `bijOn_encode` — numbers are written as exactly the canonical texts, and are read off the front of
  any text.
-/

namespace EstreePrinter

namespace Base64

/-- A character stands for a number just if it is the digit of the number. -/
lemma value?_eq_some_iff {c : Char} {n : Nat} : value? c = some n ↔ n < 64 ∧ digit n = c := by
  constructor
  · intro h
    have hall : ∀ n (h : n < alphabet.length), n < 64 ∧ digit n = alphabet[n] := by decide
    obtain ⟨hlt, rfl, -⟩ := List.idxOf?_eq_some_iff.mp h
    exact hall n hlt
  · rintro ⟨hlt, rfl⟩
    exact value?_digit hlt

end Base64

namespace Vlq

/-! ## One number at the front of a text -/

/-- The number at the front of a text, least significant digit first, and the text behind it. -/
def natural? : List Char → Option (Nat × List Char)
  | [] => none
  | c :: rest =>
    (Base64.value? c).bind fun d =>
      if d < 32 then some (d, rest)
      else (natural? rest).map fun read => (d - 32 + 32 * read.1, read.2)

/-- The whole number at the front of a text, and the text behind it. -/
def whole? (text : List Char) : Option (Int × List Char) :=
  (natural? text).map fun read => (signed read.1, read.2)

lemma natural?_groups_append (n : Nat) (rest : List Char) :
    natural? ((groups n).map Base64.digit ++ rest) = some (n, rest) := by
  fun_induction groups n with
  | case1 n hn => simp [natural?, Base64.value?_digit (show n < 64 by omega), hn]
  | case2 n hn ih =>
      have hdigit : n % 32 + 32 < 64 := by omega
      have hcontinued : ¬ n % 32 + 32 < 32 := by omega
      have hsum : n % 32 + 32 * (n / 32) = n := Nat.mod_add_div n 32
      simp [natural?, Base64.value?_digit hdigit, hcontinued, ih, hsum]

/-- **A number is read off the front** of any text that begins with it. -/
lemma whole?_encode (v : Int) (rest : List Char) : whole? (encode v ++ rest) = some (v, rest) := by
  simp [whole?, encode, natural?_groups_append, signed_fold]

lemma encode_injective : Function.Injective encode := by
  intro v w h
  have hread : some (v, ([] : List Char)) = some (w, []) := by
    rw [← whole?_encode v [], ← whole?_encode w [], h]
  exact (Prod.mk.inj (Option.some.inj hread)).1

/-! ## Canonical texts -/

/-- A digit that is continued by the one behind it. -/
def Continues (c : Char) : Prop := ∃ d, Base64.value? c = some d ∧ 32 ≤ d

/-- A digit that ends a number. -/
def Ends (c : Char) : Prop := ∃ d, Base64.value? c = some d ∧ d < 32

/-- A text of digits of which all but the last one are continued, where the last one is no zero
unless it is the only one, and which is no negative zero. -/
def IsCanonical (text : List Char) : Prop :=
  ∃ front last, text = front ++ [last] ∧ (∀ c ∈ front, Continues c) ∧ Ends last ∧
    (Base64.value? last = some 0 → front = []) ∧ text ≠ ['B']

lemma groups_of_lt {n : Nat} (h : n < 32) : groups n = [n] := by rw [groups, if_pos h]

/-- The last group of a number is not continued, and zero only for the number zero; all others are
continued. -/
lemma exists_groups_eq_append (n : Nat) : ∃ front last, groups n = front ++ [last] ∧
    (∀ d ∈ front, 32 ≤ d) ∧ last < 32 ∧ (last = 0 → n = 0) := by
  fun_induction groups n with
  | case1 n hn => exact ⟨[], n, rfl, List.forall_mem_nil _, hn, id⟩
  | case2 n hn ih =>
      obtain ⟨front, last, heq, hfront, hlast, hzero⟩ := ih
      refine ⟨(n % 32 + 32) :: front, last, by rw [heq, List.cons_append], ?_, hlast, ?_⟩
      · exact List.forall_mem_cons.mpr ⟨by omega, hfront⟩
      · intro h
        have hquotient := hzero h
        omega

/-- Continued digits with a last one are the groups of a number.  What stands behind a continued
digit is not zero, so the number is at least thirty-two and has the digit as its first group. -/
lemma exists_groups_eq {front : List Nat} {last : Nat} (hfront : ∀ d ∈ front, 32 ≤ d ∧ d < 64)
    (hlast : last < 32) (hzero : last = 0 → front = []) : ∃ n, groups n = front ++ [last] := by
  induction front with
  | nil => exact ⟨last, groups_of_lt hlast⟩
  | cons d front ih =>
      obtain ⟨⟨hcontinued, hdigit⟩, hfront⟩ := List.forall_mem_cons.mp hfront
      have hne : last ≠ 0 := fun h => List.cons_ne_nil _ _ (hzero h)
      obtain ⟨n, hn⟩ := ih hfront fun h => absurd h hne
      have hpos : n ≠ 0 := by
        rintro rfl
        rw [groups_of_lt (by decide), List.singleton_eq_append_iff] at hn
        rcases hn with ⟨-, hn⟩ | ⟨-, hn⟩
        · exact hne (List.singleton_inj.mp hn)
        · exact absurd hn (List.cons_ne_nil _ _)
      refine ⟨d - 32 + 32 * n, ?_⟩
      have hlarge : ¬ d - 32 + 32 * n < 32 := by omega
      have hfirst : (d - 32 + 32 * n) % 32 + 32 = d := by omega
      have hrest : (d - 32 + 32 * n) / 32 = n := by omega
      rw [groups, if_neg hlarge, hfirst, hrest, hn, List.cons_append]

/-- One would be a negative zero. -/
lemma fold_ne_one (v : Int) : fold v ≠ 1 := by
  unfold fold
  split_ifs <;> omega

/-- Every other number is the fold of a whole number. -/
lemma fold_signed {n : Nat} (h : n ≠ 1) : fold (signed n) = n := by
  unfold fold signed
  split_ifs <;> omega

lemma isCanonical_encode (v : Int) : IsCanonical (encode v) := by
  obtain ⟨front, last, hgroups, hfront, hlast, hzero⟩ := exists_groups_eq_append (fold v)
  have hlt := groups_lt (fold v)
  rw [hgroups] at hlt
  have hlastValue := Base64.value?_digit (hlt last (by simp))
  refine ⟨front.map Base64.digit, Base64.digit last, ?_, ?_, ⟨last, hlastValue, hlast⟩, ?_, ?_⟩
  · rw [encode, hgroups, List.map_append, List.map_singleton]
  · intro c hc
    obtain ⟨d, hd, rfl⟩ := List.mem_map.mp hc
    exact ⟨d, Base64.value?_digit (hlt d (by simp [hd])), hfront d hd⟩
  · intro hvalue
    have hn : fold v = 0 := hzero (Option.some.inj (hlastValue.symm.trans hvalue))
    rw [hn, groups_of_lt (by decide), List.singleton_eq_append_iff] at hgroups
    rcases hgroups with ⟨rfl, -⟩ | ⟨-, h⟩
    · rfl
    · exact absurd h (List.cons_ne_nil _ _)
  · intro hnegative
    have hread := natural?_groups_append (fold v) []
    have hencode : (groups (fold v)).map Base64.digit = ['B'] := hnegative
    rw [hencode] at hread
    have hone : (1, []) = (fold v, ([] : List Char)) := Option.some.inj hread
    exact fold_ne_one v (Prod.mk.inj hone).1.symm

/-- Continued digits stand for groups of five bits with the mark of being followed. -/
lemma exists_map_digit_eq {front : List Char} (h : ∀ c ∈ front, Continues c) :
    ∃ digits : List Nat, digits.map Base64.digit = front ∧ ∀ d ∈ digits, 32 ≤ d ∧ d < 64 := by
  induction front with
  | nil => exact ⟨[], rfl, List.forall_mem_nil _⟩
  | cons c front ih =>
      obtain ⟨⟨d, hd, hcontinued⟩, hfront⟩ := List.forall_mem_cons.mp h
      obtain ⟨digits, rfl, hdigits⟩ := ih hfront
      obtain ⟨hlt, rfl⟩ := Base64.value?_eq_some_iff.mp hd
      exact ⟨d :: digits, rfl, List.forall_mem_cons.mpr ⟨⟨hcontinued, hlt⟩, hdigits⟩⟩

lemma exists_encode_eq {text : List Char} (h : IsCanonical text) : ∃ v, encode v = text := by
  obtain ⟨front, last, rfl, hfront, ⟨d, hd, hlast⟩, hzero, hnegative⟩ := h
  obtain ⟨digits, rfl, hdigits⟩ := exists_map_digit_eq hfront
  obtain ⟨-, rfl⟩ := Base64.value?_eq_some_iff.mp hd
  have hfirst : d = 0 → digits = [] := by
    rintro rfl
    exact List.map_eq_nil_iff.mp (hzero hd)
  obtain ⟨n, hn⟩ := exists_groups_eq hdigits hlast hfirst
  have hne : n ≠ 1 := by
    rintro rfl
    rw [groups_of_lt (by decide)] at hn
    apply hnegative
    rw [← List.map_singleton, ← List.map_append, ← hn]
    rfl
  refine ⟨signed n, ?_⟩
  rw [encode, fold_signed hne, hn, List.map_append, List.map_singleton]

/-- **Whole numbers and canonical texts belong to each other.**  A number is read off the front of
any text, with what stands behind it left over, and what is written for numbers are the canonical
texts, each for one number. -/
theorem bijOn_encode :
    (∀ (v : Int) (rest : List Char), whole? (encode v ++ rest) = some (v, rest)) ∧
      Set.BijOn encode Set.univ {text | IsCanonical text} :=
  ⟨whole?_encode, fun v _ => isCanonical_encode v, encode_injective.injOn, fun _ htext =>
    (exists_encode_eq htext).imp fun _ hv => ⟨Set.mem_univ _, hv⟩⟩

end Vlq

end EstreePrinter
