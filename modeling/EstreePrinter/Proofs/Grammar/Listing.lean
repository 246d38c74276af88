import Mathlib

/-!
# Lists with holes

A list of elements and holes is written with separators: an element takes one unless it is the last,
a hole always does (`signs`).  `ArrayLiteral` is the grammar by which such a list is read:
separators in a row before an element are holes, and one separator behind the last element is none.

* `arrayLiteral_signs` — a written list has a reading;
* **`arrayLiteral_signs_iff`** — the list is its only reading;
* `signs_map_some` — without holes there is one separator between any two elements, and no other.
-/

namespace EstreePrinter

namespace Grammar

/-- What stands in a written list: its elements and what separates them. -/
inductive Sign (α : Type) where
  | item (a : α)
  | separator

variable {α : Type}

/-- How a list is written. -/
def signs : List (Option α) → List (Sign α)
  | [] => []
  | none :: rest => .separator :: signs rest
  | some a :: rest => .item a :: ((if rest.isEmpty then [] else [.separator]) ++ signs rest)

/-- Without holes, there is one separator between any two elements and none behind the last. -/
lemma signs_map_some (list : List α) :
    signs (list.map some) = (list.map Sign.item).intersperse .separator := by
  induction list with
  | nil => rfl
  | cons a rest ih =>
      cases rest with
      | nil => rfl
      | cons b rest => simpa [signs] using ih

/-! ## The grammar -/

/-- Separators in a row, one for each hole. -/
inductive Elision : List (Sign α) → Nat → Prop
  | one : Elision [.separator] 1
  | more {ts : List (Sign α)} {n : Nat} (h : Elision ts n) : Elision (ts ++ [.separator]) (n + 1)

/-- Separators in a row, or none. -/
inductive HasElision : List (Sign α) → Nat → Prop
  | none : HasElision [] 0
  | some {ts : List (Sign α)} {n : Nat} (h : Elision ts n) : HasElision ts n

/-- Elements, with separators between them and holes before them. -/
inductive ElementList : List (Sign α) → List (Option α) → Prop
  | first {ts : List (Sign α)} {n : Nat} (h : HasElision ts n) (a : α) :
      ElementList (ts ++ [.item a]) (List.replicate n none ++ [some a])
  | next {ts us : List (Sign α)} {list : List (Option α)} {n : Nat} (h : ElementList ts list)
      (hholes : HasElision us n) (a : α) :
      ElementList (ts ++ .separator :: (us ++ [.item a]))
        (list ++ (List.replicate n none ++ [some a]))

/-- **What stands between the brackets of an array literal.** -/
inductive ArrayLiteral : List (Sign α) → List (Option α) → Prop
  | holes {ts : List (Sign α)} {n : Nat} (h : HasElision ts n) :
      ArrayLiteral ts (List.replicate n none)
  | elements {ts : List (Sign α)} {list : List (Option α)} (h : ElementList ts list) :
      ArrayLiteral ts list
  | trailing {ts us : List (Sign α)} {list : List (Option α)} {n : Nat} (h : ElementList ts list)
      (hholes : HasElision us n) :
      ArrayLiteral (ts ++ .separator :: us) (list ++ List.replicate n none)

/-! ## Reading from the left -/

lemma Elision.eq {ts : List (Sign α)} {n : Nat} (h : Elision ts n) :
    ts = List.replicate n .separator := by
  induction h with
  | one => rfl
  | more h ih => rw [ih, ← List.replicate_succ']

lemma HasElision.eq {ts : List (Sign α)} {n : Nat} (h : HasElision ts n) :
    ts = List.replicate n .separator := by
  cases h with
  | none => rfl
  | some h => exact h.eq

lemma hasElision_replicate (n : Nat) :
    HasElision (List.replicate n (Sign.separator (α := α))) n := by
  have hsucc : ∀ n, Elision (List.replicate (n + 1) (Sign.separator (α := α))) (n + 1) := by
    intro n
    induction n with
    | zero => exact .one
    | succ n ih =>
        rw [List.replicate_succ']
        exact .more ih
  cases n with
  | zero => exact .none
  | succ n => exact .some (hsucc n)

/-- The list that stands in a row of signs, from the left. -/
def listed : List (Sign α) → List (Option α)
  | [] => []
  | .separator :: rest => none :: listed rest
  | [.item a] => [some a]
  | .item a :: .separator :: rest => some a :: listed rest
  | .item a :: .item b :: rest => some a :: listed (.item b :: rest)

lemma listed_signs (list : List (Option α)) : listed (signs list) = list := by
  induction list with
  | nil => rfl
  | cons entry rest ih =>
      cases entry with
      | none => simpa [signs, listed] using ih
      | some a =>
          cases rest with
          | nil => rfl
          | cons next rest => simpa [signs, listed] using ih

lemma listed_holes (n : Nat) (ts : List (Sign α)) :
    listed (List.replicate n .separator ++ ts) = List.replicate n none ++ listed ts := by
  induction n with
  | zero => rfl
  | succ n ih => simp [List.replicate_succ, listed, ih]

/-- Elements are read off the left of whatever follows them. -/
lemma ElementList.listed_eq {ts : List (Sign α)} {list : List (Option α)}
    (h : ElementList ts list) :
    listed ts = list ∧ ∀ us, listed (ts ++ .separator :: us) = list ++ listed us := by
  induction h with
  | first hholes a =>
      rw [hholes.eq]
      simp [listed_holes, listed]
  | next h hholes a ih =>
      rw [hholes.eq]
      simp [ih.2, listed_holes, listed]

lemma ArrayLiteral.listed_eq {ts : List (Sign α)} {list : List (Option α)}
    (h : ArrayLiteral ts list) : listed ts = list := by
  cases h with
  | @holes ts n hholes =>
      have := listed_holes (α := α) n []
      simpa [hholes.eq, listed] using this
  | elements h => exact h.listed_eq.1
  | @trailing ts us list n h hholes =>
      have := listed_holes (α := α) n []
      rw [h.listed_eq.2, hholes.eq]
      simpa [listed] using this

/-! ## What is written is read -/

lemma ElementList.hole {ts : List (Sign α)} {list : List (Option α)} (h : ElementList ts list) :
    ElementList (.separator :: ts) (none :: list) := by
  induction h with
  | @first ts n hholes a =>
      have := ElementList.first (hasElision_replicate (α := α) (n + 1)) a
      rwa [List.replicate_succ, List.replicate_succ, ← hholes.eq] at this
  | next h hholes a ih => exact ih.next hholes a

lemma ElementList.item {ts : List (Sign α)} {list : List (Option α)} (h : ElementList ts list)
    (a : α) : ElementList (.item a :: .separator :: ts) (some a :: list) := by
  induction h with
  | first hholes b => exact (ElementList.first .none a).next hholes b
  | next h hholes b ih => exact ih.next hholes b

lemma ArrayLiteral.hole {ts : List (Sign α)} {list : List (Option α)} (h : ArrayLiteral ts list) :
    ArrayLiteral (.separator :: ts) (none :: list) := by
  cases h with
  | @holes ts n hholes =>
      have := ArrayLiteral.holes (hasElision_replicate (α := α) (n + 1))
      rwa [List.replicate_succ, List.replicate_succ, ← hholes.eq] at this
  | elements h => exact .elements h.hole
  | trailing h hholes => exact .trailing h.hole hholes

lemma ArrayLiteral.item {ts : List (Sign α)} {list : List (Option α)} (h : ArrayLiteral ts list)
    (a : α) : ArrayLiteral (.item a :: .separator :: ts) (some a :: list) := by
  cases h with
  | holes hholes => exact .trailing (.first .none a) hholes
  | elements h => exact .elements (h.item a)
  | trailing h hholes => exact .trailing (h.item a) hholes

lemma arrayLiteral_signs (list : List (Option α)) : ArrayLiteral (signs list) list := by
  induction list with
  | nil => exact .holes .none
  | cons entry rest ih =>
      cases entry with
      | none => exact ih.hole
      | some a =>
          cases rest with
          | nil => exact .elements (.first .none a)
          | cons next rest => exact ih.item a

/-- **A written list is read as itself and as no other list.** -/
theorem arrayLiteral_signs_iff (list other : List (Option α)) :
    ArrayLiteral (signs list) other ↔ other = list := by
  constructor
  · intro h
    rw [← h.listed_eq, listed_signs]
  · rintro rfl
    exact arrayLiteral_signs other

end Grammar

end EstreePrinter
