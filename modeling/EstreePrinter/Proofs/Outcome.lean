import Mathlib
import EstreePrinter.Error

/-!
# Taking computations that may fail apart

Reading a tree, rendering it and writing it down are all computations that may fail, written one
step after the other.  A chain of steps that succeeds is opened one step at a time with
`bind_eq_ok_iff`; a chain whose first step is known is run with the `simp` lemmas below.
-/

namespace EstreePrinter

variable {ε α β : Type}

@[simp] lemma ok_bind (a : α) (f : α → Except ε β) : (Except.ok a >>= f) = f a := rfl

@[simp] lemma error_bind (e : ε) (f : α → Except ε β) :
    ((Except.error e : Except ε α) >>= f) = .error e := rfl

@[simp] lemma pure_eq_ok (a : α) : (pure a : Except ε α) = .ok a := rfl

/-- Two steps succeed exactly when the first one does and the second one does with its result. -/
lemma bind_eq_ok_iff {x : Except ε α} {f : α → Except ε β} {b : β} :
    (x >>= f) = .ok b ↔ ∃ a, x = .ok a ∧ f a = .ok b := by
  cases x with
  | error e => simp
  | ok a => simp

@[simp] lemma orMalformed_eq_ok_iff {o : Option α} {a : α} :
    orMalformed o = .ok a ↔ o = some a := by
  cases o with
  | none => simp [orMalformed]
  | some b => simp [orMalformed]

@[simp] lemma ofFault_eq_ok_iff {x : Except Fault α} {a : α} :
    Error.ofFault x = .ok a ↔ x = .ok a := by
  cases x with
  | error f => simp [Error.ofFault]
  | ok b => simp [Error.ofFault]

/-! ## Layout errors -/

/-- A fault of the tree is no error of the layout. -/
lemma ofFault_ne_layout (x : Except Fault α) (e : LayoutError) :
    Error.ofFault x ≠ .error (.layout e) := by
  cases x with
  | error f => simp [Error.ofFault]
  | ok b => simp [Error.ofFault]

/-- Two steps end in no layout error if neither of them does. -/
lemma bind_ne_layout {x : Except Error α} {f : α → Except Error β} {e : LayoutError}
    (hx : x ≠ .error (.layout e)) (hf : ∀ a, x = .ok a → f a ≠ .error (.layout e)) :
    (x >>= f) ≠ .error (.layout e) := by
  cases x with
  | error failure => simpa using hx
  | ok a => simpa using hf a rfl

end EstreePrinter
