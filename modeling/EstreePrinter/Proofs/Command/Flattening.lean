import Mathlib
import EstreePrinter.Command.Walk

/-!
# The stack walks are recursion

`Command.walk` and `Command.visit` keep the sequences still to be gone through on a stack.  Nobody
wants to reason about the stack, so this file trades both for plain recursion once and for all:

* `walk_eq` — walking lists the leaves of every sequence on the stack, the innermost first;
* `visit_eq` — visiting lists their placeholders, outer ones before inner ones;
* `checkResolved_eq_ok_iff` — the check passes exactly when no placeholder is left without contents.

**Appending.**  Leaves and placeholders of an append are those of its two halves
(`leavesAll_append`, `placeholdersAll_append`), which is all that a rule, emitting one piece after
the other, ever needs.
-/

namespace EstreePrinter

namespace Command

@[simp] lemma leavesAll_nil : leavesAll [] = [] := by simp [leavesAll]

@[simp] lemma leavesAll_cons (c : Command) (rest : List Command) :
    leavesAll (c :: rest) = leaves c ++ leavesAll rest := by simp [leavesAll]

@[simp] lemma leavesAll_append (cs ds : List Command) :
    leavesAll (cs ++ ds) = leavesAll cs ++ leavesAll ds := by
  induction cs with
  | nil => simp
  | cons c rest ih => simp [ih]

@[simp] lemma placeholdersAll_nil : placeholdersAll [] = [] := by simp [placeholdersAll]

@[simp] lemma placeholdersAll_cons (c : Command) (rest : List Command) :
    placeholdersAll (c :: rest) = placeholders c ++ placeholdersAll rest := by
  simp [placeholdersAll]

@[simp] lemma placeholdersAll_append (cs ds : List Command) :
    placeholdersAll (cs ++ ds) = placeholdersAll cs ++ placeholdersAll ds := by
  induction cs with
  | nil => simp
  | cons c rest ih => simp [ih]

/-- **Walking is flattening.**  The induction follows the stack machine: a finished sequence is
dropped, a placeholder is opened on top of the rest, anything else is a leaf. -/
lemma walk_eq (stack : List (List Command)) : walk stack = stack.flatMap leavesAll := by
  fun_induction walk stack with
  | case1 => rfl
  | case2 outer ih => simp [ih]
  | case3 rest outer name contents ih => simp [ih, leaves]
  | case4 rest outer name ih => simp [ih, leaves]
  | case5 rest outer c hdeferred hpending ih =>
      have hc : leaves c = [c] := by
        cases c with
        | deferred name contents => exact absurd rfl (hdeferred name contents)
        | pending name => exact absurd rfl (hpending name)
        | _ => simp [leaves]
      simp [ih, hc]

/-- **Visiting lists the placeholders** in the order in which they are reached. -/
lemma visit_eq (stack : List (List Command)) : visit stack = stack.flatMap placeholdersAll := by
  fun_induction visit stack with
  | case1 => rfl
  | case2 outer ih => simp [ih]
  | case3 rest outer name contents ih => simp [ih, placeholders]
  | case4 rest outer name ih => simp [ih, placeholders]
  | case5 rest outer c hdeferred hpending ih =>
      have hc : placeholders c = [] := by
        cases c with
        | deferred name contents => exact absurd rfl (hdeferred name contents)
        | pending name => exact absurd rfl (hpending name)
        | _ => simp [placeholders]
      simp [ih, hc]

/-! ## Placeholders with contents -/

/-- Whether a placeholder was given its contents. -/
def IsResolved (c : Command) : Prop := c.pendingName? = none

/-- The check for placeholders without contents passes exactly when there is none. -/
lemma checkResolved_eq_ok_iff (commands : List Command) :
    checkResolved commands = .ok () ↔ ∀ c ∈ placeholdersAll commands, c.IsResolved := by
  have hvisit : visit [commands] = placeholdersAll commands := by simp [visit_eq]
  rw [checkResolved, hvisit]
  cases hfound : (placeholdersAll commands).findSome? pendingName? with
  | none =>
      rw [List.findSome?_eq_none_iff] at hfound
      simpa [IsResolved] using hfound
  | some name =>
      obtain ⟨c, hc, hname⟩ := List.exists_of_findSome?_eq_some hfound
      simp only [reduceCtorEq, false_iff, not_forall]
      exact ⟨c, hc, by simp [IsResolved, hname]⟩

end Command

end EstreePrinter
