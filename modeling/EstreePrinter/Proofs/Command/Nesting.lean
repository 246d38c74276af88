import Mathlib
import EstreePrinter.Proofs.Command.Flattening

/-!
# Levels that are opened and closed

The markers `indent` and `dedent` open and close one level of indentation each.  A sequence keeps
the discipline when it never closes more than it has opened and has closed everything at its end.

* `Balanced` — the discipline, said by counting over every beginning of the sequence;
* `levels` — the same seen from the machine that reads the sequence: the level it ends on, if it
  gets to the end;
* **`balanced_iff_levels`** — the two agree.  Counting is what one wants to read in a statement,
  the machine is what goes through an append;
* `Settled` — what a finished rendering looks like: balanced, and no placeholder without contents.
-/

namespace EstreePrinter

namespace Command

/-- Whether a command opens a level. -/
def opens : Command → Bool
  | .indent => true
  | _ => false

/-- Whether a command closes a level. -/
def closes : Command → Bool
  | .dedent => true
  | _ => false

/-- **Balanced leaves**: no beginning closes more levels than it opens, and the whole closes as many
as it opens. -/
def Balanced (leaves : List Command) : Prop :=
  (∀ start, start <+: leaves → start.countP closes ≤ start.countP opens) ∧
    leaves.countP closes = leaves.countP opens

/-- The level after one leaf; nothing if a level is closed that is not open. -/
def levelAfter (level : Nat) : Command → Option Nat
  | .indent => some (level + 1)
  | .dedent => if level = 0 then none else some (level - 1)
  | _ => some level

/-- The level after some leaves; nothing if a level is closed that is not open. -/
def levels : Nat → List Command → Option Nat
  | level, [] => some level
  | level, c :: rest => (levelAfter level c).bind fun next => levels next rest

@[simp] lemma levels_nil (level : Nat) : levels level [] = some level := rfl

@[simp] lemma levels_cons (level : Nat) (c : Command) (rest : List Command) :
    levels level (c :: rest) = (levelAfter level c).bind fun next => levels next rest := rfl

lemma levels_append (level : Nat) (cs ds : List Command) :
    levels level (cs ++ ds) = (levels level cs).bind fun next => levels next ds := by
  induction cs generalizing level with
  | nil => simp
  | cons c rest ih =>
      simp only [List.cons_append, levels_cons, Option.bind_assoc]
      exact congrArg _ (funext fun next => ih next)

/-- One leaf, seen by its counts. -/
lemma levelAfter_eq_some_iff (level next : Nat) (c : Command) :
    levelAfter level c = some next ↔
      [c].countP closes ≤ level + [c].countP opens ∧
        next + [c].countP closes = level + [c].countP opens := by
  cases c with
  | dedent =>
      by_cases h : level = 0
      · simp [levelAfter, opens, closes, h]
      · simp only [levelAfter, h, if_false, Option.some.injEq, opens, closes,
          List.countP_singleton]
        simp only [if_true, Bool.false_eq_true, if_false]
        omega
  | _ =>
      simp only [levelAfter, opens, closes, List.countP_singleton, Option.some.injEq]
      simp only [if_true, Bool.false_eq_true, if_false]
      omega

/-- **The machine counts.**  It reaches level `final` exactly when no beginning closes more than
was open, and the counts leave `final` open. -/
lemma levels_eq_some_iff (level final : Nat) (cs : List Command) :
    levels level cs = some final ↔
      (∀ start, start <+: cs → start.countP closes ≤ level + start.countP opens) ∧
        final + cs.countP closes = level + cs.countP opens := by
  induction cs generalizing level with
  | nil =>
      simp only [levels_nil, Option.some.injEq, List.prefix_nil, forall_eq, List.countP_nil]
      omega
  | cons c rest ih =>
      rw [levels_cons, Option.bind_eq_some_iff]
      have hsplit : ∀ xs : List Command, (c :: xs).countP closes = [c].countP closes + xs.countP closes
          ∧ (c :: xs).countP opens = [c].countP opens + xs.countP opens := by
        intro xs
        constructor <;> rw [← List.countP_append] <;> rfl
      constructor
      · rintro ⟨next, hstep, hrest⟩
        obtain ⟨hle, heq⟩ := (levelAfter_eq_some_iff level next c).mp hstep
        obtain ⟨hstarts, hfinal⟩ := (ih next).mp hrest
        refine ⟨fun start hstart => ?_, ?_⟩
        · cases start with
          | nil => simp
          | cons d ds =>
              obtain ⟨rfl, hds⟩ := List.cons_prefix_cons.mp hstart
              have := hstarts ds hds
              have := hsplit ds
              omega
        · have := hsplit rest
          omega
      · rintro ⟨hstarts, hfinal⟩
        have hfirst := hstarts [c] (List.cons_prefix_cons.mpr ⟨rfl, List.nil_prefix⟩)
        refine ⟨level + [c].countP opens - [c].countP closes, ?_, ?_⟩
        · rw [levelAfter_eq_some_iff]
          omega
        · rw [ih]
          refine ⟨fun start hstart => ?_, ?_⟩
          · have := hstarts (c :: start) (List.cons_prefix_cons.mpr ⟨rfl, hstart⟩)
            have := hsplit start
            omega
          · have := hsplit rest
            omega

/-- **Counting and reading agree.** -/
theorem balanced_iff_levels (cs : List Command) : Balanced cs ↔ levels 0 cs = some 0 := by
  rw [levels_eq_some_iff, Balanced]
  simp only [Nat.zero_add]

/-- A balanced sequence leaves every level as it was, not only the outermost one. -/
lemma Balanced.levels_eq {cs : List Command} (h : Balanced cs) (level : Nat) :
    levels level cs = some level := by
  rw [levels_eq_some_iff]
  obtain ⟨hstarts, htotal⟩ := h
  refine ⟨fun start hstart => ?_, ?_⟩
  · have := hstarts start hstart
    omega
  · omega

lemma balanced_nil : Balanced [] := by simp [balanced_iff_levels]

lemma Balanced.append {cs ds : List Command} (hcs : Balanced cs) (hds : Balanced ds) :
    Balanced (cs ++ ds) := by
  rw [balanced_iff_levels, levels_append, hcs.levels_eq]
  exact hds.levels_eq 0

/-! ## Finished commands -/

/-- Commands that are finished: every placeholder has its contents, and every level that is opened
is closed again. -/
structure Settled (commands : List Command) : Prop where
  resolved : ∀ c ∈ placeholdersAll commands, c.IsResolved
  balanced : Balanced (leavesAll commands)

lemma settled_nil : Settled [] := ⟨by simp, by simpa using balanced_nil⟩

lemma Settled.append {cs ds : List Command} (hcs : Settled cs) (hds : Settled ds) :
    Settled (cs ++ ds) := by
  refine ⟨?_, ?_⟩
  · intro c hc
    rw [placeholdersAll_append, List.mem_append] at hc
    rcases hc with hc | hc
    · exact hcs.resolved c hc
    · exact hds.resolved c hc
  · rw [leavesAll_append]
    exact hcs.balanced.append hds.balanced

end Command

end EstreePrinter
