import Mathlib
import EstreePrinter.Proofs.Render.Emitted

/-!
# What is rendered is finished

Whatever a rendering step emits is `Command.Settled`: each of its placeholders has contents, and
each level of indentation it opens it closes again.  The two ends of a level often stand in two
different placeholders, so a placeholder alone need not be balanced; the statement is about all that
a step emits.

* `Command.closed_settled` — being finished is a closed property of commands;
* **`Render.settled`** — the invariant.
-/

namespace EstreePrinter

namespace Command

/-- A leaf that does not move the level is finished. -/
lemma settled_leaf {c : Command} (hleaves : leaves c = [c]) (hplaceholders : placeholders c = [])
    (hlevel : levelAfter 0 c = some 0) : Settled [c] := by
  refine ⟨by simp [hplaceholders], (balanced_iff_levels _).mpr ?_⟩
  simp [hleaves, hlevel]

/-- A placeholder with finished contents. -/
lemma settled_deferred {name : String} {contents : List Command} (h : Settled contents) :
    Settled [.deferred name contents] := by
  refine ⟨?_, by simpa [leaves] using h.balanced⟩
  intro c hc
  simp only [placeholdersAll_cons, placeholders, placeholdersAll_nil, List.append_nil,
    List.mem_cons] at hc
  rcases hc with rfl | hc
  · rfl
  · exact h.resolved c hc

/-- Texts and line breaks stay on their level. -/
lemma levels_of_texts {rest : List Command} (h : ∀ c ∈ rest, c = .newline ∨ ∃ s, c = .text s)
    (level : Nat) : levels level rest = some level := by
  induction rest with
  | nil => rfl
  | cons c rest ih =>
      have hc : levelAfter level c = some level := by
        rcases h c (by simp) with rfl | ⟨s, rfl⟩ <;> rfl
      rw [levels_cons, hc]
      exact ih fun d hd => h d (by simp [hd])

/-- A level that is opened, with anything finished inside, and closed. -/
lemma Settled.between {start middle stop : List Command} (hstart : Moves .indent start)
    (hmiddle : Settled middle) (hstop : Moves .dedent stop) :
    Settled (start ++ middle ++ stop) := by
  refine ⟨?_, ?_⟩
  · intro c hc
    simp only [placeholdersAll_append, List.mem_append] at hc
    rcases hc with (hc | hc) | hc
    · exact hstart.resolved c hc
    · exact hmiddle.resolved c hc
    · exact hstop.resolved c hc
  · obtain ⟨up, hup, huptexts⟩ := hstart.leaves
    obtain ⟨down, hdown, hdowntexts⟩ := hstop.leaves
    rw [balanced_iff_levels]
    simp [levels_append, hup, hdown, levelAfter, levels_of_texts huptexts,
      hmiddle.balanced.levels_eq, levels_of_texts hdowntexts]

lemma closed_settled : Closed (fun _ => True) Settled where
  nil := settled_nil
  append := Settled.append
  text _ := settled_leaf (by simp [leaves]) (by simp [placeholders]) rfl
  newline := settled_leaf (by simp [leaves]) (by simp [placeholders]) rfl
  foreign _ := settled_leaf (by simp [leaves]) (by simp [placeholders]) rfl
  comment _ _ := settled_leaf (by simp [leaves]) (by simp [placeholders]) rfl
  deferred _ _ := settled_deferred
  between := Settled.between

end Command

namespace Render

/-- A step has finished commands whenever it succeeds. -/
def Settles {α : Type} (x : Render α) : Prop :=
  ∀ s q e, x s q = .ok e → Command.Settled e.commands

lemma settles_bind {α β : Type} {x : Render α} {f : α → Render β} (hx : Settles x)
    (hf : ∀ a, Settles (f a)) : Settles (x >>= f) :=
  emits_bind Command.closed_settled hx hf

lemma settles_drainAfterStatement : Settles drainAfterStatement :=
  emits_drainAfterStatement Command.closed_settled

/-- **What is rendered is finished.** -/
def settled : Invariant :=
  Invariant.ofClosed Command.closed_settled (fun _ => True) (fun _ _ => trivial)
    fun content _ span _ _ => by
      cases content <;>
        exact Command.settled_leaf (by simp [Command.leaves, Command.chunkOf])
          (by simp [Command.placeholders, Command.chunkOf]) rfl

instance : settled.IsGlobal := ⟨fun _ => trivial⟩

end Render

end EstreePrinter
