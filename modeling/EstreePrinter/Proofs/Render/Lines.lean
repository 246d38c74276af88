import Mathlib
import EstreePrinter.Proofs.Render.Watched

/-!
# Renderings leave no line comment open

Whether the line being written holds a line comment (`Command.lines`) is watched like anything else
that a comment leaves open: `Command.allows_lineWatch`.  So what a rendering emits starts and ends
on a line without a line comment, as long as there is no program in the tree, and a whole tree
writes no code behind a line comment (`Render.leads_tree`).

The comments that still wait behind the whole tree are no code, and can stand on any line
(`Render.leads_drained`).
-/

namespace EstreePrinter

namespace Command

/-- The watch for line comments: the state tells whether the line being written holds one. -/
def lineWatch : Watch Bool := ⟨false, fun o c => c.lineAfter o⟩

lemma scan_lineWatch (o : Bool) (leaves : List Command) :
    lineWatch.scan o leaves = lines o leaves := by
  induction leaves generalizing o with
  | nil => rfl
  | cons c rest ih =>
      rw [Watch.scan_cons, lines_cons]
      exact congrArg _ (funext ih)

/-- Comments can stand on any line. -/
lemma lines_comments (o : Bool) (comments : List Json) (rest : List Command) :
    ∃ o', lines o (comments.map (.comment · .none) ++ rest) = lines o' rest := by
  induction comments generalizing o with
  | nil => exact ⟨o, rfl⟩
  | cons comment more ih =>
      obtain ⟨o', ho'⟩ := ih (o || comment.isLine)
      exact ⟨o', ho'⟩

/-- A line break closes whatever line comment is open. -/
lemma allows_lineWatch : lineWatch.Allows fun _ => True where
  rest := trivial
  plain c hc := by
    cases c with
    | comment c after => cases hc
    | _ => rfl
  before comment after h := by
    obtain rfl | ⟨rfl, hline⟩ := h
    · rfl
    · simp [lineWatch, lineAfter, hline]
  behind comment := by
    refine ⟨comment.isLine, trivial, rfl, fun hline => ?_⟩
    rw [hline]
    rfl
  newline _ _ := rfl
  lineFeed o _ := by
    have hblank : isBlankText "\n" = true := by decide
    exact ⟨o, trivial, by simp [lineWatch, lineAfter, hblank]⟩
  dedent o _ := ⟨o, trivial, rfl⟩
  listEnd comments := by
    obtain ⟨o, ho⟩ := lines_comments false comments [.dedent, .newline]
    rw [scan_lineWatch]
    exact ho

end Command

open Command (lineWatch lines leavesAll)

namespace Render

/-- Comments behind a statement are not code, so they can stand behind a line comment. -/
lemma lines_afterStatement {newline : Bool} {comments : List Json} {commands : List Command}
    (h : afterStatement newline comments = .ok commands) (o : Bool) :
    (lines o (leavesAll commands)).isSome := by
  have hblank : Command.isBlankText " " = true := by decide
  induction comments generalizing newline commands o with
  | nil =>
      obtain rfl := Except.ok.inj h
      simp
  | cons comment rest ih =>
      rw [afterStatement] at h
      obtain ⟨line, -, h⟩ := EstreePrinter.bind_eq_ok_iff.mp h
      obtain ⟨others, hothers, h⟩ := EstreePrinter.bind_eq_ok_iff.mp h
      obtain rfl := Except.ok.inj h
      cases newline with
      | true => simpa [Command.leaves, Command.lineAfter] using ih hothers _
      | false => simpa [Command.leaves, Command.lineAfter, hblank] using ih hothers _

/-- The comments that still wait can be written on any line. -/
lemma leads_drained (o : Bool) : Leads lineWatch o drainAfterStatement fun _ => True := by
  intro s q e h
  obtain ⟨commands, hcommands, rfl⟩ := drainAfterStatement_eq_ok_iff.mp h
  obtain ⟨o', ho'⟩ := Option.isSome_iff_exists.mp (lines_afterStatement hcommands o)
  exact ⟨o', Command.scan_lineWatch o _ ▸ ho', trivial⟩

end Render

end EstreePrinter
