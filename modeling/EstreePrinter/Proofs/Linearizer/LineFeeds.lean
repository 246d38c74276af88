import Mathlib
import EstreePrinter.Options
import EstreePrinter.Proofs.Command.Flattening
import EstreePrinter.Proofs.Linearizer.Written

/-!
# How many lines commands take

An indentation has no line feed in it, so a line break writes one line feed at whatever depth, and
so does each line feed of a block comment.  How many line feeds a leaf writes is therefore a matter
of the leaf alone (`Command.lineFeeds`), and how many a sequence writes is a sum over its leaves
(`count_of_linearize`).
-/

namespace EstreePrinter

lemma Options.lineFeed_notMem_indent (o : Options) : '\n' ∉ o.indent.toList := by
  intro h
  have hblank := List.all_eq_true.mp o.indent_blank _ h
  exact absurd hblank (by decide)

variable {indent : String}

lemma count_lineBreakAt (h : '\n' ∉ indent.toList) (depth : Nat) :
    (lineBreakAt indent depth).count '\n' = 1 := by
  have hlevels : '\n' ∉ (List.replicate depth indent).flatMap String.toList := by
    intro hmem
    obtain ⟨text, htext, hmem⟩ := List.mem_flatMap.mp hmem
    rw [List.eq_of_mem_replicate htext] at hmem
    exact h hmem
  simp [lineBreakAt, List.count_eq_zero_of_not_mem hlevels]

/-- The lines of a comment are indented, which adds no line. -/
lemma count_commentAt (h : '\n' ∉ indent.toList) (depth : Nat) (comment : Json) :
    (commentAt indent depth comment).count '\n' = (commentAt "" 0 comment).count '\n' := by
  have hbody (text : List Char) {indent : String} (h : '\n' ∉ indent.toList) (depth : Nat) :
      (text.flatMap fun c => if c = '\n' then lineBreakAt indent depth else [c]).count '\n' =
        text.count '\n' := by
    induction text with
    | nil => rfl
    | cons c rest ih =>
        rw [List.flatMap_cons, List.count_append, ih]
        by_cases hc : c = '\n'
        · rw [if_pos hc, count_lineBreakAt h, hc, List.count_cons_self, Nat.add_comm]
        · rw [if_neg hc, ← List.count_append, List.singleton_append]
  have hnone : '\n' ∉ "".toList := List.not_mem_nil
  unfold commentAt
  split
  · rfl
  · simp only [List.count_append, hbody _ h, hbody _ hnone]
  · rfl

namespace Command

/-- How many line feeds a leaf writes. -/
def lineFeeds (c : Command) : Nat := (c.textAt "" 0).count '\n'

lemma count_textAt (h : '\n' ∉ indent.toList) (depth : Nat) (c : Command) :
    (c.textAt indent depth).count '\n' = c.lineFeeds := by
  have hbreak : (lineBreakAt indent depth).count '\n' = (lineBreakAt "" 0).count '\n' :=
    count_lineBreakAt h depth
  cases c with
  | newline => exact hbreak
  | comment c after =>
      have hafter : (breakAt indent depth after).count '\n' = (breakAt "" 0 after).count '\n' := by
        cases after with
        | newline => exact hbreak
        | _ => rfl
      simp only [lineFeeds, textAt, List.count_append, count_commentAt h, hafter]
  | _ => rfl

/-- How many line feeds commands write, with the contents of their placeholders. -/
def lineFeedsAll (commands : List Command) : Nat := ((leavesAll commands).map lineFeeds).sum

@[simp] lemma lineFeedsAll_nil : lineFeedsAll [] = 0 := by simp [lineFeedsAll]

lemma lineFeedsAll_cons (c : Command) (rest : List Command) :
    lineFeedsAll (c :: rest) = ((leaves c).map lineFeeds).sum + lineFeedsAll rest := by
  simp [lineFeedsAll]

lemma lineFeedsAll_deferred (name : String) (contents rest : List Command) :
    lineFeedsAll (.deferred name contents :: rest) =
      lineFeedsAll contents + lineFeedsAll rest := by
  simp [lineFeedsAll, leaves]

@[simp] lemma lineFeedsAll_append (cs ds : List Command) :
    lineFeedsAll (cs ++ ds) = lineFeedsAll cs + lineFeedsAll ds := by
  simp [lineFeedsAll]

end Command

/-- **The line feeds of a written text** are those of the leaves. -/
lemma count_written (h : '\n' ∉ indent.toList) (depth : Nat) (leaves : List Command) :
    (written indent depth leaves).count '\n' = (leaves.map Command.lineFeeds).sum := by
  induction leaves generalizing depth with
  | nil => rfl
  | cons c rest ih => simp [written, ih, Command.count_textAt h]

lemma count_of_linearize (h : '\n' ∉ indent.toList) {commands : List Command} {code : String}
    {marks : List (List Mark)} (hwritten : linearize commands indent = .ok (code, marks)) :
    code.toList.count '\n' = Command.lineFeedsAll commands := by
  rw [(linearize_eq_ok hwritten).1, count_written h]
  rfl

end EstreePrinter
