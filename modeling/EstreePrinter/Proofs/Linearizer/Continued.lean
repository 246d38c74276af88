import Mathlib
import EstreePrinter.Proofs.Linearizer.Success

/-!
# Writing on behind what is there

A linearizer only ever adds to what it has written, and what it adds depends on its depth and its
column alone.  So if something else had been written before, on lines of its own, the same would be
added behind it.

**The simulation.**  `Linearizer.behind` puts a text with the marks of its lines before everything a
linearizer has written.  Every step does the same before and after that (`step_behind`), hence so
does every run (`runLeaves_behind`).

**Two texts.**  `linearize_lineFeeds` says what comes of two sequences with line feeds between them:
the two texts and the two lists of marks, one behind the other.
-/

namespace EstreePrinter

namespace Linearizer

/-- The same linearizer with a text and the marks of its lines before what it has written. -/
def behind (code : String) (lines : Array (List Mark)) (l : Linearizer) : Linearizer :=
  { l with output := code ++ l.output, lines := lines ++ l.lines }

variable (code : String) (lines : Array (List Mark)) (l : Linearizer)

@[simp] lemma behind_lineBreak : (l.behind code lines).lineBreak = l.lineBreak := rfl

@[simp] lemma behind_atMargin : (l.behind code lines).atMargin = l.atMargin := rfl

lemma count_behind (c : Char) : (l.behind code lines).count c = (l.count c).behind code lines := by
  by_cases hline : c = '\n'
  · simp [count, behind, closeLine, hline]
  · by_cases hwide : 0xFFFF < c.toNat
    · simp [count, behind, hline, hwide]
    · simp [count, behind, hline, hwide]

lemma append_behind (s : String) :
    (l.behind code lines).append s = (l.append s).behind code lines := by
  have hcount (text : List Char) (l : Linearizer) :
      text.foldl count (l.behind code lines) = (text.foldl count l).behind code lines := by
    induction text generalizing l with
    | nil => rfl
    | cons c rest ih => rw [List.foldl_cons, List.foldl_cons, count_behind, ih]
  rw [append, append, ← hcount]
  simp [behind, String.append_assoc]

lemma mark_behind (p : Position) :
    (l.behind code lines).mark p = (l.mark p).map (behind code lines) := by
  unfold mark
  cases p.line.plus? (-1) with
  | none => rfl
  | some line => rfl

lemma chunk_behind (s : String) (span : Option Span) :
    (l.behind code lines).chunk s span = (l.chunk s span).map (behind code lines) := by
  cases span with
  | none => simp [chunk, append_behind, Except.map]
  | some span =>
      simp only [chunk, mark_behind]
      cases l.mark span.start with
      | error fault => rfl
      | ok next =>
          show ((next.behind code lines).append s).mark span.stop = _
          rw [append_behind, mark_behind]
          rfl

lemma comment_behind (c : Json) (after : Break) :
    (l.behind code lines).comment c after = (l.comment c after).map (behind code lines) := by
  have hbody : (l.behind code lines).commentBody c = l.commentBody c := rfl
  simp only [comment, hbody]
  cases l.commentBody c with
  | error fault => rfl
  | ok body => cases after <;> simp [append_behind, Except.map]

/-- **One step** does the same behind something else. -/
lemma step_behind (c : Command) :
    (l.behind code lines).step c = (l.step c).map (behind code lines) := by
  have hfault {x : Except Fault Linearizer} :
      Error.ofFault (x.map (behind code lines)) = (Error.ofFault x).map (behind code lines) := by
    cases x <;> rfl
  cases c with
  | chunk s span => rw [step, step, chunk_behind, hfault]
  | comment c after => rw [step, step, comment_behind, hfault]
  | text s => simp [step, append_behind, Except.map]
  | newline => simp [step, append_behind, Except.map]
  | dedent =>
      simp only [step, behind_atMargin]
      by_cases hmargin : l.atMargin = true
      · simp [hmargin, Except.map]
      · simp [hmargin, Except.map, behind]
  | _ => rfl

/-- **A run** does the same behind something else. -/
lemma runLeaves_behind (leaves : List Command) :
    (l.behind code lines).runLeaves leaves =
      ((l.runLeaves leaves).1.behind code lines, (l.runLeaves leaves).2) := by
  induction leaves generalizing l with
  | nil => rfl
  | cons c rest ih =>
      simp only [runLeaves, step_behind]
      cases l.step c with
      | error e => rfl
      | ok next => exact ih next

variable {l}

/-- A run that reaches its end goes on with what follows. -/
lemma runLeaves_append {l' : Linearizer} {leaves : List Command}
    (h : l.runLeaves leaves = (l', none)) (more : List Command) :
    l.runLeaves (leaves ++ more) = l'.runLeaves more := by
  induction leaves generalizing l with
  | nil =>
      obtain rfl : l = l' := congrArg Prod.fst h
      rfl
  | cons c rest ih =>
      simp only [runLeaves, List.cons_append] at h ⊢
      cases hstep : l.step c with
      | error e => simp [hstep] at h
      | ok next =>
          rw [hstep] at h
          exact ih h

/-- A line feed closes the line. -/
lemma append_lineFeed (l : Linearizer) :
    l.append "\n" = { l.closeLine with output := l.output ++ "\n", column := 0 } := rfl

/-- Where no level is open, a line break is a line feed. -/
lemma step_newline (hdepth : l.depth = 0) : l.step .newline = .ok (l.append "\n") := by
  rw [step, lineBreak, hdepth]
  rfl

/-- What is written behind one or two line feeds is written on a fresh line. -/
lemma runLeaves_lineFeeds (hdepth : l.depth = 0) (blank : Bool) :
    l.runLeaves (if blank then [.text "\n", .newline] else [.newline]) =
      (({ indent := l.indent } : Linearizer).behind
        (l.output ++ if blank then "\n\n" else "\n")
        (l.closeLine.lines ++ if blank then #[[]] else #[]), none) := by
  cases blank with
  | false =>
      simp only [Bool.false_eq_true, if_false, runLeaves, step_newline hdepth]
      simp [append_lineFeed, behind, closeLine, hdepth]
  | true =>
      have htext : l.step (.text "\n") = .ok (l.append "\n") := rfl
      have hnewline : (l.append "\n").step .newline = .ok ((l.append "\n").append "\n") :=
        step_newline (by simp [hdepth])
      simp only [if_true, runLeaves, htext, hnewline]
      simp [append_lineFeed, behind, closeLine, hdepth, String.append_assoc]

end Linearizer

/-- A sequence is written down if its leaves are and all levels are closed behind them. -/
lemma linearize_eq_ok_iff {commands : List Command} {indent code : String}
    {lines : List (List Mark)} :
    linearize commands indent = .ok (code, lines) ↔
      ∃ l, ({ indent := indent } : Linearizer).runLeaves (Command.leavesAll commands) = (l, none) ∧
        l.atMargin = true ∧ l.output = code ∧ l.closeLine.mappings = lines := by
  rw [linearize, Linearizer.run_eq]
  cases hrun : ({ indent := indent } : Linearizer).runLeaves (Command.leavesAll commands) with
  | mk l failure =>
      cases failure with
      | some e => simp
      | none =>
          simp only [Linearizer.finish]
          by_cases hmargin : l.atMargin = true
          · simp [hmargin, Linearizer.closeLine]
          · simp [hmargin]

/-- **Two sequences with line feeds between them** give the two texts with line feeds between them,
and the marks of the first in front of the marks of the second. -/
lemma linearize_lineFeeds {first feeds second : List Command} {indent : String}
    (hindent : indent ≠ "") (blank : Bool)
    (hfeeds : Command.leavesAll feeds = if blank then [.text "\n", .newline] else [.newline])
    {code code' : String} {lines lines' : List (List Mark)}
    (h : linearize first indent = .ok (code, lines))
    (h' : linearize second indent = .ok (code', lines')) :
    linearize (first ++ feeds ++ second) indent =
      .ok (code ++ (if blank then "\n\n" else "\n") ++ code',
        lines ++ (if blank then [[]] else []) ++ lines') := by
  obtain ⟨l, hrun, hmargin, rfl, rfl⟩ := linearize_eq_ok_iff.mp h
  obtain ⟨l', hrun', hmargin', rfl, rfl⟩ := linearize_eq_ok_iff.mp h'
  obtain ⟨-, hsame⟩ := (Linearizer.runLeaves_levels hindent _).1 l hrun
  have hdepth : l.depth = 0 := (Linearizer.atMargin_iff (by rw [hsame]; exact hindent)).mp hmargin
  have hfed := Linearizer.runLeaves_lineFeeds hdepth blank
  rw [hsame] at hfed
  have hall := Linearizer.runLeaves_behind (l.output ++ if blank then "\n\n" else "\n")
    (l.closeLine.lines ++ if blank then #[[]] else #[]) { indent := indent }
    (Command.leavesAll second)
  rw [hrun', ← Linearizer.runLeaves_append hfed, ← Linearizer.runLeaves_append hrun, ← hfeeds,
    ← List.append_assoc, ← Command.leavesAll_append, ← Command.leavesAll_append] at hall
  refine linearize_eq_ok_iff.mpr ⟨_, hall, hmargin', rfl, ?_⟩
  cases blank with
  | false => simp [Linearizer.mappings, Linearizer.closeLine, Linearizer.behind]
  | true => simp [Linearizer.mappings, Linearizer.closeLine, Linearizer.behind]

end EstreePrinter
