import Mathlib
import EstreePrinter.Linearizer
import EstreePrinter.Proofs.Command.Nesting
import EstreePrinter.Proofs.Outcome

/-!
# What a sequence of commands writes

The linearizer carries four things along: the depth, the column, the marks of the finished lines and
the marks of the line being written.  Here the result is said without any of them.

**The text.**  `written indent depth leaves` is the concatenation of what the leaves write, each at
the depth that the markers before it leave (`Command.textAt`, `Command.depthAfter`).

**The marks.**  `endsOf` lists for every chunk with a place its two ends, each as the text in front
of it and the place it comes from.  Where an end stands is read off that text: its line is the
number of line feeds there (`lineAfter`), its column the length of what follows the last of them in
UTF-16 code units (`columnAfter`).

**The invariant.**  `Linearizer.Shows` ties the state to a text and a list of marks.  One command
adds what it writes (`step_shows`), hence so does a sequence (`runLeaves_shows`).
-/

namespace EstreePrinter

/-! ## Text -/

/-- A character that layout may add or leave out. -/
def isBlank (c : Char) : Bool := c == ' ' || c == '\t' || c == '\n'

/-- An indentation of blanks only. -/
def BlankIndent (indent : String) : Prop := ∀ c ∈ indent.toList, isBlank c = true

/-- A line break with the indentation of a depth. -/
def lineBreakAt (indent : String) (depth : Nat) : List Char :=
  '\n' :: (List.replicate depth indent).flatMap String.toList

/-- A comment between its marks, without what follows it.  The lines of a block comment follow the
indentation. -/
def commentAt (indent : String) (depth : Nat) (comment : Json) : List Char :=
  match comment.isLineComment, comment.commentText with
  | .ok true, .ok value => "//".toList ++ value.display.toList
  | .ok false, .ok (.str s) =>
      "/*".toList ++ (s.toList.flatMap fun c => if c = '\n' then lineBreakAt indent depth else [c])
        ++ "*/".toList
  | _, _ => []

/-- What follows a comment. -/
def breakAt (indent : String) (depth : Nat) : Break → List Char
  | .none => []
  | .space => [' ']
  | .newline => lineBreakAt indent depth

namespace Command

/-- What a leaf writes at a depth. -/
def textAt (indent : String) (depth : Nat) : Command → List Char
  | .text s => s.toList
  | .chunk s _ => s.toList
  | .newline => lineBreakAt indent depth
  | .comment c after => commentAt indent depth c ++ breakAt indent depth after
  | _ => []

/-- The depth behind a leaf. -/
def depthAfter (depth : Nat) : Command → Nat
  | .indent => depth + 1
  | .dedent => depth - 1
  | _ => depth

end Command

/-- What leaves write one after the other, from a depth on. -/
def written (indent : String) : Nat → List Command → List Char
  | _, [] => []
  | depth, c :: rest => c.textAt indent depth ++ written indent (c.depthAfter depth) rest

lemma written_append (indent : String) (depth : Nat) (leaves more : List Command) :
    written indent depth (leaves ++ more) =
      written indent depth leaves ++
        written indent (leaves.foldl Command.depthAfter depth) more := by
  induction leaves generalizing depth with
  | nil => rfl
  | cons c rest ih => simp [written, ih]

lemma lineBreakAt_blank {indent : String} (h : BlankIndent indent) (depth : Nat) :
    ∀ c ∈ lineBreakAt indent depth, isBlank c = true := by
  intro c hc
  simp only [lineBreakAt, List.mem_cons, List.mem_flatMap, List.mem_replicate] at hc
  rcases hc with rfl | ⟨text, ⟨-, rfl⟩, hc⟩
  · rfl
  · exact h c hc

/-! ## Places in a text -/

/-- The width of a character in UTF-16 code units. -/
def codeUnits (c : Char) : Nat := if 0xFFFF < c.toNat then 2 else 1

/-- The line on which a text ends, counted from zero. -/
def lineAfter (text : List Char) : Nat := text.count '\n'

/-- The column at which a text ends, in UTF-16 code units. -/
def columnAfter (text : List Char) : Nat :=
  ((text.reverse.takeWhile fun c => c != '\n').map codeUnits).sum

lemma lineAfter_append (text more : List Char) :
    lineAfter (text ++ more) = lineAfter text + lineAfter more :=
  List.count_append

lemma columnAfter_snoc (text : List Char) (c : Char) :
    columnAfter (text ++ [c]) = if c = '\n' then 0 else columnAfter text + codeUnits c := by
  by_cases h : c = '\n'
  · simp [columnAfter, h]
  · simp [columnAfter, h, Nat.add_comm]

/-! ## Marks -/

/-- A line number of the source counted from zero instead of from one. -/
def fromZero (line : Json) : Json := (line.plus? (-1)).getD .null

@[simp] lemma fromZero_int (n : Int) : fromZero (.int n) = .int (n - 1) := rfl

/-- An end of a chunk: the text in front of it, and the place of the source it comes from. -/
structure ChunkEnd where
  before : List Char
  place : Position

/-- The mark of an end, with the line it is on. -/
def ChunkEnd.mark (e : ChunkEnd) : Nat × Mark :=
  (lineAfter e.before, ⟨columnAfter e.before, fromZero e.place.line, e.place.column⟩)

/-- The ends of one leaf behind a text: two for a chunk that has a place, and none otherwise. -/
def Command.ends (before : List Char) : Command → List ChunkEnd
  | .chunk s (some span) => [⟨before, span.start⟩, ⟨before ++ s.toList, span.stop⟩]
  | _ => []

/-- The ends of the chunks among leaves behind a text, from a depth on. -/
def endsOf (indent : String) : List Char → Nat → List Command → List ChunkEnd
  | _, _, [] => []
  | before, depth, c :: rest =>
      c.ends before ++ endsOf indent (before ++ c.textAt indent depth) (c.depthAfter depth) rest

/-- The marks of all lines in order, each with the number of its line. -/
def numbered (lines : List (List Mark)) : List (Nat × Mark) :=
  lines.zipIdx.flatMap fun line => line.1.map fun m => (line.2, m)

lemma numbered_snoc (lines : List (List Mark)) (line : List Mark) :
    numbered (lines ++ [line]) = numbered lines ++ line.map fun m => (lines.length, m) := by
  simp [numbered, List.zipIdx_append]

lemma numbered_snoc_nil (lines : List (List Mark)) : numbered (lines ++ [[]]) = numbered lines := by
  simp [numbered_snoc]

/-- Leaving the line numbers out gives the marks in the order of the output. -/
lemma numbered_map_snd (lines : List (List Mark)) :
    (numbered lines).map Prod.snd = lines.flatten := by
  induction lines using List.reverseRecOn with
  | nil => rfl
  | append_singleton lines line ih => simp [numbered_snoc, ih, Function.comp_def]

/-! ## The state of a linearizer

Writing a text first adds it to the output and then counts its characters, so the invariant comes in
two parts: what the counters say about a text, and that the text is the output.
-/

namespace Linearizer

/-- The counters of a linearizer stand at the end of a text with marks in it. -/
structure Counts (l : Linearizer) (text : List Char) (marks : List (Nat × Mark)) : Prop where
  column : l.column = columnAfter text
  lines : l.lines.size = lineAfter text
  marked : numbered (l.lines.toList ++ [l.marks.reverse]) = marks

/-- **What a linearizer shows**: a text has been written, and some places of it are marked. -/
structure Shows (l : Linearizer) (text : List Char) (marks : List (Nat × Mark)) : Prop
    extends Counts l text marks where
  output : l.output.toList = text

lemma lineBreak_toList (l : Linearizer) : l.lineBreak.toList = lineBreakAt l.indent l.depth := by
  rw [lineBreak, String.toList_append, String.toList_join]
  rfl

/-- Counting one character. -/
lemma Counts.count {l : Linearizer} {text : List Char} {marks : List (Nat × Mark)}
    (h : l.Counts text marks) (c : Char) : (l.count c).Counts (text ++ [c]) marks := by
  obtain ⟨hcolumn, hlines, hmarked⟩ := h
  by_cases hc : c = '\n'
  · subst hc
    refine ⟨?_, ?_, ?_⟩
    · rw [columnAfter_snoc]
      rfl
    · rw [lineAfter_append, ← hlines]
      simp [Linearizer.count, closeLine, lineAfter]
    · simp only [Linearizer.count, closeLine, if_true, Array.toList_push, List.reverse_nil]
      rw [numbered_snoc_nil, hmarked]
  · have hline : lineAfter (text ++ [c]) = lineAfter text := by
      rw [lineAfter_append]
      simp [lineAfter, hc]
    have hcount : l.count c = { l with column := l.column + codeUnits c } := by
      by_cases hwide : 0xFFFF < c.toNat
      · simp [Linearizer.count, codeUnits, hc, hwide]
      · simp [Linearizer.count, codeUnits, hc, hwide]
    rw [hcount]
    refine ⟨?_, ?_, hmarked⟩
    · simp [columnAfter_snoc, hc, hcolumn]
    · rw [hline, ← hlines]

lemma Counts.foldl_count {l : Linearizer} {text : List Char} {marks : List (Nat × Mark)}
    (h : l.Counts text marks) (more : List Char) :
    (more.foldl Linearizer.count l).Counts (text ++ more) marks := by
  induction more generalizing l text with
  | nil => simpa using h
  | cons c rest ih => simpa using ih (h.count c)

/-- Counting leaves the text, the depth and the indentation alone. -/
lemma foldl_count_frame (l : Linearizer) (more : List Char) :
    (more.foldl count l).output = l.output ∧ (more.foldl count l).depth = l.depth ∧
      (more.foldl count l).indent = l.indent := by
  induction more generalizing l with
  | nil => exact ⟨rfl, rfl, rfl⟩
  | cons c rest ih =>
      have hone : (l.count c).output = l.output ∧ (l.count c).depth = l.depth ∧
          (l.count c).indent = l.indent := by
        unfold count closeLine
        split_ifs <;> exact ⟨rfl, rfl, rfl⟩
      obtain ⟨h₁, h₂, h₃⟩ := ih (l.count c)
      exact ⟨h₁.trans hone.1, h₂.trans hone.2.1, h₃.trans hone.2.2⟩

@[simp] lemma append_depth (l : Linearizer) (s : String) : (l.append s).depth = l.depth :=
  (foldl_count_frame _ _).2.1

@[simp] lemma append_indent (l : Linearizer) (s : String) : (l.append s).indent = l.indent :=
  (foldl_count_frame _ _).2.2

/-- Writing a text adds it and marks nothing. -/
lemma Shows.append {l : Linearizer} {text : List Char} {marks : List (Nat × Mark)}
    (h : l.Shows text marks) (s : String) : (l.append s).Shows (text ++ s.toList) marks := by
  have hcounts : ({ l with output := l.output ++ s } : Linearizer).Counts text marks :=
    ⟨h.column, h.lines, h.marked⟩
  refine ⟨hcounts.foldl_count s.toList, ?_⟩
  rw [Linearizer.append, (foldl_count_frame _ _).1, String.toList_append, h.output]

lemma mark_eq_ok_iff {l l' : Linearizer} {p : Position} :
    l.mark p = .ok l' ↔
      ∃ line, p.line.plus? (-1) = some line ∧
        l' = { l with marks := ⟨l.column, line, p.column⟩ :: l.marks } := by
  rw [Linearizer.mark, bind_eq_ok_iff]
  simp only [orMalformed_eq_ok_iff, pure_eq_ok, Except.ok.injEq, eq_comm (b := l')]

/-- Marking a place adds its mark and writes nothing. -/
lemma Shows.mark {l l' : Linearizer} {text : List Char} {marks : List (Nat × Mark)} {p : Position}
    (h : l.Shows text marks) (hl' : l.mark p = .ok l') :
    l'.Shows text (marks ++ [ChunkEnd.mark ⟨text, p⟩]) := by
  obtain ⟨line, hline, rfl⟩ := mark_eq_ok_iff.mp hl'
  refine ⟨⟨h.column, h.lines, ?_⟩, h.output⟩
  have hfrom : fromZero p.line = line := by simp [fromZero, hline]
  rw [← h.marked, ChunkEnd.mark, hfrom, ← h.column, ← h.lines]
  simp [numbered_snoc]

/-! ## One command -/

/-- The text of a comment that could be written. -/
lemma commentBody_toList {l : Linearizer} {comment : Json} {body : String}
    (h : l.commentBody comment = .ok body) :
    body.toList = commentAt l.indent l.depth comment := by
  obtain ⟨value, hvalue, h⟩ := bind_eq_ok_iff.mp h
  obtain ⟨line, hline, h⟩ := bind_eq_ok_iff.mp h
  rw [commentAt, hvalue, hline]
  cases line with
  | true =>
      rw [if_pos rfl, pure_eq_ok, Except.ok.injEq] at h
      rw [← h, String.toList_append]
  | false =>
      rw [if_neg Bool.false_ne_true] at h
      obtain ⟨s, hs, h⟩ := bind_eq_ok_iff.mp h
      cases value with
      | str t =>
          simp only [Json.text, Except.ok.injEq] at hs
          subst hs
          simp only [lineBreak_toList, pure_eq_ok, Except.ok.injEq] at h
          simp [← h]
      | _ => simp [Json.text] at hs

/-- Writing a chunk marks its two ends, if it has a place. -/
lemma Shows.chunk {l l' : Linearizer} {text : List Char} {marks : List (Nat × Mark)} {s : String}
    {span : Option Span} (h : l.Shows text marks) (hl' : l.chunk s span = .ok l') :
    l'.Shows (text ++ s.toList)
      (marks ++ ((Command.chunk s span).ends text).map ChunkEnd.mark) := by
  cases span with
  | none =>
      simp only [Linearizer.chunk, Except.ok.injEq] at hl'
      subst hl'
      simpa [Command.ends] using h.append s
  | some span =>
      obtain ⟨m, hm, hl'⟩ := bind_eq_ok_iff.mp hl'
      simpa [Command.ends] using ((h.mark hm).append s).mark hl'

/-- Writing a comment, with what follows it. -/
lemma Shows.comment {l l' : Linearizer} {text : List Char} {marks : List (Nat × Mark)} {c : Json}
    {after : Break} (h : l.Shows text marks) (hl' : l.comment c after = .ok l') :
    l'.Shows (text ++ (Command.comment c after).textAt l.indent l.depth) marks := by
  obtain ⟨body, hbody, hl'⟩ := bind_eq_ok_iff.mp hl'
  rw [pure_eq_ok, Except.ok.injEq] at hl'
  subst hl'
  have happend := h.append body
  rw [commentBody_toList hbody] at happend
  simp only [Command.textAt, ← List.append_assoc]
  cases after with
  | none => simpa [breakAt] using happend
  | space => simpa [breakAt] using happend.append " "
  | newline => simpa [breakAt, lineBreak_toList] using happend.append l.lineBreak

/-- A change of the depth alone shows the same. -/
lemma Shows.setDepth {l : Linearizer} {text : List Char} {marks : List (Nat × Mark)}
    (h : l.Shows text marks) (depth : Nat) :
    ({ l with depth := depth } : Linearizer).Shows text marks :=
  ⟨⟨h.column, h.lines, h.marked⟩, h.output⟩

/-- **One step.**  A command that is carried out adds what it writes and marks its own places. -/
lemma step_shows {l l' : Linearizer} {text : List Char} {marks : List (Nat × Mark)} {c : Command}
    (h : l.Shows text marks) (hl' : l.step c = .ok l') :
    l'.Shows (text ++ c.textAt l.indent l.depth) (marks ++ (c.ends text).map ChunkEnd.mark) := by
  cases c with
  | chunk s span =>
      rw [step, ofFault_eq_ok_iff] at hl'
      exact h.chunk hl'
  | comment c after =>
      rw [step, ofFault_eq_ok_iff] at hl'
      simpa [Command.ends] using h.comment hl'
  | foreignChunk v span => simp [step] at hl'
  | dedent =>
      simp only [step] at hl'
      split_ifs at hl' with hmargin
      rw [Except.ok.injEq] at hl'
      subst hl'
      simpa [Command.ends, Command.textAt] using h.setDepth _
  | text s =>
      simp only [step, Except.ok.injEq] at hl'
      subst hl'
      simpa [Command.ends, Command.textAt] using h.append s
  | newline =>
      simp only [step, Except.ok.injEq] at hl'
      subst hl'
      simpa [Command.ends, Command.textAt, lineBreak_toList] using h.append l.lineBreak
  | indent =>
      simp only [step, Except.ok.injEq] at hl'
      subst hl'
      simpa [Command.ends, Command.textAt] using h.setDepth _
  | _ =>
      -- what is left writes nothing
      simp only [step, Except.ok.injEq] at hl'
      subst hl'
      simpa [Command.ends, Command.textAt] using h

/-! ## The depth -/

lemma mark_frame {l l' : Linearizer} {p : Position} (hl' : l.mark p = .ok l') :
    l'.depth = l.depth ∧ l'.indent = l.indent := by
  obtain ⟨line, -, rfl⟩ := mark_eq_ok_iff.mp hl'
  exact ⟨rfl, rfl⟩

lemma chunk_frame {l l' : Linearizer} {s : String} {span : Option Span}
    (hl' : l.chunk s span = .ok l') : l'.depth = l.depth ∧ l'.indent = l.indent := by
  cases span with
  | none =>
      simp only [Linearizer.chunk, Except.ok.injEq] at hl'
      subst hl'
      simp
  | some span =>
      obtain ⟨m, hm, hl'⟩ := bind_eq_ok_iff.mp hl'
      obtain ⟨hdepth, hindent⟩ := mark_frame hm
      obtain ⟨hdepth', hindent'⟩ := mark_frame hl'
      simp_all

lemma comment_frame {l l' : Linearizer} {c : Json} {after : Break}
    (hl' : l.comment c after = .ok l') : l'.depth = l.depth ∧ l'.indent = l.indent := by
  obtain ⟨body, -, hl'⟩ := bind_eq_ok_iff.mp hl'
  rw [pure_eq_ok, Except.ok.injEq] at hl'
  subst hl'
  cases after <;> simp

/-- Only the markers move the depth, and nothing changes the indentation. -/
lemma step_frame {l l' : Linearizer} {c : Command} (hl' : l.step c = .ok l') :
    l'.depth = c.depthAfter l.depth ∧ l'.indent = l.indent := by
  cases c with
  | chunk s span =>
      rw [step, ofFault_eq_ok_iff] at hl'
      exact chunk_frame hl'
  | comment c after =>
      rw [step, ofFault_eq_ok_iff] at hl'
      exact comment_frame hl'
  | foreignChunk v span => simp [step] at hl'
  | dedent =>
      simp only [step] at hl'
      split_ifs at hl' with hmargin
      rw [Except.ok.injEq] at hl'
      subst hl'
      exact ⟨rfl, rfl⟩
  | _ =>
      simp only [step, Except.ok.injEq] at hl'
      subst hl'
      simp [Command.depthAfter]

/-! ## Many commands -/

/-- **A whole run.**  Commands that are all carried out add what they write, in order, and mark
their places. -/
lemma runLeaves_shows {l l' : Linearizer} {text : List Char} {marks : List (Nat × Mark)}
    {leaves : List Command} (h : l.Shows text marks) (hl' : l.runLeaves leaves = (l', none)) :
    l'.Shows (text ++ written l.indent l.depth leaves)
      (marks ++ (endsOf l.indent text l.depth leaves).map ChunkEnd.mark) := by
  induction leaves generalizing l text marks with
  | nil =>
      simp only [runLeaves, Prod.mk.injEq, and_true] at hl'
      subst hl'
      simpa [written, endsOf] using h
  | cons c rest ih =>
      simp only [runLeaves] at hl'
      cases hstep : l.step c with
      | error e => simp [hstep] at hl'
      | ok next =>
          simp only [hstep] at hl'
          obtain ⟨hdepth, hindent⟩ := step_frame hstep
          have hrest := ih (step_shows h hstep) hl'
          rw [hdepth, hindent] at hrest
          simpa [written, endsOf] using hrest

/-- A run goes through the leaves. -/
lemma run_eq (l : Linearizer) (commands : List Command) :
    l.run commands = l.runLeaves (Command.leavesAll commands) := by
  rw [run, Command.walk_eq]
  simp

lemma shows_start (indent : String) : ({ indent := indent } : Linearizer).Shows [] [] :=
  ⟨⟨rfl, rfl, rfl⟩, rfl⟩

/-- Closing the last line shows nothing new. -/
lemma Shows.closeLine {l : Linearizer} {text : List Char} {marks : List (Nat × Mark)}
    (h : l.Shows text marks) :
    l.closeLine.output.toList = text ∧ l.closeLine.mappings.length = lineAfter text + 1 ∧
      numbered l.closeLine.mappings = marks := by
  refine ⟨h.output, ?_, ?_⟩
  · simp [Linearizer.closeLine, mappings, h.lines]
  · rw [← h.marked]
    simp [Linearizer.closeLine, mappings]

end Linearizer

/-- **What linearizing gives**, whenever it succeeds: the text that the leaves write, one line of
marks more than it has line feeds, and the marks of its chunks. -/
theorem linearize_eq_ok {commands : List Command} {indent code : String}
    {lines : List (List Mark)} (h : linearize commands indent = .ok (code, lines)) :
    code.toList = written indent 0 (Command.leavesAll commands) ∧
      lines.length = lineAfter code.toList + 1 ∧
      numbered lines = (endsOf indent [] 0 (Command.leavesAll commands)).map ChunkEnd.mark := by
  rw [linearize, Linearizer.run_eq] at h
  cases hrun : ({ indent := indent } : Linearizer).runLeaves (Command.leavesAll commands) with
  | mk l failure =>
      rw [hrun] at h
      cases failure with
      | some e => simp at h
      | none =>
          have hshows := Linearizer.runLeaves_shows (Linearizer.shows_start indent) hrun
          simp only [List.nil_append] at hshows
          simp only [Linearizer.finish] at h
          split_ifs at h with hmargin
          simp only [Except.ok.injEq, Prod.mk.injEq] at h
          obtain ⟨rfl, rfl⟩ := h
          obtain ⟨houtput, hlength, hmarks⟩ := hshows.closeLine
          exact ⟨houtput, by rw [houtput]; exact hlength, hmarks⟩

end EstreePrinter
