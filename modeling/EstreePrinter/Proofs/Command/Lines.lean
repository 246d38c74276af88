import Mathlib
import EstreePrinter.Proofs.Command.Flattening
import EstreePrinter.Proofs.Linearizer.Written

/-!
# Nothing is written behind a line comment

A line comment runs to the end of its line, so what is written behind it on the same line is lost.

**What is asked of a text.**  Every character that is written comes from the text of a line comment,
from another comment or the break behind one, or from a command that is no comment: its `Origin`.  A
text is legible (`Legible`) if between a character of a line comment and a later one that is code
there is a line feed, unless the latter is a blank.

**What is asked of commands.**  `Command.lines` goes through the leaves and keeps track of whether
the line being written holds a line comment.  It stops at a command that would write code there.
Leaves that it gets through write a legible text, at any depth and indentation (`legible_letters`).

Commands are readable (`Command.IsReadable`) if `lines` gets through them, started on a line without
a line comment.
-/

namespace EstreePrinter

/-- Where a character of the output comes from. -/
inductive Origin where
  /-- The text of a comment that runs to the end of its line. -/
  | lineComment
  /-- The text of any other comment, or the break behind a comment. -/
  | comment
  /-- A command that is no comment. -/
  | code
  deriving Repr, DecidableEq

/-- Whether a comment is known to run to the end of its line. -/
def Json.isLine (comment : Json) : Bool :=
  match comment.isLineComment with
  | .ok line => line
  | .error _ => false

/-- A line feed stands between a line comment and what is written behind it. -/
def Legible (text : List (Origin × Char)) : Prop :=
  ∀ before between behind x y, text = before ++ (.lineComment, x) :: between ++ (.code, y) :: behind →
    isBlank y = false → '\n' ∈ between.map Prod.snd

namespace Command

/-! ## Characters -/

/-- What a leaf writes at a depth, with the origin of each character. -/
def letters (indent : String) (depth : Nat) : Command → List (Origin × Char)
  | .comment c after =>
      (commentAt indent depth c).map
          (Prod.mk (if c.isLine then Origin.lineComment else .comment)) ++
        (breakAt indent depth after).map (Prod.mk Origin.comment)
  | c => (c.textAt indent depth).map (Prod.mk Origin.code)

lemma letters_map_snd (indent : String) (depth : Nat) (c : Command) :
    (c.letters indent depth).map Prod.snd = c.textAt indent depth := by
  cases c <;> simp [letters, textAt, Function.comp_def]

end Command

/-- What leaves write one after the other, from a depth on, with the origin of each character. -/
def letters (indent : String) : Nat → List Command → List (Origin × Char)
  | _, [] => []
  | depth, c :: rest => c.letters indent depth ++ letters indent (c.depthAfter depth) rest

/-- The letters are the text that is written. -/
lemma letters_map_snd (indent : String) (depth : Nat) (leaves : List Command) :
    (letters indent depth leaves).map Prod.snd = written indent depth leaves := by
  induction leaves generalizing depth with
  | nil => rfl
  | cons c rest ih => simp [letters, written, ih, Command.letters_map_snd]

/-! ## The line being written -/

namespace Origin

/-- Whether the line holds a line comment behind a character, if it did before it. -/
def opened (o : Bool) (letter : Origin × Char) : Bool :=
  letter.1 == .lineComment || (o && letter.2 != '\n')

/-- Whether a text can be read that is written on a line which holds a line comment already, if `o`
says so. -/
def Readable (o : Bool) : List (Origin × Char) → Prop
  | [] => True
  | letter :: rest =>
      (o = true → letter.1 = .code → isBlank letter.2 = true) ∧ Readable (opened o letter) rest

lemma readable_append {o : Bool} {text more : List (Origin × Char)} :
    Readable o (text ++ more) ↔ Readable o text ∧ Readable (text.foldl opened o) more := by
  induction text generalizing o with
  | nil => simp [Readable]
  | cons letter rest ih => simp [Readable, ih, and_assoc]

lemma opened_mono {o o' : Bool} (h : o = true → o' = true) (letter : Origin × Char) :
    opened o letter = true → opened o' letter = true := by
  simp only [opened, Bool.or_eq_true, Bool.and_eq_true]
  exact Or.imp_right (And.imp_left h)

/-- What can be read behind a line comment can be read anywhere. -/
lemma Readable.mono {o o' : Bool} (h : o = true → o' = true) {text : List (Origin × Char)}
    (htext : Readable o' text) : Readable o text := by
  induction text generalizing o o' with
  | nil => trivial
  | cons letter rest ih =>
      exact ⟨fun ho => htext.1 (h ho), ih (opened_mono h letter) htext.2⟩

/-- Code that comes behind a line comment has a line feed before it. -/
lemma Readable.lineFeed {between behind : List (Origin × Char)} {y : Char}
    (h : Readable true (between ++ (.code, y) :: behind)) (hy : isBlank y = false) :
    '\n' ∈ between.map Prod.snd := by
  induction between with
  | nil => simp_all [Readable]
  | cons letter rest ih =>
      by_cases hletter : letter.2 = '\n'
      · simp [hletter]
      · have hopened : opened true letter = true := by simp [opened, hletter]
        have hrest := h.2
        rw [hopened] at hrest
        simpa using Or.inr (by simpa using ih hrest)

lemma Readable.legible {text : List (Origin × Char)} (h : Readable false text) : Legible text := by
  rintro before between behind x y rfl hy
  rw [List.append_assoc, readable_append, List.cons_append] at h
  -- the character of the line comment opens the line, whatever it held before
  exact Readable.lineFeed (by simpa [Readable, opened] using h.2.2) hy

end Origin

namespace Command

/-! ## Leaves -/

/-- Whether a text is nothing but blanks. -/
def isBlankText (s : String) : Bool := s.toList.all isBlank

/-- Whether the line holds a line comment behind a leaf, if it did before it; nothing if the leaf
would write code behind a line comment. -/
def lineAfter (o : Bool) : Command → Option Bool
  | .text s => if o && !isBlankText s then none else some o
  | .chunk s _ => if o && !isBlankText s then none else some o
  | .newline => some false
  | .comment c after =>
      some (after != .newline && (o || c.isLine))
  | _ => some o

/-- The same for leaves one after the other. -/
def lines (o : Bool) : List Command → Option Bool
  | [] => some o
  | c :: rest => (c.lineAfter o).bind fun o => lines o rest

@[simp] lemma lines_nil (o : Bool) : lines o [] = some o := rfl

@[simp] lemma lines_cons (o : Bool) (c : Command) (rest : List Command) :
    lines o (c :: rest) = (c.lineAfter o).bind fun o => lines o rest := rfl

open Origin (Readable)

/-- Characters of one origin that is no line comment leave the line as it is, or end it. -/
lemma foldl_opened_map {origin : Origin} (h : origin ≠ .lineComment) (o : Bool)
    (text : List Char) : (text.map (Prod.mk origin)).foldl Origin.opened o =
      (o && !text.contains '\n') := by
  induction text generalizing o with
  | nil => simp
  | cons c rest ih =>
      have hstep : Origin.opened o (origin, c) = (o && c != '\n') := by simp [Origin.opened, h]
      rw [List.map_cons, List.foldl_cons, hstep, ih]
      by_cases hc : c = '\n'
      · simp [hc]
      · have hc' : ¬ '\n' = c := fun h => hc h.symm
        have hne : (c != '\n') = true := bne_iff_ne.mpr hc
        simp [hne, hc']

lemma readable_map_of_ne_code {origin : Origin} (h : origin ≠ .code) (o : Bool)
    (text : List Char) : Readable o (text.map (Prod.mk origin)) := by
  induction text generalizing o with
  | nil => trivial
  | cons c rest ih => exact ⟨fun _ hcode => absurd hcode h, ih _⟩

lemma readable_map_code {o : Bool} {text : List Char}
    (h : o = true → text.all isBlank = true) : Readable o (text.map (Prod.mk Origin.code)) := by
  induction text generalizing o with
  | nil => trivial
  | cons c rest ih =>
      simp only [List.all_cons, Bool.and_eq_true] at h
      refine ⟨fun ho _ => (h ho).1, ih fun ho => ?_⟩
      simp only [Origin.opened, Bool.or_eq_true, Bool.and_eq_true] at ho
      rcases ho with ho | ho
      · cases ho
      · exact (h ho.1).2

/-- **A leaf is read as `lineAfter` says**: the line holds a line comment afterwards only if it
says so. -/
lemma readable_letters {o o' : Bool} {c : Command} (h : c.lineAfter o = some o') (indent : String)
    (depth : Nat) : Readable o (c.letters indent depth) ∧
      ((c.letters indent depth).foldl Origin.opened o = true → o' = true) := by
  have hcode (s : String) (hs : (if o && !isBlankText s then none else some o) = some o') :
      Readable o (s.toList.map (Prod.mk Origin.code)) ∧
        ((s.toList.map (Prod.mk Origin.code)).foldl Origin.opened o = true → o' = true) := by
    split_ifs at hs with hblank
    obtain rfl := Option.some.inj hs
    rw [foldl_opened_map (by decide), Bool.and_eq_true]
    refine ⟨readable_map_code fun ho => ?_, And.left⟩
    simpa [ho, isBlankText] using hblank
  cases c with
  | text s => exact hcode s h
  | chunk s span => exact hcode s h
  | newline =>
      obtain rfl := Option.some.inj h
      have hends : ((lineBreakAt indent depth).map (Prod.mk Origin.code)).foldl Origin.opened o =
          false := by
        rw [foldl_opened_map (by decide)]
        simp [lineBreakAt]
      -- the indentation comes behind the line feed, so it may be anything
      refine ⟨⟨fun _ _ => rfl, readable_map_code fun ho => ?_⟩, fun ho => ?_⟩
      · simp [Origin.opened] at ho
      · exact absurd (hends.symm.trans ho) (by decide)
  | comment c after =>
      obtain rfl := Option.some.inj h
      have hbreak (o : Bool) : ((breakAt indent depth after).map (Prod.mk Origin.comment)).foldl
          Origin.opened o = (after != .newline && o) := by
        rw [foldl_opened_map (by decide)]
        cases after <;> simp [breakAt, lineBreakAt]
      refine ⟨?_, ?_⟩
      · rw [letters, Origin.readable_append]
        exact ⟨readable_map_of_ne_code (by split <;> decide) _ _,
          readable_map_of_ne_code (by decide) _ _⟩
      · rw [letters, List.foldl_append, hbreak]
        cases hline : c.isLine with
        | true => simp +contextual
        | false =>
            rw [if_neg (by decide), foldl_opened_map (by decide)]
            simp +contextual
  | _ =>
      obtain rfl := Option.some.inj h
      exact ⟨trivial, id⟩

/-- Leaves that `lines` gets through can be read. -/
lemma readable_of_lines {o : Bool} {leaves : List Command} (h : (lines o leaves).isSome)
    (indent : String) (depth : Nat) : Readable o (EstreePrinter.letters indent depth leaves) := by
  induction leaves generalizing o depth with
  | nil => trivial
  | cons c rest ih =>
      rw [lines_cons] at h
      cases hc : c.lineAfter o with
      | none => simp [hc] at h
      | some o' =>
          obtain ⟨hread, hline⟩ := readable_letters hc indent depth
          rw [EstreePrinter.letters, Origin.readable_append]
          exact ⟨hread, (ih (by simpa [hc] using h) _).mono hline⟩

/-! ## Commands -/

/-- Commands that write no code behind a line comment, if there was none before. -/
def IsReadable (commands : List Command) : Prop := (lines false (leavesAll commands)).isSome

/-- **Readable commands write a legible text**, wherever they start. -/
lemma legible_letters {commands : List Command} (h : IsReadable commands) (indent : String)
    (depth : Nat) : Legible (EstreePrinter.letters indent depth (leavesAll commands)) :=
  (readable_of_lines h indent depth).legible

end Command

end EstreePrinter
