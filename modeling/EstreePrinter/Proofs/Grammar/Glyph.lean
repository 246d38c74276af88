import Mathlib
import EstreePrinter.Proofs.Estree.Form
import EstreePrinter.Proofs.Grammar.Statement
import EstreePrinter.Proofs.Grammar.Token
import EstreePrinter.Proofs.Render.Guarded

/-!
# Printed text with the expressions in it left out

For the grammar of statements an expression is one terminal, whatever its text.  In a rendering that
notes where a node begins and ends (`Render.announced`) the text of an expression can be told from
the text around it: what is emitted inside of a node that is no statement is one glyph, and
everything else is the characters that are written, with a blank in the place of each comment.

* `glyphs` — the characters and expressions of commands;
* `Behind.run` — reading them as words, signs and expressions, the longest word that fits; an
  expression runs into a word beside it;
* **`readGlyphs`** — the terminals of a whole text.
-/

namespace EstreePrinter

open Json (Part)

namespace Json

/-- The kinds of statements that hold statements, and of the ones that hold an expression only. -/
def statementKinds : List String :=
  ["IfStatement", "WhileStatement", "ForStatement", "ForInStatement", "ForOfStatement",
    "WithStatement", "LabeledStatement", "BlockStatement", "ExpressionStatement"]

/-- Whether a node is one of these statements. -/
def isStatement (node : Json) : Bool :=
  match node.kindName? with
  | some kind => statementKinds.contains kind
  | none => false

end Json

namespace Grammar.Statement

/-! ## Glyphs -/

/-- A character of a text, or an expression in it. -/
inductive Glyph where
  | char (c : Char)
  | node (node : Json)

/-- What a command writes, with a blank for a comment. -/
def glyphsOf : Command → List Glyph
  | .text s => s.toList.map .char
  | .chunk s _ => s.toList.map .char
  | .newline => [.char '\n']
  | .comment _ _ => [.char ' ']
  | _ => []

/-- **The glyphs of commands without placeholders**, inside of `depth` nodes of which the outermost
is one glyph. -/
def glyphs : Nat → List Command → List Glyph
  | _, [] => []
  | 0, c :: rest =>
    match c.bracketed? with
    | none => glyphsOf c ++ glyphs 0 rest
    | some (_, false) => glyphs 0 rest
    | some (node, true) => if node.isStatement then glyphs 0 rest else .node node :: glyphs 1 rest
  | depth + 1, c :: rest =>
    match c.bracketed? with
    | none => glyphs (depth + 1) rest
    | some (_, false) => glyphs depth rest
    | some (_, true) => glyphs (depth + 2) rest

section Brackets

variable {node : Json} {rest : List Command}

lemma glyphs_open {depth : Nat} :
    glyphs (depth + 1) (.bracket node true :: rest) = glyphs (depth + 2) rest := by
  rw [glyphs]
  rfl

lemma glyphs_close {depth : Nat} :
    glyphs (depth + 1) (.bracket node false :: rest) = glyphs depth rest := by
  rw [glyphs]
  rfl

lemma glyphs_openStatement (hnode : node.isStatement = true) :
    glyphs 0 (.bracket node true :: rest) = glyphs 0 rest :=
  if_pos hnode

lemma glyphs_closeStatement : glyphs 0 (.bracket node false :: rest) = glyphs 0 rest := rfl

lemma glyphs_openExpression (hnode : node.isStatement = false) :
    glyphs 0 (.bracket node true :: rest) = .node node :: glyphs 1 rest :=
  if_neg (by simp [hnode])

/-- Inside of a node nothing is seen. -/
lemma glyphs_inside {guard : Json → Bool} {commands : List Command}
    (h : Command.Nested guard commands) (depth : Nat) :
    glyphs (depth + 1) (commands ++ rest) = glyphs (depth + 1) rest := by
  replace h := h.weaken
  generalize hfree : (fun _ : Json => false) = free at h
  induction h generalizing depth rest with
  | nil => rfl
  | cons hc _ ih =>
      rw [List.cons_append, glyphs, hc]
      exact ih depth hfree
  | node _ _ _ ihbody ih =>
      rw [List.cons_append, List.append_assoc, List.cons_append, glyphs_open, ihbody _ hfree,
        glyphs_close, ih _ hfree]
  | parens hnode =>
      subst hfree
      cases hnode

end Brackets

/-- The glyphs of commands that leave no node open. -/
def Writes (commands : List Command) (gs : List Glyph) : Prop :=
  ∀ rest, glyphs 0 (Command.leavesAll commands ++ rest) = gs ++ glyphs 0 rest

namespace Writes

variable {cs ds : List Command} {gs hs : List Glyph} {node : Json}

lemma nil : Writes [] [] := fun rest => by simp

lemma append (h : Writes cs gs) (h' : Writes ds hs) : Writes (cs ++ ds) (gs ++ hs) := fun rest => by
  rw [Command.leavesAll_append, List.append_assoc, h, h', List.append_assoc]

lemma text (s : String) : Writes [.text s] (s.toList.map .char) := fun rest => by
  simp [Command.leaves, glyphs, Command.bracketed?, glyphsOf]

lemma newline : Writes [.newline] [.char '\n'] := fun rest => by
  simp [Command.leaves, glyphs, Command.bracketed?, glyphsOf]

lemma indent : Writes [.indent] [] := fun rest => by
  simp [Command.leaves, glyphs, Command.bracketed?, glyphsOf]

lemma dedent : Writes [.dedent] [] := fun rest => by
  simp [Command.leaves, glyphs, Command.bracketed?, glyphsOf]

lemma comment (comment : Json) (after : Break) : Writes [.comment comment after] [.char ' '] :=
  fun rest => by simp [Command.leaves, glyphs, Command.bracketed?, glyphsOf]

lemma deferred (name : String) (h : Writes cs gs) : Writes [.deferred name cs] gs := fun rest => by
  simpa [Command.leaves] using h rest

/-- A statement shows what it consists of. -/
lemma statement (hnode : node.isStatement = true) (h : Writes cs gs) :
    Writes (.bracket node true :: (cs ++ [.bracket node false])) gs := fun rest => by
  simp only [Command.leavesAll_cons, Command.leavesAll_append, Command.leavesAll_nil,
    Render.leaves_bracket, List.cons_append, List.nil_append, List.append_assoc]
  rw [glyphs_openStatement hnode, h, glyphs_closeStatement]

/-- Of an expression nothing is seen but where it stands. -/
lemma expression (hnode : node.isStatement = false) {guard : Json → Bool}
    (h : Command.Nested guard (Command.leavesAll cs)) :
    Writes (.bracket node true :: (cs ++ [.bracket node false])) [.node node] := fun rest => by
  simp only [Command.leavesAll_cons, Command.leavesAll_append, Command.leavesAll_nil,
    Render.leaves_bracket, List.cons_append, List.nil_append, List.append_assoc]
  rw [glyphs_openExpression hnode, glyphs_inside h, glyphs_close]

end Writes

/-! ## Reading glyphs -/

/-- The signs of statements. -/
def statementSigns : List Char := ['(', ')', '\x7b', '\x7d', ';', ':', ',']

/-- What was read last: a blank or a sign, letters of a word, or an expression. -/
inductive Behind where
  | gap
  | word (letters : List Char)
  | node

namespace Behind

/-- The word that was read, if it ends. -/
def ended : Behind → List Terminal
  | word letters => [.token (String.ofList letters)]
  | _ => []

/-- Read one glyph: the terminals that end with it, and what was read then. -/
def step : Behind → Glyph → Option (List Terminal × Behind)
  | gap, .node e => some ([.node e], node)
  | _, .node _ => none
  | b, .char c =>
    if isWordChar c then
      match b with
      | gap => some ([], word [c])
      | word letters => some ([], word (letters ++ [c]))
      | node => none
    else if isBlank c then some (b.ended, gap)
    else if statementSigns.contains c then some (b.ended ++ [.token (String.singleton c)], gap)
    else none

/-- **Read glyphs.** -/
def run (b : Behind) : List Glyph → Option (List Terminal × Behind)
  | [] => some ([], b)
  | g :: rest =>
    match b.step g with
    | none => none
    | some (first, b') => (b'.run rest).map fun (others, b'') => (first ++ others, b'')

lemma run_append {a b c : Behind} {gs hs : List Glyph} {ts us : List Terminal}
    (h : a.run gs = some (ts, b)) (h' : b.run hs = some (us, c)) :
    a.run (gs ++ hs) = some (ts ++ us, c) := by
  induction gs generalizing a ts with
  | nil =>
      obtain ⟨rfl, rfl⟩ : [] = ts ∧ a = b := by simpa [run] using h
      exact h'
  | cons g rest ih =>
      rw [run] at h
      rw [List.cons_append, run]
      cases hstep : a.step g with
      | none => simp [hstep] at h
      | some first =>
          rw [hstep] at h
          dsimp only at h ⊢
          obtain ⟨⟨others, d⟩, hothers, heq⟩ := Option.map_eq_some_iff.mp h
          obtain ⟨rfl, rfl⟩ := Prod.mk.inj heq
          simp [ih hothers]

end Behind

/-- **The terminals of glyphs**, if they are words, signs and expressions that stand apart. -/
def readGlyphs (gs : List Glyph) : Option (List Terminal) :=
  (Behind.gap.run gs).map fun (ts, b) => ts ++ b.ended

end Grammar.Statement

end EstreePrinter
