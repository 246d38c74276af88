import Mathlib
import EstreePrinter.Proofs.Printer.Finished
import EstreePrinter.Proofs.Grammar.Passage
import EstreePrinter.Proofs.Grammar.Spelling

/-!
# Reading what is printed

From a tree that gives lexemes to the text that is written for it: whatever the width and the
indentation, the text is made of the lexemes (`handle_of_gives`), and if they are a passage, it is
read as tokens that have the property of the passage (**`handle_of_content`**).

Comments are no tokens.  Where there may be some, the text is read with blanks in their place
(`Reread`); without any this is the text itself.  That no code stands behind a line comment on its
line holds of all rules at once (`Command.allows_lineWatch`, `Render.leads_tree`).
-/

namespace EstreePrinter

namespace Grammar

open Render (Gives GivesFrom)

/-- **What is written for commands, and how it is read**: with blanks in the place of the comments,
if any are known. -/
def Reread (known : Json → Prop) (commands : List Command) (indent : String)
    (P : String → Prop) : Prop :=
  ∃ code marks, linearize commands indent = .ok (code, marks) ∧
    ∃ read marks', linearize (Command.blankedAll commands) indent = .ok (read, marks') ∧
      ((∀ c, ¬known c) → read = code) ∧ P read

lemma Reread.mono {known : Json → Prop} {commands : List Command} {indent : String}
    {P Q : String → Prop} (h : Reread known commands indent P) (hPQ : ∀ read, P read → Q read) :
    Reread known commands indent Q := by
  obtain ⟨code, marks, hcode, read, marks', hread, hsame, hP⟩ := h
  exact ⟨code, marks, hcode, read, marks', hread, hsame, hPQ read hP⟩

/-- Without comments there is only one text to read. -/
lemma Reread.plain {commands : List Command} {indent : String} {P : String → Prop}
    (h : Reread Json.NoComment commands indent P) :
    ∃ code marks, linearize commands indent = .ok (code, marks) ∧ P code := by
  obtain ⟨code, marks, hcode, read, marks', -, hsame, hP⟩ := h
  exact ⟨code, marks, hcode, hsame (fun _ => id) ▸ hP⟩

section Spelled

variable {known : Json → Prop} {commands : List Command} {ls : List Lexeme} {indent : String}

/-- Writable leaves that are balanced are written. -/
lemma exists_linearize (hbalanced : Command.Balanced (Command.leavesAll commands))
    (hwritable : ∀ c ∈ Command.leavesAll commands, c.IsWritable) (hindent : indent ≠ "") :
    ∃ code marks, linearize commands indent = .ok (code, marks) := by
  obtain ⟨⟨code, marks⟩, hcode⟩ | ⟨failure, hfailure⟩ :=
    linearize_of_isWritable indent hwritable
  · exact ⟨code, marks, hcode⟩
  · exact absurd hfailure (linearize_ne_layout hindent hbalanced failure)

/-- What spells lexemes is written as a text that is made of them. -/
lemma reread_of_spells (hknown : ∀ c, known c → c.IsComment)
    (hbalanced : Command.Balanced (Command.leavesAll commands))
    (hspells : Command.Spells known commands ls) (hblank : BlankIndent indent)
    (hindent : indent ≠ "") :
    Reread known commands indent fun read => Renders ls read.toList := by
  have hblanks := Command.leavesAll_blankedAll commands
  obtain ⟨code, marks, hcode⟩ := exists_linearize hbalanced (hspells.isWritable hknown) hindent
  obtain ⟨read, marks', hread⟩ := exists_linearize (Command.balanced_blankedAll hbalanced)
    (hblanks.symm ▸ hspells.writable) hindent
  have htext : read.toList = written indent 0 (Command.blankedAll commands) :=
    hblanks ▸ (linearize_eq_ok hread).1
  have hrenders : Renders ls read.toList := htext ▸ hspells.renders indent 0 hblank
  refine ⟨code, marks, hcode, read, marks', hread, fun hnone => ?_, hrenders⟩
  refine String.toList_injective ?_
  rw [htext, (linearize_eq_ok hcode).1, hspells.blankedAll_eq hnone]

variable {role : Role} {quote : Char} {width : Int} {node : Json}

/-- **A tree that gives lexemes** is rendered, and written as a text that is made of them. -/
theorem handle_rereads (hknown : ∀ c, known c → c.IsComment) {q : Render.Waiting known}
    (h : GivesFrom { quote, width } .none (Render.tree role node) ls q) :
    ∃ after, ({ setting := { quote, width } } : Rendering).handle role node = .ok after ∧
      after.draft.queue = q.1 ∧
      ∀ indent, BlankIndent indent → indent ≠ "" →
        Reread known after.draft.commands indent fun read => Renders ls read.toList := by
  obtain ⟨emission, hrun, hqueue, hspells⟩ := h
  have hsettled := Render.settled.tree role node _ _ _ hrun
  have hhandle := Rendering.handle_eq_ok_iff.mpr (Rendering.run_eq_ok_iff.mpr
    ⟨emission, hrun, rfl, rfl⟩ : ({ setting := { quote, width } } : Rendering).run _ = _)
  have hcommands := Draft.commands_append {} emission.commands emission.queue
  refine ⟨_, hhandle, hqueue, fun indent hblank hindent => ?_⟩
  rw [hcommands]
  exact reread_of_spells hknown hsettled.balanced hspells hblank hindent

/-- The same without comments: none is left over. -/
theorem handle_of_gives (h : Gives { quote, width } (Render.tree role node) ls) :
    ∃ after, ({ setting := { quote, width } } : Rendering).handle role node = .ok after ∧
      after.draft.queue = [] ∧
      ∀ indent, BlankIndent indent → indent ≠ "" →
        ∃ code marks, linearize after.draft.commands indent = .ok (code, marks) ∧
          Renders ls code.toList := by
  obtain ⟨after, hafter, hqueue, hread⟩ := handle_rereads (by simp) h
  exact ⟨after, hafter, hqueue, fun indent hblank hindent => (hread indent hblank hindent).plain⟩

/-- **What is printed as a passage is read as one**, with line breaks around it or not. -/
theorem handle_of_content (h : Gives { quote, width } (Render.tree role node) ls) {A : Alphabet}
    {P : List Token → Prop} (hcontent : Content A P ls) :
    ∃ after, ({ setting := { quote, width } } : Rendering).handle role node = .ok after ∧
      after.draft.queue = [] ∧
      ∀ indent, BlankIndent indent → indent ≠ "" →
        ∃ code marks, linearize after.draft.commands indent = .ok (code, marks) ∧
          ∃ tokens, scan A.toVocabulary false code.toList = some tokens ∧ P tokens := by
  obtain ⟨after, hafter, hqueue, hcode⟩ := handle_of_gives h
  refine ⟨after, hafter, hqueue, fun indent hblank hindent => ?_⟩
  obtain ⟨code, marks, hlinearize, hrenders⟩ := hcode indent hblank hindent
  exact ⟨code, marks, hlinearize, tokensOf false ls,
    scan_of_renders hcontent.legible hrenders false, hcontent.holds false⟩

end Spelled

end Grammar

end EstreePrinter
