import Mathlib
import EstreePrinter.Proofs.Render.Emitted

/-!
# What leaves show

Many statements on commands are about one kind of leaves only, such as the comments or the texts
that come from the tree, in the order in which they stand.  They are observed by a function on
leaves (`Command.observed`), and as long as that function does not see plain text and the markers of
the layout (`OverlooksLayout`), how commands are laid out makes no difference to what is observed: a
separated list shows what its items show, whether it is broken or not, and so do declarations,
argument lists and branches.
-/

namespace EstreePrinter

variable {β : Type} {f : Command → Option β}

namespace Command

/-- What the leaves of commands show, in order. -/
def observed (f : Command → Option β) (commands : List Command) : List β :=
  (leavesAll commands).filterMap f

/-- Plain text and the markers of the layout show nothing. -/
structure OverlooksLayout (f : Command → Option β) : Prop where
  text : ∀ s, f (.text s) = none
  newline : f .newline = none
  indent : f .indent = none
  dedent : f .dedent = none

@[simp] lemma observed_nil : observed f [] = [] := by simp [observed]

@[simp] lemma observed_append (cs ds : List Command) :
    observed f (cs ++ ds) = observed f cs ++ observed f ds := by
  simp [observed]

lemma observed_cons (c : Command) (rest : List Command) :
    observed f (c :: rest) = observed f [c] ++ observed f rest := by
  rw [← observed_append]
  rfl

@[simp] lemma observed_deferred (name : String) (contents rest : List Command) :
    observed f (.deferred name contents :: rest) = observed f contents ++ observed f rest := by
  simp [observed, leaves]

namespace OverlooksLayout

variable (hf : OverlooksLayout f)

include hf

lemma observed_text (s : String) (rest : List Command) :
    observed f (.text s :: rest) = observed f rest := by
  simp [observed, leaves, hf.text]

lemma observed_newline (rest : List Command) :
    observed f (.newline :: rest) = observed f rest := by
  simp [observed, leaves, hf.newline]

lemma observed_indent (rest : List Command) :
    observed f (.indent :: rest) = observed f rest := by
  simp [observed, leaves, hf.indent]

lemma observed_dedent (rest : List Command) :
    observed f (.dedent :: rest) = observed f rest := by
  simp [observed, leaves, hf.dedent]

end OverlooksLayout

end Command

open Command (observed OverlooksLayout)

/-! ## Open places -/

namespace Slot

/-- What slots show, their open places left out. -/
def observed (f : Command → Option β) (slots : List Slot) : List β :=
  Command.observed f (fill "" [] slots)

@[simp] lemma observed_nil : observed f [] = [] := by simp [observed, fill]

@[simp] lemma observed_append (xs ys : List Slot) :
    observed f (xs ++ ys) = observed f xs ++ observed f ys := by
  simp [observed, fill_append]

@[simp] lemma observed_ofCommands (commands : List Command) :
    observed f (ofCommands commands) = Command.observed f commands := by
  simp [observed]

@[simp] lemma observed_join (rest : List Slot) : observed f (.join :: rest) = observed f rest := by
  simp [observed, fill]

lemma observed_own (c : Command) (rest : List Slot) :
    observed f (.own c :: rest) = Command.observed f [c] ++ observed f rest := by
  rw [observed, fill, Command.observed_cons]
  rfl

lemma observed_text (hf : OverlooksLayout f) (s : String) (rest : List Slot) :
    observed f (.own (.text s) :: rest) = observed f rest := by
  simp [observed_own, hf.observed_text]

/-- What fills the open places is not seen if it shows nothing. -/
lemma observed_fill (name : String) {contents : List Command}
    (h : Command.observed f contents = []) (slots : List Slot) :
    Command.observed f (fill name contents slots) = observed f slots := by
  induction slots with
  | nil => rfl
  | cons slot rest ih =>
      cases slot with
      | own c => rw [fill, Command.observed_cons, ih, observed_own]
      | join => simpa [fill, h] using ih

/-- The comments behind an item are the only thing around it that may be seen. -/
lemma observed_itemSlots (hf : OverlooksLayout f) (separator : String) (afterHole isLast : Bool)
    (commands : List Command) (comments : List Json) :
    observed f (Render.itemSlots separator afterHole isLast commands comments) =
      Command.observed f commands ++ observed f (Render.itemComments isLast comments) := by
  cases comments with
  | nil =>
      cases afterHole <;> cases isLast <;>
        simp [Render.itemSlots, Render.itemComments, observed_text hf]
  | cons comment rest =>
      cases afterHole <;> cases isLast <;> simp [Render.itemSlots, observed_text hf]

end Slot

/-! ## What is assembled -/

namespace Command.OverlooksLayout

variable (hf : OverlooksLayout f)

include hf

/-- **Breaking a list changes nothing that is observed.** -/
lemma observed_decided (spaces broken : Bool) (slots : List Slot) :
    observed f (Render.decided spaces broken slots) = Slot.observed f slots := by
  cases broken <;> cases spaces <;>
    simp [Render.decided, Render.assemble, Slot.observed_fill, hf.observed_text, hf.observed_newline,
      hf.observed_indent, hf.observed_dedent]

lemma observed_decidedDeclarations (keyword : String) (several broken : Bool) (slots : List Slot) :
    observed f (Render.decidedDeclarations keyword several broken slots) =
      Slot.observed f slots := by
  cases broken <;> cases several <;>
    simp [Render.decidedDeclarations, Render.assembleDeclarations, Slot.observed_fill,
      hf.observed_text, hf.observed_newline, hf.observed_indent, hf.observed_dedent]

lemma observed_decidedArguments (broken : Bool) (args : Rules.Arguments) :
    observed f (Render.decidedArguments broken args) =
      Slot.observed f args.front ++ observed f args.last := by
  cases broken <;>
    simp [Render.decidedArguments, Rules.argumentList, Slot.observed_fill, hf.observed_text,
      hf.observed_newline, hf.observed_indent, hf.observed_dedent]

lemma observed_branches (broken : Bool) (yes no : List Command) :
    observed f (Rules.branches broken yes no) = observed f yes ++ observed f no := by
  cases broken <;>
    simp [Rules.branches, hf.observed_text, hf.observed_newline, hf.observed_indent,
      hf.observed_dedent]

lemma observed_margin (before : Option Render.Printed) (after : Render.Printed) :
    observed f (Render.margin before after) = [] := by
  cases before with
  | none => simp [Render.margin]
  | some before =>
      cases hseparated : Render.separates before after <;>
        simp [Render.margin, hseparated, hf.observed_text, hf.observed_newline]

end Command.OverlooksLayout

end EstreePrinter
