import Mathlib
import EstreePrinter.Proofs.Json.Inline
import EstreePrinter.Proofs.Render.Widening

/-!
# What the rules are made of

`Made inner strict x` says that a step `x` is made of the parts of a node, as `inner` renders them,
and of texts, lists and decisions about lines.  Every rule is, but for the one for binary
expressions, which changes how `in` is read (`Rules.isMade_of_find`).  So what is to hold of all
renderings can be proved by induction on how their steps are made, one case for each thing that a
rule can do.

**Texts.**  A rule prints words of its own and texts of its node.  None of them has a line feed in
it where the node has none in its texts (`Json.IsTidy`), but for the literals and the pieces of
templates, which tell about their line feeds.

**Lines.**  A step that is made strictly breaks no line but in lists that decide about their breaks
and behind a note that several lines are needed (`Made.raised`).  What stands there is made less
strictly: it may break lines, emit the comments of a node and render statements.  Programs and
decorators break lines without a note, so their rules are not made strictly.
-/

namespace EstreePrinter

open Json (Part)
open Render (setting raiseIf raise fork emit)

namespace Render

/-- A step that breaks a line whenever it succeeds. -/
def Breaks {α : Type} (x : Render α) : Prop :=
  ∀ s q e, x s q = .ok e → Command.newline ∈ e.commands

variable {α β : Type}

lemma breaks_emit {commands : List Command} (h : Command.newline ∈ commands) :
    Breaks (emit commands) := by
  intro s q e he
  obtain rfl := Except.ok.inj he
  exact h

lemma Breaks.first {x : Render α} {f : α → Render β} (hx : Breaks x) : Breaks (x >>= f) := by
  intro s q e he
  obtain ⟨first, hfirst, second, -, rfl⟩ := bind_eq_ok_iff.mp he
  exact List.mem_append_left _ (hx s q first hfirst)

lemma Breaks.last {x : Render α} {f : α → Render β} (hf : ∀ a, Breaks (f a)) :
    Breaks (x >>= f) := by
  intro s q e he
  obtain ⟨first, -, second, hsecond, rfl⟩ := bind_eq_ok_iff.mp he
  exact List.mem_append_right _ (hf _ _ _ second hsecond)

end Render

/-- **A step is made of the parts of a node.** -/
inductive Made : {node : Json} → Inner node → Bool → {α : Type} → Render α → Prop
  | pure {node : Json} {inner : Inner node} {strict : Bool} {α : Type} (a : α) :
      Made inner strict (pure a)
  | bind {node : Json} {inner : Inner node} {strict : Bool} {α β : Type} {x : Render α}
      {f : α → Render β} :
      Made inner strict x → (∀ a, Made inner strict (f a)) → Made inner strict (x >>= f)
  /-- Something is read first. -/
  | reading {node : Json} {inner : Inner node} {strict : Bool} {α β : Type} {x : Except Fault α}
      {f : α → Render β} :
      (∀ a, x = .ok a → Made inner strict (f a)) →
      Made inner strict ((liftM x : Render α) >>= f)
  | quote {node : Json} {inner : Inner node} {strict : Bool} {α : Type} {f : Char → Render α} :
      (∀ c, Made inner strict (f c)) → Made inner strict (setting >>= fun s => f s.quote)
  /-- A text that stays on the line. -/
  | text {node : Json} {inner : Inner node} {strict : Bool} {s : String} :
      (node.IsTidy → '\n' ∉ s.toList) → Made inner strict (Render.text s)
  /-- A value of the node. -/
  | ofValue {node : Json} {inner : Inner node} {strict : Bool} {v : Json} :
      (node.IsTidy → v.isInline = true) → Made inner strict (emit [.ofValue v])
  /-- A value of the node, with the place it comes from. -/
  | chunk {node : Json} {inner : Inner node} {strict : Bool} {content : Json} (place : Json) :
      (node.IsTidy → content.isInline = true) → Made inner strict (Render.chunk content place)
  /-- A text that tells whether it stays on the line. -/
  | literal {node : Json} {inner : Inner node} {strict : Bool} {content : Json} (place : Json) :
      (node.IsTidy → content.TellsLines) →
      Made inner strict (do
        raiseIf (← content.hasLineFeed)
        Render.chunk content place)
  /-- A text of a template, which is told about afterwards. -/
  | piece {node : Json} {inner : Inner node} {strict : Bool} {content : Json} (place : Json)
      {x : Render Unit} :
      x = Render.chunk content place ∨ x = emit [.ofValue content] →
      (node.IsTidy → content.TellsLines) →
      Made inner strict (do
        x
        raiseIf (← content.hasLineFeed))
  | value {node : Json} {inner : Inner node} {strict : Bool} (part : Part node) :
      Made inner strict (inner.value part)
  | type {node : Json} {inner : Inner node} {strict : Bool} (part : Part node) :
      Made inner strict (inner.type part)
  | either {node : Json} {inner : Inner node} {strict : Bool} (part : Part node) :
      Made inner strict (inner.either part)
  /-- What is made of the parts of a part. -/
  | under {node : Json} {inner : Inner node} {strict : Bool} {α : Type} (part : Part node)
      {x : Render α} : Made (inner.under part) strict x → Made inner strict x
  | withNoIn {node : Json} {inner : Inner node} {strict : Bool} {α : Type} {x : Render α} :
      Made inner strict x → Made inner strict (Render.withNoIn true x)
  | sequence {node : Json} {inner : Inner node} {strict : Bool} {α : Type} (spaces : Bool)
      {separator : String} {item : α → Render Unit} :
      '\n' ∉ separator.toList → (∀ a, Made inner true (item a)) → ∀ list,
      Made inner strict (Render.sequence spaces separator item list)
  | declarations {node : Json} (inner : Inner node) {strict : Bool} :
      Made inner strict (Render.declarations node inner)
  | arguments {node : Json} (inner : Inner node) {strict : Bool} :
      Made inner strict (Rules.callArguments inner)
  | branches {node : Json} {inner : Inner node} {strict : Bool} {x y : Render Unit} :
      Made inner true x → Made inner true y →
      Made inner strict (do
        let yes ← fork x
        let no ← fork y
        raiseIf (yes.multiline || no.multiline)
        emit (Rules.branches (yes.multiline || no.multiline) yes.commands no.commands))
  /-- A step that breaks a line, behind the note that several lines are needed. -/
  | raised {node : Json} {inner : Inner node} {strict : Bool} {x : Render Unit} :
      Made inner false x → x.Breaks →
      Made inner strict (do
        raise
        x)
  | lines {node : Json} {inner : Inner node} {commands : List Command} :
      (∀ c ∈ commands, c.IsSpacing) → Made inner false (emit commands)
  | leadingComments {node : Json} {inner : Inner node} (newlines : Bool) (place : Json)
      (comments : List Json) : Made inner false (Render.leadingComments newlines place comments)
  | drainAfterStatement {node : Json} {inner : Inner node} :
      Made inner false Render.drainAfterStatement
  | body {node : Json} (inner : Inner node) (statements : List (Part node)) :
      Made inner false (Render.body inner statements)

/-- The runs of a rule are made of the parts of its node. -/
def Rules.IsMade (strict : Bool) (rule : Rule) : Prop :=
  ∀ (node : Json) (inner : Inner node), Made inner strict (rule node inner)

namespace Made

variable {node : Json} {inner : Inner node} {strict : Bool} {α β : Type}

/-! ## Steps one after the other -/

lemma andThen {x : Render α} {y : Render β} (hx : Made inner strict x) (hy : Made inner strict y) :
    Made inner strict (x >>= fun _ => y) :=
  hx.bind fun _ => hy

/-- Something is read first, whatever it is. -/
lemma skip {x : Except Fault α} {f : α → Render β} (hf : ∀ a, Made inner strict (f a)) :
    Made inner strict ((liftM x : Render α) >>= f) :=
  reading fun a _ => hf a

lemma ite {c : Prop} [Decidable c] {x y : Render α} (hx : Made inner strict x)
    (hy : Made inner strict y) : Made inner strict (if c then x else y) := by
  split
  · exact hx
  · exact hy

/-- A step that is taken only under a condition, before the rest. -/
lemma optional {c : Prop} [Decidable c] {x : Render PUnit} {rest : PUnit → Render β}
    (hx : Made inner strict x) (hrest : ∀ u, Made inner strict (rest u)) :
    Made inner strict (if c then x >>= rest else rest ⟨⟩) :=
  ite (hx.bind hrest) (hrest _)

/-! ## Texts -/

/-- A word. -/
lemma word (s : String) (h : '\n' ∉ s.toList) : Made inner strict (Render.text s) :=
  text fun _ => h

lemma textIf (place : Json) (key word : String) (h : '\n' ∉ word.toList) :
    Made inner strict (Render.textIf place key word) :=
  skip fun _ => ite (Made.word word h) (pure _)

/-- A value of the node between two words. -/
lemma shown {v : Json} (h : node.IsTidy → v.isInline = true) (before behind : String)
    (hbefore : '\n' ∉ before.toList) (hbehind : '\n' ∉ behind.toList) :
    Made inner strict (Render.text (before ++ v.display ++ behind)) := by
  refine text fun hnode => ?_
  simp only [String.toList_append, List.mem_append, not_or]
  exact ⟨⟨hbefore, Json.lineFeed_notMem_display (h hnode)⟩, hbehind⟩

/-! ## Parts -/

lemma field (key : String) : Made inner strict (inner.field key) := skip fun _ => value _

lemma typeField (key : String) : Made inner strict (inner.typeField key) := skip fun _ => type _

/-- A part between two words. -/
lemma between {x : Render Unit} (hx : Made inner strict x) (start stop : String)
    (hstart : '\n' ∉ start.toList) (hstop : '\n' ∉ stop.toList) :
    Made inner strict (do
      Render.text start
      x
      Render.text stop) :=
  (Made.word start hstart).andThen (hx.andThen (Made.word stop hstop))

lemma wrapped (part : Part node) (wrap : Bool) : Made inner strict (inner.wrapped part wrap) :=
  ite ((value part).between "(" ")" (by decide) (by decide)) (value part)

lemma wrappedType (part : Part node) (wrap : Bool) :
    Made inner strict (inner.wrappedType part wrap) :=
  ite ((type part).between "(" ")" (by decide) (by decide)) (type part)

lemma valueAfter (lead : String) (part : Option (Part node))
    (h : '\n' ∉ lead.toList) : Made inner strict (inner.valueAfter lead part) := by
  cases part with
  | none => exact pure _
  | some part => exact (Made.word lead h).andThen (value part)

lemma typeAfter (lead : String) (part : Option (Part node))
    (h : '\n' ∉ lead.toList) : Made inner strict (inner.typeAfter lead part) := by
  cases part with
  | none => exact pure _
  | some part => exact (Made.word lead h).andThen (type part)

lemma typeIf (part : Option (Part node)) : Made inner strict (inner.typeIf part) := by
  cases part with
  | none => exact pure _
  | some part => exact type part

/-! ## What many rules share -/

lemma typeArguments : Made inner strict (Rules.typeArguments inner) := skip fun part => typeIf part

lemma typeParameters : Made inner strict (Rules.typeParameters inner) :=
  skip fun part => typeIf part

lemma ascription : Made inner strict (Rules.ascription inner) := skip fun part => typeIf part

lemma key : Made inner strict (Rules.key inner) :=
  skip fun _ => ite ((field "key").between "[" "]" (by decide) (by decide)) (field "key")

lemma list (spaces : Bool) (nodes : Part node) :
    Made inner strict (Rules.list inner spaces nodes) :=
  skip fun items => sequence spaces (by decide) value items

lemma typeList (spaces : Bool) (separator : String) (nodes : Part node)
    (h : '\n' ∉ separator.toList) :
    Made inner strict (Rules.typeList inner spaces separator nodes) :=
  skip fun items => sequence spaces h type items

lemma parameters : Made inner strict (Rules.parameters inner) := by
  refine skip fun nodes => ?_
  cases nodes with
  | none => exact pure _
  | some nodes => exact list false nodes

/-- Type parameters and parameters in parentheses, before anything else. -/
lemma signatureThen {rest : Render Unit} (hrest : Made inner strict rest) :
    Made inner strict (do
      Rules.typeParameters inner
      Render.text "("
      Rules.parameters inner
      Render.text ")"
      rest) := by
  refine typeParameters.andThen ((word "(" (by decide)).andThen ?_)
  refine parameters.andThen ((word ")" (by decide)).andThen ?_)
  exact hrest

lemma signature : Made inner strict (Rules.signature inner) :=
  signatureThen (skip fun part => typeIf part)

lemma typeSignature : Made inner strict (Rules.typeSignature inner) :=
  signatureThen (skip fun part => typeAfter ": " part (by decide))

lemma accessor (place : Json) : Made inner strict (Rules.accessor place) := by
  refine skip fun kind => ?_
  split
  · exact (word "get " (by decide)).andThen (pure _)
  · exact (word "set " (by decide)).andThen (pure _)
  · exact pure _

lemma modifiers : Made inner strict (Rules.modifiers node) := by
  refine skip fun _ => skip fun _ => (textIf node "declare" "declare " (by decide)).andThen ?_
  refine reading fun accessibility haccessibility => ?_
  have hinline (hnode : node.IsTidy) : accessibility.isInline = true :=
    Json.isInline_of_getValue hnode (by decide) haccessibility
  have hword : Made inner strict (Render.text ("" ++ accessibility.display ++ " ")) :=
    shown hinline "" " " (by decide) (by decide)
  rw [String.empty_append] at hword
  refine optional hword fun _ => (textIf node "static" "static " (by decide)).andThen ?_
  refine skip fun _ => optional (word "abstract " (by decide)) fun _ => ?_
  exact (textIf node "override" "override " (by decide)).andThen
    (textIf node "readonly" "readonly " (by decide))

end Made

end EstreePrinter
