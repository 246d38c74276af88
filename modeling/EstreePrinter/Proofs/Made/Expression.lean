import Mathlib
import EstreePrinter.Proofs.Made.Basic

/-!
# What the rules for expressions are made of

One lemma for each rule, whose proof follows the steps of the rule.  The rule for binary expressions
is missing, since it changes how `in` is read; what it does with its operands is here
(`Made.operands`).
-/

namespace EstreePrinter

open Json (Part)

variable {node : Json} {inner : Inner node} {strict : Bool}

namespace Rules

/-! ## Names, literals and templates -/

/-- A text that was read from a node. -/
lemma isInline_of_text {v : Json} {s : String} (hv : v.isInline = true) (h : v.text = .ok s) :
    '\n' ∉ s.toList := by
  cases v with
  | str t =>
      obtain rfl : t = s := Except.ok.inj h
      simpa [Json.isInline] using hv
  | _ => cases h

lemma isInline_str {s : String} (h : '\n' ∉ s.toList) : (Json.str s).isInline = true := by
  simpa [Json.isInline] using h

lemma isMade_identifier : IsMade strict identifier := by
  intro node inner
  refine .reading fun name hname => ?_
  have hinline (hnode : node.IsTidy) : name.1.isInline = true :=
    Json.isInline_of_require hnode (by decide) hname
  refine (Made.chunk _ hinline).andThen ?_
  exact (Made.textIf _ "optional" "?" (by decide)).andThen Made.ascription

lemma isMade_privateIdentifier : IsMade strict privateIdentifier := by
  intro node inner
  refine .reading fun name hname => .reading fun text htext => .chunk _ fun hnode => ?_
  have hinline := isInline_of_text (Json.isInline_of_require hnode (by decide) hname) htext
  exact isInline_str (by simpa using hinline)

lemma isMade_word (content : String) (h : '\n' ∉ content.toList) :
    IsMade strict (word content) := fun _ _ => .chunk _ fun _ => isInline_str h

/-- A literal tells of its lines: its text is the one it had, or one that is written for it. -/
lemma tellsLines_of_literalText {quote : Char} {content : Json} (hnode : node.IsTidy)
    (h : literalText quote node = .ok content) : content.TellsLines := by
  obtain ⟨raw, hraw, h⟩ := bind_eq_ok_iff.mp h
  cases raw with
  | some raw =>
      obtain rfl : raw.1 = content := Except.ok.inj h
      exact (hnode.inside raw.2).tellsLines
  | none =>
      obtain ⟨regex, hregex, h⟩ := bind_eq_ok_iff.mp h
      cases regex with
      | some regex =>
          have hwritten : Json.str <$> regexText regex.1 = .ok content := h
          rw [map_eq_pure_bind] at hwritten
          obtain ⟨text, -, htext⟩ := bind_eq_ok_iff.mp hwritten
          obtain rfl : Json.str text = content := Except.ok.inj htext
          exact Json.tellsLines_str _
      | none =>
          obtain ⟨digits, hdigits, h⟩ := bind_eq_ok_iff.mp h
          cases digits with
          | some digits =>
              obtain rfl := Except.ok.inj h
              exact Json.tellsLines_str _
          | none =>
              obtain ⟨value, hvalue, h⟩ := bind_eq_ok_iff.mp h
              obtain rfl := Except.ok.inj h
              exact Json.tellsLines_str _

lemma isMade_literal : IsMade strict literal := fun node _ =>
  let step (quote : Char) : Render Unit := do
    let content ← literalText quote node
    Render.raiseIf (← content.hasLineFeed)
    Render.chunk content node
  Made.quote (f := step) fun _ => .reading fun _ hcontent =>
    .literal node fun hnode => tellsLines_of_literalText hnode hcontent

end Rules

namespace Made

lemma hole {render : Part node → Render Unit} (hrender : ∀ part, Made inner strict (render part))
    (holes : Part node) (i : Nat) : Made inner strict (Rules.hole render holes i) := by
  refine skip fun part => ?_
  cases part with
  | none => exact pure _
  | some part => exact (hrender part).between "$\x7b" "\x7d" (by decide) (by decide)

lemma tellsLines_of_quasiText (hnode : node.IsTidy) (quasi : Part node) {content : Json}
    (h : Rules.quasiText quasi.1 = .ok content) : content.TellsLines := by
  obtain ⟨value, hvalue, h⟩ := bind_eq_ok_iff.mp h
  obtain ⟨raw, hraw, h⟩ := bind_eq_ok_iff.mp h
  obtain rfl : raw.1 = content := Except.ok.inj h
  exact (((hnode.inside quasi.2).inside value.2).inside raw.2).tellsLines

lemma quasis {piece : Json → Json → Render Unit}
    (hpiece : ∀ content place, piece content place = Render.chunk content place ∨
      piece content place = Render.emit [.ofValue content])
    {render : Part node → Render Unit} (hrender : ∀ part, Made inner strict (render part))
    (holes : Part node) (i : Nat) (texts : List (Part node)) :
    Made inner strict (Rules.quasis piece render holes i texts) := by
  induction texts generalizing i with
  | nil => exact pure _
  | cons quasi rest ih =>
      refine reading fun content hcontent => ?_
      have htext : Made inner strict (do
          piece content quasi.1
          Render.raiseIf (← content.hasLineFeed)) :=
        Made.piece quasi.1 (hpiece content quasi.1) fun hnode =>
          tellsLines_of_quasiText hnode quasi hcontent
      -- the text and the note on its lines are the first two of four steps
      have hsteps := htext.andThen ((hole hrender holes i).andThen (ih (i + 1)))
      simpa only [bind_assoc] using hsteps

/-- Two fields with a word between them. -/
lemma twoFields (first between second : String) (h : '\n' ∉ between.toList) :
    Made inner strict (do
      inner.field first
      Render.text between
      inner.field second) :=
  (field first).andThen ((word between h).andThen (field second))

end Made

namespace Rules

lemma isMade_template : IsMade strict template := by
  intro node inner
  refine Made.skip fun texts => Made.skip fun holes => (Made.word "`" (by decide)).andThen ?_
  refine Made.skip fun texts => .andThen ?_ (Made.word "`" (by decide))
  exact Made.quasis (fun _ _ => Or.inl rfl) .value holes 0 texts

lemma isMade_taggedTemplate : IsMade strict taggedTemplate := by
  intro node inner
  refine Made.skip fun tag => Made.skip fun wraps => (Made.wrapped tag wraps).andThen ?_
  exact Made.typeArguments.andThen (Made.field "quasi")

lemma isMade_transparent : IsMade strict transparent := fun _ _ => Made.field _

lemma isMade_metaProperty : IsMade strict metaProperty := fun _ _ =>
  Made.twoFields _ _ _ (by decide)

lemma isMade_importCall : IsMade strict importCall := by
  intro node inner
  refine (Made.chunk _ fun _ => by decide).andThen ((Made.word "(" (by decide)).andThen ?_)
  refine (Made.field "source").andThen (Made.skip fun options => ?_)
  exact (Made.valueAfter ", " options (by decide)).andThen (Made.word ")" (by decide))

/-! ## Arrays, objects and patterns -/

lemma isMade_array : IsMade strict array := by
  intro node inner
  refine (Made.word "[" (by decide)).andThen (Made.skip fun nodes => ?_)
  refine (Made.list false nodes).andThen ?_
  exact (Made.word "]" (by decide)).andThen Made.ascription

end Rules

lemma Made.method : Made inner strict (Rules.method inner) := by
  refine skip fun function => (accessor _).bind fun isAccessor => ?_
  have hbody : Made inner strict (do
      Rules.key inner
      Rules.signature (inner.under function)
      Render.text " "
      (inner.under function).field "body") := by
    refine key.andThen ((Made.under function signature).andThen ?_)
    exact (word " " (by decide)).andThen (Made.under function (field "body"))
  refine ite ?_ hbody
  refine (textIf _ "async" "async " (by decide)).andThen ?_
  exact (textIf _ "generator" "*" (by decide)).andThen hbody

lemma Made.objectMember (part : Part node) : Made inner strict (Rules.objectMember inner part) := by
  have hmember (asMethod : Bool) : Made inner strict
      (if asMethod then Rules.method (inner.under part) else inner.value part) :=
    ite (Made.under part method) (value part)
  exact skip fun _ => ite (skip hmember) ((pure _).bind hmember)

namespace Rules

lemma isMade_object : IsMade strict object := by
  intro node inner
  refine (Made.word "\x7b" (by decide)).andThen (Made.skip fun nodes => Made.skip fun items => ?_)
  refine .andThen ?_ (Made.word "\x7d" (by decide))
  exact Made.sequence true (by decide) Made.objectMember items

lemma isMade_objectPattern : IsMade strict objectPattern := by
  intro node inner
  refine (Made.word "\x7b" (by decide)).andThen (Made.skip fun nodes => ?_)
  refine (Made.list true nodes).andThen ?_
  exact (Made.word "\x7d" (by decide)).andThen Made.ascription

lemma isMade_property : IsMade strict property := by
  intro node inner
  refine Made.skip fun name => Made.skip fun value => Made.skip fun once => ?_
  refine Made.ite (.value value) (Made.key.andThen ?_)
  exact (Made.word ": " (by decide)).andThen (.value value)

lemma isMade_defaulted : IsMade strict defaulted := fun _ _ => Made.twoFields _ _ _ (by decide)

lemma isMade_spread : IsMade strict spread := fun _ _ =>
  (Made.word "..." (by decide)).andThen ((Made.field _).andThen Made.ascription)

end Rules

/-! ## Operators -/

/-- The operands of a binary expression, whose operator stays on its line. -/
lemma Made.operands {operator : Json} (hoperator : node.IsTidy → operator.isInline = true) :
    Made inner strict (Rules.operands inner operator) := by
  refine skip fun left => skip fun right => skip fun wraps => (wrapped left wraps).andThen ?_
  refine (shown hoperator " " " " (by decide) (by decide)).andThen ?_
  exact skip fun wraps => wrapped right wraps

namespace Rules

lemma isMade_unary : IsMade strict unary := by
  intro node inner
  refine .reading fun operator hoperator => Made.skip fun argument => ?_
  have hinline (hnode : node.IsTidy) : operator.1.isInline = true :=
    Json.isInline_of_require hnode (by decide) hoperator
  refine (Made.ofValue hinline).andThen (Made.skip fun spaced => ?_)
  refine Made.optional (Made.word " " (by decide)) fun _ => ?_
  exact Made.skip fun wraps => Made.wrapped argument wraps

lemma isMade_update : IsMade strict update := by
  intro node inner
  have hoperator : Made inner strict (do
      Render.emit [.ofValue (← node.require "operator").1]) :=
    .reading fun _ hoperator =>
      .ofValue fun hnode => Json.isInline_of_require hnode (by decide) hoperator
  refine Made.skip fun _ => Made.ite ?_ ((Made.field _).andThen hoperator)
  simpa only [bind_assoc] using hoperator.andThen (Made.field "argument")

lemma isMade_assignment : IsMade strict assignment := by
  intro node inner
  refine (Made.field "left").andThen (.reading fun operator hoperator => ?_)
  have hinline (hnode : node.IsTidy) : operator.1.isInline = true :=
    Json.isInline_of_require hnode (by decide) hoperator
  refine (Made.shown hinline " " " " (by decide) (by decide)).andThen ?_
  exact Made.field "right"

lemma isMade_conditional : IsMade strict conditional := by
  intro node inner
  refine Made.skip fun test => Made.skip fun wraps => (Made.wrapped test wraps).andThen ?_
  exact .branches (Made.field "consequent") (Made.field "alternate")

lemma isMade_commaExpression : IsMade strict commaExpression := by
  intro node inner
  refine (Made.word "(" (by decide)).andThen (Made.skip fun nodes => ?_)
  exact (Made.list false nodes).andThen (Made.word ")" (by decide))

lemma isMade_await : IsMade strict await := by
  intro node inner
  refine Made.skip fun argument => ?_
  cases argument with
  | none => exact Made.word "await" (by decide)
  | some argument =>
      refine Made.skip fun wraps => Made.ite ?_ ?_
      · exact (Made.value argument).between "await (" ")" (by decide) (by decide)
      · exact (Made.word "await " (by decide)).andThen (.value argument)

lemma isMade_yield : IsMade strict yield := by
  intro node inner
  refine Made.skip fun delegate => Made.skip fun argument => ?_
  have hkeyword : '\n' ∉ (if delegate then "yield*" else "yield").toList := by
    cases delegate <;> decide
  cases argument with
  | none => exact Made.word _ hkeyword
  | some argument => exact (Made.word _ (by simpa using hkeyword)).andThen (.value argument)

/-! ## Accesses and calls -/

lemma isMade_member : IsMade strict member := by
  intro node inner
  refine Made.skip fun head => Made.skip fun wraps => (Made.wrapped head wraps).andThen ?_
  refine Made.skip fun computed => Made.ite ?_ (Made.skip fun isOptional => ?_)
  · refine (Made.textIf _ "optional" "?." (by decide)).andThen ?_
    exact (Made.field "property").between "[" "]" (by decide) (by decide)
  · exact (Made.word _ (by cases isOptional <;> decide)).andThen (Made.field "property")

lemma isMade_call (isNew : Bool) : IsMade strict (call isNew) := by
  intro node inner
  have hrest (head : Part node) (wrap : Bool) : Made inner strict (do
      inner.wrapped head wrap
      Render.textIf node "optional" "?."
      typeArguments inner
      callArguments inner) := by
    refine (Made.wrapped head wrap).andThen ?_
    refine (Made.textIf _ "optional" "?." (by decide)).andThen ?_
    exact Made.typeArguments.andThen (.arguments inner)
  unfold call
  refine Made.optional (Made.word "new " (by decide)) fun _ => ?_
  refine Made.skip fun head => Made.skip fun loose => ?_
  exact Made.ite ((Made.pure _).bind (hrest head))
    (Made.ite (Made.skip (hrest head)) ((Made.pure _).bind (hrest head)))

end Rules

/-! ## Functions -/

lemma Made.functionBody : Made inner strict (Rules.functionBody inner) := by
  refine skip fun body => ?_
  cases body with
  | none => exact word ";" (by decide)
  | some body => exact (word " " (by decide)).andThen (value body)

namespace Rules

lemma isMade_function : IsMade strict function := by
  intro node inner
  have htail : Made inner strict (do
      signature inner
      functionBody inner) :=
    Made.signature.andThen Made.functionBody
  refine (Made.textIf _ "declare" "declare " (by decide)).andThen ?_
  refine (Made.textIf _ "async" "async " (by decide)).andThen (Made.skip fun generator => ?_)
  refine (Made.word _ (by cases generator <;> decide)).andThen (Made.skip fun name => ?_)
  cases name with
  | none => exact htail
  | some name => exact (Made.value name).andThen htail

lemma isMade_arrow : IsMade strict arrow := by
  intro node inner
  refine (Made.textIf _ "async" "async " (by decide)).andThen (Made.signature.andThen ?_)
  refine (Made.word " => " (by decide)).andThen (Made.skip fun body => Made.skip fun kind => ?_)
  exact Made.ite (.value body) (Made.skip fun wraps => Made.wrapped body wraps)

/-! ## Expressions with types in them -/

lemma isMade_typedExpression (strength : Nat) (word : String)
    (h : '\n' ∉ word.toList) : IsMade strict (typedExpression strength word) := by
  intro node inner
  refine Made.skip fun expression => Made.skip fun wraps => ?_
  refine (Made.wrapped expression wraps).andThen ?_
  exact (Made.word word h).andThen (Made.typeField "typeAnnotation")

lemma isMade_nonNull : IsMade strict nonNull := by
  intro node inner
  refine Made.skip fun expression => Made.skip fun wraps => ?_
  exact (Made.wrapped expression wraps).andThen (Made.word "!" (by decide))

lemma isMade_typeAssertion : IsMade strict typeAssertion := by
  intro node inner
  refine (Made.word "<" (by decide)).andThen ((Made.typeField "typeAnnotation").andThen ?_)
  refine (Made.word ">" (by decide)).andThen (Made.skip fun expression => ?_)
  exact Made.skip fun wraps => Made.wrapped expression wraps

lemma isMade_instantiation : IsMade strict instantiation := fun _ _ =>
  (Made.field _).andThen Made.typeArguments

lemma isMade_qualifiedName : IsMade strict qualifiedName := fun _ _ =>
  Made.twoFields _ _ _ (by decide)

end Rules

end EstreePrinter
