import Mathlib
import EstreePrinter.Proofs.Render.Correspondence

/-!
# The rules for expressions keep every correspondence

One lemma for each rule, whose proof follows the steps of the rule and names the fields from which
the rule takes its parts.  The lemmas on what the rules share come first; they are stated for the
parts of any node.
-/

namespace EstreePrinter

open Json (Part)

variable {C : Render.Correspondence} {node : Json} {inner inner' : Inner node}

/-- A rule keeps a correspondence if its runs correspond whenever the two ways to render the parts
of the node do, and if it renders no more than is inside of the node. -/
def Render.Correspondence.KeptBy (C : Render.Correspondence) (rule : Rule) : Prop :=
  ∀ (node : Json) (inner inner' : Inner node), inner.Matches inner' C →
    C.Related node.within (rule node inner) (rule node inner')

/-! ## What many rules share -/

/-- The nodes in the type arguments of a node, which stand in either of two fields. -/
abbrev Json.underArguments (node : Json) : Multiset Json :=
  node.under "typeArguments" + node.under "typeParameters"

/-- The nodes in the parameters of a function, which stand in either of two fields. -/
abbrev Json.underParameters (node : Json) : Multiset Json :=
  node.under "params" + node.under "parameters"

/-- The nodes in the result of a function type, which stands in either of two fields. -/
abbrev Json.underResult (node : Json) : Multiset Json :=
  node.under "returnType" + node.under "typeAnnotation"

namespace Inner.Matches

lemma typeArguments (h : inner.Matches inner' C) :
    C.Related node.underArguments (Rules.typeArguments inner) (Rules.typeArguments inner') :=
  C.reading fun part hpart => C.mono (Json.nodesIn_le_of_givenOr hpart) (h.typeIf part)

lemma typeParameters (h : inner.Matches inner' C) :
    C.Related (node.under "typeParameters") (Rules.typeParameters inner)
      (Rules.typeParameters inner') :=
  h.givenType _

lemma ascription (h : inner.Matches inner' C) :
    C.Related (node.under "typeAnnotation") (Rules.ascription inner) (Rules.ascription inner') :=
  h.givenType _

/-- A field between two texts. -/
lemma enclosed (h : inner.Matches inner' C) (start key stop : String) :
    C.Related (node.under key)
      (do
        Render.text start
        inner.field key
        Render.text stop)
      (do
        Render.text start
        inner'.field key
        Render.text stop) :=
  C.say (C.text _) (C.ending (h.field _) (C.text _))

lemma key (h : inner.Matches inner' C) :
    C.Related (node.under "key") (Rules.key inner) (Rules.key inner') :=
  C.skip fun _ => C.ite (h.enclosed _ _ _) (h.field _)

/-- The items of a list of parts, which are rendered by corresponding steps. -/
lemma sequenceOf (spaces : Bool) (separator : String) {item item' : Part node → Render Unit}
    (hitem : ∀ part : Part node, C.Related part.1.nodes (item part) (item' part))
    (nodes : Part node) :
    C.Related nodes.1.nodes
      (do Render.sequence spaces separator item (← Json.itemsOf nodes))
      (do Render.sequence spaces separator item' (← Json.itemsOf nodes)) := by
  refine C.reading fun items hitems => C.mono ?_ (C.sequence spaces separator _ hitem items)
  refine le_trans (le_of_eq ?_) (Json.nodesOfItems_le_of_itemsOf hitems)
  rw [Json.nodesOfItems]
  refine congrArg List.sum (List.map_congr_left fun found _ => ?_)
  cases found <;> rfl

lemma list (h : inner.Matches inner' C) (spaces : Bool) (nodes : Part node) :
    C.Related nodes.1.nodes (Rules.list inner spaces nodes) (Rules.list inner' spaces nodes) :=
  sequenceOf _ _ h.value nodes

lemma listOf (h : inner.Matches inner' C) (spaces : Bool) {key : String} {nodes : Part node}
    (hnodes : node.require key = .ok nodes) :
    C.Related (node.under key) (Rules.list inner spaces nodes) (Rules.list inner' spaces nodes) :=
  Json.under_of_require hnodes ▸ h.list spaces nodes

lemma typeList (h : inner.Matches inner' C) (spaces : Bool) (separator : String)
    (nodes : Part node) :
    C.Related nodes.1.nodes (Rules.typeList inner spaces separator nodes)
      (Rules.typeList inner' spaces separator nodes) :=
  sequenceOf _ _ h.type nodes

lemma typeListOf (h : inner.Matches inner' C) (spaces : Bool) (separator : String) {key : String}
    {nodes : Part node} (hnodes : node.require key = .ok nodes) :
    C.Related (node.under key) (Rules.typeList inner spaces separator nodes)
      (Rules.typeList inner' spaces separator nodes) :=
  Json.under_of_require hnodes ▸ h.typeList spaces separator nodes

omit inner inner' in
lemma nodesIn_le_of_parametersOf {found : Option (Part node)}
    (h : Rules.parametersOf node = .ok found) : Json.nodesIn found ≤ node.underParameters :=
  Json.nodesIn_le_of_or (fun _ => Json.nodesIn_le_of_present) (fun _ => Json.nodesIn_le_of_given) h

lemma parameters (h : inner.Matches inner' C) :
    C.Related node.underParameters (Rules.parameters inner) (Rules.parameters inner') := by
  refine C.reading fun nodes hnodes => C.mono (nodesIn_le_of_parametersOf hnodes) ?_
  cases nodes with
  | none => exact C.pure _
  | some nodes => exact h.list _ nodes

/-- Type parameters and parameters in parentheses, before anything else. -/
lemma signatureThen (h : inner.Matches inner' C) {u : Multiset Json} {rest rest' : Render Unit}
    (hrest : C.Related u rest rest') :
    C.Related (node.under "typeParameters" + (node.underParameters + u))
      (do
        Rules.typeParameters inner
        Render.text "("
        Rules.parameters inner
        Render.text ")"
        rest)
      (do
        Rules.typeParameters inner'
        Render.text "("
        Rules.parameters inner'
        Render.text ")"
        rest') := by
  refine C.andThen h.typeParameters (C.say (C.text _) ?_)
  refine C.andThen h.parameters (C.say (C.text _) ?_)
  exact hrest

lemma signature (h : inner.Matches inner' C) :
    C.Related (node.under "typeParameters" + (node.underParameters + node.under "returnType"))
      (Rules.signature inner) (Rules.signature inner') :=
  h.signatureThen (h.givenType _)

omit inner inner' in
lemma nodesIn_le_of_resultType {found : Option (Part node)}
    (h : Rules.resultType node = .ok found) : Json.nodesIn found ≤ node.underResult := by
  rw [Rules.resultType] at h
  obtain ⟨part, hpart, h⟩ := Json.exists_of_or_bind h
  refine le_trans ?_ (Json.nodesIn_le_of_or (fun _ => Json.nodesIn_le_of_given)
    (fun _ => Json.nodesIn_le_of_present) hpart)
  cases part with
  | none =>
      obtain rfl := Except.ok.inj h
      exact le_rfl
  | some part =>
      obtain ⟨kind, -, h⟩ := bind_eq_ok_iff.mp h
      split at h
      · obtain ⟨inside, hinside, h⟩ := bind_eq_ok_iff.mp h
        obtain rfl := Except.ok.inj h
        split
        · exact Multiset.zero_le _
        · -- the node that stands for the colon has the type inside
          exact (Json.under_of_require hinside).ge.trans (part.1.under_le "typeAnnotation")
      · obtain rfl := Except.ok.inj h
        exact le_rfl

lemma typeSignature (h : inner.Matches inner' C) :
    C.Related (node.under "typeParameters" + (node.underParameters + node.underResult))
      (Rules.typeSignature inner) (Rules.typeSignature inner') :=
  h.signatureThen <| C.reading fun part hpart =>
    C.mono (nodesIn_le_of_resultType hpart) (h.typeAfter _ part)

end Inner.Matches

namespace Rules

lemma accessor_related (node : Json) : C.Related 0 (accessor node) (accessor node) := by
  refine C.skip fun kind => ?_
  split
  · exact C.say (C.text _) (C.pure _)
  · exact C.say (C.text _) (C.pure _)
  · exact C.pure _

lemma modifiers_related (node : Json) : C.Related 0 (modifiers node) (modifiers node) := by
  refine C.skip fun _ => C.skip fun _ => C.say (C.textIf _ _ _) ?_
  refine C.skip fun _ => C.optional (C.text _) fun _ => C.say (C.textIf _ _ _) ?_
  refine C.skip fun _ => C.optional (C.text _) fun _ => ?_
  exact C.say (C.textIf _ _ _) (C.textIf _ _ _)

/-! ## Names, literals and templates -/

lemma keptBy_identifier : C.KeptBy identifier := by
  intro node inner inner' h
  refine C.within ["typeAnnotation"] (by decide) (u := node.under "typeAnnotation") ?_ (by simp)
  refine C.reading fun name _ => C.say (C.chunk _ h.applies) ?_
  exact C.say (C.textIf _ _ _) h.ascription

lemma keptBy_privateIdentifier : C.KeptBy privateIdentifier := fun _ _ _ h =>
  C.none (C.skip fun _ => C.skip fun _ => C.chunk _ h.applies)

lemma keptBy_word (content : String) : C.KeptBy (word content) := fun _ _ _ h =>
  C.none (C.chunk _ h.applies)

lemma keptBy_literal : C.KeptBy literal := by
  intro node inner inner' h
  let step (quote : Char) : Render Unit := do
    let content ← literalText quote node
    Render.raiseIf (← content.hasLineFeed)
    Render.chunk content node
  refine C.none (C.quote (f := step) (g := step) fun quote => ?_)
  exact C.skip fun _ => C.skip fun _ => C.say (C.raiseIf _) (C.chunk _ h.applies)

lemma hole_related {render render' : Part node → Render Unit}
    (hrender : ∀ part, C.Related part.1.nodes (render part) (render' part)) (holes : Part node)
    (i : Nat) {rest rest' : Render Unit}
    (hrest : C.Related (Json.nodesFrom holes (i + 1)) rest rest') :
    C.Related (Json.nodesFrom holes i)
      (do
        hole render holes i
        rest)
      (do
        hole render' holes i
        rest') := by
  unfold hole
  simp only [bind_assoc]
  refine C.reading fun part hpart => ?_
  cases part with
  | none => exact C.mono (Json.nodesFrom_succ_le holes i) (C.say (C.pure _) hrest)
  | some part =>
      rw [Json.nodesFrom_of_element hpart]
      simp only [bind_assoc]
      exact C.say (C.text _) (C.andThen (hrender part) (C.say (C.text _) hrest))

lemma quasis_related {piece : Json → Json → Render Unit} {render render' : Part node → Render Unit}
    (hpiece : ∀ content (quasi : Part node), C.Related 0 (piece content quasi.1)
      (piece content quasi.1))
    (hrender : ∀ part, C.Related part.1.nodes (render part) (render' part)) (holes : Part node)
    (i : Nat) (texts : List (Part node)) :
    C.Related (Json.nodesFrom holes i) (quasis piece render holes i texts)
      (quasis piece render' holes i texts) := by
  induction texts generalizing i with
  | nil => exact C.none (C.pure _)
  | cons quasi rest ih =>
      refine C.skip fun content => C.say (hpiece _ _) ?_
      refine C.skip fun _ => C.say (C.raiseIf _) ?_
      exact hole_related hrender holes i (ih (i + 1))

lemma keptBy_template : C.KeptBy template := by
  intro node inner inner' h
  refine C.within ["expressions"] (by decide) (u := node.under "expressions") ?_ (by simp)
  refine C.skip fun texts => C.reading fun holes hholes => C.say (C.text _) ?_
  refine C.skip fun texts => C.ending ?_ (C.text _)
  refine C.mono ((Json.nodesFrom_le holes).trans (Json.under_of_require hholes).ge) ?_
  exact quasis_related (fun content quasi => C.chunk content (h.applies_part quasi)) h.value holes 0
    texts

lemma keptBy_taggedTemplate : C.KeptBy taggedTemplate := by
  intro node inner inner' h
  refine C.within ["tag", "typeArguments", "typeParameters", "quasi"] (by decide)
    (u := node.under "tag" + (node.underArguments + node.under "quasi")) ?_ (by simp [add_assoc])
  refine C.reading fun tag htag => C.skip fun wraps => ?_
  refine C.andThen (h.wrappedOf htag wraps) ?_
  exact C.andThen h.typeArguments (h.field "quasi")

lemma keptBy_transparent : C.KeptBy transparent := fun _ _ _ h =>
  C.within ["expression"] (by decide) (h.field _) (by simp)

/-- Two different fields with a text between them. -/
lemma twoFields (h : inner.Matches inner' C) (first between second : String)
    (hkeys : [first, second].Nodup) :
    C.Related node.within
      (do
        inner.field first
        Render.text between
        inner.field second)
      (do
        inner'.field first
        Render.text between
        inner'.field second) :=
  C.within [first, second] hkeys (C.andThen (h.field _) (C.say (C.text _) (h.field _))) (by simp)

lemma keptBy_metaProperty : C.KeptBy metaProperty := fun _ _ _ h => twoFields h _ _ _ (by decide)

lemma keptBy_importCall : C.KeptBy importCall := by
  intro node inner inner' h
  refine C.within ["source", "options", "attributes"] (by decide)
    (u := node.under "source" + (node.under "options" + node.under "attributes")) ?_ (by simp)
  refine C.say (C.chunk _ h.applies) (C.say (C.text _) ?_)
  refine C.andThen (h.field "source") (C.reading fun options hoptions => ?_)
  have hbehind := C.mono (Json.nodesIn_le_of_givenOr hoptions) (h.valueAfter ", " options)
  exact C.ending hbehind (C.text _)

/-! ## Arrays, objects and patterns -/

lemma keptBy_array : C.KeptBy array := by
  intro node inner inner' h
  refine C.within ["elements", "typeAnnotation"] (by decide)
    (u := node.under "elements" + node.under "typeAnnotation") ?_ (by simp)
  refine C.say (C.text _) (C.reading fun nodes hnodes => ?_)
  refine C.andThen (h.listOf _ hnodes) ?_
  exact C.say (C.text _) h.ascription

/-- The parts of a function that are written behind its name. -/
lemma functionTail (h : inner.Matches inner' C) {rest rest' : Render Unit}
    (hrest : C.Related (node.under "body") rest rest') :
    C.Related node.nodes
      (do
        signature inner
        rest)
      (do
        signature inner'
        rest') :=
  C.inside ["typeParameters", "params", "parameters", "returnType", "body"] (by decide)
    (C.andThen h.signature hrest) (by simp [add_assoc])

lemma method_related (h : inner.Matches inner' C) :
    C.Related node.within (method inner) (method inner') := by
  refine C.within ["key", "value"] (by decide) (C.reading fun function hfunction =>
    C.after (accessor_related _) fun _ => (?_ : C.Related (node.under "key" + node.under "value")
      _ _)) (by simp)
  have hbody : C.Related (node.under "key" + node.under "value")
      (do
        key inner
        signature (inner.under function)
        Render.text " "
        (inner.under function).field "body")
      (do
        key inner'
        signature (inner'.under function)
        Render.text " "
        (inner'.under function).field "body") := by
    rw [Json.under_of_require hfunction]
    exact C.andThen h.key (functionTail (h.under function)
      (C.say (C.text _) ((h.under function).field _)))
  refine C.ite ?_ hbody
  exact C.say (C.textIf _ _ _) (C.say (C.textIf _ _ _) hbody)

lemma objectMember_related (h : inner.Matches inner' C) (part : Part node) :
    C.Related part.1.nodes (objectMember inner part) (objectMember inner' part) := by
  have hmember (asMethod : Bool) : C.Related part.1.nodes
      (if asMethod then method (inner.under part) else inner.value part)
      (if asMethod then method (inner'.under part) else inner'.value part) :=
    C.ite (C.mono part.1.within_le (method_related (h.under part))) (h.value part)
  exact C.skip fun _ => C.ite (C.skip hmember) (C.after (C.pure _) hmember)

lemma keptBy_object : C.KeptBy object := by
  intro node inner inner' h
  refine C.within ["properties"] (by decide) (u := node.under "properties") ?_ (by simp)
  refine C.say (C.text _) (C.reading fun nodes hnodes => ?_)
  have hlist := Inner.Matches.sequenceOf true "," (objectMember_related h) nodes
  refine C.mono (Json.under_of_require hnodes).ge ?_
  -- the list is read in the same step as its items, and the closing brace follows both
  simpa only [bind_assoc] using C.ending hlist (C.text _)

lemma keptBy_objectPattern : C.KeptBy objectPattern := by
  intro node inner inner' h
  refine C.within ["properties", "typeAnnotation"] (by decide)
    (u := node.under "properties" + node.under "typeAnnotation") ?_ (by simp)
  refine C.say (C.text _) (C.reading fun nodes hnodes => ?_)
  refine C.andThen (h.listOf _ hnodes) ?_
  exact C.say (C.text _) h.ascription

lemma keptBy_property : C.KeptBy property := by
  intro node inner inner' h
  refine C.within ["key", "value"] (by decide) (u := node.under "key" + node.under "value") ?_
    (by simp)
  refine C.skip fun name => C.reading fun value hvalue => C.skip fun short => ?_
  refine C.ite ?_ ?_
  · exact C.mono (Multiset.le_add_left _ _) (h.valueOf hvalue)
  · exact C.andThen h.key (C.say (C.text _) (h.valueOf hvalue))

lemma keptBy_defaulted : C.KeptBy defaulted := fun _ _ _ h => twoFields h _ _ _ (by decide)

lemma keptBy_spread : C.KeptBy spread := by
  intro node inner inner' h
  refine C.within ["argument", "typeAnnotation"] (by decide)
    (u := node.under "argument" + node.under "typeAnnotation") ?_ (by simp)
  exact C.say (C.text _) (C.andThen (h.field "argument") h.ascription)

/-! ## Operators -/

lemma operands_related (h : inner.Matches inner' C) (operator : Json) :
    C.Related node.within (operands inner operator) (operands inner' operator) := by
  refine C.within ["left", "right"] (by decide) (u := node.under "left" + node.under "right") ?_
    (by simp)
  refine C.reading fun left hleft => C.reading fun right hright => C.skip fun wraps => ?_
  refine C.andThen (h.wrappedOf hleft wraps) (C.say (C.text _) ?_)
  exact C.skip fun wraps => h.wrappedOf hright wraps

lemma keptBy_binary : C.KeptBy binary := by
  intro node inner inner' h
  refine C.skip fun operator => ?_
  let step (inner : Inner node) (noIn : Bool) : Render Unit :=
    if operator.1.isText "in" && noIn then do
      Render.text "("
      Render.withNoIn false (operands inner operator.1)
      Render.text ")"
    else operands inner operator.1
  refine C.noIn (f := step inner) (g := step inner') fun noIn => ?_
  refine C.ite ?_ (operands_related h _)
  exact C.say (C.text _) (C.ending (C.withNoIn _ (operands_related h _)) (C.text _))

lemma keptBy_unary : C.KeptBy unary := by
  intro node inner inner' h
  refine C.within ["argument"] (by decide) (u := node.under "argument") ?_ (by simp)
  refine C.skip fun operator => C.reading fun argument hargument => C.say (C.ofValue _) ?_
  refine C.skip fun spaced => C.optional (C.text _) fun _ => ?_
  exact C.skip fun wraps => h.wrappedOf hargument wraps

lemma keptBy_update : C.KeptBy update := by
  intro node inner inner' h
  refine C.within ["argument"] (by decide) (u := node.under "argument") ?_ (by simp)
  refine C.skip fun inFront => C.ite ?_ ?_
  · exact C.skip fun operator => C.say (C.ofValue _) (h.field "argument")
  · exact C.ending (h.field "argument") (C.skip fun operator => C.ofValue _)

lemma keptBy_assignment : C.KeptBy assignment := by
  intro node inner inner' h
  refine C.within ["left", "right"] (by decide) (u := node.under "left" + node.under "right") ?_
    (by simp)
  refine C.andThen (h.field "left") (C.skip fun operator => ?_)
  exact C.say (C.text _) (h.field "right")

lemma keptBy_conditional : C.KeptBy conditional := by
  intro node inner inner' h
  refine C.within ["test", "consequent", "alternate"] (by decide)
    (u := node.under "test" + (node.under "consequent" + node.under "alternate")) ?_ (by simp)
  refine C.reading fun test htest => C.skip fun wraps => ?_
  exact C.andThen (h.wrappedOf htest wraps) (C.branches (h.field _) (h.field _))

lemma keptBy_commaExpression : C.KeptBy commaExpression := by
  intro node inner inner' h
  refine C.within ["expressions"] (by decide) (u := node.under "expressions") ?_ (by simp)
  refine C.say (C.text _) (C.reading fun nodes hnodes => ?_)
  exact C.ending (h.listOf _ hnodes) (C.text _)

lemma keptBy_await : C.KeptBy await := by
  intro node inner inner' h
  refine C.within ["argument"] (by decide) (C.reading fun argument hargument =>
    C.mono (Json.nodesIn_le_of_present hargument) ?_) (by simp)
  cases argument with
  | none => exact C.text _
  | some argument =>
      exact C.skip fun _ => C.ite
        (C.say (C.text _) (C.ending (h.value _) (C.text _)))
        (C.say (C.text _) (h.value _))

lemma keptBy_yield : C.KeptBy yield := by
  intro node inner inner' h
  refine C.within ["argument"] (by decide) (C.skip fun _ => C.reading fun argument hargument =>
    C.mono (Json.nodesIn_le_of_present hargument) ?_) (by simp)
  cases argument with
  | none => exact C.text _
  | some argument => exact C.say (C.text _) (h.value _)

/-! ## Accesses and calls -/

lemma keptBy_member : C.KeptBy member := by
  intro node inner inner' h
  refine C.within ["object", "property"] (by decide)
    (u := node.under "object" + node.under "property") ?_ (by simp)
  refine C.reading fun head hhead => C.skip fun wraps => C.andThen (h.wrappedOf hhead wraps) ?_
  refine C.skip fun computed => C.ite ?_ ?_
  · exact C.say (C.textIf _ _ _) (h.enclosed _ _ _)
  · exact C.skip fun optional => C.say (C.text _) (h.field "property")

lemma keptBy_call (isNew : Bool) : C.KeptBy (call isNew) := by
  intro node inner inner' h
  have hrest (head : Part node) (hhead : node.require "callee" = .ok head) (wrap : Bool) : C.Related
      (node.under "callee" + (node.underArguments + node.under "arguments"))
      (do
        inner.wrapped head wrap
        Render.textIf node "optional" "?."
        typeArguments inner
        callArguments inner)
      (do
        inner'.wrapped head wrap
        Render.textIf node "optional" "?."
        typeArguments inner'
        callArguments inner') := by
    refine C.andThen (h.wrappedOf hhead wrap) (C.say (C.textIf _ _ _) ?_)
    exact C.andThen h.typeArguments (C.arguments h.value)
  refine C.within ["callee", "typeArguments", "typeParameters", "arguments"] (by decide)
    (u := node.under "callee" + (node.underArguments + node.under "arguments")) ?_
    (by simp [add_assoc])
  unfold call
  refine C.optional (C.text _) fun _ => C.reading fun head hhead => C.skip fun _ => ?_
  refine C.ite (C.after (C.pure _) (hrest head hhead)) (C.ite ?_ ?_)
  · exact C.skip (hrest head hhead)
  · exact C.after (C.pure _) (hrest head hhead)

/-! ## Functions -/

lemma functionBody_related (h : inner.Matches inner' C) :
    C.Related (node.under "body") (functionBody inner) (functionBody inner') := by
  refine C.reading fun body hbody => C.mono (Json.nodesIn_le_of_present hbody) ?_
  cases body with
  | none => exact C.text _
  | some body => exact C.say (C.text _) (h.value _)

lemma keptBy_function : C.KeptBy function := by
  intro node inner inner' h
  let tail : Multiset Json :=
    node.under "typeParameters" + (node.underParameters + node.under "returnType") +
      node.under "body"
  have htail : C.Related tail
      (do
        signature inner
        functionBody inner)
      (do
        signature inner'
        functionBody inner') :=
    C.andThen h.signature (functionBody_related h)
  refine C.within ["id", "typeParameters", "params", "parameters", "returnType", "body"] (by decide)
    (u := node.under "id" + tail) ?_ (by simp [tail, add_assoc])
  refine C.say (C.textIf _ _ _) (C.say (C.textIf _ _ _) ?_)
  refine C.skip fun generator => C.say (C.text _) (C.reading fun name hname => ?_)
  cases name with
  | none => exact C.mono (Multiset.le_add_left _ _) htail
  | some name => exact C.andThen (C.mono (Json.nodesIn_le_of_given hname) (h.value name)) htail

lemma keptBy_arrow : C.KeptBy arrow := by
  intro node inner inner' h
  refine C.within ["typeParameters", "params", "parameters", "returnType", "body"] (by decide)
    (u := node.under "typeParameters" + (node.underParameters + node.under "returnType") +
      node.under "body") ?_ (by simp [add_assoc])
  refine C.say (C.textIf _ _ _) (C.andThen h.signature (C.say (C.text _) ?_))
  refine C.reading fun body hbody => C.skip fun kind => C.ite (h.valueOf hbody) ?_
  exact C.skip fun wraps => h.wrappedOf hbody wraps

/-! ## Expressions with types in them -/

lemma keptBy_typedExpression (strength : Nat) (word : String) :
    C.KeptBy (typedExpression strength word) := by
  intro node inner inner' h
  refine C.within ["expression", "typeAnnotation"] (by decide)
    (u := node.under "expression" + node.under "typeAnnotation") ?_ (by simp)
  refine C.reading fun expression hexpression => C.skip fun wraps => ?_
  refine C.andThen (h.wrappedOf hexpression wraps) ?_
  exact C.say (C.text _) (h.typeField "typeAnnotation")

lemma keptBy_nonNull : C.KeptBy nonNull := by
  intro node inner inner' h
  refine C.within ["expression"] (by decide) (u := node.under "expression") ?_ (by simp)
  refine C.reading fun expression hexpression => C.skip fun wraps => ?_
  exact C.ending (h.wrappedOf hexpression wraps) (C.text _)

lemma keptBy_typeAssertion : C.KeptBy typeAssertion := by
  intro node inner inner' h
  refine C.within ["typeAnnotation", "expression"] (by decide)
    (u := node.under "typeAnnotation" + node.under "expression") ?_ (by simp)
  refine C.say (C.text _) (C.andThen (h.typeField "typeAnnotation") (C.say (C.text _) ?_))
  refine C.reading fun expression hexpression => ?_
  exact C.skip fun wraps => h.wrappedOf hexpression wraps

lemma keptBy_instantiation : C.KeptBy instantiation := fun _ _ _ h =>
  C.within ["expression", "typeArguments", "typeParameters"] (by decide)
    (C.andThen (h.field _) h.typeArguments) (by simp)

lemma keptBy_qualifiedName : C.KeptBy qualifiedName := fun _ _ _ h =>
  twoFields h _ _ _ (by decide)

end Rules

end EstreePrinter
