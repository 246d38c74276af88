import Mathlib
import EstreePrinter.Proofs.Estree.Answers
import EstreePrinter.Proofs.Estree.Ends

/-!
# The rules for expressions end on well-formed nodes

One lemma for each rule, whose proof follows the steps of the rule: what a step reads is in the form
of the kind, and what it renders is a node.  What several rules share comes first.
-/

namespace EstreePrinter

open Json (Part)
open Render (Ends Safe safe_text safe_textIf safe_chunk safe_pure)

/-- The parts of a node that are well-formed nodes themselves are rendered by steps that end. -/
structure Inner.Ends {node : Json} (inner : Inner node) : Prop where
  value : ∀ {part kind}, Json.IsA part.1 kind → Safe (inner.value part)
  bare : ∀ {part kind}, Json.IsA part.1 kind → Safe (inner.bare part)

lemma Inner.Ends.under {node : Json} {inner : Inner node} (h : inner.Ends) (part : Part node) :
    (inner.under part).Ends :=
  ⟨fun hpart => h.value hpart, fun hpart => h.bare hpart⟩

/-- A rule ends on the nodes of a kind. -/
def EndsOn (kind : String) (rule : Rule) : Prop :=
  ∀ (node : Json) (inner : Inner node), node.IsA kind → inner.Ends → Safe (rule node inner)

/-! ## Reading parts -/

namespace Json.Conforms

variable {node : Json} {form : Form} (h : node.Conforms form) {β : Type} {Q : β → Prop}

include h

/-- A node is read that has to be there. -/
lemma ends_require (key : String) {kinds : List String}
    (hneed : form.lookup key = some ⟨.node kinds, false⟩) {f : Part node → Render β}
    (hf : ∀ part, ∀ kind ∈ kinds, part.1.IsA kind → Ends Q (f part)) :
    Ends Q ((liftM (node.require key) : Render (Part node)) >>= f) := by
  obtain ⟨part, hpart, kind, hmem, hkind⟩ := h.requireNode key hneed
  exact .read hpart (hf part kind hmem hkind)

/-- A word is read that has to be there. -/
lemma ends_word (key : String) {options : List String}
    (hneed : form.lookup key = some ⟨.word options, false⟩) {f : Part node → Render β}
    (hf : ∀ part, ∀ s ∈ options, part.1 = .str s → Ends Q (f part)) :
    Ends Q ((liftM (node.require key) : Render (Part node)) >>= f) := by
  obtain ⟨part, hpart, hfits⟩ := h.require key hneed
  obtain ⟨s, hs, hvalue⟩ := word_of_fits hfits
  exact .read hpart (hf part s hs hvalue)

/-- A list is read that has to be there. -/
lemma ends_list (key : String) {holes : Bool} {item : Shape}
    (hneed : form.lookup key = some ⟨.list holes item, false⟩) {f : Part node → Render β}
    (hf : ∀ part : Part node, part.1.fits (.list holes item) = true → Ends Q (f part)) :
    Ends Q ((liftM (node.require key) : Render (Part node)) >>= f) := by
  obtain ⟨part, hpart, hfits⟩ := h.require key hneed
  exact .read hpart (hf part hfits)

/-- A node is read that may be missing. -/
lemma ends_given (key : String) {kinds : List String} {isOptional : Bool}
    (hneed : form.lookup key = some ⟨.node kinds, isOptional⟩)
    {f : Option (Part node) → Render β} (hnone : Ends Q (f none))
    (hsome : ∀ part, ∀ kind ∈ kinds, part.1.IsA kind → Ends Q (f (some part))) :
    Ends Q ((liftM (node.given key) : Render (Option (Part node))) >>= f) := by
  obtain ⟨found, hfound, hfits⟩ := h.given key hneed
  refine .read hfound ?_
  cases found with
  | none => exact hnone
  | some part =>
      obtain ⟨kind, hmem, hkind⟩ := isA_of_fits (hfits part rfl).1
      exact hsome part kind hmem hkind

/-- A node is read that may be missing or null. -/
lemma ends_present (key : String) {kinds : List String} {isOptional : Bool}
    (hneed : form.lookup key = some ⟨.node kinds, isOptional⟩)
    {f : Option (Part node) → Render β} (hnone : Ends Q (f none))
    (hsome : ∀ part, ∀ kind ∈ kinds, part.1.IsA kind → Ends Q (f (some part))) :
    Ends Q ((liftM (node.present key) : Render (Option (Part node))) >>= f) := by
  obtain ⟨found, hfound, hfits⟩ := h.present key hneed
  refine .read hfound ?_
  cases found with
  | none => exact hnone
  | some part =>
      obtain ⟨kind, hmem, hkind⟩ := isA_of_fits (hfits part rfl)
      exact hsome part kind hmem hkind

/-- A flag is read, whatever it says. -/
lemma ends_flag (key : String) {f : Bool → Render β} (hf : ∀ b, Ends Q (f b)) :
    Ends Q ((liftM (node.flag key) : Render Bool) >>= f) :=
  .reading (exists_flag h.isObject key) hf

end Json.Conforms

/-! ## What many rules share -/

namespace Inner.Ends

variable {node : Json} {inner : Inner node} (h : inner.Ends) {form : Form}

include h

lemma field (hform : node.Conforms form) (key : String) {kinds : List String}
    (hneed : form.lookup key = some ⟨.node kinds, false⟩) : Safe (inner.field key) :=
  hform.ends_require key hneed fun _ _ _ hpart => h.value hpart

lemma wrapped {part : Part node} {kind : String} (hpart : part.1.IsA kind) (wrap : Bool) :
    Safe (inner.wrapped part wrap) :=
  .ite ((safe_text _).andThen ((h.value hpart).andThen (safe_text _))) (h.value hpart)

/-- A part that may be missing, after a text, before the rest. -/
lemma valueAfterThen (hform : node.Conforms form) (lead key : String) {kinds : List String}
    {isOptional : Bool} (hneed : form.lookup key = some ⟨.node kinds, isOptional⟩)
    {rest : Render Unit} (hrest : Safe rest) :
    Safe (do
      inner.valueAfter lead (← node.given key)
      rest) :=
  hform.ends_given key hneed ((safe_pure _).andThen hrest) fun _ _ _ hpart =>
    ((safe_text _).andThen (h.value hpart)).andThen hrest

lemma valueAfter (hform : node.Conforms form) (lead key : String) {kinds : List String}
    {isOptional : Bool} (hneed : form.lookup key = some ⟨.node kinds, isOptional⟩) :
    Safe (do inner.valueAfter lead (← node.given key)) :=
  hform.ends_given key hneed (safe_pure _) fun _ _ _ hpart => (safe_text _).andThen (h.value hpart)

lemma list (spaces : Bool) {holes : Bool} {kinds : List String} {nodes : Part node}
    (hnodes : nodes.1.fits (.list holes (.node kinds)) = true) :
    Safe (Rules.list inner spaces nodes) := by
  obtain ⟨items, hitems, hfits⟩ := Json.itemsOf_of_fits hnodes
  refine .read hitems (Render.ends_sequence spaces "," fun part hpart => ?_)
  obtain ⟨kind, -, hkind⟩ := Json.isA_of_fits (hfits part hpart)
  exact h.value hkind

lemma key (hform : node.Conforms form) {kinds : List String}
    (hneed : form.lookup "key" = some ⟨.node kinds, false⟩) : Safe (Rules.key inner) := by
  have hfield := h.field hform "key" hneed
  exact hform.ends_flag _ fun _ =>
    .ite ((safe_text _).andThen (hfield.andThen (safe_text _))) hfield

omit h

variable (hform : node.Conforms (Estree.common ++ form))

include hform

/-! The fields for types are not used, so nothing is rendered for them. -/

lemma typeArguments : Safe (Rules.typeArguments inner) := by
  have hread : node.givenOr "typeArguments" "typeParameters" = .ok none := by
    rw [Json.givenOr, hform.given_unused "typeArguments" rfl, ok_bind]
    exact hform.given_unused "typeParameters" rfl
  exact .read hread (safe_pure _)

lemma typeParameters : Safe (Rules.typeParameters inner) :=
  .read (hform.given_unused "typeParameters" rfl) (safe_pure _)

lemma ascription : Safe (Rules.ascription inner) :=
  .read (hform.given_unused "typeAnnotation" rfl) (safe_pure _)

include h

lemma parameters
    (hneed : (Estree.common ++ form).lookup "params" = some ⟨.list false Estree.pattern, false⟩) :
    Safe (Rules.parameters inner) := by
  obtain ⟨nodes, hnodes, hfits⟩ := hform.present_list "params" hneed
  exact .read (a := some nodes) (by rw [Rules.parametersOf, hnodes]; rfl) (h.list false hfits)

lemma signature
    (hneed : (Estree.common ++ form).lookup "params" = some ⟨.list false Estree.pattern, false⟩) :
    Safe (Rules.signature inner) := by
  refine (typeParameters hform).andThen ((safe_text _).andThen ?_)
  refine (h.parameters hform hneed).andThen ((safe_text _).andThen ?_)
  exact .read (hform.given_unused "returnType" rfl) (safe_pure _)

end Inner.Ends

namespace Rules

variable {node : Json} {inner : Inner node} {kind : String}

lemma safe_accessor (h : node.isObject = true) : Safe (accessor node) := by
  refine .reading (Json.exists_getValue h _) fun kind => ?_
  split
  · exact (safe_text _).andThen (safe_pure _)
  · exact (safe_text _).andThen (safe_pure _)
  · exact safe_pure _

/-! ## Names, literals and templates -/

lemma ends_identifier : EndsOn "Identifier" identifier := fun node _ hnode _ => by
  have hform := hnode.conforms rfl
  obtain ⟨name, hname, hfits⟩ := hform.require "name" rfl
  exact .read hname ((safe_chunk (Json.text_of_fits hfits) hnode.hasPlace).andThen
    ((safe_textIf hform.isObject _ _).andThen (Inner.Ends.ascription hform)))

lemma ends_privateIdentifier : EndsOn "PrivateIdentifier" privateIdentifier := by
  intro node _ hnode _
  obtain ⟨name, hname, hfits⟩ := (hnode.conforms rfl).require "name" rfl
  obtain ⟨s, hs⟩ := Json.text_of_fits hfits
  exact .read hname (.read (a := s) (by rw [hs]; rfl) (safe_chunk ⟨_, rfl⟩ hnode.hasPlace))

lemma ends_word (content : String) : EndsOn kind (word content) := fun _ _ hnode _ =>
  safe_chunk ⟨content, rfl⟩ hnode.hasPlace

lemma exists_regexText {regex : Json} (h : regex.fits (.record "RegExp") = true) :
    ∃ s, regexText regex = .ok s := by
  have hform := Json.conforms_of_record "RegExp" rfl h
  obtain ⟨pattern, hpattern, -⟩ := hform.require "pattern" rfl
  simp only [regexText, hpattern, ok_bind, Json.get_eq hform.isObject]
  cases regex.field? "flags" with
  | none => exact ⟨_, rfl⟩
  | some flags => exact ⟨_, rfl⟩

lemma exists_literalText (hnode : node.IsA "Literal") (quote : Char) :
    ∃ s, literalText quote node = .ok (.str s) := by
  have hform := hnode.conforms rfl
  obtain ⟨raw, hraw, hrawfits⟩ := hform.given "raw" rfl
  rw [literalText, hraw, ok_bind]
  cases raw with
  | some raw =>
      obtain ⟨s, hs⟩ := Json.text_of_fits (hrawfits raw rfl).1
      exact ⟨s, by simp [hs]⟩
  | none =>
      obtain ⟨regex, hregex, hregexfits⟩ := hform.given "regex" rfl
      simp only [hregex, ok_bind]
      cases regex with
      | some regex =>
          obtain ⟨s, hs⟩ := exists_regexText (hregexfits regex rfl).1
          exact ⟨s, by simp only [hs]; rfl⟩
      | none =>
          obtain ⟨digits, hdigits, -⟩ := hform.present "bigint" rfl
          obtain ⟨v, hv⟩ := Json.exists_getValue hform.isObject "value"
          simp only [hdigits, hv, ok_bind]
          cases digits with
          | some digits => exact ⟨_, rfl⟩
          | none => exact ⟨_, rfl⟩

lemma ends_literal : EndsOn "Literal" literal := fun node _ hnode _ =>
  Render.safe_setting.bind fun s _ => by
    obtain ⟨t, ht⟩ := exists_literalText hnode s.quote
    exact .read ht (.read rfl ((Render.safe_raiseIf _).andThen
      (safe_chunk ⟨t, rfl⟩ hnode.hasPlace)))

lemma exists_quasiText {quasi : Json} (h : quasi.IsPiece "TemplateElement") :
    ∃ s, quasiText quasi = .ok (.str s) := by
  obtain ⟨value, hvalue, hfits⟩ := (h.conforms rfl).require "value" rfl
  obtain ⟨raw, hraw, hfits⟩ :=
    (Json.conforms_of_record "TemplateText" rfl hfits).require "raw" rfl
  obtain ⟨s, hs⟩ := Json.text_of_fits hfits
  exact ⟨s, by simp [quasiText, hvalue, hraw, hs]⟩

lemma safe_hole (h : inner.Ends) {holes : Part node}
    (hholes : holes.1.fits (.list false Estree.expression) = true) (i : Nat) :
    Safe (hole inner.value holes i) := by
  obtain ⟨found, hfound, hfits⟩ := Json.element_of_fits hholes i
  refine .read hfound ?_
  cases found with
  | none => exact safe_pure _
  | some part =>
      obtain ⟨kind, -, hkind⟩ := Json.isA_of_fits (hfits part rfl)
      exact (safe_text _).andThen ((h.value hkind).andThen (safe_text _))

lemma safe_quasis (h : inner.Ends) {holes : Part node}
    (hholes : holes.1.fits (.list false Estree.expression) = true) (i : Nat)
    {texts : List (Part node)} (htexts : ∀ p ∈ texts, p.1.IsPiece "TemplateElement") :
    Safe (quasis Render.chunk inner.value holes i texts) := by
  induction texts generalizing i with
  | nil => exact safe_pure _
  | cons quasi rest ih =>
      have hquasi := htexts quasi (by simp)
      obtain ⟨t, ht⟩ := exists_quasiText hquasi
      refine .read ht ((safe_chunk ⟨t, rfl⟩ hquasi.hasPlace).andThen (.read rfl ?_))
      exact (Render.safe_raiseIf _).andThen ((safe_hole h hholes i).andThen
        (ih (i + 1) fun p hp => htexts p (by simp [hp])))

lemma ends_template : EndsOn "TemplateLiteral" template := fun node inner hnode h => by
  have hform := hnode.conforms rfl
  obtain ⟨texts, htexts, -, parts, hparts, hall⟩ := hform.parts "quasis" rfl
  refine .read htexts (hform.ends_list "expressions" rfl fun holes hholes => ?_)
  refine (safe_text _).andThen (.read hparts ((safe_quasis h hholes 0 fun p hp => ?_).andThen
    (safe_text _)))
  obtain ⟨kind, hmem, hkind⟩ := Json.isPiece_of_fits ((hall p hp).resolve_left (by simp))
  exact List.mem_singleton.mp hmem ▸ hkind

lemma ends_taggedTemplate : EndsOn "TaggedTemplateExpression" taggedTemplate :=
  fun node inner hnode h => by
    have hform := hnode.conforms rfl
    refine hform.ends_require "tag" rfl fun tag _ _ htag => ?_
    refine .reading (Precedence.exists_wrapsAsHead htag _) fun wrap => ?_
    exact (h.wrapped htag wrap).andThen ((Inner.Ends.typeArguments hform).andThen
      (h.field hform "quasi" rfl))

/-- An expression in parentheses, and an optional chain. -/
lemma ends_transparent {form : Form} (hkind : Estree.forms.lookup kind = some form)
    {options : List String} (hneed : (Estree.common ++ form).lookup "expression" =
      some ⟨.node options, false⟩) : EndsOn kind transparent :=
  fun _ _ hnode h => h.field (hnode.conforms hkind) "expression" hneed

/-- Two fields with a text between them. -/
lemma safe_twoFields (h : inner.Ends) {form : Form} (hform : node.Conforms form)
    (first between second : String) {kinds kinds' : List String}
    (hfirst : form.lookup first = some ⟨.node kinds, false⟩)
    (hsecond : form.lookup second = some ⟨.node kinds', false⟩) :
    Safe (do
      inner.field first
      Render.text between
      inner.field second) :=
  (h.field hform first hfirst).andThen ((safe_text _).andThen (h.field hform second hsecond))

lemma ends_metaProperty : EndsOn "MetaProperty" metaProperty := fun _ _ hnode h =>
  safe_twoFields h (hnode.conforms rfl) _ _ _ rfl rfl

lemma ends_importCall : EndsOn "ImportExpression" importCall := fun node inner hnode h => by
  have hform := hnode.conforms rfl
  obtain ⟨found, hfound, hfits⟩ := hform.givenOr "options" "attributes" rfl rfl rfl
  have hoptions : Safe (inner.valueAfter ", " found) := by
    cases found with
    | none => exact safe_pure _
    | some part =>
        obtain ⟨kind, -, hkind⟩ := Json.isA_of_fits (hfits part rfl)
        exact (safe_text _).andThen (h.value hkind)
  exact (safe_chunk ⟨_, rfl⟩ hnode.hasPlace).andThen ((safe_text _).andThen
    ((h.field hform "source" rfl).andThen (.read hfound (hoptions.andThen (safe_text _)))))

/-! ## Arrays, objects and patterns -/

/-- A list between two texts, where the last field for types is not used. -/
lemma ends_array {form : Form} (hkind : Estree.forms.lookup kind = some form) {holes : Bool}
    {options : List String} (hneed : (Estree.common ++ form).lookup "elements" =
      some ⟨.list holes (.node options), false⟩) : EndsOn kind array := fun node inner hnode h => by
  have hform := hnode.conforms hkind
  exact (safe_text _).andThen (hform.ends_list "elements" hneed fun nodes hnodes =>
    (h.list false hnodes).andThen ((safe_text _).andThen (Inner.Ends.ascription hform)))

lemma ends_objectPattern : EndsOn "ObjectPattern" objectPattern := fun node inner hnode h => by
  have hform := hnode.conforms rfl
  exact (safe_text _).andThen (hform.ends_list "properties" rfl fun nodes hnodes =>
    (h.list true hnodes).andThen ((safe_text _).andThen (Inner.Ends.ascription hform)))

/-- Only a function is written as a method. -/
lemma exists_isMethod (hnode : node.IsA "Property") {value : Part node}
    (hread : node.require "value" = .ok value) (hvalue : value.1.IsA kind) :
    ∃ b, isMethod node = .ok b ∧ (b = true → kind = "FunctionExpression") := by
  obtain ⟨isNamed, hnamed⟩ := Json.exists_flag hvalue.isObject "id"
  obtain ⟨word, hword⟩ := Json.exists_getValue hnode.isObject "kind"
  obtain ⟨isMarked, hmarked⟩ := Json.exists_flagUnlessAbsent hnode.isObject "method"
  simp only [isMethod, hread, ok_bind, hvalue.kind_eq, hnamed, hword, hmarked]
  by_cases hfunction : kind = "FunctionExpression"
  · rw [if_neg (by simp [Json.isText, hfunction])]
    split_ifs
    · exact ⟨_, rfl, fun _ => hfunction⟩
    · exact ⟨_, rfl, fun _ => hfunction⟩
    · exact ⟨_, rfl, fun _ => hfunction⟩
  · exact ⟨false, by simp [Json.isText, hfunction], by simp⟩

lemma safe_method (hnode : node.IsA "Property") (h : inner.Ends) {function : Part node}
    (hread : node.require "value" = .ok function)
    (hfunction : function.1.IsA "FunctionExpression") :
    Safe (method inner) := by
  have hform := hnode.conforms rfl
  have hfunctionform := hfunction.conforms rfl
  have hunder := h.under function
  have hrest : Safe (do
      key inner
      signature (inner.under function)
      Render.text " "
      (inner.under function).field "body") := by
    refine (h.key hform rfl).andThen ((hunder.signature hfunctionform rfl).andThen ?_)
    exact (safe_text _).andThen (hunder.field hfunctionform "body" rfl)
  refine .read hread ((safe_accessor hform.isObject).bind fun hasWord _ => .ite ?_ hrest)
  exact (safe_textIf hfunctionform.isObject _ _).andThen
    ((safe_textIf hfunctionform.isObject _ _).andThen hrest)

lemma safe_objectMember (h : inner.Ends) {member : Part node} (hmember : member.1.IsA kind) :
    Safe (objectMember inner member) := by
  refine .read hmember.requireKind_eq ?_
  by_cases hproperty : kind = "Property"
  · subst hproperty
    obtain ⟨value, hread, kind, -, hvalue⟩ := (hmember.conforms rfl).requireNode "value" rfl
    obtain ⟨b, hb, hfunction⟩ := exists_isMethod hmember hread hvalue
    refine .read hb ?_
    cases b with
    | false => exact h.value hmember
    | true => exact safe_method hmember (h.under member) hread (hfunction rfl ▸ hvalue)
  · simpa [Json.isText, hproperty] using h.value hmember

lemma ends_object : EndsOn "ObjectExpression" object := fun node inner hnode h => by
  refine (safe_text _).andThen ((hnode.conforms rfl).ends_list "properties" rfl
    fun nodes hnodes => ?_)
  obtain ⟨items, hitems, hfits⟩ := Json.itemsOf_of_fits hnodes
  refine .read hitems ((Render.ends_sequence true "," fun part hpart => ?_).andThen (safe_text _))
  obtain ⟨kind, -, hkind⟩ := Json.isA_of_fits (hfits part hpart)
  exact safe_objectMember h hkind

/-- Whether a property is written once can be told when it is known what its value is at heart. -/
lemma exists_isShorthandOf {key target : Json} {k t : String} (hnode : node.IsA "Property")
    (hkey : key.IsA k) (htarget : target.IsA t) :
    ∃ b, (do
      if ← node.flag "computed" then pure false
      else
        let kind ← match ← node.get "kind" with
          | some kind => pure kind.1
          | none => pure (.str "init")
        if !kind.isText "init" then pure false
        else if !(← key.requireKind).isText "Identifier" then pure false
        else if !(← target.requireKind).isText "Identifier" then pure false
        else
          let name ← key.require "name"
          pure (name.1.same (← target.require "name").1) : Except Fault Bool) = .ok b := by
  have hnames : ∃ b, (do
      if !(← key.requireKind).isText "Identifier" then pure false
      else if !(← target.requireKind).isText "Identifier" then pure false
      else
        let name ← key.require "name"
        pure (name.1.same (← target.require "name").1) : Except Fault Bool) = .ok b := by
    simp only [hkey.requireKind_eq, htarget.requireKind_eq, ok_bind]
    split_ifs with hk ht
    · exact ⟨_, rfl⟩
    · exact ⟨_, rfl⟩
    · obtain rfl : k = "Identifier" := by simpa [Json.isText] using hk
      obtain rfl : t = "Identifier" := by simpa [Json.isText] using ht
      obtain ⟨name, hname, -⟩ := (hkey.conforms rfl).require "name" rfl
      obtain ⟨other, hother, -⟩ := (htarget.conforms rfl).require "name" rfl
      exact ⟨_, by rw [hname, ok_bind, hother]; rfl⟩
  obtain ⟨isComputed, hcomputed⟩ := Json.exists_flag hnode.isObject "computed"
  rw [hcomputed, ok_bind]
  split
  · exact ⟨_, rfl⟩
  · rw [Json.get_eq hnode.isObject, ok_bind]
    cases node.field? "kind" with
    | none => exact hnames
    | some word =>
        simp only [pure_bind]
        split
        · exact ⟨_, rfl⟩
        · exact hnames

lemma exists_isShorthand {key value : Json} {k v : String} (hnode : node.IsA "Property")
    (hkey : key.IsA k) (hvalue : value.IsA v) : ∃ b, isShorthand node key value = .ok b := by
  rw [isShorthand, hvalue.requireKind_eq, ok_bind]
  by_cases hpattern : v = "AssignmentPattern"
  · subst hpattern
    obtain ⟨left, hleft, t, -, ht⟩ := (hvalue.conforms rfl).requireNode "left" rfl
    rw [if_pos (by simp [Json.isText]), hleft]
    exact exists_isShorthandOf hnode hkey ht
  · rw [if_neg (by simpa [Json.isText] using hpattern)]
    exact exists_isShorthandOf hnode hkey hvalue

lemma ends_property : EndsOn "Property" property := fun node inner hnode h => by
  have hform := hnode.conforms rfl
  refine hform.ends_require "key" rfl fun name _ _ hname =>
    hform.ends_require "value" rfl fun value _ _ hvalue => ?_
  refine .reading (exists_isShorthand hnode hname hvalue) fun _ => .ite (h.value hvalue) ?_
  exact (h.key hform rfl).andThen ((safe_text _).andThen (h.value hvalue))

lemma ends_defaulted : EndsOn "AssignmentPattern" defaulted := fun _ _ hnode h =>
  safe_twoFields h (hnode.conforms rfl) _ _ _ rfl rfl

lemma ends_spread {form : Form} (hkind : Estree.forms.lookup kind = some form)
    {options : List String} (hneed : (Estree.common ++ form).lookup "argument" =
      some ⟨.node options, false⟩) : EndsOn kind spread := fun node inner hnode h => by
  have hform := hnode.conforms hkind
  exact (safe_text _).andThen ((h.field hform "argument" hneed).andThen
    (Inner.Ends.ascription hform))

/-! ## Operators -/

lemma safe_operands (h : inner.Ends) (hnode : node.IsA kind) (hkind : kind ∈ Precedence.operations)
    (operator : Json) : Safe (operands inner operator) := by
  obtain ⟨left, hleft, l, hl, right, hright, r, hr⟩ : ∃ left, node.require "left" = .ok left ∧
      ∃ l, left.1.IsA l ∧ ∃ right, node.require "right" = .ok right ∧ ∃ r, right.1.IsA r := by
    simp only [Precedence.operations, List.mem_cons, List.not_mem_nil, or_false] at hkind
    rcases hkind with rfl | rfl
    · obtain ⟨left, hleft, l, -, hl⟩ := (hnode.conforms rfl).requireNode "left" rfl
      obtain ⟨right, hright, r, -, hr⟩ := (hnode.conforms rfl).requireNode "right" rfl
      exact ⟨left, hleft, l, hl, right, hright, r, hr⟩
    · obtain ⟨left, hleft, l, -, hl⟩ := (hnode.conforms rfl).requireNode "left" rfl
      obtain ⟨right, hright, r, -, hr⟩ := (hnode.conforms rfl).requireNode "right" rfl
      exact ⟨left, hleft, l, hl, right, hright, r, hr⟩
  refine .read hleft (.read hright (.reading (Precedence.exists_needsParens hl hnode hkind false)
    fun wrapLeft => ?_))
  refine (h.wrapped hl wrapLeft).andThen ((safe_text _).andThen (.reading
    (Precedence.exists_needsParens hr hnode hkind true) fun wrapRight => ?_))
  exact h.wrapped hr wrapRight

lemma ends_binary (hkind : kind ∈ Precedence.operations) : EndsOn kind binary :=
  fun node inner hnode h => by
    obtain ⟨operator, hoperator, -⟩ := Precedence.exists_operator hnode hkind
    have hoperands := safe_operands h hnode hkind operator.1
    refine .read hoperator (Render.safe_setting.bind fun s _ => .ite ?_ hoperands)
    exact (safe_text _).andThen ((hoperands.withNoIn false).andThen (safe_text _))

/-- The first character of an operator. -/
lemma exists_first {op : String} (h : op ≠ "") : ∃ v, (Json.str op).first = .ok v := by
  obtain ⟨c, rest, hop⟩ := List.exists_cons_of_ne_nil (fun h' => h (String.toList_eq_nil_iff.mp h'))
  exact ⟨.str (String.singleton c), by simp [Json.first, Json.elements?, hop, orMalformed]⟩

lemma exists_signsCollide (operator : Json) {argument : Json} (h : argument.IsA kind) :
    ∃ b, signsCollide operator argument = .ok b := by
  obtain ⟨core, hcore, inner, hinner⟩ := Precedence.exists_unwrap h
  rw [signsCollide, hcore, ok_bind, hinner.requireKind_eq, ok_bind]
  split
  · exact ⟨_, rfl⟩
  · rename_i hsigned
    obtain ⟨sign, hsign, first, hfirst⟩ : ∃ sign, core.1.require "operator" = .ok sign ∧
        ∃ first, sign.1.first = .ok first := by
      have hkinds : inner = "UnaryExpression" ∨ inner = "UpdateExpression" :=
        or_iff_not_imp_left.mpr (by simpa [Json.isOneOf] using hsigned)
      have hempty : ∀ op ∈ Estree.unaryOperators ++ Estree.updateOperators, op ≠ "" := by decide
      rcases hkinds with rfl | rfl
      · obtain ⟨sign, hsign, hfits⟩ := (hinner.conforms rfl).require "operator" rfl
        obtain ⟨op, hop, hvalue⟩ := Json.word_of_fits hfits
        exact ⟨sign, hsign, hvalue ▸ exists_first (hempty op (List.mem_append_left _ hop))⟩
      · obtain ⟨sign, hsign, hfits⟩ := (hinner.conforms rfl).require "operator" rfl
        obtain ⟨op, hop, hvalue⟩ := Json.word_of_fits hfits
        exact ⟨sign, hsign, hvalue ▸ exists_first (hempty op (List.mem_append_right _ hop))⟩
    rw [hsign, ok_bind, hfirst, ok_bind]
    split
    · exact ⟨_, rfl⟩
    · exact Json.exists_flagUnlessAbsent hinner.isObject "prefix"

lemma exists_spacedUnary (op : String) {argument : Json} (h : argument.IsA kind) :
    ∃ b, spacedUnary (.str op) argument = .ok b := by
  simp only [spacedUnary, Json.length?, orMalformed, ok_bind, Json.text]
  split
  · exact ⟨_, rfl⟩
  · split
    · exact exists_signsCollide _ h
    · exact ⟨_, rfl⟩

lemma ends_unary : EndsOn "UnaryExpression" unary := fun node inner hnode h => by
  have hform := hnode.conforms rfl
  refine hform.ends_word "operator" rfl fun operator op _ hop =>
    hform.ends_require "argument" rfl fun argument _ _ hargument => ?_
  refine (Render.safe_ofValue _).andThen (.reading (hop ▸ exists_spacedUnary op hargument)
    fun _ => .optional (safe_text _) fun _ => ?_)
  exact .reading (Precedence.exists_bindsLooser hargument _) fun wrap => h.wrapped hargument wrap

lemma ends_update : EndsOn "UpdateExpression" update := fun node inner hnode h => by
  have hform := hnode.conforms rfl
  have hargument := h.field hform "argument" rfl
  exact hform.ends_flag _ fun _ => .ite
    (hform.ends_word "operator" rfl fun _ _ _ _ => (Render.safe_ofValue _).andThen hargument)
    (hargument.andThen (hform.ends_word "operator" rfl fun _ _ _ _ => Render.safe_ofValue _))

lemma ends_assignment : EndsOn "AssignmentExpression" assignment := fun node inner hnode h => by
  have hform := hnode.conforms rfl
  exact (h.field hform "left" rfl).andThen (hform.ends_word "operator" rfl fun _ _ _ _ =>
    (safe_text _).andThen (h.field hform "right" rfl))

lemma ends_conditional : EndsOn "ConditionalExpression" conditional := fun node inner hnode h => by
  have hform := hnode.conforms rfl
  refine hform.ends_require "test" rfl fun test _ _ htest => ?_
  refine .reading (Precedence.exists_wrapsAsTest htest) fun wrap => ?_
  refine (h.wrapped htest wrap).andThen ?_
  exact Render.ends_branches (h.field hform "consequent" rfl) (h.field hform "alternate" rfl)

lemma ends_commaExpression : EndsOn "SequenceExpression" commaExpression := fun _ _ hnode h =>
  (safe_text _).andThen ((hnode.conforms rfl).ends_list "expressions" rfl fun _ hnodes =>
    (h.list false hnodes).andThen (safe_text _))

lemma ends_await : EndsOn "AwaitExpression" await := fun _ _ hnode h =>
  (hnode.conforms rfl).ends_present "argument" rfl (safe_text _) fun _ _ _ hargument =>
    .reading (Precedence.exists_bindsLooser hargument _) fun _ => .ite
      ((safe_text _).andThen ((h.value hargument).andThen (safe_text _)))
      ((safe_text _).andThen (h.value hargument))

lemma ends_yield : EndsOn "YieldExpression" yield := fun _ _ hnode h =>
  (hnode.conforms rfl).ends_flag _ fun _ =>
    (hnode.conforms rfl).ends_present "argument" rfl (safe_text _) fun _ _ _ hargument =>
      (safe_text _).andThen (h.value hargument)

/-! ## Accesses and calls -/

lemma ends_member : EndsOn "MemberExpression" member := fun node inner hnode h => by
  have hform := hnode.conforms rfl
  have hproperty := h.field hform "property" rfl
  refine hform.ends_require "object" rfl fun head _ _ hhead => ?_
  refine .reading (Precedence.exists_wrapsAsHead hhead _) fun wrap => ?_
  refine (h.wrapped hhead wrap).andThen ?_
  refine hform.ends_flag _ fun _ => .ite ?_ ?_
  · exact (safe_textIf hform.isObject _ _).andThen
      ((safe_text _).andThen (hproperty.andThen (safe_text _)))
  · exact hform.ends_flag _ fun _ => (safe_text _).andThen hproperty

/-- A call, and the making of an object. -/
lemma ends_call (isNew : Bool) {form : Form} (hkind : Estree.forms.lookup kind = some form)
    {options : List String}
    (hcallee : (Estree.common ++ form).lookup "callee" = some ⟨.node options, false⟩)
    (harguments : (Estree.common ++ form).lookup "arguments" =
      some ⟨.list false Estree.argument, false⟩) : EndsOn kind (call isNew) := by
  intro node inner hnode h
  have hform := hnode.conforms hkind
  obtain ⟨list, hlist, -, parts, hparts, hall⟩ := hform.parts "arguments" harguments
  have hinner : ∀ part ∈ parts, Safe (inner.value part) := fun part hpart => by
    obtain ⟨k, -, hk⟩ := Json.isA_of_fits ((hall part hpart).resolve_left (by simp))
    exact h.value hk
  have hrest {head : Part node} {k : String} (hhead : head.1.IsA k) (wrap : Bool) : Safe (do
      inner.wrapped head wrap
      Render.textIf node "optional" "?."
      typeArguments inner
      callArguments inner) := by
    refine (h.wrapped hhead wrap).andThen ((safe_textIf hform.isObject _ _).andThen ?_)
    exact (Inner.Ends.typeArguments hform).andThen (Render.ends_callArguments hlist hparts hinner)
  unfold call
  refine .optional (safe_text _) fun _ => ?_
  refine hform.ends_require "callee" hcallee fun head _ _ hhead => ?_
  have hdecided (wrap : Bool) := (safe_pure wrap).bind fun wrap _ => hrest hhead wrap
  exact .reading (Precedence.exists_wrapsAsHead hhead _) fun _ => .ite (hdecided true)
    (.ite (.reading (Precedence.exists_hasCall hhead) (hrest hhead)) (hdecided false))

/-! ## Functions -/

lemma safe_functionBody (h : inner.Ends) {form : Form} (hform : node.Conforms form)
    {options : List String} (hneed : form.lookup "body" = some ⟨.node options, false⟩) :
    Safe (functionBody inner) :=
  hform.ends_present "body" hneed (safe_text _) fun _ _ _ hbody =>
    (safe_text _).andThen (h.value hbody)

lemma ends_function (hkind : Estree.forms.lookup kind = some Estree.functionForm) :
    EndsOn kind function := fun node inner hnode h => by
  have hform := hnode.conforms hkind
  have hrest : Safe (do
      signature inner
      functionBody inner) :=
    (h.signature hform rfl).andThen (safe_functionBody h hform rfl)
  refine (safe_textIf hform.isObject _ _).andThen ((safe_textIf hform.isObject _ _).andThen
    (hform.ends_flag _ fun _ => (safe_text _).andThen ?_))
  exact hform.ends_given "id" rfl hrest fun _ _ _ hname => (h.value hname).andThen hrest

lemma ends_arrow : EndsOn "ArrowFunctionExpression" arrow := fun node inner hnode h => by
  have hform := hnode.conforms rfl
  refine (safe_textIf hform.isObject _ _).andThen ((h.signature hform rfl).andThen
    ((safe_text _).andThen (hform.ends_require "body" rfl fun body _ _ hbody => ?_)))
  exact .read hbody.requireKind_eq (.ite (h.value hbody)
    (.reading (Precedence.exists_startsWith hbody _) fun wrap => h.wrapped hbody wrap))

end Rules

end EstreePrinter
