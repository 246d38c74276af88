import Mathlib
import EstreePrinter.Proofs.Estree.Expression
import EstreePrinter.Proofs.Words.Says

/-!
# The rules for expressions say the words of their nodes

One lemma for each rule.  Its proof follows the steps of the rule and puts together what they say;
that these are the words of the node, in the order of the source, is looked up in the form of the
kind.  What several rules share comes first.
-/

namespace EstreePrinter

open Json (Part)
open Render (Says says_text says_textIf says_pure says_chunk wordsOf)

/-- The parts of a node that are well-formed nodes themselves are rendered by steps that say their
words. -/
structure Inner.Speaks {node : Json} (quote : Char) (inner : Inner node) : Prop where
  value : ∀ {part : Part node} {kinds : List String}, part.1.fits (.node kinds) = true →
    Says quote (part.1.words quote) (inner.value part)
  bare : ∀ {part : Part node} {kinds : List String}, part.1.fits (.node kinds) = true →
    Says quote (part.1.words quote) (inner.bare part)

lemma Inner.Speaks.under {node : Json} {quote : Char} {inner : Inner node} (h : inner.Speaks quote)
    (part : Part node) : (inner.under part).Speaks quote :=
  ⟨fun hpart => h.value hpart, fun hpart => h.bare hpart⟩

/-- A rule says the words of the coherent nodes of a kind. -/
def SpeaksOn (quote : Char) (kind : String) (rule : Rule) : Prop :=
  ∀ (node : Json) (inner : Inner node), node.IsA kind → node.isEven = true → node.Coherent →
    inner.Speaks quote → Says quote (node.words quote) (rule node inner)

/-! ## Reading parts -/

namespace Json

variable {node : Json} {key : String}

lemma field?_of_require {part : Part node} (h : node.require key = .ok part) :
    node.field? key = some part := by
  rw [require] at h
  split at h
  · split at h
    · rename_i found hfield
      rw [hfield, Except.ok.inj h]
    · cases h
  · cases h

lemma getValue_of_field? {part : Part node} (h : node.field? key = some part) :
    node.getValue key = .ok part.1 := by
  obtain ⟨fields, rfl, -⟩ := field?_eq_some h
  simp [getValue, get, isObject, h]

lemma isEven_of_fits {kinds : List String} {v : Json} (h : v.fits (.node kinds) = true) :
    v.isEven = true := by
  cases v with
  | obj fields =>
      simp only [fits] at h
      split at h
      · simp only [Bool.and_eq_true] at h
        exact h.2
      · cases h
  | _ => rfl

end Json

namespace Json.Conforms

variable {node : Json} {form : Form} (h : node.Conforms form) {β : Type} {quote : Char}
  {ws : List Word}

include h

/-- A field is read that has to be there. -/
lemma says_require (key : String) {shape : Shape} (hneed : form.lookup key = some ⟨shape, false⟩)
    {f : Part node → Render β}
    (hf : ∀ part, node.field? key = some part → part.1.fits shape = true → Says quote ws (f part)) :
    Says quote ws ((liftM (node.require key) : Render (Part node)) >>= f) := by
  obtain ⟨part, hpart, hfits⟩ := h.require key hneed
  refine .known hpart ?_
  exact hf part (field?_of_require hpart) hfits

/-- A field is read that may be missing; if it is, it has no words. -/
lemma says_given (key : String) {need : Need} (hneed : form.lookup key = some need)
    {f : Option (Part node) → Render β} (hnone : Says quote ws (f none))
    (hsome : ∀ part, node.field? key = some part → part.1.fits need.shape = true →
      Says quote (node.wordsAt quote key ++ ws) (f (some part))) :
    Says quote (node.wordsAt quote key ++ ws)
      ((liftM (node.given key) : Render (Option (Part node))) >>= f) := by
  obtain ⟨found, hfound, hfits⟩ := h.given key hneed
  refine .known hfound ?_
  cases found with
  | none =>
      rw [wordsAt_of_not_has (has_of_given h.isObject hfound), List.nil_append]
      exact hnone
  | some part =>
      rw [Json.given, get_eq h.isObject] at hfound
      have hfield := (Option.filter_eq_some_iff.mp (Except.ok.inj hfound)).1
      exact hsome part hfield (hfits part rfl).1

/-- A field is read that may be missing or null; if it is, it has no words. -/
lemma says_present (key : String) {need : Need} (hneed : form.lookup key = some need)
    {f : Option (Part node) → Render β} (hnone : Says quote ws (f none))
    (hsome : ∀ part, node.field? key = some part → part.1.fits need.shape = true →
      Says quote (node.wordsAt quote key ++ ws) (f (some part))) :
    Says quote (node.wordsAt quote key ++ ws)
      ((liftM (node.present key) : Render (Option (Part node))) >>= f) := by
  obtain ⟨found, hfound, hfits⟩ := h.present key hneed
  refine .known hfound ?_
  rw [Json.present, get_eq h.isObject] at hfound
  have hfound := Except.ok.inj hfound
  cases found with
  | none =>
      have hhas : node.has key = false := by
        rw [has]
        cases hfield : node.field? key with
        | none => rfl
        | some part =>
            have hnull : part.1.isNull = true := by
              simpa using Option.filter_eq_none_iff.mp hfound part hfield
            cases hvalue : part.1 <;> simp_all [isNull, isGiven]
      rw [wordsAt_of_not_has hhas, List.nil_append]
      exact hnone
  | some part =>
      exact hsome part (Option.filter_eq_some_iff.mp hfound).1 (hfits part rfl)

/-- The first of two fields that is given is read; the other one is not given then. -/
lemma says_givenOr (key other : String) {shape : Shape}
    (hneed : form.lookup key = some ⟨shape, true⟩)
    (hneed' : form.lookup other = some ⟨shape, true⟩)
    (hone : (!(node.has key && node.has other)) = true) {f : Option (Part node) → Render β}
    (hnone : Says quote [] (f none))
    (hsome : ∀ k part, node.field? k = some part → part.1.fits shape = true →
      Says quote (node.wordsAt quote k) (f (some part))) :
    Says quote (node.wordsUnder quote [key, other])
      ((liftM (node.givenOr key other) : Render (Option (Part node))) >>= f) := by
  obtain ⟨found, hfound, hfits⟩ := h.given key hneed
  obtain ⟨found', hfound', hfits'⟩ := h.given other hneed'
  have hfield {k : String} {part : Part node} (hgiven : node.given k = .ok (some part)) :
      node.field? k = some part := by
    rw [Json.given, get_eq h.isObject] at hgiven
    exact (Option.filter_eq_some_iff.mp (Except.ok.inj hgiven)).1
  have hhas := has_of_given h.isObject hfound
  have hhas' := has_of_given h.isObject hfound'
  rw [wordsUnder_cons, wordsUnder_cons, wordsUnder_nil, List.append_nil]
  cases found with
  | some part =>
      have hother : node.has other = false := by simpa [hhas] using hone
      rw [wordsAt_of_not_has hother, List.append_nil]
      exact .known (a := some part) (by rw [Json.givenOr, hfound]; rfl)
        (hsome key part (hfield hfound) (hfits part rfl).1)
  | none =>
      have hkey : node.has key = false := hhas
      rw [wordsAt_of_not_has hkey, List.nil_append]
      refine .known (a := found') (by rw [Json.givenOr, hfound]; exact hfound') ?_
      cases found' with
      | none =>
          have hother : node.has other = false := hhas'
          rw [wordsAt_of_not_has hother]
          exact hnone
      | some part => exact hsome other part (hfield hfound') (hfits' part rfl).1

/-- A field that is not used is read. -/
lemma says_unused (key : String) {isOptional : Bool}
    (hneed : form.lookup key = some ⟨.unused, isOptional⟩) {f : Option (Part node) → Render β}
    (hf : Says quote ws (f none)) :
    Says quote ws ((liftM (node.given key) : Render (Option (Part node))) >>= f) :=
  .known (h.given_unused key hneed) hf

end Json.Conforms

/-! ## What many rules share -/

namespace Inner.Speaks

variable {node : Json} {inner : Inner node} {quote : Char} (h : inner.Speaks quote) {form : Form}
  {ws : List Word}

include h

/-- The node under a key. -/
lemma partAt {key : String} {part : Part node} (hfield : node.field? key = some part)
    {kinds : List String} (hpart : part.1.fits (.node kinds) = true) :
    Says quote (node.wordsAt quote key) (inner.value part) := by
  obtain ⟨kind, -, hkind⟩ := Json.isA_of_fits hpart
  rw [Json.wordsAt_of_isObject hfield hkind.isObject]
  exact h.value hpart

lemma field (hform : node.Conforms form) (key : String) {kinds : List String}
    (hneed : form.lookup key = some ⟨.node kinds, false⟩) :
    Says quote (node.wordsAt quote key) (inner.field key) :=
  hform.says_require key hneed fun _ hfield hpart => h.partAt hfield hpart

omit h in
lemma wrapped {part : Part node} (hpart : Says quote ws (inner.value part)) (wrap : Bool) :
    Says quote ws (inner.wrapped part wrap) :=
  .ite ((says_text _).skip fun _ => hpart.ending (says_text _)) hpart

/-- A part that may be missing, after a text, before the rest. -/
lemma valueAfterThen (hform : node.Conforms form) (lead key : String) {kinds : List String}
    {isOptional : Bool} (hneed : form.lookup key = some ⟨.node kinds, isOptional⟩)
    {rest : Render Unit} (hrest : Says quote ws rest) :
    Says quote (node.wordsAt quote key ++ ws) (do
      inner.valueAfter lead (← node.given key)
      rest) :=
  hform.says_given key hneed ((says_pure _).skip fun _ => hrest) fun _ hfield hpart =>
    ((says_text _).skip fun _ => h.partAt hfield hpart).andThen hrest

lemma valueAfter (hform : node.Conforms form) (lead key : String) {kinds : List String}
    {isOptional : Bool} (hneed : form.lookup key = some ⟨.node kinds, isOptional⟩) :
    Says quote (node.wordsAt quote key) (do inner.valueAfter lead (← node.given key)) := by
  rw [← List.append_nil (node.wordsAt quote key)]
  exact hform.says_given key hneed (says_pure _) fun _ hfield hpart =>
    ((says_text _).skip fun _ => h.partAt hfield hpart).of_eq (by simp)

omit h in
/-- The items of a list and their words. -/
lemma exists_items (quote : Char) {key : String} {holes : Bool} {item : Shape} {list : Part node}
    (hfield : node.field? key = some list) (hfits : list.1.fits (.list holes item) = true) :
    ∃ items, Json.itemsOf list = .ok items ∧ (∀ p, some p ∈ items → p.1.fits item = true) ∧
      (items.flatMap fun a => a.elim [] fun part => part.1.words quote) =
        node.wordsAt quote key := by
  obtain ⟨items, hitems, hall⟩ := Json.itemsOf_of_fits hfits
  obtain ⟨parts, hparts, -⟩ := Json.parts_of_fits hfits
  obtain ⟨elements, helements, -⟩ := Json.list_of_fits hfits
  refine ⟨items, hitems, hall, ?_⟩
  rw [Json.wordsAt_of_parts quote hfield ⟨elements, helements⟩ hparts]
  rw [Json.itemsOf] at hitems
  split at hitems
  · rw [hparts] at hitems
    obtain rfl := Except.ok.inj hitems
    rw [List.flatMap_map]
    refine List.flatMap_congr fun part _ => ?_
    split
    · rename_i hnull
      rw [Json.eq_null_of_isNull hnull, Json.words_of_kindName?_none rfl]
      rfl
    · rfl
  · rename_i hgiven
    obtain rfl := Except.ok.inj hitems
    have hempty : elements = [] := by simpa [helements, Json.isGiven] using hgiven
    obtain ⟨v, hinside⟩ := list
    obtain rfl : v = .arr [] := helements.trans (by rw [hempty])
    obtain rfl := Except.ok.inj hparts
    rfl

lemma list (spaces : Bool) {key : String} {holes : Bool} {kinds : List String} {nodes : Part node}
    (hfield : node.field? key = some nodes)
    (hnodes : nodes.1.fits (.list holes (.node kinds)) = true) :
    Says quote (node.wordsAt quote key) (Rules.list inner spaces nodes) := by
  obtain ⟨items, hitems, hall, hwords⟩ := exists_items quote hfield hnodes
  refine .known hitems ?_
  rw [← hwords]
  exact Render.says_sequence spaces "," fun part hpart => h.value (hall part hpart)

lemma key (hform : node.Conforms form) {kinds : List String}
    (hneed : form.lookup "key" = some ⟨.node kinds, false⟩) :
    Says quote (node.wordsAt quote "key") (Rules.key inner) := by
  have hfield := h.field hform "key" hneed
  exact .read fun _ => .ite ((says_text _).skip fun _ => hfield.ending (says_text _)) hfield

omit h

variable (hform : node.Conforms (Estree.common ++ form))

include hform

/-! The fields for types are not used, so nothing is said for them. -/

lemma typeArguments : Says quote [] (Rules.typeArguments inner) := by
  have hread : node.givenOr "typeArguments" "typeParameters" = .ok none := by
    rw [Json.givenOr, hform.given_unused "typeArguments" rfl, ok_bind]
    exact hform.given_unused "typeParameters" rfl
  refine .known hread ?_
  exact says_pure _

lemma typeParameters : Says quote [] (Rules.typeParameters inner) :=
  hform.says_unused "typeParameters" rfl (says_pure _)

lemma ascription : Says quote [] (Rules.ascription inner) :=
  hform.says_unused "typeAnnotation" rfl (says_pure _)

include h

lemma parameters
    (hneed : (Estree.common ++ form).lookup "params" = some ⟨.list false Estree.pattern, false⟩) :
    Says quote (node.wordsAt quote "params") (Rules.parameters inner) := by
  obtain ⟨nodes, hnodes, hfits⟩ := hform.present_list "params" hneed
  have hread : Rules.parametersOf node = .ok (some nodes) := by
    rw [Rules.parametersOf, hnodes]
    rfl
  refine .known hread ?_
  rw [Json.present, Json.get_eq hform.isObject] at hnodes
  exact h.list false (Option.filter_eq_some_iff.mp (Except.ok.inj hnodes)).1 hfits

lemma signature
    (hneed : (Estree.common ++ form).lookup "params" = some ⟨.list false Estree.pattern, false⟩) :
    Says quote (node.wordsAt quote "params") (Rules.signature inner) := by
  refine (typeParameters hform).skip fun _ => (says_text _).skip fun _ => ?_
  refine (h.parameters hform hneed).ending ((says_text _).skip fun _ => ?_)
  exact hform.says_unused "returnType" rfl (says_pure _)

end Inner.Speaks

namespace Rules

variable {node : Json} {inner : Inner node} {quote : Char} {kind : String} {form : Form}

lemma says_accessor (node : Json) : Says quote [] (accessor node) := by
  refine .read fun kind => ?_
  split
  · exact (says_text _).skip fun _ => says_pure _
  · exact (says_text _).skip fun _ => says_pure _
  · exact says_pure _

/-! ## Names, literals and templates -/

lemma speaks_identifier : SpeaksOn quote "Identifier" identifier := fun node inner hnode _ _ _ => by
  have hform := hnode.conforms rfl
  have hkeys : Estree.nodeKeys "Identifier" = [] := rfl
  refine hform.says_require "name" rfl fun name hname hfits => ?_
  obtain ⟨s, hs⟩ := Json.text_of_fits hfits
  have hwords : node.words quote = [.leaf s] := by
    simp [hnode.words_own (by decide), Json.ownWords, hnode.kindName, hkeys,
      Json.getValue_of_field? hname, hs, Json.textOf]
  rw [hwords]
  exact (says_chunk (by rw [hs]; rfl)).ending <| (says_textIf _ _ _).skip fun _ =>
    Inner.Speaks.ascription hform

lemma speaks_privateIdentifier : SpeaksOn quote "PrivateIdentifier" privateIdentifier :=
  fun node inner hnode _ _ _ => by
    have hkeys : Estree.nodeKeys "PrivateIdentifier" = [] := rfl
    refine (hnode.conforms rfl).says_require "name" rfl fun name hname hfits => ?_
    obtain ⟨s, hs⟩ := Json.text_of_fits hfits
    have hwords : node.words quote = [.secret s] := by
      simp [hnode.words_own (by decide), Json.ownWords, hnode.kindName, hkeys,
        Json.getValue_of_field? hname, hs, Json.textOf]
    rw [hwords]
    have htext : name.1.text = .ok s := by rw [hs]; rfl
    exact .known htext (says_chunk rfl)

/-- A word of the language that stands for an expression. -/
lemma speaks_word {content : String} (hkeys : Estree.nodeKeys kind = [])
    (hplain : kind ∉ Json.rearrangedKinds)
    (hown : ∀ node : Json, node.kindName? = some kind → node.ownWords quote = [.leaf content]) :
    SpeaksOn quote kind (word content) := fun node inner hnode _ _ _ => by
  rw [hnode.words_own hplain, hown node hnode.kindName, hkeys]
  exact says_chunk rfl

lemma speaks_this : SpeaksOn quote "ThisExpression" (word "this") :=
  speaks_word rfl (by decide) fun _ h => by simp [Json.ownWords, h]

lemma speaks_super : SpeaksOn quote "Super" (word "super") :=
  speaks_word rfl (by decide) fun _ h => by simp [Json.ownWords, h]

lemma speaks_literal : SpeaksOn quote "Literal" literal := fun node inner hnode _ _ _ => by
  have hkeys : Estree.nodeKeys "Literal" = [] := rfl
  obtain ⟨t, ht⟩ := exists_literalText hnode quote
  have hwords : node.words quote = [.leaf t] := by
    simp [hnode.words_own (by decide), Json.ownWords, hnode.kindName, hkeys, ht, Json.textOf]
  rw [hwords]
  exact .setting fun s hs => .known (hs ▸ ht) <| .read fun _ =>
    (Render.says_raiseIf _).skip fun _ => says_chunk rfl

lemma words_templateElement {quasi : Json} (h : quasi.IsPiece "TemplateElement") {s : String}
    (hs : quasiText quasi = .ok (.str s)) : quasi.words quote = [.leaf s] := by
  have hkeys : Estree.nodeKeys "TemplateElement" = [] := rfl
  simp [h.words_own (by decide), Json.ownWords, h.kindName, hkeys, hs, Json.textOf]

lemma says_hole (h : inner.Speaks quote) {holes : Part node} {kinds : List String}
    (hholes : holes.1.fits (.list false (.node kinds)) = true) {parts : List (Part node)}
    (hparts : Json.parts holes = .ok parts) (i : Nat) :
    Says quote (wordsOf quote parts[i]?.toList) (hole inner.value holes i) := by
  have helement : Json.element holes i = .ok parts[i]? := by
    obtain ⟨items, hitems, -⟩ := Json.list_of_fits hholes
    obtain ⟨v, hinside⟩ := holes
    obtain rfl : v = .arr items := hitems
    simp only [Json.element, Json.length?, orMalformed, ok_bind, hparts]
    split
    · rfl
    · rename_i hlength
      obtain rfl := Except.ok.inj hparts
      simpa using hlength
  refine .known helement ?_
  cases hpart : parts[i]? with
  | none => exact says_pure _
  | some part =>
      obtain ⟨all, hall, hfits⟩ := Json.parts_of_fits hholes
      obtain rfl : parts = all := Except.ok.inj (hparts.symm.trans hall)
      have hpart := (hfits part (List.mem_of_getElem? hpart)).resolve_left (by simp)
      exact ((says_text _).skip fun _ => (h.value hpart).ending (says_text _)).of_eq (by simp)

/-- The texts of a template take turns with what stands in its holes. -/
lemma says_quasis (h : inner.Speaks quote) {holes : Part node} {kinds : List String}
    (hholes : holes.1.fits (.list false (.node kinds)) = true) {parts : List (Part node)}
    (hparts : Json.parts holes = .ok parts) (i : Nat) {texts : List (Part node)}
    (htexts : ∀ p ∈ texts, p.1.IsPiece "TemplateElement")
    (hlength : (parts.drop i).length ≤ texts.length) :
    Says quote (wordsOf quote (weave texts (parts.drop i)))
      (quasis Render.chunk inner.value holes i texts) := by
  induction texts generalizing i with
  | nil =>
      have hnone : parts.drop i = [] := List.length_eq_zero_iff.mp (Nat.le_zero.mp hlength)
      rw [hnone]
      exact says_pure _
  | cons quasi rest ih =>
      have hquasi := htexts quasi (by simp)
      obtain ⟨t, ht⟩ := exists_quasiText hquasi
      have hrest := ih (i + 1) (fun p hp => htexts p (by simp [hp]))
        (by simp only [List.length_drop, List.length_cons] at hlength ⊢; omega)
      have hchunk : Says quote [.leaf t] (Render.chunk (.str t) quasi.1) := says_chunk rfl
      have hwords : wordsOf quote (weave (quasi :: rest) (parts.drop i)) =
          [.leaf t] ++ (wordsOf quote parts[i]?.toList ++
            wordsOf quote (weave rest (parts.drop (i + 1)))) := by
        cases hdrop : parts.drop i with
        | nil =>
            have hbehind : parts.drop (i + 1) = [] := by
              rw [← List.drop_drop, hdrop, List.drop_nil]
            have hhole : parts[i]? = none := by simpa using hdrop
            cases rest <;>
              simp [hbehind, hhole, weave, words_templateElement hquasi ht]
        | cons part others =>
            have hbehind : parts.drop (i + 1) = others := by
              rw [← List.drop_drop, hdrop, List.drop_one, List.tail_cons]
            have hhole : parts[i]? = some part := by
              rw [← List.head?_drop, hdrop, List.head?_cons]
            simp [hbehind, hhole, weave, words_templateElement hquasi ht]
      rw [hwords]
      refine .known ht (hchunk.andThen (.read fun breaks => ?_))
      refine (Render.says_raiseIf breaks).skip fun _ => ?_
      exact (says_hole h hholes hparts i).andThen hrest

lemma speaks_template : SpeaksOn quote "TemplateLiteral" template :=
  fun node inner hnode heven _ h => by
    have hform := hnode.conforms rfl
    refine hform.says_require "quasis" rfl fun texts htexts htextsfits =>
      hform.says_require "expressions" rfl fun holes hholes hholesfits => ?_
    obtain ⟨parts, hparts, hall⟩ := Json.parts_of_fits htextsfits
    obtain ⟨others, hothers, -⟩ := Json.parts_of_fits hholesfits
    obtain ⟨items, hitems, -⟩ := Json.list_of_fits htextsfits
    obtain ⟨values, hvalues, -⟩ := Json.list_of_fits hholesfits
    have hlengths : parts.length = others.length + 1 := by
      obtain ⟨v, hinside⟩ := texts
      obtain ⟨w, hinside'⟩ := holes
      obtain rfl : v = .arr items := hitems
      obtain rfl : w = .arr values := hvalues
      obtain rfl := Except.ok.inj hparts
      obtain rfl := Except.ok.inj hothers
      simpa [Json.isEven, hnode.kindName, Json.countOf, htexts, hholes, Json.length?] using heven
    have hpieces : ∀ p ∈ parts, p.1.IsPiece "TemplateElement" := fun p hp => by
      obtain ⟨kind, hmem, hkind⟩ := Json.isPiece_of_fits ((hall p hp).resolve_left (by simp))
      exact List.mem_singleton.mp hmem ▸ hkind
    have hquasis := says_quasis h hholesfits hothers 0 hpieces (by simp [hlengths])
    have hwords : node.words quote = wordsOf quote (weave parts others) := by
      rw [Json.words_eq, hnode.ownWords_eq (by decide), List.nil_append]
      simp [Json.spoken, hnode.kindName, Json.held_of_parts htexts ⟨items, hitems⟩ hparts,
        Json.held_of_parts hholes ⟨values, hvalues⟩ hothers]
    rw [hwords]
    refine (says_text _).skip fun _ => .known hparts ?_
    exact hquasis.ending (says_text _)

lemma speaks_taggedTemplate : SpeaksOn quote "TaggedTemplateExpression" taggedTemplate := by
  intro node inner hnode _ _ h
  have hform := hnode.conforms rfl
  have hkeys : Estree.nodeKeys "TaggedTemplateExpression" = ["tag", "quasi"] := rfl
  rw [hnode.words_eq (by decide), hkeys]
  simp only [Json.wordsUnder_cons, Json.wordsUnder_nil, List.append_nil]
  refine hform.says_require "tag" rfl fun tag hfield htag => .read fun wrap => ?_
  refine (Inner.Speaks.wrapped (h.partAt hfield htag) wrap).andThen ?_
  exact (Inner.Speaks.typeArguments hform).skip fun _ => h.field hform "quasi" rfl

/-- An expression in parentheses, and an optional chain. -/
lemma speaks_transparent (hkind : Estree.forms.lookup kind = some form) {options : List String}
    (hneed : (Estree.common ++ form).lookup "expression" = some ⟨.node options, false⟩)
    (hplain : kind ∉ Json.speakingKinds ++ Json.rearrangedKinds)
    (hkeys : Estree.nodeKeys kind = ["expression"]) : SpeaksOn quote kind transparent :=
  fun _ _ hnode _ _ h => (h.field (hnode.conforms hkind) "expression" hneed).of_eq (by
    simp [hnode.words_eq hplain, hkeys])

/-- Two fields with a text between them. -/
lemma says_twoFields (h : inner.Speaks quote) (hform : node.Conforms form)
    (first between second : String) {kinds kinds' : List String}
    (hfirst : form.lookup first = some ⟨.node kinds, false⟩)
    (hsecond : form.lookup second = some ⟨.node kinds', false⟩) :
    Says quote (node.wordsUnder quote [first, second]) (do
      inner.field first
      Render.text between
      inner.field second) := by
  simp only [Json.wordsUnder_cons, Json.wordsUnder_nil, List.append_nil]
  refine (h.field hform first hfirst).andThen ?_
  exact (says_text _).skip fun _ => h.field hform second hsecond

lemma speaks_metaProperty : SpeaksOn quote "MetaProperty" metaProperty := fun _ _ hnode _ _ h => by
  have hkeys : Estree.nodeKeys "MetaProperty" = ["meta", "property"] := rfl
  rw [hnode.words_eq (by decide), hkeys]
  exact says_twoFields h (hnode.conforms rfl) _ _ _ rfl rfl

lemma speaks_importCall : SpeaksOn quote "ImportExpression" importCall := by
  intro node inner hnode _ hcoherent h
  have hform := hnode.conforms rfl
  have hkeys : Estree.nodeKeys "ImportExpression" = ["source", "options", "attributes"] := rfl
  have hone : (!(node.has "options" && node.has "attributes")) = true := by
    have h := hcoherent.self hnode.isObject
    rwa [Json.isCoherent, hnode.kindName] at h
  have hwords : node.words quote = [Word.keyword "import"] ++ (node.wordsAt quote "source" ++
      node.wordsUnder quote ["options", "attributes"]) := by
    simp [hnode.words_own (by decide), Json.ownWords, hnode.kindName, hkeys]
  have hoptions : Says quote (node.wordsUnder quote ["options", "attributes"]) (do
      inner.valueAfter ", " (← node.givenOr "options" "attributes")
      Render.text ")") := by
    refine hform.says_givenOr _ _ rfl rfl hone ((says_pure _).skip fun _ => says_text _) ?_
    intro key part hfield hpart
    exact ((says_text _).skip fun _ => h.partAt hfield hpart).ending (says_text _)
  rw [hwords]
  refine (says_chunk rfl).andThen ((says_text _).skip fun _ => ?_)
  exact (h.field hform "source" rfl).andThen hoptions

/-! ## Arrays, objects and patterns -/

/-- A list between two texts, where the last field for types is not used. -/
lemma speaks_array (hkind : Estree.forms.lookup kind = some form) {holes : Bool}
    {options : List String} (hneed : (Estree.common ++ form).lookup "elements" =
      some ⟨.list holes (.node options), false⟩)
    (hplain : kind ∉ Json.speakingKinds ++ Json.rearrangedKinds)
    (hkeys : Estree.nodeKeys kind = ["elements"]) : SpeaksOn quote kind array := by
  intro node inner hnode _ _ h
  have hform := hnode.conforms hkind
  rw [hnode.words_eq hplain, hkeys, Json.wordsUnder_cons, Json.wordsUnder_nil, List.append_nil]
  refine (says_text _).skip fun _ => hform.says_require "elements" hneed fun _ hfield hnodes => ?_
  refine (h.list false hfield hnodes).ending ((says_text _).skip fun _ => ?_)
  exact Inner.Speaks.ascription hform

lemma speaks_objectPattern : SpeaksOn quote "ObjectPattern" objectPattern := by
  intro node inner hnode _ _ h
  have hform := hnode.conforms rfl
  have hkeys : Estree.nodeKeys "ObjectPattern" = ["properties"] := rfl
  rw [hnode.words_eq (by decide), hkeys, Json.wordsUnder_cons, Json.wordsUnder_nil, List.append_nil]
  refine (says_text _).skip fun _ => hform.says_require "properties" rfl fun _ hfield hnodes => ?_
  refine (h.list true hfield hnodes).ending ((says_text _).skip fun _ => ?_)
  exact Inner.Speaks.ascription hform

/-- A property that is written as a method has a function without a name as its value. -/
lemma of_isMethod (h : isMethod node = .ok true) :
    ∃ value, node.require "value" = .ok value ∧ value.1.has "id" = false ∧
      ∃ kind, value.1.kind = .ok kind ∧ kind.isText "FunctionExpression" = true := by
  obtain ⟨value, hvalue, h⟩ := bind_eq_ok_iff.mp h
  obtain ⟨kind, hkind, h⟩ := bind_eq_ok_iff.mp h
  by_cases hfunction : kind.isText "FunctionExpression" = true
  · simp only [hfunction, Bool.not_true, Bool.false_eq_true, if_false] at h
    obtain ⟨named, hnamed, h⟩ := bind_eq_ok_iff.mp h
    cases named with
    | true => cases h
    | false =>
        obtain ⟨v, hv, hgiven⟩ := bind_eq_ok_iff.mp hnamed
        obtain ⟨found, hfound, hv⟩ := bind_eq_ok_iff.mp hv
        have hobject : value.1.isObject = true := by
          by_contra hobject
          simp [Json.get, hobject] at hfound
        rw [Json.get_eq hobject] at hfound
        obtain rfl := Except.ok.inj hfound
        refine ⟨value, hvalue, ?_, kind, hkind, hfunction⟩
        rw [Json.has]
        cases hfield : value.1.field? "id" with
        | none => rfl
        | some part =>
            simp only [hfield] at hv
            obtain rfl := Except.ok.inj hv
            exact Except.ok.inj hgiven
  · simp [hfunction] at h

/-- A property is written once only if its value is a name, perhaps with a default. -/
lemma not_isShorthand_function {key value : Json} (hkind : value.IsA "FunctionExpression") :
    isShorthand node key value ≠ .ok true := by
  intro h
  rw [isShorthand, hkind.requireKind_eq, ok_bind, if_neg (by simp [Json.isText])] at h
  simp only [pure_eq_ok, ok_bind, hkind.requireKind_eq] at h
  obtain ⟨isComputed, -, h⟩ := bind_eq_ok_iff.mp h
  split at h
  · cases h
  · obtain ⟨found, -, h⟩ := bind_eq_ok_iff.mp h
    have hlast {word : Json} (h : (if (!word.isText "init") = true then .ok false else do
        let k ← key.requireKind
        if (!k.isText "Identifier") = true then .ok false
        else if (!(Json.str "FunctionExpression").isText "Identifier") = true then .ok false
        else do
          let name ← key.require "name"
          let other ← value.require "name"
          .ok (name.1.same other.1)) = (.ok true : Except Fault Bool)) : False := by
      split at h
      · cases h
      · obtain ⟨k, -, h⟩ := bind_eq_ok_iff.mp h
        split at h
        · cases h
        · simp [Json.isText] at h
    cases found with
    | none => exact hlast h
    | some word => exact hlast h

/-- A function without a name. -/
lemma words_function {function : Json} (hfunction : function.IsA "FunctionExpression")
    (hunnamed : function.has "id" = false) : function.words quote =
      function.wordsAt quote "params" ++ function.wordsAt quote "body" := by
  have hkeys : Estree.nodeKeys "FunctionExpression" = ["id", "params", "body"] := rfl
  simp [hfunction.words_eq (by decide), hkeys, Json.wordsAt_of_not_has hunnamed]

/-- The words of a property that is not written once. -/
lemma words_property (hnode : node.IsA "Property") (honce : node.isWrittenOnce = false) :
    node.words quote = node.wordsAt quote "key" ++ node.wordsAt quote "value" := by
  rw [Json.words_eq, hnode.ownWords_eq (by decide), List.nil_append]
  simp [Json.spoken, hnode.kindName, honce, Json.wordsAt]

lemma says_method (hnode : node.IsA "Property") (h : inner.Speaks quote) {function : Part node}
    (hread : node.require "value" = .ok function)
    (hfunction : function.1.IsA "FunctionExpression") (hunnamed : function.1.has "id" = false) :
    Says quote (node.words quote) (method inner) := by
  have hform := hnode.conforms rfl
  have hfunctionform := hfunction.conforms rfl
  have hunder := h.under function
  obtain ⟨key, hkey, -⟩ := hform.require "key" rfl
  have honce : node.isWrittenOnce = false := by
    rw [Json.isWrittenOnce, hkey, hread]
    show Json.holds (isShorthand node key.1 function.1) = false
    cases hshort : isShorthand node key.1 function.1 with
    | error fault => rfl
    | ok b =>
        cases b with
        | false => rfl
        | true => exact absurd hshort (not_isShorthand_function hfunction)
  have hrest : Says quote (node.words quote) (do
      Rules.key inner
      signature (inner.under function)
      Render.text " "
      (inner.under function).field "body") := by
    rw [words_property hnode honce,
      Json.wordsAt_of_isObject (Json.field?_of_require hread) hfunction.isObject,
      words_function hfunction hunnamed]
    refine (h.key hform rfl).andThen ((hunder.signature hfunctionform rfl).andThen ?_)
    exact (says_text _).skip fun _ => hunder.field hfunctionform "body" rfl
  refine .known hread ((says_accessor node).skip fun kind => .ite ?_ hrest)
  exact (says_textIf _ _ _).skip fun _ => (says_textIf _ _ _).skip fun _ => hrest

lemma says_objectMember (h : inner.Speaks quote) {member : Part node} {kinds : List String}
    (hmember : member.1.fits (.node kinds) = true) :
    Says quote (member.1.words quote) (objectMember inner member) := by
  obtain ⟨kind, -, hkind⟩ := Json.isA_of_fits hmember
  refine .known hkind.requireKind_eq ?_
  by_cases hproperty : kind = "Property"
  · subst hproperty
    refine .readOf fun asMethod hmethod => ?_
    cases asMethod with
    | false => exact h.value hmember
    | true =>
        obtain ⟨value, hread, hunnamed, k, hk, hfunction⟩ := of_isMethod hmethod
        obtain ⟨part, hpart, name, -, hname⟩ := (hkind.conforms rfl).requireNode "value" rfl
        obtain rfl : part = value := Except.ok.inj (hpart.symm.trans hread)
        obtain rfl : .str name = k := Except.ok.inj (hname.kind_eq.symm.trans hk)
        obtain rfl : name = "FunctionExpression" := by simpa [Json.isText] using hfunction
        exact says_method hkind (h.under member) hread hname hunnamed
  · simpa [Json.isText, hproperty] using h.value hmember

lemma speaks_object : SpeaksOn quote "ObjectExpression" object := fun node inner hnode _ _ h => by
  have hkeys : Estree.nodeKeys "ObjectExpression" = ["properties"] := rfl
  rw [hnode.words_eq (by decide), hkeys, Json.wordsUnder_cons, Json.wordsUnder_nil,
    List.append_nil]
  refine (says_text _).skip fun _ => (hnode.conforms rfl).says_require "properties" rfl
    fun nodes hfield hnodes => ?_
  obtain ⟨items, hitems, hall, hwords⟩ := Inner.Speaks.exists_items quote hfield hnodes
  refine .known hitems ?_
  rw [← hwords]
  exact (Render.says_sequence true "," fun part hpart => says_objectMember h (hall part hpart)).ending
    (says_text _)

lemma speaks_property : SpeaksOn quote "Property" property := fun node inner hnode _ _ h => by
  have hform := hnode.conforms rfl
  obtain ⟨name, hname, -⟩ := hform.require "key" rfl
  obtain ⟨value, hvalue, hfits⟩ := hform.require "value" rfl
  have hpart := h.partAt (Json.field?_of_require hvalue) hfits
  refine .known hname <| .known hvalue <| .readOf fun once hshort => ?_
  have honce : node.isWrittenOnce = once := by
    rw [Json.isWrittenOnce, hname, hvalue]
    show Json.holds (isShorthand node name.1 value.1) = once
    rw [hshort]
    rfl
  cases once with
  | true =>
      have hwords : node.words quote = node.wordsAt quote "value" := by
        rw [Json.words_eq, hnode.ownWords_eq (by decide), List.nil_append]
        simp [Json.spoken, hnode.kindName, honce, Json.wordsAt]
      rw [hwords]
      exact hpart
  | false =>
      rw [words_property hnode honce]
      exact (h.key hform rfl).andThen <| (says_text _).skip fun _ => hpart

lemma speaks_defaulted : SpeaksOn quote "AssignmentPattern" defaulted :=
  fun _ _ hnode _ _ h => by
    have hkeys : Estree.nodeKeys "AssignmentPattern" = ["left", "right"] := rfl
    rw [hnode.words_eq (by decide), hkeys]
    exact says_twoFields h (hnode.conforms rfl) _ _ _ rfl rfl

lemma speaks_spread (hkind : Estree.forms.lookup kind = some form) {options : List String}
    (hneed : (Estree.common ++ form).lookup "argument" = some ⟨.node options, false⟩)
    (hplain : kind ∉ Json.speakingKinds ++ Json.rearrangedKinds)
    (hkeys : Estree.nodeKeys kind = ["argument"]) : SpeaksOn quote kind spread :=
  fun node inner hnode _ _ h => by
    have hform := hnode.conforms hkind
    refine ((says_text _).skip fun _ => (h.field hform "argument" hneed).ending
      (Inner.Speaks.ascription hform)).of_eq ?_
    simp [hnode.words_eq hplain, hkeys]

/-! ## Operators -/

/-- The keys of an operation between two values. -/
lemma words_operation (hnode : node.IsA kind) (hkind : kind ∈ Precedence.operations) :
    node.words quote = node.wordsAt quote "left" ++ node.wordsAt quote "right" := by
  have hkeys : Estree.nodeKeys "BinaryExpression" = ["left", "right"] := rfl
  have hkeys' : Estree.nodeKeys "LogicalExpression" = ["left", "right"] := rfl
  simp only [Precedence.operations, List.mem_cons, List.not_mem_nil, or_false] at hkind
  rcases hkind with rfl | rfl
  · simp [hnode.words_eq (by decide), hkeys]
  · simp [hnode.words_eq (by decide), hkeys']

lemma says_operands (h : inner.Speaks quote) (hnode : node.IsA kind)
    (hkind : kind ∈ Precedence.operations) (operator : Json) :
    Says quote (node.words quote) (operands inner operator) := by
  obtain ⟨left, hleft, l, hl, right, hright, r, hr⟩ : ∃ left, node.require "left" = .ok left ∧
      ∃ kinds, left.1.fits (.node kinds) = true ∧ ∃ right, node.require "right" = .ok right ∧
        ∃ kinds, right.1.fits (.node kinds) = true := by
    simp only [Precedence.operations, List.mem_cons, List.not_mem_nil, or_false] at hkind
    rcases hkind with rfl | rfl
    · obtain ⟨left, hleft, hl⟩ := (hnode.conforms rfl).require "left" rfl
      obtain ⟨right, hright, hr⟩ := (hnode.conforms rfl).require "right" rfl
      exact ⟨left, hleft, _, hl, right, hright, _, hr⟩
    · obtain ⟨left, hleft, hl⟩ := (hnode.conforms rfl).require "left" rfl
      obtain ⟨right, hright, hr⟩ := (hnode.conforms rfl).require "right" rfl
      exact ⟨left, hleft, _, hl, right, hright, _, hr⟩
  have hfirst := h.partAt (Json.field?_of_require hleft) hl
  have hsecond := h.partAt (Json.field?_of_require hright) hr
  rw [words_operation hnode hkind]
  refine .known hleft (.known hright (.read fun wrap => ?_))
  refine (Inner.Speaks.wrapped hfirst wrap).andThen ((says_text _).skip fun _ => ?_)
  exact .read fun wrap => Inner.Speaks.wrapped hsecond wrap

lemma speaks_binary (hkind : kind ∈ Precedence.operations) : SpeaksOn quote kind binary :=
  fun node inner hnode _ _ h => by
    have hoperands (operator : Json) := says_operands h hnode hkind operator
    refine .read fun operator => .setting fun s _ => .ite ?_ (hoperands _)
    exact (says_text _).skip fun _ => ((hoperands _).withNoIn false).ending (says_text _)

lemma speaks_unary : SpeaksOn quote "UnaryExpression" unary := by
  intro node inner hnode _ _ h
  have hkeys : Estree.nodeKeys "UnaryExpression" = ["argument"] := rfl
  rw [hnode.words_eq (by decide), hkeys, Json.wordsUnder_cons, Json.wordsUnder_nil,
    List.append_nil]
  refine .read fun operator => ?_
  refine (hnode.conforms rfl).says_require "argument" rfl fun argument hfield hargument => ?_
  refine (Render.says_ofValue _).skip fun _ => .read fun spaced => ?_
  refine .optional (says_text _) fun _ => .read fun wrap => ?_
  exact Inner.Speaks.wrapped (h.partAt hfield hargument) wrap

lemma speaks_update : SpeaksOn quote "UpdateExpression" update := by
  intro node inner hnode _ _ h
  have hkeys : Estree.nodeKeys "UpdateExpression" = ["argument"] := rfl
  rw [hnode.words_eq (by decide), hkeys, Json.wordsUnder_cons, Json.wordsUnder_nil,
    List.append_nil]
  have hargument := h.field (hnode.conforms rfl) "argument" rfl
  refine .read fun inFront => .ite (.read fun operator => ?_) ?_
  · exact (Render.says_ofValue _).skip fun _ => hargument
  · exact hargument.ending (.read fun operator => Render.says_ofValue _)

lemma speaks_assignment : SpeaksOn quote "AssignmentExpression" assignment := by
  intro node inner hnode _ _ h
  have hform := hnode.conforms rfl
  have hkeys : Estree.nodeKeys "AssignmentExpression" = ["left", "right"] := rfl
  rw [hnode.words_eq (by decide), hkeys]
  simp only [Json.wordsUnder_cons, Json.wordsUnder_nil, List.append_nil]
  refine (h.field hform "left" rfl).andThen (.read fun operator => ?_)
  exact (says_text _).skip fun _ => h.field hform "right" rfl

lemma speaks_conditional : SpeaksOn quote "ConditionalExpression" conditional := by
  intro node inner hnode _ _ h
  have hform := hnode.conforms rfl
  have hkeys : Estree.nodeKeys "ConditionalExpression" = ["test", "consequent", "alternate"] := rfl
  have hyes := h.field hform "consequent" rfl
  have hno := h.field hform "alternate" rfl
  rw [hnode.words_eq (by decide), hkeys]
  simp only [Json.wordsUnder_cons, Json.wordsUnder_nil, List.append_nil]
  refine hform.says_require "test" rfl fun test hfield htest => .read fun wrap => ?_
  exact (Inner.Speaks.wrapped (h.partAt hfield htest) wrap).andThen (Render.says_branches hyes hno)

lemma speaks_commaExpression : SpeaksOn quote "SequenceExpression" commaExpression := by
  intro node inner hnode _ _ h
  have hkeys : Estree.nodeKeys "SequenceExpression" = ["expressions"] := rfl
  rw [hnode.words_eq (by decide), hkeys, Json.wordsUnder_cons, Json.wordsUnder_nil, List.append_nil]
  refine (says_text _).skip fun _ => ?_
  refine (hnode.conforms rfl).says_require "expressions" rfl fun _ hfield hnodes => ?_
  exact (h.list false hfield hnodes).ending (says_text _)

lemma speaks_await : SpeaksOn quote "AwaitExpression" await := fun node inner hnode _ _ h => by
  have hkeys : Estree.nodeKeys "AwaitExpression" = ["argument"] := rfl
  rw [hnode.words_eq (by decide), hkeys, Json.wordsUnder_cons, Json.wordsUnder_nil]
  refine (hnode.conforms rfl).says_present "argument" rfl (says_text _)
    fun _ hfield hargument => .read fun _ => ?_
  rw [List.append_nil]
  have hpart := h.partAt hfield hargument
  exact .ite ((says_text _).skip fun _ => hpart.ending (says_text _))
    ((says_text _).skip fun _ => hpart)

lemma speaks_yield : SpeaksOn quote "YieldExpression" yield := fun node inner hnode _ _ h => by
  have hkeys : Estree.nodeKeys "YieldExpression" = ["argument"] := rfl
  rw [hnode.words_eq (by decide), hkeys, Json.wordsUnder_cons, Json.wordsUnder_nil]
  refine .read fun _ => (hnode.conforms rfl).says_present "argument" rfl (says_text _)
    fun _ hfield hargument => ?_
  rw [List.append_nil]
  exact (says_text _).skip fun _ => h.partAt hfield hargument

/-! ## Accesses and calls -/

lemma speaks_member : SpeaksOn quote "MemberExpression" member := by
  intro node inner hnode _ _ h
  have hform := hnode.conforms rfl
  have hkeys : Estree.nodeKeys "MemberExpression" = ["object", "property"] := rfl
  have hproperty := h.field hform "property" rfl
  have hrest : Says quote (node.wordsAt quote "property") (do
      if ← node.flag "computed" then
        Render.textIf node "optional" "?."
        Render.text "["
        inner.field "property"
        Render.text "]"
      else
        Render.text (if ← node.flag "optional" then "?." else ".")
        inner.field "property") := by
    refine .read fun computed => .ite ?_ (.read fun optional => ?_)
    · refine (says_textIf _ _ _).skip fun _ => (says_text _).skip fun _ => ?_
      exact hproperty.ending (says_text _)
    · exact (says_text _).skip fun _ => hproperty
  rw [hnode.words_eq (by decide), hkeys]
  simp only [Json.wordsUnder_cons, Json.wordsUnder_nil, List.append_nil]
  refine hform.says_require "object" rfl fun head hfield hhead => .read fun wrap => ?_
  exact (Inner.Speaks.wrapped (h.partAt hfield hhead) wrap).andThen hrest

/-- A call, and the making of an object. -/
lemma speaks_call (isNew : Bool) (hkind : Estree.forms.lookup kind = some form)
    {options : List String}
    (hcallee : (Estree.common ++ form).lookup "callee" = some ⟨.node options, false⟩)
    (harguments : (Estree.common ++ form).lookup "arguments" =
      some ⟨.list false Estree.argument, false⟩)
    (hplain : kind ∉ Json.speakingKinds ++ Json.rearrangedKinds)
    (hkeys : Estree.nodeKeys kind = ["callee", "arguments"]) :
    SpeaksOn quote kind (call isNew) := fun node inner hnode _ _ h => by
  have hform := hnode.conforms hkind
  obtain ⟨list, hlist, hfits, parts, hparts, hall⟩ := hform.parts "arguments" harguments
  obtain ⟨items, hitems, -⟩ := Json.list_of_fits hfits
  have hlistwords := Json.wordsAt_of_parts quote (Json.field?_of_require hlist)
    ⟨items, hitems⟩ hparts
  have hinner : ∀ part ∈ parts, Says quote (part.1.words quote) (inner.value part) :=
    fun part hpart => h.value ((hall part hpart).resolve_left (by simp))
  have hrest {head : Part node} (hfield : node.field? "callee" = some head)
      (hhead : head.1.fits (.node options) = true) (wrap : Bool) : Says quote (node.words quote) (do
        inner.wrapped head wrap
        Render.textIf node "optional" "?."
        typeArguments inner
        callArguments inner) := by
    refine ((Inner.Speaks.wrapped (h.partAt hfield hhead) wrap).andThen <|
      (says_textIf _ _ _).skip fun _ => (Inner.Speaks.typeArguments hform).skip fun _ =>
        Render.says_callArguments hlist hparts hinner).of_eq ?_
    simp [hnode.words_eq hplain, hkeys, hlistwords]
  unfold call
  refine .optional (says_text _) fun _ => hform.says_require "callee" hcallee
    fun head hfield hhead => ?_
  have hdecided (wrap : Bool) := (says_pure wrap).skip fun wrap => hrest hfield hhead wrap
  exact .read fun _ => .ite (hdecided true)
    (.ite (.read fun wrap => hrest hfield hhead wrap) (hdecided false))

/-! ## Functions -/

lemma says_functionBody (h : inner.Speaks quote) (hform : node.Conforms form)
    {options : List String} (hneed : form.lookup "body" = some ⟨.node options, false⟩) :
    Says quote (node.wordsAt quote "body") (functionBody inner) := by
  rw [← List.append_nil (node.wordsAt quote "body")]
  exact hform.says_present "body" hneed (says_text _) fun _ hfield hbody =>
    ((says_text _).skip fun _ => h.partAt hfield hbody).of_eq (by simp)

lemma speaks_function (hkind : Estree.forms.lookup kind = some Estree.functionForm)
    (hplain : kind ∉ Json.speakingKinds ++ Json.rearrangedKinds)
    (hkeys : Estree.nodeKeys kind = ["id", "params", "body"]) :
    SpeaksOn quote kind function := by
  intro node inner hnode _ _ h
  have hform := hnode.conforms hkind
  have hrest : Says quote (node.wordsUnder quote ["params", "body"]) (do
      signature inner
      functionBody inner) := by
    simp only [Json.wordsUnder_cons, Json.wordsUnder_nil, List.append_nil]
    exact (h.signature hform rfl).andThen (says_functionBody h hform rfl)
  rw [hnode.words_eq hplain, hkeys]
  refine (says_textIf _ _ _).skip fun _ => (says_textIf _ _ _).skip fun _ => ?_
  refine .read fun generator => (says_text _).skip fun _ => ?_
  refine hform.says_given "id" rfl hrest fun name hfield hname => ?_
  exact (h.partAt hfield hname).andThen hrest

lemma speaks_arrow : SpeaksOn quote "ArrowFunctionExpression" arrow := by
  intro node inner hnode _ _ h
  have hform := hnode.conforms rfl
  have hkeys : Estree.nodeKeys "ArrowFunctionExpression" = ["params", "body"] := rfl
  have hbody : Says quote (node.wordsAt quote "body") (do
      let body ← node.require "body"
      if (← body.1.requireKind).isText "BlockStatement" then inner.value body
      else inner.wrapped body (← Precedence.startsWith body.1 braceHeaded)) := by
    refine hform.says_require "body" rfl fun body hfield hbody => .read fun kind => ?_
    refine .ite (h.partAt hfield hbody) (.read fun wrap => ?_)
    exact Inner.Speaks.wrapped (h.partAt hfield hbody) wrap
  rw [hnode.words_eq (by decide), hkeys]
  simp only [Json.wordsUnder_cons, Json.wordsUnder_nil, List.append_nil]
  refine (says_textIf _ _ _).skip fun _ => (h.signature hform rfl).andThen ?_
  exact (says_text _).skip fun _ => hbody

end Rules

end EstreePrinter
