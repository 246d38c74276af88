import Mathlib
import EstreePrinter.Rules.Table
import EstreePrinter.Proofs.Grouping.Precedence

/-!
# The rules for expressions look through parentheses

A rule looks through parentheses (`Rules.Blind`) if it renders two nodes alike that are the same up
to parentheses, as long as the parts of the nodes are rendered alike.  Then it asks nothing about a
part at the place of an expression but what is said of its core.

Here are the rules for names, literals, operators, accesses, calls, arrays and objects.  Most of
them read fields, write texts and render parts, and their lemmas say so step by step.  Those on a
property (`Rules.blind_property`) and on an arrow (`Rules.blind_arrow`) are different: they ask for
the kind of a part as it stands in the tree.  The value of a property is no place of an expression,
and the body of an arrow is a block on both sides or on neither.
-/

namespace EstreePrinter

open Json (Part Alike Loose Listed Meets)

variable {node node' : Json} {inner : Inner node} {inner' : Inner node'} {key kind : String}

/-- **The parts of two nodes are rendered alike** if they are the same up to parentheses, and
nothing but a node is rendered at all. -/
structure Inner.Regrouped (inner : Inner node) (inner' : Inner node') : Prop
    extends inner.Follows Loose Alike inner' where
  isObject {part : Part node} {s : Setting} {q : List Json} {e : Emission Unit} :
    inner.value part s q = .ok e → part.1.isObject = true

lemma Inner.Regrouped.under (h : inner.Regrouped inner') (part : Part node) (part' : Part node') :
    (inner.under part).Regrouped (inner'.under part') where
  toFollows := h.toFollows.under part part'
  isObject hrun := h.isObject hrun

namespace Render

variable {α β : Type} {S : α → β → Prop}

/-- A field that holds no node. -/
lemma follows_fixed (h : Alike node node') {f : Part node → Render α} {g : Part node' → Render β}
    (hkey : key ∈ Grouping.fixedFields)
    (hf : ∀ part part', part.1 = part'.1 → Follows S (f part) (g part')) :
    Follows S (liftM (node.require key) >>= f) (liftM (node'.require key) >>= g) :=
  .reading (h.fixed hkey).require hf

lemma follows_chunk (h : Alike node node') {content content' : Json}
    (hcontent : content = content') :
    Follows Eq (chunk content node) (chunk content' node') :=
  .readingSame (h.fixed (by decide)).span fun _ => .of_eq (by rw [hcontent])

lemma follows_flag (h : Alike node node') (key word : String) :
    Follows Eq (textIf node key word) (textIf node' key word) :=
  follows_textIf (h.loose_at key) word

end Render

namespace Rules

open Render (Follows text textIf chunk follows_fixed follows_flag follows_chunk)

/-- **A rule looks through parentheses** at nodes of some kind. -/
def Blind (kind : String) (rule : Rule) : Prop :=
  ∀ {node node' : Json} {inner : Inner node} {inner' : Inner node'}, node.kind = .ok (.str kind) →
    Alike node node' → inner.Regrouped inner' →
      Follows Eq (rule node inner) (rule node' inner')

/-! ## Shared parts -/

section Shared

variable (h : Alike node node') (hinner : inner.Regrouped inner')
include h hinner

lemma follows_field (key : String) : Follows Eq (inner.field key) (inner'.field key) :=
  hinner.field (h.loose_at key)

/-- A part, if it is there, after a text. -/
lemma follows_after (lead key : String) :
    Follows Eq (do inner.valueAfter lead (← node.given key))
      (do inner'.valueAfter lead (← node'.given key)) :=
  .reading (h.loose_at key).given fun _ _ => hinner.valueAfter lead

lemma follows_typeArguments : Follows Eq (typeArguments inner) (typeArguments inner') :=
  .reading ((h.closed (by decide)).givenOr (h.closed (by decide))) fun _ _ => hinner.typeIf

lemma follows_typeParameters : Follows Eq (typeParameters inner) (typeParameters inner') :=
  .reading (h.closed (by decide)).given fun _ _ => hinner.typeIf

lemma follows_ascription : Follows Eq (ascription inner) (ascription inner') :=
  .reading (h.closed (by decide)).given fun _ _ => hinner.typeIf

lemma follows_key : Follows Eq (Rules.key inner) (Rules.key inner') :=
  .readingSame (h.loose_at _).flag fun _ => .ite
    (.textThen _ ((follows_field h hinner _).andThen (.refl _))) (follows_field h hinner _)

omit h in
lemma follows_list (spaces : Bool) {nodes : Part node} {nodes' : Part node'}
    (hnodes : Part.Rel Listed nodes nodes') :
    Follows Eq (list inner spaces nodes) (list inner' spaces nodes') :=
  .reading (hnodes.sameList.itemsOf hnodes.loose.isGiven) fun _ _ hitems =>
    Render.follows_sequence (fun _ _ hrel => hinner.value hrel) spaces "," hitems

omit h in
lemma follows_typeList (spaces : Bool) (separator : String) {nodes : Part node}
    {nodes' : Part node'} (hnodes : Part.Rel Alike nodes nodes') :
    Follows Eq (typeList inner spaces separator nodes) (typeList inner' spaces separator nodes') :=
  .reading (hnodes.sameList.itemsOf hnodes.loose.isGiven) fun _ _ hitems =>
    Render.follows_sequence (fun _ _ hrel => hinner.type hrel) spaces separator hitems

omit hinner in
lemma follows_parametersOf :
    Json.Follows (Option.Rel (Part.Rel Alike)) (parametersOf node) (parametersOf node') :=
  (h.closed (by decide)).present.bind fun _ _ hrel => by
    cases hrel with
    | some hrel => exact .pure (.some hrel)
    | none => exact (h.closed (by decide)).given

lemma follows_parameters : Follows Eq (parameters inner) (parameters inner') :=
  .reading (follows_parametersOf h) fun _ _ hrel => by
    cases hrel with
    | some hrel => exact follows_list hinner false hrel.listed
    | none => exact .refl _

lemma follows_signature : Follows Eq (signature inner) (signature inner') := by
  refine (follows_typeParameters h hinner).andThen (.textThen _ ?_)
  refine (follows_parameters h hinner).andThen (.textThen _ ?_)
  exact .reading (h.closed (by decide)).given fun _ _ => hinner.typeIf

omit hinner in
lemma follows_accessor : Follows Eq (accessor node) (accessor node') :=
  .readingSame (h.fixed (by decide)).getValue fun _ => .refl _

omit hinner in
lemma follows_modifiers : Follows Eq (modifiers node) (modifiers node') := by
  refine .readingSame h.type.requireKind fun kind => .readingSame (.refl _) fun name => ?_
  refine (follows_flag h _ _).andThen (.readingSame (h.fixed (by decide)).getValue fun access => ?_)
  refine .optional (.refl _) fun _ => (follows_flag h _ _).andThen ?_
  refine .readingSame (h.loose_at _).flag fun isAbstract => .optional (.refl _) fun _ => ?_
  exact (follows_flag h _ _).andThen (follows_flag h _ _)

/-- A part in parentheses if a question about it says so, and what comes behind it. -/
lemma follows_wrapped (key : String) {wrap : Json → Except Fault Bool}
    (hwrap : ∀ {v w}, Loose v w → Json.Follows Eq (wrap v) (wrap w)) {rest rest' : Render Unit}
    (hrest : Follows Eq rest rest') :
    Follows Eq
      (do
        let part ← node.require key
        inner.wrapped part (← wrap part.1)
        rest)
      (do
        let part ← node'.require key
        inner'.wrapped part (← wrap part.1)
        rest') :=
  .reading (h.loose_at key).require fun _ _ hrel => .readingSame (hwrap hrel) fun wraps =>
    (hinner.wrapped hrel wraps).andThen hrest

end Shared

/-! ## Names, literals and templates -/

lemma blind_identifier : Blind kind identifier := by
  intro node node' inner inner' _ h hinner
  refine follows_fixed h (by decide) fun name name' hname => ?_
  refine (follows_chunk h hname).andThen ((follows_flag h _ _).andThen ?_)
  exact follows_ascription h hinner

lemma blind_privateIdentifier : Blind kind privateIdentifier := fun _ h _ =>
  follows_fixed h (by decide) fun _ _ hname => .readingSame (.of_eq (congrArg Json.text hname))
    fun _ => follows_chunk h rfl

lemma blind_word (content : String) : Blind kind (word content) := fun _ h _ => follows_chunk h rfl

/-- All fields that a literal is read from hold no node. -/
lemma follows_literalText (quote : Char) (hkind : node.kind = .ok (.str "Literal"))
    (h : Alike node node') :
    Json.Follows Eq (literalText quote node) (literalText quote node') := by
  refine (h.fixed (by decide)).given.bind fun _ _ hraw => ?_
  cases hraw with
  | some hraw => exact .pure hraw
  | none =>
      refine (h.fixed (by decide)).given.bind fun _ _ hregex => ?_
      cases hregex with
      | some hregex => exact .of_eq (congrArg (fun v => Json.str <$> regexText v) hregex)
      | none =>
          refine (h.fixed (by decide)).present.bind fun _ _ hbigint => ?_
          cases hbigint with
          | some hbigint =>
              exact .of_eq (congrArg (fun v => pure (Json.str (v.display ++ "n"))) hbigint)
          | none =>
              have hvalue : Meets Eq node node' "value" :=
                (h.at_kind hkind fun _ => rfl).mono fun _ _ => Json.Regroups.eq
              exact hvalue.getValue.known fun _ => .refl _

lemma blind_literal : Blind "Literal" literal := by
  intro node node' inner inner' hkind h _
  refine .known (.refl _) fun s => ?_
  refine .readingSame (follows_literalText s.quote hkind h) fun content => ?_
  exact .readingSame (.refl _) fun breaks => (Follows.refl _).andThen (follows_chunk h rfl)

/-- The texts of a template with what stands in the holes between them. -/
lemma follows_quasis {R : Json → Json → Prop} {piece piece' : Json → Json → Render Unit}
    {render : Part node → Render Unit} {render' : Part node' → Render Unit}
    (hpiece : ∀ content quasi, Follows Eq (piece content quasi) (piece' content quasi))
    (hrender : ∀ part part', Part.Rel R part part' → Follows Eq (render part) (render' part'))
    {holes : Part node} {holes' : Part node'} (hholes : Json.SameList R holes.1 holes'.1) (i : Nat)
    {texts : List (Part node)} {texts' : List (Part node')}
    (htexts : List.Forall₂ (Part.Rel Eq) texts texts') :
    Follows Eq (quasis piece render holes i texts) (quasis piece' render' holes' i texts') := by
  induction htexts generalizing i with
  | nil => exact .refl _
  | @cons quasi quasi' rest rest' hquasi _ ih =>
      have hsame : quasi.1 = quasi'.1 := hquasi
      have hhole : Follows Eq (hole render holes i) (hole render' holes' i) := by
        refine .reading (hholes.element i) fun _ _ hfound => ?_
        cases hfound with
        | none => exact .refl _
        | some hrel => exact .textThen _ ((hrender _ _ hrel).andThen (.refl _))
      rw [quasis, quasis, hsame]
      refine .readingSame (.refl _) fun content => (hpiece content _).andThen ?_
      refine .readingSame (.refl _) fun breaks => (Follows.refl _).andThen ?_
      exact hhole.andThen (ih (i + 1))

/-- The texts of a template are no nodes. -/
lemma follows_texts {texts : Part node} {texts' : Part node'} (h : Part.Rel Eq texts texts') :
    Json.Follows (List.Forall₂ (Part.Rel Eq)) (Json.parts texts) (Json.parts texts') :=
  Json.SameList.parts (by rw [show texts.1 = texts'.1 from h]; exact .same _ fun _ => rfl)

lemma blind_template : Blind kind template := by
  intro node node' inner inner' _ h hinner
  refine .reading (h.fixed (by decide)).require fun _ _ htexts => ?_
  refine .reading (h.listed_at (.inl (by decide))).require fun _ _ hholes => .textThen _ ?_
  refine .reading (follows_texts htexts) fun _ _ htexts => .andThen ?_ (.refl _)
  exact follows_quasis (fun _ _ => .refl _) (fun _ _ hrel => hinner.value hrel) hholes.sameList 0
    htexts

lemma blind_taggedTemplate : Blind kind taggedTemplate := by
  intro node node' inner inner' _ h hinner
  refine follows_wrapped h hinner "tag" (Precedence.follows_wrapsAsHead · _) ?_
  exact (follows_typeArguments h hinner).andThen (follows_field h hinner _)

lemma blind_transparent : Blind kind transparent := fun _ h hinner => follows_field h hinner _

lemma blind_metaProperty : Blind kind metaProperty := fun _ h hinner =>
  (follows_field h hinner _).andThen (.textThen _ (follows_field h hinner _))

lemma blind_importCall : Blind kind importCall := by
  intro node node' inner inner' _ h hinner
  refine (follows_chunk h rfl).andThen (.textThen _ ((follows_field h hinner _).andThen ?_))
  refine .reading ((h.loose_at _).givenOr (h.loose_at _)) fun _ _ hoptions => ?_
  exact (hinner.valueAfter _ hoptions).andThen (.refl _)

/-! ## Operators -/

lemma follows_operands (h : Alike node node') (hinner : inner.Regrouped inner')
    {operator operator' : Json} (hoperator : operator = operator') :
    Follows Eq (operands inner operator) (operands inner' operator') := by
  refine .reading (h.loose_at _).require fun _ _ hleft => ?_
  refine .reading (h.loose_at _).require fun _ _ hright => ?_
  refine .readingSame (Precedence.follows_needsParens hleft h false) fun wraps => ?_
  refine (hinner.wrapped hleft wraps).andThen ((Follows.of_eq (by rw [hoperator])).andThen ?_)
  refine .readingSame (Precedence.follows_needsParens hright h true) fun wraps => ?_
  exact hinner.wrapped hright wraps

lemma blind_binary : Blind kind binary := fun _ h hinner =>
  follows_fixed h (by decide) fun operator operator' hoperator => by
    have hoperands := follows_operands h hinner hoperator
    rw [hoperator] at hoperands ⊢
    exact .known (.refl _) fun _ => .ite
      (.textThen _ ((hoperands.withNoIn false).andThen (.refl _))) hoperands

lemma blind_unary : Blind kind unary := by
  intro node node' inner inner' _ h hinner
  refine follows_fixed h (by decide) fun _ _ hoperator => ?_
  refine .reading (h.loose_at _).require fun _ _ hargument => ?_
  rw [hoperator]
  refine (Follows.refl _).andThen (.readingSame (follows_spacedUnary _ hargument) fun spaced => ?_)
  refine .optional (.refl _) fun _ => ?_
  refine .readingSame (Precedence.follows_bindsLooser hargument _) fun wraps => ?_
  exact hinner.wrapped hargument wraps

lemma blind_update : Blind kind update := by
  intro node node' inner inner' _ h hinner
  refine .readingSame (h.loose_at _).flag fun inFront => .ite ?_ ?_
  · refine follows_fixed h (by decide) fun _ _ hoperator => ?_
    rw [hoperator]
    exact (Follows.refl _).andThen (follows_field h hinner _)
  · refine (follows_field h hinner _).andThen ?_
    exact follows_fixed h (by decide) fun _ _ hoperator => .of_eq (by rw [hoperator])

lemma blind_assignment : Blind kind assignment := by
  intro node node' inner inner' _ h hinner
  refine (follows_field h hinner _).andThen (follows_fixed h (by decide) fun _ _ hoperator => ?_)
  rw [hoperator]
  exact .textThen _ (follows_field h hinner _)

lemma blind_conditional : Blind kind conditional := by
  intro node node' inner inner' _ h hinner
  refine follows_wrapped h hinner "test" Precedence.follows_wrapsAsTest ?_
  refine (follows_field h hinner _).fork.known fun yes => ?_
  exact (follows_field h hinner _).fork.known fun no => .refl _

lemma blind_commaExpression : Blind kind commaExpression := by
  intro node node' inner inner' _ h hinner
  refine .textThen _ (.reading (h.listed_at (.inl (by decide))).require fun _ _ hlist => ?_)
  exact (follows_list hinner false hlist).andThen (.refl _)

lemma blind_await : Blind kind await := by
  intro node node' inner inner' _ h hinner
  refine .reading (h.loose_at _).present fun _ _ hargument => ?_
  cases hargument with
  | none => exact .refl _
  | some hargument =>
      refine .readingSame (Precedence.follows_bindsLooser hargument _) fun wraps => .ite ?_ ?_
      · exact .textThen _ ((hinner.value hargument).andThen (.refl _))
      · exact .textThen _ (hinner.value hargument)

lemma blind_yield : Blind kind yield := by
  intro node node' inner inner' _ h hinner
  refine .readingSame (h.loose_at _).flag fun delegate => ?_
  refine .reading (h.loose_at _).present fun _ _ hargument => ?_
  cases hargument with
  | none => exact .refl _
  | some hargument => exact .textThen _ (hinner.value hargument)

/-! ## Accesses and calls -/

lemma blind_member : Blind kind member := by
  intro node node' inner inner' _ h hinner
  refine follows_wrapped h hinner "object" (Precedence.follows_wrapsAsHead · _) ?_
  refine .readingSame (h.loose_at _).flag fun computed => .ite ?_ ?_
  · refine (follows_flag h _ _).andThen (.textThen _ ?_)
    exact (follows_field h hinner _).andThen (.refl _)
  · refine .readingSame (h.loose_at _).flag fun optional => ?_
    exact .textThen _ (follows_field h hinner _)

/-- The arguments of a call are held back one by one. -/
lemma follows_arguments (hinner : inner.Regrouped inner') {list : List (Part node)}
    {list' : List (Part node')} (h : List.Forall₂ (Part.Rel Loose) list list') :
    Follows Eq (arguments inner list) (arguments inner' list') := by
  induction h with
  | nil => exact .refl _
  | cons hhead htail ih =>
      cases htail with
      | nil => exact (hinner.value hhead).fork.known fun last => .refl _
      | cons =>
          refine (hinner.value hhead).fork.known fun first => ?_
          refine (Follows.refl _).known fun behind => ?_
          exact ih.known fun rest => .refl _

lemma follows_callArguments (h : Alike node node') (hinner : inner.Regrouped inner') :
    Follows Eq (callArguments inner) (callArguments inner') :=
  .reading (h.listed_at (.inl (by decide))).require fun _ _ hlist =>
    .reading hlist.sameList.parts fun _ _ hparts => (follows_arguments hinner hparts).known fun _ =>
      .refl _

lemma blind_call (isNew : Bool) : Blind kind (call isNew) := by
  intro node node' inner inner' _ h hinner
  refine .optional (.refl _) fun _ => .reading (h.loose_at _).require fun head head' hhead => ?_
  refine .readingSame (Precedence.follows_wrapsAsHead hhead _) fun _ => ?_
  -- whichever way the parentheses are decided on, the rest is the same
  refine have hrest := ?rest; .ite (.known (.refl _) hrest) <|
    .ite (.readingSame (Precedence.follows_hasCall hhead) hrest) (.known (.refl _) hrest)
  intro wraps
  refine (hinner.wrapped hhead wraps).andThen ((follows_flag h _ _).andThen ?_)
  exact (follows_typeArguments h hinner).andThen (follows_callArguments h hinner)

/-! ## Expressions with types in them -/

lemma blind_typedExpression (strength : Nat) (word : String) :
    Blind kind (typedExpression strength word) := fun _ h hinner =>
  follows_wrapped h hinner "expression" (Precedence.follows_bindsLooser · _) <|
    .textThen _ (hinner.typeField (h.closed (by decide)))

lemma blind_nonNull : Blind kind nonNull := fun _ h hinner =>
  follows_wrapped h hinner "expression" (Precedence.follows_bindsLooser · _) (.refl _)

lemma blind_typeAssertion : Blind kind typeAssertion := by
  intro node node' inner inner' _ h hinner
  refine .textThen _ ((hinner.typeField (h.closed (by decide))).andThen (.textThen _ ?_))
  refine .reading (h.loose_at _).require fun _ _ hrel => ?_
  exact .readingSame (Precedence.follows_bindsLooser hrel _) fun wraps => hinner.wrapped hrel wraps

lemma blind_instantiation : Blind kind instantiation := fun _ h hinner =>
  (follows_field h hinner _).andThen (follows_typeArguments h hinner)

lemma blind_qualifiedName : Blind kind qualifiedName := fun _ h hinner =>
  (follows_field h hinner _).andThen (.textThen _ (follows_field h hinner _))

/-! ## Arrays, objects and patterns -/

lemma blind_array : Blind kind array := by
  intro node node' inner inner' _ h hinner
  refine .textThen _ (.reading (h.listed_at (.inl (by decide))).require fun _ _ hlist => ?_)
  refine (follows_list hinner false hlist).andThen ?_
  exact .textThen _ (follows_ascription h hinner)

lemma blind_objectPattern : Blind kind objectPattern := by
  intro node node' inner inner' _ h hinner
  refine .textThen _ (.reading (h.closed (by decide)).require fun _ _ hlist => ?_)
  refine (follows_list hinner true hlist.listed).andThen ?_
  exact .textThen _ (follows_ascription h hinner)

lemma blind_defaulted : Blind kind defaulted := fun _ h hinner =>
  (follows_field h hinner _).andThen (.textThen _ (follows_field h hinner _))

lemma blind_spread : Blind kind spread := fun _ h hinner =>
  .textThen _ <| (follows_field h hinner _).andThen (follows_ascription h hinner)

/-- The value of a property is no place of an expression. -/
lemma follows_isMethod (hkind : node.kind = .ok (.str "Property")) (h : Alike node node') :
    Json.Follows Eq (isMethod node) (isMethod node') := by
  refine (h.part_at hkind (by decide)).require.bind fun value value' hvalue => ?_
  refine (Alike.type hvalue).kind.known fun kind => .ite (.refl _) ?_
  refine (Alike.loose_at hvalue _).flag.known fun named => .ite (.refl _) ?_
  refine (h.fixed (by decide)).getValue.known fun word => .ite (.refl _) ?_
  exact (h.loose_at _).flagUnlessAbsent

/-- A method of an object, from the function that is its value. -/
lemma follows_method (hkind : node.kind = .ok (.str "Property")) (h : Alike node node')
    (hinner : inner.Regrouped inner') : Follows Eq (method inner) (method inner') := by
  refine .reading (h.part_at hkind (by decide)).require fun value value' hvalue => ?_
  refine (follows_accessor h).known fun _ => ?_
  have hunder := hinner.under value value'
  -- with words of its own before it or not, the rest of a method is the same
  refine have hrest := ?rest; .ite
    ((follows_flag hvalue _ _).andThen ((follows_flag hvalue _ _).known hrest)) (hrest ⟨⟩)
  intro _
  refine (follows_key h hinner).andThen ((follows_signature hvalue hunder).andThen ?_)
  exact .textThen _ (follows_field hvalue hunder _)

lemma follows_objectMember (hinner : inner.Regrouped inner') {member : Part node}
    {member' : Part node'} (h : Part.Rel Alike member member') :
    Follows Eq (objectMember inner member) (objectMember inner' member') := by
  refine .readingKnowing (Alike.type h).requireKind fun kind _ hkind hsame => ?_
  subst hsame
  refine .branch (fun hproperty => ?_) fun _ => by
    rw [pure_bind, pure_bind]
    exact hinner.value h.loose
  have hkind := Json.kind_of_requireKind (Json.eq_str_of_isText hproperty ▸ hkind)
  exact .readingSame (follows_isMethod hkind h) fun _ => .ite
    (follows_method hkind h (hinner.under member member')) (hinner.value h.loose)

lemma blind_object : Blind kind object := by
  intro node node' inner inner' _ h hinner
  refine .textThen _ (.reading (h.closed (by decide)).require fun _ _ hlist => ?_)
  refine .reading (hlist.sameList.itemsOf hlist.loose.isGiven) fun _ _ hitems => ?_
  refine .andThen (Render.follows_sequence (fun _ _ hrel => ?_) true "," hitems) (.refl _)
  exact follows_objectMember hinner hrel

/-- Names are compared as they stand in the tree. -/
lemma follows_sameNames {name name' target target' : Json} (hname : Alike name name')
    (htarget : Alike target target') (kind : Json) :
    Json.Follows Eq
      (if !kind.isText "init" then pure false
      else do
        if !(← name.requireKind).isText "Identifier" then pure false
        else if !(← target.requireKind).isText "Identifier" then pure false
        else
          let found ← name.require "name"
          pure (found.1.same (← target.require "name").1))
      (if !kind.isText "init" then pure false
      else do
        if !(← name'.requireKind).isText "Identifier" then pure false
        else if !(← target'.requireKind).isText "Identifier" then pure false
        else
          let found ← name'.require "name"
          pure (found.1.same (← target'.require "name").1)) := by
  refine .ite (.refl _) (hname.type.requireKind.known fun _ => .ite (.refl _) ?_)
  refine htarget.type.requireKind.known fun _ => .ite (.refl _) ?_
  refine (hname.fixed (by decide)).require.bind fun _ _ hleft => ?_
  refine (htarget.fixed (by decide)).require.bind fun _ _ hright => ?_
  exact .of_eq (by rw [show _ = _ from hleft, show _ = _ from hright])

/-- Whether a property is written once is asked only of a key that is not computed. -/
lemma follows_isShorthand (h : Alike node node') {name name' value value' : Json}
    (hname : node.isComputed = false → Alike name name') (hvalue : Alike value value') :
    Json.Follows Eq (isShorthand node name value) (isShorthand node' name' value') := by
  refine hvalue.type.requireKind.knowing fun kind hkind => ?_
  have hleft (hpattern : kind.isText "AssignmentPattern" = true) :
      Meets Alike value value' "left" :=
    hvalue.part_at (Json.kind_of_requireKind (Json.eq_str_of_isText hpattern ▸ hkind)) (by decide)
  refine .branch (fun hpattern => (hleft hpattern).require.bind fun _ _ htarget =>
    .bind (R := Alike) (.pure htarget) ?_) fun _ => .bind (R := Alike) (.pure hvalue) ?_
  all_goals
    refine fun _ _ htarget => (h.loose_at _).flag.knowing fun computed hcomputed =>
      .branch (fun _ => .refl _) fun hplain => ?_
    have hname := hname (Json.isComputed_of_flag hcomputed ▸ eq_false_of_ne_true hplain)
    refine (h.fixed (by decide)).get.bind fun _ _ hfound => ?_
    cases hfound with
    | some hkind => exact .known (.pure hkind) (follows_sameNames hname htarget)
    | none => exact .known (.refl _) (follows_sameNames hname htarget)

lemma blind_property : Blind "Property" property := by
  intro node node' inner inner' hkind h hinner
  refine .reading (h.meets "key").require fun name name' hname => ?_
  refine .reading (h.part_at hkind (by decide)).require fun value value' hvalue => ?_
  have hplain (hplain : node.isComputed = false) : Alike name.1 name'.1 := by
    rwa [Json.place_eq hkind, hplain] at hname
  refine .readingSame (follows_isShorthand h hplain hvalue) fun once => ?_
  refine .ite (hinner.value hvalue.loose) ((follows_key h hinner).andThen ?_)
  exact .textThen _ (hinner.value hvalue.loose)

end Rules

end EstreePrinter
