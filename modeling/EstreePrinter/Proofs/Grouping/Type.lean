import Mathlib
import EstreePrinter.Proofs.Grouping.Expression

/-!
# The rules for types look through parentheses

A type is never put in parentheses by a node for an expression, so the parts that are rendered as
types are alike on both sides, and have the same kinds.  Expressions stand in types only as computed
names of members, as the values of enumeration members and in what a class extends.
-/

namespace EstreePrinter

open Json (Part Alike Loose Listed Meets)

variable {node node' : Json} {inner : Inner node} {inner' : Inner node'} {key kind : String}

namespace Rules

open Render (Follows text textIf follows_fixed follows_flag)

/-! ## Shared parts -/

section Shared

variable (h : Alike node node') (hinner : inner.Regrouped inner')
include h hinner

lemma follows_typeField (hkey : key ∉ Json.openFields) :
    Follows Eq (inner.typeField key) (inner'.typeField key) :=
  hinner.typeField (h.closed hkey)

/-- A type, if it is there, after a text. -/
lemma follows_typeAfter (lead : String) (hkey : key ∉ Json.openFields) :
    Follows Eq (do inner.typeAfter lead (← node.given key))
      (do inner'.typeAfter lead (← node'.given key)) :=
  .reading (h.closed hkey).given fun _ _ => hinner.typeAfter lead

omit hinner in
lemma follows_resultType :
    Json.Follows (Option.Rel (Part.Rel Alike)) (resultType node) (resultType node') := by
  have hinside {part : Part node} {part' : Part node'} (hpart : Part.Rel Alike part part') :
      Json.Follows (Option.Rel (Part.Rel Alike))
        (do
          if (← part.1.requireKind).isText "TSTypeAnnotation" then
            let inside ← part.1.require "typeAnnotation"
            pure (if inside.1.isNull then none else some (part.within inside))
          else pure (some part))
        (do
          if (← part'.1.requireKind).isText "TSTypeAnnotation" then
            let inside ← part'.1.require "typeAnnotation"
            pure (if inside.1.isNull then none else some (part'.within inside))
          else pure (some part')) := by
    refine (Alike.type hpart).requireKind.known fun _ => .ite ?_ (.pure (.some hpart))
    refine (Alike.closed hpart (by decide)).require.bind fun inside inside' hrel => .pure ?_
    rw [Json.Discreet.isNull hrel]
    split
    · exact .none
    · exact .some hrel
  refine (h.closed (by decide)).given.bind fun _ _ hgiven => ?_
  cases hgiven with
  | some hpart => exact hinside hpart
  | none =>
      refine (h.closed (by decide)).present.bind fun _ _ hfound => ?_
      cases hfound with
      | none => exact .pure .none
      | some hpart => exact hinside hpart

lemma follows_typeSignature : Follows Eq (typeSignature inner) (typeSignature inner') := by
  refine (follows_typeParameters h hinner).andThen (.textThen _ ?_)
  refine (follows_parameters h hinner).andThen (.textThen _ ?_)
  exact .reading (follows_resultType h) fun _ _ => hinner.typeAfter ": "

end Shared

/-- A name that is a text or a node. -/
lemma follows_nameOrText (hinner : inner.Regrouped inner') {name : Part node} {name' : Part node'}
    (h : Part.Rel Eq name name') :
    Follows Eq (nameOrText inner name) (nameOrText inner' name') := by
  obtain ⟨v, hv⟩ := name
  obtain ⟨w, hw⟩ := name'
  obtain rfl : v = w := h
  cases v with
  | str s => exact .refl _
  | _ => exact hinner.value (Loose.refl _)

/-- A type in parentheses if it is of one of some kinds. -/
lemma follows_wrappedIfKind (hinner : inner.Regrouped inner') (kinds : List String)
    {part : Part node} {part' : Part node'} (h : Part.Rel Alike part part') :
    Follows Eq (wrappedIfKind inner kinds part) (wrappedIfKind inner' kinds part') := by
  refine .readingSame (Alike.type h).requireKind fun kind => ?_
  exact .readingSame (.refl _) fun wraps => hinner.wrappedType h wraps

/-! ## Declarations -/

lemma blind_typeAlias : Blind kind typeAlias := by
  intro node node' inner inner' _ h hinner
  refine (follows_flag h _ _).andThen (.textThen _ ((follows_field h hinner _).andThen ?_))
  refine (follows_typeParameters h hinner).andThen (.textThen _ ?_)
  exact (follows_typeField h hinner (by decide)).andThen (.refl _)

lemma blind_interface : Blind kind interface := by
  intro node node' inner inner' _ h hinner
  have hbody : Follows Eq (do text " "; inner.field "body") (do text " "; inner'.field "body") :=
    .textThen _ (follows_field h hinner _)
  refine (follows_flag h _ _).andThen (.textThen _ ((follows_field h hinner _).andThen ?_))
  refine (follows_typeParameters h hinner).andThen ?_
  refine .reading (h.closed (by decide)).given fun _ _ hparents => ?_
  cases hparents with
  | none => exact hbody
  | some hparents => exact .textThen _ ((follows_typeList hinner false "," hparents).andThen hbody)

lemma blind_memberBlock {field : String}
    (hplace : ∀ isComputed, Grouping.placeIn isComputed kind field = .part) :
    Blind kind (memberBlock field) := by
  intro node node' inner inner' hkind h hinner
  refine .textThen _ (.reading (h.part_at hkind hplace).require fun _ _ hmembers => ?_)
  exact (follows_typeList hinner true ";" hmembers).andThen (.refl _)

lemma follows_enumMembers (hkind : node.kind = .ok (.str "TSEnumDeclaration"))
    (h : Alike node node') :
    Json.Follows (Part.Rel Alike) (enumMembers node) (enumMembers node') := by
  refine (h.closed (by decide)).present.bind fun _ _ hmembers => ?_
  cases hmembers with
  | some hmembers => exact .pure hmembers
  | none =>
      refine (h.part_at hkind (by decide)).require.bind fun _ _ hbody => ?_
      exact (Alike.closed hbody (by decide)).require.bind fun _ _ hinside => .pure hinside

lemma blind_enumeration : Blind "TSEnumDeclaration" enumeration := by
  intro node node' inner inner' hkind h hinner
  refine (follows_flag h _ _).andThen ((follows_flag h _ _).andThen (.textThen _ ?_))
  refine (follows_field h hinner _).andThen (.textThen _ ?_)
  refine .reading (follows_enumMembers hkind h) fun _ _ hmembers => ?_
  exact (follows_list hinner true (Alike.listed hmembers)).andThen (.refl _)

lemma blind_enumMember : Blind kind enumMember := by
  intro node node' inner inner' _ h hinner
  have hinitializer := follows_after h hinner " = " "initializer"
  refine .readingSame (h.loose_at _).flag fun computed => .ite ?_ ?_
  · exact .textThen _ ((follows_field h hinner _).andThen (.textThen _ hinitializer))
  · exact (follows_field h hinner _).andThen hinitializer

/-- The name of a namespace is no place of an expression, though it may be a literal. -/
lemma follows_namespaceWord (hkind : node.kind = .ok (.str "TSModuleDeclaration"))
    (h : Alike node node') : Json.Follows Eq (namespaceWord node) (namespaceWord node') := by
  refine (h.fixed (by decide)).getValue.known fun word => .ite (.refl _) ?_
  refine (h.loose_at _).flag.known fun isGlobal => .ite (.refl _) ?_
  refine (h.part_at hkind (by decide)).require.bind fun _ _ hname => ?_
  exact (Alike.type hname).requireKind.known fun kind => .refl _

lemma follows_namespaceBody {whole whole' : Json} {inner : Inner whole} {inner' : Inner whole'}
    (hinner : inner.Regrouped inner') {body : Part whole} {body' : Part whole'}
    (h : Part.Rel Alike body body') :
    Follows Eq (namespaceBody inner body) (namespaceBody inner' body') := by
  -- along the namespaces that continue the name
  induction body using namespaceBody.induct generalizing body' with
  | _ body ih =>
  rw [namespaceBody, namespaceBody]
  refine .readingKnowing (Alike.type h).requireKind fun kind _ hfound hsame => ?_
  subst hsame
  refine .branch (fun hname => ?_) fun _ => .textThen _ (hinner.value (Alike.loose h))
  have hfound := Json.kind_of_requireKind (Json.eq_str_of_isText hname ▸ hfound)
  refine .textThen _ ((follows_field h (hinner.under body body') _).andThen ?_)
  refine .reading (Alike.part_at h hfound (by decide)).present fun _ _ hnext => ?_
  cases hnext with
  | none => exact .refl _
  | @some next next' hnext => exact ih next hnext

lemma blind_namespaceRule : Blind "TSModuleDeclaration" namespaceRule := by
  intro node node' inner inner' hkind h hinner
  refine (follows_flag h _ _).andThen (.readingSame (follows_namespaceWord hkind h) fun word => ?_)
  refine .ite (.readingSame (.refl _) fun _ => .textThen _ ?_) ?_
  -- what is behind the word is there with and without it
  all_goals
    refine (follows_field h hinner _).andThen ?_
    refine .reading (h.part_at hkind (by decide)).present fun _ _ hbody => ?_
    cases hbody with
    | none => exact .refl _
    | some hbody => exact follows_namespaceBody hinner hbody

lemma blind_indexSignature : Blind kind indexSignature := by
  intro node node' inner inner' _ h hinner
  refine (follows_modifiers h).andThen (.textThen _ ?_)
  refine (follows_parameters h hinner).andThen (.textThen _ ?_)
  exact follows_ascription h hinner

lemma blind_classIndexSignature : Blind kind classIndexSignature := fun hkind h hinner =>
  (blind_indexSignature hkind h hinner).andThen (.refl _)

/-! ## Names and parameters -/

lemma blind_keywordType (word : String) : Blind kind (keywordType word) := fun _ _ _ => .refl _

lemma blind_ascribedType : Blind kind ascribedType := fun _ h hinner =>
  .textThen _ (follows_typeField h hinner (by decide))

lemma blind_typeReference : Blind kind typeReference := fun _ h hinner =>
  (follows_field h hinner _).andThen (follows_typeArguments h hinner)

lemma follows_commaTypes (hinner : inner.Regrouped inner') (isFirst : Bool)
    {list : List (Part node)} {list' : List (Part node')}
    (h : List.Forall₂ (Part.Rel Alike) list list') :
    Follows Eq (commaTypes inner isFirst list) (commaTypes inner' isFirst list') := by
  induction h generalizing isFirst with
  | nil => exact .refl _
  | cons hhead _ ih =>
      exact .optional (.refl _) fun _ => (hinner.type hhead).andThen (ih false)

lemma blind_angleBrackets : Blind kind angleBrackets := by
  intro node node' inner inner' _ h hinner
  refine .textThen _ (.reading (h.closed (by decide)).require fun _ _ hlist => ?_)
  refine .reading (Alike.sameList hlist).parts fun _ _ hparts => ?_
  exact (follows_commaTypes hinner true hparts).andThen (.refl _)

lemma blind_typeParameter : Blind kind typeParameter := by
  intro node node' inner inner' _ h hinner
  refine (follows_flag h _ _).andThen ((follows_flag h _ _).andThen ?_)
  refine (follows_flag h _ _).andThen (follows_fixed h (by decide) fun _ _ hname => ?_)
  refine (follows_nameOrText hinner hname).andThen ?_
  refine .reading (h.closed (by decide)).given fun _ _ hbound => ?_
  exact (hinner.typeAfter _ hbound).andThen (follows_typeAfter h hinner _ (by decide))

lemma blind_inferType : Blind kind inferType := fun _ h hinner =>
  .textThen _ (follows_typeField h hinner (by decide))

/-! ## Compound types -/

lemma blind_arrayType : Blind kind arrayType := by
  intro node node' inner inner' _ h hinner
  refine .reading (h.closed (by decide)).require fun _ _ helement => ?_
  exact (follows_wrappedIfKind hinner looseTypes helement).andThen (.refl _)

lemma blind_indexedAccess : Blind kind indexedAccess := by
  intro node node' inner inner' _ h hinner
  refine .reading (h.closed (by decide)).require fun _ _ hobject => ?_
  refine (follows_wrappedIfKind hinner looseTypes hobject).andThen (.textThen _ ?_)
  exact (follows_typeField h hinner (by decide)).andThen (.refl _)

lemma blind_tupleType : Blind kind tupleType := by
  intro node node' inner inner' _ h hinner
  refine .textThen _ (.reading (h.closed (by decide)).require fun _ _ hlist => ?_)
  exact (follows_typeList hinner false "," hlist).andThen (.refl _)

lemma blind_namedTupleMember : Blind kind namedTupleMember := by
  intro node node' inner inner' _ h hinner
  refine (follows_field h hinner _).andThen ((follows_flag h _ _).andThen ?_)
  exact .textThen _ (follows_typeField h hinner (by decide))

lemma blind_optionalType : Blind kind optionalType := fun _ h hinner =>
  (follows_typeField h hinner (by decide)).andThen (.refl _)

lemma blind_restType : Blind kind restType := fun _ h hinner =>
  .textThen _ (follows_typeField h hinner (by decide))

/-- The types of a union or an intersection. -/
lemma follows_members (h : Alike node node') (hinner : inner.Regrouped inner') (separator : String)
    (kinds : List String) :
    Follows Eq
      (do
        Render.sequence false separator (wrappedIfKind inner kinds)
          (← Json.itemsOf (← node.require "types")))
      (do
        Render.sequence false separator (wrappedIfKind inner' kinds)
          (← Json.itemsOf (← node'.require "types"))) := by
  refine .reading (h.closed (by decide)).require fun _ _ hlist => ?_
  refine .reading ((Alike.sameList hlist).itemsOf (Alike.loose hlist).isGiven) fun _ _ hitems => ?_
  refine Render.follows_sequence (fun _ _ hrel => ?_) false separator hitems
  exact follows_wrappedIfKind hinner kinds hrel

lemma blind_unionType : Blind kind unionType := fun _ h hinner => follows_members h hinner _ _

lemma blind_intersectionType : Blind kind intersectionType := fun _ h hinner =>
  follows_members h hinner _ _

lemma blind_conditionalType : Blind kind conditionalType := by
  intro node node' inner inner' _ h hinner
  refine .reading (h.closed (by decide)).require fun _ _ hcheck => ?_
  refine (follows_wrappedIfKind hinner functionLike hcheck).andThen (.textThen _ ?_)
  refine .reading (h.closed (by decide)).require fun _ _ hbound => ?_
  refine .readingSame (Alike.type hbound).requireKind fun kind => ?_
  refine (hinner.wrappedType hbound _).andThen (.textThen _ ?_)
  refine (follows_typeField h hinner (by decide)).andThen (.textThen _ ?_)
  exact follows_typeField h hinner (by decide)

lemma blind_functionType : Blind kind functionType := by
  intro node node' inner inner' _ h hinner
  refine (follows_typeParameters h hinner).andThen (.textThen _ ?_)
  refine (follows_parameters h hinner).andThen (.textThen _ ?_)
  refine .reading (follows_resultType h) fun _ _ hresult => ?_
  cases hresult with
  | none => exact .refl _
  | some hresult => exact hinner.type hresult

lemma blind_constructorType : Blind kind constructorType := fun hkind h hinner =>
  (follows_flag h _ _).andThen (.textThen _ (blind_functionType hkind h hinner))

lemma blind_typeOperator : Blind kind typeOperator := by
  intro node node' inner inner' _ h hinner
  refine follows_fixed h (by decide) fun _ _ hoperator => ?_
  rw [show _ = _ from hoperator]
  exact .readingSame (.refl _) fun word => .textThen _ (follows_typeField h hinner (by decide))

lemma blind_parenthesizedType : Blind kind parenthesizedType := fun _ h hinner =>
  .textThen _ ((follows_typeField h hinner (by decide)).andThen (.refl _))

/-! ## Types made of values -/

lemma blind_typeQuery : Blind kind typeQuery := by
  intro node node' inner inner' _ h hinner
  refine .textThen _ (.reading (h.closed (by decide)).require fun _ _ hname => ?_)
  exact (hinner.either hname).andThen (follows_typeArguments h hinner)

lemma blind_literalType : Blind kind literalType := fun _ h hinner => follows_field h hinner _

lemma blind_templateType : Blind kind templateType := by
  intro node node' inner inner' _ h hinner
  refine .reading (h.fixed (by decide)).require fun _ _ htexts => ?_
  refine .reading (h.closed (by decide)).require fun _ _ hholes => .textThen _ ?_
  refine .reading (follows_texts htexts) fun _ _ htexts => .andThen ?_ (.refl _)
  exact follows_quasis (fun _ _ => .refl _) (fun _ _ hrel => hinner.type hrel)
    (Alike.sameList hholes) 0 htexts

/-- The module of a type from elsewhere is no place of an expression. -/
lemma blind_importType : Blind "TSImportType" importType := by
  intro node node' inner inner' hkind h hinner
  have hrest : Follows Eq
      (do
        text ")"
        inner.valueAfter "." (← node.given "qualifier")
        typeArguments inner)
      (do
        text ")"
        inner'.valueAfter "." (← node'.given "qualifier")
        typeArguments inner') := by
    refine .textThen _ (.reading (h.loose_at _).given fun _ _ hname => ?_)
    exact (hinner.valueAfter _ hname).andThen (follows_typeArguments h hinner)
  refine .textThen _ (.reading (h.part_at hkind (by decide)).given fun _ _ hargument => ?_)
  cases hargument with
  | some hargument => exact (hinner.either hargument).andThen hrest
  | none =>
      refine .reading (h.closed (by decide)).require fun _ _ hparameter => ?_
      exact (hinner.either hparameter).andThen hrest

lemma blind_typePredicate : Blind kind typePredicate := by
  intro node node' inner inner' _ h hinner
  refine (follows_flag h _ _).andThen (.reading (h.closed (by decide)).require fun _ _ hname => ?_)
  refine (hinner.either hname).andThen ?_
  refine .reading (h.closed (by decide)).given fun _ _ hfound => ?_
  cases hfound with
  | none => exact .refl _
  | @some found found' hrel =>
      refine .textThen _ (.readingSame (Alike.type hrel).requireKind fun kind => ?_)
      exact .ite (follows_typeField hrel (hinner.under found found') (by decide)) (hinner.type hrel)

/-! ## Members of object types -/

lemma blind_propertySignature : Blind kind propertySignature := by
  intro node node' inner inner' _ h hinner
  refine (follows_flag h _ _).andThen ((follows_key h hinner).andThen ?_)
  exact (follows_flag h _ _).andThen (follows_ascription h hinner)

lemma blind_methodSignature : Blind kind methodSignature := by
  intro node node' inner inner' _ h hinner
  refine (follows_accessor h).known fun _ => (follows_key h hinner).andThen ?_
  exact (follows_flag h _ _).andThen (follows_typeSignature h hinner)

lemma blind_callSignature : Blind kind callSignature := fun _ h hinner =>
  follows_typeSignature h hinner

lemma blind_constructSignature : Blind kind constructSignature := fun _ h hinner =>
  .textThen _ (follows_typeSignature h hinner)

lemma follows_mappedModifier (h : Alike node node') (hkey : key ∈ Grouping.fixedFields)
    (word : String) : Follows Eq (mappedModifier node key word) (mappedModifier node' key word) :=
  .readingSame (h.fixed hkey).getValue fun _ => .refl _

lemma follows_mappedKey (h : Alike node node') (hinner : inner.Regrouped inner') :
    Follows Eq (mappedKey inner) (mappedKey inner') := by
  refine .reading (h.loose_at _).present fun _ _ hname => ?_
  cases hname with
  | some hname =>
      refine (hinner.value hname).andThen ?_
      refine .reading (h.closed (by decide)).require fun _ _ hrange => ?_
      exact .textThen _ (hinner.type hrange)
  | none =>
      refine .reading (h.closed (by decide)).require fun parameter parameter' hparameter => ?_
      have hunder := hinner.under parameter parameter'
      refine .reading (Alike.fixed hparameter (by decide)).require fun _ _ hname => ?_
      refine (follows_nameOrText hunder hname).andThen ?_
      refine .reading (Alike.closed hparameter (by decide)).require fun _ _ hrange => ?_
      exact .textThen _ (hunder.type hrange)

lemma blind_mappedType : Blind kind mappedType := by
  intro node node' inner inner' _ h hinner
  refine .textThen _ ((follows_mappedModifier h (by decide) _).andThen (.textThen _ ?_))
  refine (follows_mappedKey h hinner).andThen ?_
  refine .reading (h.closed (by decide)).given fun _ _ hname => ?_
  refine (hinner.typeAfter _ hname).andThen (.textThen _ ?_)
  refine (follows_mappedModifier h (by decide) _).andThen ?_
  refine .reading (h.closed (by decide)).given fun _ _ htype => ?_
  exact (hinner.typeAfter _ htype).andThen (.refl _)

end Rules

end EstreePrinter
