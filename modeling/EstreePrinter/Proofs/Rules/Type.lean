import Mathlib
import EstreePrinter.Proofs.Rules.Statement

/-!
# The rules for types and their declarations keep every correspondence
-/

namespace EstreePrinter

open Json (Part)

variable {C : Render.Correspondence} {node : Json} {inner inner' : Inner node}

namespace Rules

/-! ## Declarations -/

lemma keptBy_typeAlias : C.KeptBy typeAlias := by
  intro node inner inner' h
  refine C.within ["id", "typeParameters", "typeAnnotation"] (by decide)
    (u := node.under "id" + (node.under "typeParameters" + node.under "typeAnnotation")) ?_
    (by simp)
  refine C.say (C.textIf _ _ _) (C.say (C.text _) ?_)
  refine C.andThen (h.field "id") ?_
  refine C.andThen h.typeParameters (C.say (C.text _) ?_)
  exact C.ending (h.typeField "typeAnnotation") (C.text _)

lemma keptBy_interface : C.KeptBy interface := by
  intro node inner inner' h
  have hbody : C.Related (node.under "body")
      (do
        Render.text " "
        inner.field "body")
      (do
        Render.text " "
        inner'.field "body") :=
    C.say (C.text _) (h.field _)
  refine C.within ["id", "typeParameters", "extends", "body"] (by decide)
    (u := node.under "id" + (node.under "typeParameters" +
      (node.under "extends" + node.under "body"))) ?_ (by simp)
  refine C.say (C.textIf _ _ _) (C.say (C.text _) ?_)
  refine C.andThen (h.field "id") (C.andThen h.typeParameters ?_)
  refine C.reading fun parents hparents => ?_
  cases parents with
  | none => exact C.mono (Multiset.le_add_left _ _) hbody
  | some parents =>
      have hlist := C.mono (Json.nodesIn_le_of_given hparents) (h.typeList false "," parents)
      exact C.say (C.text _) (C.andThen hlist hbody)

lemma keptBy_memberBlock (field : String) : C.KeptBy (memberBlock field) := by
  intro node inner inner' h
  refine C.within [field] (List.nodup_singleton _) (u := node.under field) ?_ (by simp)
  refine C.say (C.text _) (C.reading fun nodes hnodes => ?_)
  exact C.ending (h.typeListOf _ _ hnodes) (C.text _)

lemma nodes_le_of_enumMembers {members : Part node} (h : enumMembers node = .ok members) :
    members.1.nodes ≤ node.under "members" + node.under "body" := by
  obtain ⟨found, hfound, h⟩ := bind_eq_ok_iff.mp h
  cases found with
  | some part =>
      obtain rfl := Except.ok.inj h
      exact (Json.nodesIn_le_of_present hfound).trans (Multiset.le_add_right _ _)
  | none =>
      obtain ⟨body, hbody, h⟩ := bind_eq_ok_iff.mp h
      obtain ⟨inside, hinside, h⟩ := bind_eq_ok_iff.mp h
      obtain rfl := Except.ok.inj h
      calc
        inside.1.nodes ≤ body.1.nodes :=
          (Json.under_of_require hinside).ge.trans (body.1.under_le "members")
        _ ≤ node.under "body" := (Json.under_of_require hbody).ge
        _ ≤ node.under "members" + node.under "body" := Multiset.le_add_left _ _

lemma keptBy_enumeration : C.KeptBy enumeration := by
  intro node inner inner' h
  refine C.within ["id", "members", "body"] (by decide)
    (u := node.under "id" + (node.under "members" + node.under "body")) ?_ (by simp)
  refine C.say (C.textIf _ _ _) (C.say (C.textIf _ _ _) (C.say (C.text _) ?_))
  refine C.andThen (h.field "id") (C.say (C.text _) ?_)
  refine C.reading fun members hmembers => ?_
  have hlist := C.mono (nodes_le_of_enumMembers hmembers) (h.list true members)
  exact C.ending hlist (C.text _)

lemma keptBy_enumMember : C.KeptBy enumMember := by
  intro node inner inner' h
  have hinitializer : C.Related (node.under "initializer")
      (do inner.valueAfter " = " (← node.given "initializer"))
      (do inner'.valueAfter " = " (← node.given "initializer")) :=
    C.reading fun _ hpart => h.givenAfter _ hpart
  refine C.within ["id", "initializer"] (by decide)
    (u := node.under "id" + node.under "initializer") ?_ (by simp)
  refine C.skip fun computed => C.ite ?_ (C.andThen (h.field "id") hinitializer)
  refine C.say (C.text _) (C.andThen (h.field "id") ?_)
  exact C.say (C.text _) hinitializer

/-- The body of a namespace may continue its name any number of times. -/
lemma namespaceBody_related (h : inner.Matches inner' C) (body : Part node) :
    C.Related body.1.nodes (namespaceBody inner body) (namespaceBody inner' body) := by
  induction hn : sizeOf body.1 using Nat.strong_induction_on generalizing body with
  | h n ih =>
      rw [namespaceBody, namespaceBody]
      refine C.skip fun _ => C.ite ?_ (C.say (C.text _) (h.value _))
      refine C.inside ["id", "body"] (by decide) (C.say (C.text _)
        (C.andThen ((h.under body).field "id") (C.reading fun next hnext =>
          C.mono (Json.nodesIn_le_of_present hnext) ?_))) (by simp)
      cases next with
      | none => exact C.text _
      | some next => exact ih _ (hn ▸ next.2.sizeOf_lt) (body.within next) rfl

lemma keptBy_namespaceRule : C.KeptBy namespaceRule := by
  intro node inner inner' h
  refine C.within ["id", "body"] (by decide) (u := node.under "id" + node.under "body") ?_
    (by simp)
  refine C.say (C.textIf _ _ _) (C.skip fun word => ?_)
  refine C.ite (C.skip fun _ => C.say (C.text _) ?_) ?_
  -- the name and the body are the same with and without the word
  all_goals
    refine C.andThen (h.field "id") (C.reading fun body hbody => ?_)
    refine C.mono (Json.nodesIn_le_of_present hbody) ?_
    cases body with
    | none => exact C.text _
    | some body => exact namespaceBody_related h body

/-! ## Members of object types -/

lemma keptBy_propertySignature : C.KeptBy propertySignature := by
  intro node inner inner' h
  refine C.within ["key", "typeAnnotation"] (by decide)
    (u := node.under "key" + node.under "typeAnnotation") ?_ (by simp)
  refine C.say (C.textIf _ _ _) (C.andThen h.key ?_)
  exact C.say (C.textIf _ _ _) h.ascription

lemma keptBy_methodSignature : C.KeptBy methodSignature := by
  intro node inner inner' h
  refine C.within ["key", "typeParameters", "params", "parameters", "returnType", "typeAnnotation"]
    (by decide) (u := node.under "key" + (node.under "typeParameters" +
      (node.underParameters + node.underResult))) ?_ (by simp [add_assoc])
  refine C.after (accessor_related _) fun _ => C.andThen h.key ?_
  exact C.say (C.textIf _ _ _) h.typeSignature

lemma keptBy_callSignature : C.KeptBy callSignature := fun _ _ _ h =>
  C.within ["typeParameters", "params", "parameters", "returnType", "typeAnnotation"] (by decide)
    h.typeSignature (by simp [add_assoc])

lemma keptBy_constructSignature : C.KeptBy constructSignature := fun _ _ _ h =>
  C.say (C.text _) (keptBy_callSignature _ _ _ h)

lemma keptBy_indexSignature : C.KeptBy indexSignature := by
  intro node inner inner' h
  refine C.within ["params", "parameters", "typeAnnotation"] (by decide)
    (u := node.underParameters + node.under "typeAnnotation") ?_ (by simp [add_assoc])
  refine C.say (modifiers_related _) (C.say (C.text _) ?_)
  refine C.andThen h.parameters (C.say (C.text _) ?_)
  exact h.ascription

lemma keptBy_classIndexSignature : C.KeptBy classIndexSignature := fun _ _ _ h =>
  C.ending (keptBy_indexSignature _ _ _ h) (C.text _)

lemma mappedModifier_related (node : Json) (key word : String) :
    C.Related 0 (mappedModifier node key word) (mappedModifier node key word) :=
  C.skip fun _ => C.ite (C.text _) (C.ite (C.text _) (C.pure _))

lemma nameOrText_related (h : inner.Matches inner' C) {name : Part node} {key : String}
    (hname : node.require key = .ok name) :
    C.Related (node.under key) (nameOrText inner name) (nameOrText inner' name) := by
  unfold nameOrText
  split
  · exact C.none (C.text _)
  · exact h.valueOf hname

lemma mappedKey_related (h : inner.Matches inner' C) :
    C.Related (node.under "key" + (node.under "constraint" + node.under "typeParameter"))
      (mappedKey inner) (mappedKey inner') := by
  refine C.reading fun name hname => ?_
  cases name with
  | none =>
      refine C.mono (Multiset.le_add_left _ _) (C.mono (Multiset.le_add_left _ _) ?_)
      refine C.reading fun parameter hparameter => C.mono (Json.under_of_require hparameter).ge ?_
      have hparameter := h.under parameter
      refine C.inside ["name", "constraint"] (by decide)
        (u := parameter.1.under "name" + parameter.1.under "constraint") ?_ (by simp)
      refine C.reading fun name hname => C.andThen (nameOrText_related hparameter hname) ?_
      exact C.reading fun range hrange => C.say (C.text _) (hparameter.typeOf hrange)
  | some name =>
      refine C.andThen (C.mono (Json.nodesIn_le_of_present hname) (h.value name)) ?_
      refine C.reading fun range hrange => C.say (C.text _) ?_
      exact C.mono (Multiset.le_add_right _ _) (h.typeOf hrange)

lemma keptBy_mappedType : C.KeptBy mappedType := by
  intro node inner inner' h
  refine C.within ["key", "constraint", "typeParameter", "nameType", "typeAnnotation"] (by decide)
    (u := node.under "key" + (node.under "constraint" + node.under "typeParameter") +
      (node.under "nameType" + node.under "typeAnnotation")) ?_ (by simp [add_assoc])
  refine C.say (C.text _) (C.say (mappedModifier_related _ _ _) (C.say (C.text _) ?_))
  refine C.andThen (mappedKey_related h) (C.reading fun name hname => ?_)
  refine C.andThen (h.givenTypeAfter _ hname) (C.say (C.text _) ?_)
  refine C.say (mappedModifier_related _ _ _) (C.reading fun type htype => ?_)
  exact C.ending (h.givenTypeAfter _ htype) (C.text _)

/-! ## Names and parameters -/

lemma keptBy_keywordType (word : String) : C.KeptBy (keywordType word) := fun _ _ _ _ =>
  C.none (C.text _)

lemma keptBy_ascribedType : C.KeptBy ascribedType := fun _ _ _ h =>
  C.within ["typeAnnotation"] (by decide) (C.say (C.text _) (h.typeField _)) (by simp)

lemma keptBy_typeReference : C.KeptBy typeReference := fun _ _ _ h =>
  C.within ["typeName", "typeArguments", "typeParameters"] (by decide)
    (C.andThen (h.field _) h.typeArguments) (by simp)

lemma commaTypes_related (h : inner.Matches inner' C) (isFirst : Bool) (list : List (Part node)) :
    C.Related (Json.nodesAll list) (commaTypes inner isFirst list)
      (commaTypes inner' isFirst list) := by
  induction list generalizing isFirst with
  | nil => exact C.pure _
  | cons parameter rest ih =>
      rw [Json.nodesAll_cons]
      unfold commaTypes
      exact C.optional (C.text _) fun _ => C.andThen (h.type _) (ih _)

lemma keptBy_angleBrackets : C.KeptBy angleBrackets := by
  intro node inner inner' h
  refine C.within ["params"] (by decide) (u := node.under "params") ?_ (by simp)
  refine C.say (C.text _) (C.reading fun list hlist => C.reading fun parts hparts => ?_)
  have hall : Json.nodesAll parts ≤ node.under "params" :=
    (Json.nodesAll_le_of_parts hparts).trans (Json.under_of_require hlist).ge
  exact C.ending (C.mono hall (commaTypes_related h true parts)) (C.text _)

lemma keptBy_typeParameter : C.KeptBy typeParameter := by
  intro node inner inner' h
  refine C.within ["name", "constraint", "default"] (by decide)
    (u := node.under "name" + (node.under "constraint" + node.under "default")) ?_ (by simp)
  refine C.say (C.textIf _ _ _) (C.say (C.textIf _ _ _) (C.say (C.textIf _ _ _) ?_))
  refine C.reading fun name hname => C.andThen (nameOrText_related h hname) ?_
  refine C.reading fun bound hbound => C.andThen (h.givenTypeAfter _ hbound) ?_
  exact C.reading fun default hdefault => h.givenTypeAfter _ hdefault

lemma keptBy_inferType : C.KeptBy inferType := fun _ _ _ h =>
  C.within ["typeParameter"] (by decide) (C.say (C.text _) (h.typeField _)) (by simp)

/-! ## Compound types -/

lemma wrappedIfKind_related (h : inner.Matches inner' C) (kinds : List String) (part : Part node) :
    C.Related part.1.nodes (wrappedIfKind inner kinds part) (wrappedIfKind inner' kinds part) :=
  C.skip fun _ => C.skip fun _ => h.wrappedType _ _

lemma wrappedIfKindOf (h : inner.Matches inner' C) (kinds : List String) {key : String}
    {part : Part node} (hpart : node.require key = .ok part) :
    C.Related (node.under key) (wrappedIfKind inner kinds part) (wrappedIfKind inner' kinds part) :=
  Json.under_of_require hpart ▸ wrappedIfKind_related h kinds part

lemma keptBy_arrayType : C.KeptBy arrayType := by
  intro node inner inner' h
  refine C.within ["elementType"] (by decide) (u := node.under "elementType") ?_ (by simp)
  refine C.reading fun element helement => ?_
  exact C.ending (wrappedIfKindOf h _ helement) (C.text _)

lemma keptBy_indexedAccess : C.KeptBy indexedAccess := by
  intro node inner inner' h
  refine C.within ["objectType", "indexType"] (by decide)
    (u := node.under "objectType" + node.under "indexType") ?_ (by simp)
  refine C.reading fun object hobject => C.andThen (wrappedIfKindOf h _ hobject) ?_
  refine C.say (C.text _) ?_
  exact C.ending (h.typeField "indexType") (C.text _)

lemma keptBy_tupleType : C.KeptBy tupleType := by
  intro node inner inner' h
  refine C.within ["elementTypes"] (by decide) (u := node.under "elementTypes") ?_ (by simp)
  refine C.say (C.text _) (C.reading fun nodes hnodes => ?_)
  exact C.ending (h.typeListOf _ _ hnodes) (C.text _)

lemma keptBy_namedTupleMember : C.KeptBy namedTupleMember := by
  intro node inner inner' h
  refine C.within ["label", "elementType"] (by decide)
    (u := node.under "label" + node.under "elementType") ?_ (by simp)
  refine C.andThen (h.field "label") ?_
  exact C.say (C.textIf _ _ _) (C.say (C.text _) (h.typeField "elementType"))

lemma keptBy_optionalType : C.KeptBy optionalType := fun _ _ _ h =>
  C.within ["typeAnnotation"] (by decide) (C.ending (h.typeField _) (C.text _)) (by simp)

lemma keptBy_restType : C.KeptBy restType := fun _ _ _ h =>
  C.within ["typeAnnotation"] (by decide) (C.say (C.text _) (h.typeField _)) (by simp)

/-- The members of a union or an intersection. -/
lemma memberTypes (h : inner.Matches inner' C) (kinds : List String) (separator : String) :
    C.Related node.within
      (do
        let types ← node.require "types"
        Render.sequence false separator (wrappedIfKind inner kinds) (← Json.itemsOf types))
      (do
        let types ← node.require "types"
        Render.sequence false separator (wrappedIfKind inner' kinds) (← Json.itemsOf types)) :=
  C.within ["types"] (by decide)
    (C.reading fun types htypes => C.mono (Json.under_of_require htypes).ge
      (Inner.Matches.sequenceOf _ _ (wrappedIfKind_related h kinds) types))
    (by simp)

lemma keptBy_unionType : C.KeptBy unionType := fun _ _ _ h => memberTypes h _ _

lemma keptBy_intersectionType : C.KeptBy intersectionType := fun _ _ _ h => memberTypes h _ _

lemma keptBy_conditionalType : C.KeptBy conditionalType := by
  intro node inner inner' h
  refine C.within ["checkType", "extendsType", "trueType", "falseType"] (by decide)
    (u := node.under "checkType" + (node.under "extendsType" +
      (node.under "trueType" + node.under "falseType"))) ?_ (by simp)
  refine C.reading fun checked hchecked => C.andThen (wrappedIfKindOf h _ hchecked) ?_
  refine C.say (C.text _) (C.reading fun bound hbound => C.skip fun wraps => ?_)
  refine C.andThen (C.mono (Json.under_of_require hbound).ge (h.wrappedType bound _)) ?_
  refine C.say (C.text _) (C.andThen (h.typeField "trueType") ?_)
  exact C.say (C.text _) (h.typeField "falseType")

lemma keptBy_functionType : C.KeptBy functionType := by
  intro node inner inner' h
  refine C.within ["typeParameters", "params", "parameters", "returnType", "typeAnnotation"]
    (by decide) (u := node.under "typeParameters" + (node.underParameters + node.underResult)) ?_
    (by simp [add_assoc])
  refine C.andThen h.typeParameters (C.say (C.text _) ?_)
  refine C.andThen h.parameters (C.say (C.text _) ?_)
  refine C.reading fun result hresult => ?_
  refine C.mono (Inner.Matches.nodesIn_le_of_resultType hresult) ?_
  cases result with
  | none => exact C.text _
  | some result => exact h.type _

lemma keptBy_constructorType : C.KeptBy constructorType := fun _ _ _ h =>
  C.say (C.textIf _ _ _) (C.say (C.text _) (keptBy_functionType _ _ _ h))

lemma keptBy_typeOperator : C.KeptBy typeOperator := fun _ _ _ h =>
  C.within ["typeAnnotation"] (by decide)
    (C.skip fun _ => C.skip fun _ => C.say (C.text _) (h.typeField _)) (by simp)

lemma keptBy_parenthesizedType : C.KeptBy parenthesizedType := fun _ _ _ h =>
  C.within ["typeAnnotation"] (by decide)
    (C.say (C.text _) (C.ending (h.typeField _) (C.text _))) (by simp)

/-! ## Types made of values -/

lemma keptBy_typeQuery : C.KeptBy typeQuery := by
  intro node inner inner' h
  refine C.within ["exprName", "typeArguments", "typeParameters"] (by decide)
    (u := node.under "exprName" + node.underArguments) ?_ (by simp)
  refine C.say (C.text _) (C.reading fun name hname => ?_)
  have hvalue := C.mono (Json.under_of_require hname).ge (h.either name)
  exact C.andThen hvalue h.typeArguments

lemma keptBy_literalType : C.KeptBy literalType := fun _ _ _ h =>
  C.within ["literal"] (by decide) (h.field _) (by simp)

lemma keptBy_templateType : C.KeptBy templateType := by
  intro node inner inner' h
  refine C.within ["types"] (by decide) (u := node.under "types") ?_ (by simp)
  refine C.skip fun texts => C.reading fun holes hholes => C.say (C.text _) ?_
  refine C.skip fun texts => C.ending ?_ (C.text _)
  refine C.mono ((Json.nodesFrom_le holes).trans (Json.under_of_require hholes).ge) ?_
  exact quasis_related (fun content _ => C.ofValue content) h.type holes 0 texts

lemma keptBy_importType : C.KeptBy importType := by
  intro node inner inner' h
  have hrest : C.Related (node.under "qualifier" + node.underArguments)
      (do
        Render.text ")"
        inner.valueAfter "." (← node.given "qualifier")
        typeArguments inner)
      (do
        Render.text ")"
        inner'.valueAfter "." (← node.given "qualifier")
        typeArguments inner') :=
    C.say (C.text _) <| C.reading fun _ hqualifier =>
      C.andThen (h.givenAfter _ hqualifier) h.typeArguments
  refine C.within ["argument", "parameter", "qualifier", "typeArguments", "typeParameters"]
    (by decide) (u := node.under "argument" + (node.under "parameter" +
      (node.under "qualifier" + node.underArguments)))
    (C.say (C.text _) (C.reading fun argument hargument => ?_)) (by simp)
  cases argument with
  | none =>
      refine C.mono (Multiset.le_add_left _ _) (C.reading fun parameter hparameter => ?_)
      exact C.andThen (C.mono (Json.under_of_require hparameter).ge (h.either parameter)) hrest
  | some argument =>
      exact C.andThen (C.mono (Json.nodesIn_le_of_given hargument) (h.either argument))
        (C.mono (Multiset.le_add_left _ _) hrest)

lemma keptBy_typePredicate : C.KeptBy typePredicate := by
  intro node inner inner' h
  refine C.within ["parameterName", "typeAnnotation"] (by decide)
    (u := node.under "parameterName" + node.under "typeAnnotation") ?_ (by simp)
  refine C.say (C.textIf _ _ _) (C.reading fun name hname => ?_)
  refine C.andThen (C.mono (Json.under_of_require hname).ge (h.either name)) ?_
  refine C.reading fun found hfound => C.mono (Json.nodesIn_le_of_given hfound) ?_
  cases found with
  | none => exact C.pure _
  | some found =>
      refine C.say (C.text _) (C.skip fun kind => C.ite ?_ (h.type found))
      exact C.inside ["typeAnnotation"] (by decide) ((h.under found).typeField _) (by simp)

end Rules

end EstreePrinter
