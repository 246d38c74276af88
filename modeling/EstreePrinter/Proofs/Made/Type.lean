import Mathlib
import EstreePrinter.Proofs.Made.Statement

/-!
# What the rules for types and their declarations are made of

At the end the rules are gone through in their tables: a rule that is found is made of the parts of
its node (`Rules.isMade_of_find`).
-/

namespace EstreePrinter

open Json (Part)

variable {node : Json} {inner : Inner node} {strict : Bool}

namespace Rules

/-! ## Declarations -/

lemma isMade_typeAlias : IsMade strict typeAlias := by
  intro node inner
  refine (Made.textIf _ "declare" "declare " (by decide)).andThen ?_
  refine (Made.word "type " (by decide)).andThen ((Made.field "id").andThen ?_)
  refine Made.typeParameters.andThen ((Made.word " = " (by decide)).andThen ?_)
  exact (Made.typeField "typeAnnotation").andThen (Made.word ";" (by decide))

lemma isMade_interface : IsMade strict interface := by
  intro node inner
  have hbody : Made inner strict (do
      Render.text " "
      inner.field "body") :=
    (Made.word " " (by decide)).andThen (Made.field _)
  refine (Made.textIf _ "declare" "declare " (by decide)).andThen ?_
  refine (Made.word "interface " (by decide)).andThen ((Made.field "id").andThen ?_)
  refine Made.typeParameters.andThen (Made.skip fun parents => ?_)
  cases parents with
  | none => exact hbody
  | some parents =>
      refine (Made.word " extends " (by decide)).andThen ?_
      exact (Made.typeList false "," parents (by decide)).andThen hbody

lemma isMade_memberBlock (field : String) : IsMade strict (memberBlock field) := by
  intro node inner
  refine (Made.word "\x7b" (by decide)).andThen (Made.skip fun members => ?_)
  exact (Made.typeList true ";" members (by decide)).andThen (Made.word "\x7d" (by decide))

lemma isMade_enumeration : IsMade strict enumeration := by
  intro node inner
  refine (Made.textIf _ "declare" "declare " (by decide)).andThen ?_
  refine (Made.textIf _ "const" "const " (by decide)).andThen ?_
  refine (Made.word "enum " (by decide)).andThen ((Made.field "id").andThen ?_)
  refine (Made.word " \x7b" (by decide)).andThen (Made.skip fun members => ?_)
  exact (Made.list true members).andThen (Made.word "\x7d" (by decide))

lemma isMade_enumMember : IsMade strict enumMember := by
  intro node inner
  have hinitializer : Made inner strict (do
      inner.valueAfter " = " (← node.given "initializer")) :=
    Made.skip fun part => Made.valueAfter " = " part (by decide)
  refine Made.skip fun computed => Made.ite ?_ ((Made.field "id").andThen hinitializer)
  refine (Made.word "[" (by decide)).andThen ((Made.field "id").andThen ?_)
  exact (Made.word "]" (by decide)).andThen hinitializer

end Rules

/-- The body of a namespace may continue its name any number of times. -/
lemma Made.namespaceBody (body : Part node) :
    Made inner strict (Rules.namespaceBody inner body) := by
  induction hn : sizeOf body.1 using Nat.strong_induction_on generalizing body with
  | h n ih =>
      rw [Rules.namespaceBody]
      refine skip fun kind => ite ?_ ((word " " (by decide)).andThen (value body))
      refine (word "." (by decide)).andThen ((under body (field "id")).andThen ?_)
      refine skip fun next => ?_
      cases next with
      | none => exact word ";" (by decide)
      | some next => exact ih _ (hn ▸ next.2.sizeOf_lt) (body.within next) rfl

namespace Rules

/-- The word before a name stays on its line. -/
lemma isInline_of_namespaceWord (hnode : node.IsTidy) {word : Json}
    (h : namespaceWord node = .ok word) : word.isInline = true := by
  obtain ⟨kind, hkind, h⟩ := bind_eq_ok_iff.mp h
  split at h
  · obtain rfl := Except.ok.inj h
    exact Json.isInline_of_getValue hnode (by decide) hkind
  · obtain ⟨isGlobal, -, h⟩ := bind_eq_ok_iff.mp h
    split at h
    · obtain rfl := Except.ok.inj h
      rfl
    · obtain ⟨name, -, h⟩ := bind_eq_ok_iff.mp h
      obtain ⟨nameKind, -, h⟩ := bind_eq_ok_iff.mp h
      obtain rfl := Except.ok.inj h
      split <;> decide

lemma isMade_namespaceRule : IsMade strict namespaceRule := by
  intro node inner
  refine (Made.textIf _ "declare" "declare " (by decide)).andThen
    (Made.reading fun word hword => ?_)
  refine Made.ite (Made.reading fun text htext => (Made.text fun hnode => ?_).andThen ?_) ?_
  · have hinline := isInline_of_text (isInline_of_namespaceWord hnode hword) htext
    simpa using hinline
  -- with the word or without it, the name and the body follow
  all_goals
    refine (Made.field _).andThen (Made.skip fun body => ?_)
    cases body with
    | none => exact Made.word ";" (by decide)
    | some body => exact Made.namespaceBody body

/-! ## Members of object types -/

lemma isMade_propertySignature : IsMade strict propertySignature := by
  intro node inner
  refine (Made.textIf _ "readonly" "readonly " (by decide)).andThen (Made.key.andThen ?_)
  exact (Made.textIf _ "optional" "?" (by decide)).andThen Made.ascription

lemma isMade_methodSignature : IsMade strict methodSignature := by
  intro node inner
  refine (Made.accessor _).bind fun _ => Made.key.andThen ?_
  exact (Made.textIf _ "optional" "?" (by decide)).andThen Made.typeSignature

lemma isMade_callSignature : IsMade strict callSignature := fun _ _ => Made.typeSignature

lemma isMade_constructSignature : IsMade strict constructSignature := fun _ _ =>
  (Made.word "new " (by decide)).andThen Made.typeSignature

lemma isMade_indexSignature : IsMade strict indexSignature := by
  intro node inner
  refine Made.modifiers.andThen ((Made.word "[" (by decide)).andThen ?_)
  refine Made.parameters.andThen ((Made.word "]" (by decide)).andThen ?_)
  exact Made.ascription

lemma isMade_classIndexSignature : IsMade strict classIndexSignature := fun node inner =>
  (isMade_indexSignature node inner).andThen (Made.word ";" (by decide))

end Rules

namespace Made

lemma mappedModifier (key word : String) (hkey : key ∉ Json.literalKeys)
    (hword : '\n' ∉ word.toList) :
    Made inner strict (Rules.mappedModifier node key word) := by
  refine reading fun value hvalue => ?_
  have hsigned : Made inner strict (Render.text ("" ++ value.display ++ word)) :=
    shown (fun hnode => Json.isInline_of_getValue hnode hkey hvalue) "" word (by decide) hword
  rw [String.empty_append] at hsigned
  exact ite hsigned (ite (Made.word word hword) (pure _))

lemma nameOrText {name : Part node} (hname : node.require "name" = .ok name) :
    Made inner strict (Rules.nameOrText inner name) := by
  unfold Rules.nameOrText
  split
  · rename_i s hs
    refine text fun hnode => ?_
    have hinline := Json.isInline_of_require hnode (by decide) hname
    rw [hs] at hinline
    simpa [Json.isInline] using hinline
  · exact value name

lemma mappedKey : Made inner strict (Rules.mappedKey inner) := by
  refine skip fun name => ?_
  cases name with
  | none =>
      refine skip fun parameter => under parameter (reading fun name hname => ?_)
      refine (nameOrText hname).andThen (skip fun range => ?_)
      exact (word " in " (by decide)).andThen (type range)
  | some name =>
      refine (value name).andThen (skip fun range => ?_)
      exact (word " in " (by decide)).andThen (type range)

end Made

namespace Rules

lemma isMade_mappedType : IsMade strict mappedType := by
  intro node inner
  have hreadonly : Made inner strict (mappedModifier node "readonly" "readonly ") :=
    Made.mappedModifier "readonly" "readonly " (by decide) (by decide)
  have hoptional : Made inner strict (mappedModifier node "optional" "?") :=
    Made.mappedModifier "optional" "?" (by decide) (by decide)
  refine (Made.word "\x7b " (by decide)).andThen (hreadonly.andThen ?_)
  refine (Made.word "[" (by decide)).andThen (Made.mappedKey.andThen ?_)
  refine Made.skip fun name => (Made.typeAfter " as " name (by decide)).andThen ?_
  refine (Made.word "]" (by decide)).andThen (hoptional.andThen (Made.skip fun found => ?_))
  exact (Made.typeAfter ": " found (by decide)).andThen (Made.word " \x7d" (by decide))

/-! ## Names and parameters -/

lemma isMade_keywordType (word : String) (h : '\n' ∉ word.toList) :
    IsMade strict (keywordType word) := fun _ _ => Made.word word h

lemma isMade_ascribedType : IsMade strict ascribedType := fun _ _ =>
  (Made.word ": " (by decide)).andThen (Made.typeField _)

lemma isMade_typeReference : IsMade strict typeReference := fun _ _ =>
  (Made.field _).andThen Made.typeArguments

end Rules

lemma Made.commaTypes (isFirst : Bool) (list : List (Part node)) :
    Made inner strict (Rules.commaTypes inner isFirst list) := by
  induction list generalizing isFirst with
  | nil => exact pure _
  | cons parameter rest ih =>
      unfold Rules.commaTypes
      exact optional (word ", " (by decide)) fun _ => (type parameter).andThen (ih false)

lemma Made.wrappedIfKind (kinds : List String) (part : Part node) :
    Made inner strict (Rules.wrappedIfKind inner kinds part) :=
  skip fun _ => skip fun _ => wrappedType part _

namespace Rules

lemma isMade_angleBrackets : IsMade strict angleBrackets := by
  intro node inner
  refine (Made.word "<" (by decide)).andThen (Made.skip fun nodes => Made.skip fun list => ?_)
  exact (Made.commaTypes true list).andThen (Made.word ">" (by decide))

lemma isMade_typeParameter : IsMade strict typeParameter := by
  intro node inner
  refine (Made.textIf _ "const" "const " (by decide)).andThen ?_
  refine (Made.textIf _ "in" "in " (by decide)).andThen ?_
  refine (Made.textIf _ "out" "out " (by decide)).andThen (.reading fun name hname => ?_)
  refine (Made.nameOrText hname).andThen (Made.skip fun bound => ?_)
  refine (Made.typeAfter " extends " bound (by decide)).andThen (Made.skip fun found => ?_)
  exact Made.typeAfter " = " found (by decide)

lemma isMade_inferType : IsMade strict inferType := fun _ _ =>
  (Made.word "infer " (by decide)).andThen (Made.typeField _)

/-! ## Compound types -/

lemma isMade_arrayType : IsMade strict arrayType := by
  intro node inner
  refine Made.skip fun element => (Made.wrappedIfKind _ element).andThen ?_
  exact Made.word "[]" (by decide)

lemma isMade_indexedAccess : IsMade strict indexedAccess := by
  intro node inner
  refine Made.skip fun object => (Made.wrappedIfKind _ object).andThen ?_
  refine (Made.word "[" (by decide)).andThen ?_
  exact (Made.typeField "indexType").andThen (Made.word "]" (by decide))

lemma isMade_tupleType : IsMade strict tupleType := by
  intro node inner
  refine (Made.word "[" (by decide)).andThen (Made.skip fun nodes => ?_)
  exact (Made.typeList false "," nodes (by decide)).andThen (Made.word "]" (by decide))

lemma isMade_namedTupleMember : IsMade strict namedTupleMember := by
  intro node inner
  refine (Made.field "label").andThen ((Made.textIf _ "optional" "?" (by decide)).andThen ?_)
  exact (Made.word ": " (by decide)).andThen (Made.typeField "elementType")

lemma isMade_optionalType : IsMade strict optionalType := fun _ _ =>
  (Made.typeField _).andThen (Made.word "?" (by decide))

lemma isMade_restType : IsMade strict restType := fun _ _ =>
  (Made.word "..." (by decide)).andThen (Made.typeField _)

lemma isMade_unionType : IsMade strict unionType := fun _ _ =>
  Made.skip fun _ => .skip fun items => .sequence false (by decide) (Made.wrappedIfKind _) items

lemma isMade_intersectionType : IsMade strict intersectionType := fun _ _ =>
  Made.skip fun _ => .skip fun items => .sequence false (by decide) (Made.wrappedIfKind _) items

lemma isMade_conditionalType : IsMade strict conditionalType := by
  intro node inner
  refine Made.skip fun check => (Made.wrappedIfKind _ check).andThen ?_
  refine (Made.word " extends " (by decide)).andThen (Made.skip fun bound => ?_)
  refine Made.skip fun kind => (Made.wrappedType bound _).andThen ?_
  refine (Made.word " ? " (by decide)).andThen ((Made.typeField "trueType").andThen ?_)
  exact (Made.word " : " (by decide)).andThen (Made.typeField "falseType")

lemma isMade_functionType : IsMade strict functionType := by
  intro node inner
  refine Made.typeParameters.andThen ((Made.word "(" (by decide)).andThen ?_)
  refine Made.parameters.andThen ((Made.word ") => " (by decide)).andThen ?_)
  refine Made.skip fun result => ?_
  cases result with
  | none => exact Made.word "void" (by decide)
  | some result => exact Made.type result

lemma isMade_constructorType : IsMade strict constructorType := by
  intro node inner
  refine (Made.textIf _ "abstract" "abstract " (by decide)).andThen ?_
  exact (Made.word "new " (by decide)).andThen (isMade_functionType node inner)

lemma isMade_typeOperator : IsMade strict typeOperator := by
  intro node inner
  refine Made.reading fun operator hoperator => Made.reading fun text htext =>
    (Made.text fun hnode => ?_).andThen (Made.typeField _)
  have hinline := isInline_of_text (Json.isInline_of_require hnode (by decide) hoperator) htext
  simpa using hinline

lemma isMade_parenthesizedType : IsMade strict parenthesizedType := fun _ _ =>
  (Made.typeField "typeAnnotation").between "(" ")" (by decide) (by decide)

/-! ## Types made of values -/

lemma isMade_typeQuery : IsMade strict typeQuery := by
  intro node inner
  refine (Made.word "typeof " (by decide)).andThen (Made.skip fun name => ?_)
  exact (Made.either name).andThen Made.typeArguments

lemma isMade_literalType : IsMade strict literalType := fun _ _ => Made.field _

lemma isMade_templateType : IsMade strict templateType := by
  intro node inner
  refine Made.skip fun texts => Made.skip fun holes => (Made.word "`" (by decide)).andThen ?_
  refine Made.skip fun texts => .andThen ?_ (Made.word "`" (by decide))
  exact Made.quasis (fun _ _ => Or.inr rfl) .type holes 0 texts

lemma isMade_importType : IsMade strict importType := by
  intro node inner
  have hrest : Made inner strict (do
      Render.text ")"
      inner.valueAfter "." (← node.given "qualifier")
      typeArguments inner) := by
    refine (Made.word ")" (by decide)).andThen (Made.skip fun qualifier => ?_)
    exact (Made.valueAfter "." qualifier (by decide)).andThen Made.typeArguments
  refine (Made.word "import(" (by decide)).andThen (Made.skip fun argument => ?_)
  cases argument with
  | none => exact Made.skip fun parameter => (Made.either parameter).andThen hrest
  | some argument => exact (Made.either argument).andThen hrest

lemma isMade_typePredicate : IsMade strict typePredicate := by
  intro node inner
  refine (Made.textIf _ "asserts" "asserts " (by decide)).andThen (Made.skip fun name => ?_)
  refine (Made.either name).andThen (Made.skip fun found => ?_)
  cases found with
  | none => exact Made.pure _
  | some found =>
      refine (Made.word " is " (by decide)).andThen (Made.skip fun kind => ?_)
      exact Made.ite (Made.under found (Made.typeField _)) (Made.type found)

/-! ## The tables -/

/-- The kinds whose rules break lines without a note. -/
def breakingKinds : List String := ["Program", "Decorator"]

/-- The kinds of binary expressions. -/
def binaryKinds : List String := ["BinaryExpression", "LogicalExpression"]

/-- What is known of an entry of a table: its rule is made of the parts of its node, or it is the
one for binary expressions. -/
def EntryIsMade (entry : String × Rule) : Prop :=
  (binaryKinds.contains entry.1 = true ∧ entry.2 = binary) ∨
    IsMade (!breakingKinds.contains entry.1) entry.2

lemma isMade_primaryRules : ∀ entry ∈ primaryRules, IsMade strict entry.2 := by
  simp only [primaryRules, List.forall_mem_cons]
  exact ⟨isMade_identifier, isMade_privateIdentifier, isMade_word "this" (by decide),
    isMade_word "super" (by decide),
    isMade_literal, isMade_template, isMade_taggedTemplate, isMade_transparent,
    isMade_metaProperty, isMade_importCall, List.forall_mem_nil _⟩

lemma isMade_collectionRules : ∀ entry ∈ collectionRules, IsMade strict entry.2 := by
  simp only [collectionRules, List.forall_mem_cons]
  exact ⟨isMade_array, isMade_array, isMade_object, isMade_objectPattern, isMade_property,
    isMade_defaulted, isMade_spread, isMade_spread, List.forall_mem_nil _⟩

lemma entryIsMade_operatorRules : ∀ entry ∈ operatorRules, EntryIsMade entry := by
  simp only [operatorRules, List.forall_mem_cons]
  exact ⟨Or.inl ⟨rfl, rfl⟩, Or.inl ⟨rfl, rfl⟩, Or.inr isMade_unary, Or.inr isMade_update,
    Or.inr isMade_assignment, Or.inr isMade_conditional, Or.inr isMade_commaExpression,
    Or.inr isMade_await, Or.inr isMade_yield, Or.inr isMade_member, Or.inr isMade_transparent,
    Or.inr (isMade_call false), Or.inr (isMade_call true), List.forall_mem_nil _⟩

lemma entryIsMade_statementRules : ∀ entry ∈ statementRules, EntryIsMade entry := by
  simp only [statementRules, List.forall_mem_cons]
  exact ⟨Or.inr isMade_program, Or.inr isMade_block, Or.inr isMade_block, Or.inr isMade_block,
    Or.inr isMade_staticBlock, Or.inr isMade_empty, Or.inr isMade_expressionStatement,
    Or.inr isMade_debuggerStatement, Or.inr (isMade_jump "break" (by decide)),
      Or.inr (isMade_jump "continue" (by decide)),
    Or.inr isMade_labeled, Or.inr (isMade_leave "return" (by decide)),
      Or.inr (isMade_leave "throw" (by decide)),
    Or.inr isMade_variableDeclaration, Or.inr isMade_declarator, Or.inr isMade_ifRule,
    Or.inr isMade_forRule, Or.inr (isMade_forEach " in " (by decide)),
      Or.inr (isMade_forEach " of " (by decide)),
    Or.inr (isMade_headed "while" "test" (by decide)), Or.inr isMade_doWhile,
    Or.inr (isMade_headed "with" "object" (by decide)), Or.inr isMade_tryRule,
      Or.inr isMade_switchRule,
    List.forall_mem_nil _⟩

lemma entryIsMade_functionRules : ∀ entry ∈ functionRules, EntryIsMade entry := by
  simp only [functionRules, List.forall_mem_cons]
  exact ⟨Or.inr isMade_function, Or.inr isMade_function, Or.inr isMade_function,
    Or.inr isMade_arrow, Or.inr isMade_decorator, Or.inr isMade_classRule, Or.inr isMade_classRule,
    Or.inr isMade_classMethod, Or.inr isMade_classMethod, Or.inr (isMade_classProperty _),
    Or.inr (isMade_classProperty _), Or.inr (isMade_classProperty _),
    Or.inr isMade_parameterProperty, List.forall_mem_nil _⟩

lemma isMade_exchangeRules : ∀ entry ∈ exchangeRules, IsMade strict entry.2 := by
  simp only [exchangeRules, List.forall_mem_cons]
  exact ⟨isMade_importAttribute, isMade_importRule, isMade_exportNamed, isMade_exportDefault,
    isMade_exportAll, List.forall_mem_nil _⟩

lemma isMade_typedRules : ∀ entry ∈ typedRules, IsMade strict entry.2 := by
  simp only [typedRules, List.forall_mem_cons]
  exact ⟨isMade_typedExpression _ " as " (by decide),
    isMade_typedExpression _ " satisfies " (by decide), isMade_nonNull,
    isMade_typeAssertion, isMade_instantiation, isMade_qualifiedName, isMade_typeAlias,
    isMade_interface, isMade_memberBlock _, isMade_enumeration, isMade_enumMember,
    isMade_namespaceRule, isMade_classIndexSignature, List.forall_mem_nil _⟩

lemma entryIsMade_valueRules : ∀ entry ∈ valueRules, EntryIsMade entry := by
  simp only [valueRules, List.forall_mem_append]
  exact ⟨⟨⟨⟨⟨⟨fun entry h => Or.inr (isMade_primaryRules entry h),
    fun entry h => Or.inr (isMade_collectionRules entry h)⟩,
    entryIsMade_operatorRules⟩, entryIsMade_statementRules⟩,
    entryIsMade_functionRules⟩, fun entry h => Or.inr (isMade_exchangeRules entry h)⟩,
    fun entry h => Or.inr (isMade_typedRules entry h)⟩

lemma isMade_typeRules : ∀ entry ∈ typeRules, IsMade strict entry.2 := by
  have hwords : ∀ entry ∈ keywordTypes, '\n' ∉ entry.2.toList := by decide
  simp only [typeRules, List.forall_mem_append, List.forall_mem_map, List.forall_mem_cons]
  exact ⟨fun entry h => isMade_keywordType _ (hwords entry h),
    isMade_enumMember, isMade_ascribedType, isMade_typeReference, isMade_instantiation,
    isMade_instantiation, isMade_instantiation, isMade_angleBrackets, isMade_angleBrackets,
    isMade_typeParameter, isMade_arrayType, isMade_tupleType, isMade_namedTupleMember,
    isMade_optionalType, isMade_restType, isMade_unionType, isMade_intersectionType,
    isMade_conditionalType, isMade_inferType, isMade_functionType, isMade_constructorType,
    isMade_memberBlock _, isMade_propertySignature, isMade_methodSignature, isMade_callSignature,
    isMade_constructSignature, isMade_indexSignature, isMade_mappedType, isMade_typeOperator,
    isMade_indexedAccess, isMade_typeQuery, isMade_literalType, isMade_templateType,
    isMade_parenthesizedType, isMade_importType, isMade_typePredicate, List.forall_mem_nil _⟩

/-- **A rule that is found** is made of the parts of its node, or it is the one for binary
expressions. -/
theorem isMade_of_find {role : Role} {kind : Json} {rule : Rule}
    (h : find role.rules kind = .ok (some rule)) :
    (kind.isOneOf binaryKinds = true ∧ rule = binary) ∨
      IsMade (!kind.isOneOf breakingKinds) rule := by
  obtain ⟨name, rfl, hmem⟩ := mem_of_find h
  cases role with
  | type => exact Or.inr (isMade_typeRules _ hmem)
  | value => exact entryIsMade_valueRules _ hmem
  | bare => exact entryIsMade_valueRules _ hmem

/-- The rule for binary expressions is found for their kinds, and there is no such type. -/
lemma find_of_binaryKinds {role : Role} {kind : Json} (h : kind.isOneOf binaryKinds = true) :
    find role.rules kind = .ok (if role = .type then none else some binary) := by
  cases kind with
  | str name =>
      have hname : name = "BinaryExpression" ∨ name = "LogicalExpression" := by
        simpa [Json.isOneOf, binaryKinds] using h
      rcases hname with rfl | rfl <;> cases role <;> rfl
  | _ => cases h

end Rules

end EstreePrinter
