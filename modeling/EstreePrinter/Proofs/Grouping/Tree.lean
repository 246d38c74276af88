import Mathlib
import EstreePrinter.Proofs.Grouping.Statement
import EstreePrinter.Proofs.Grouping.Type
import EstreePrinter.Proofs.Printer.Total

/-!
# Grouping is derived again

All rules of the tables look through parentheses (`Rules.blind_of_find`), so by induction on the
tree with more parentheses, two trees that are the same up to parentheses are rendered alike
(`Render.follows_tree`).  Hence **`print_regrouped`**: the parentheses around the expressions of a
tree change nothing about its print, neither the code nor the map.
-/

namespace EstreePrinter

open Json (Part Alike Loose Regroups)

namespace Rules

/-! ## The tables -/

lemma blind_primaryRules : ∀ entry ∈ primaryRules, Blind entry.1 entry.2 := by
  simp only [primaryRules, List.forall_mem_cons]
  exact ⟨blind_identifier, blind_privateIdentifier, blind_word _, blind_word _, blind_literal,
    blind_template, blind_taggedTemplate, blind_transparent, blind_metaProperty, blind_importCall,
    List.forall_mem_nil _⟩

lemma blind_collectionRules : ∀ entry ∈ collectionRules, Blind entry.1 entry.2 := by
  simp only [collectionRules, List.forall_mem_cons]
  exact ⟨blind_array, blind_array, blind_object, blind_objectPattern, blind_property,
    blind_defaulted, blind_spread, blind_spread, List.forall_mem_nil _⟩

lemma blind_operatorRules : ∀ entry ∈ operatorRules, Blind entry.1 entry.2 := by
  simp only [operatorRules, List.forall_mem_cons]
  exact ⟨blind_binary, blind_binary, blind_unary, blind_update, blind_assignment,
    blind_conditional, blind_commaExpression, blind_await, blind_yield, blind_member,
    blind_transparent, blind_call _, blind_call _, List.forall_mem_nil _⟩

lemma blind_statementRules : ∀ entry ∈ statementRules, Blind entry.1 entry.2 := by
  simp only [statementRules, List.forall_mem_cons]
  exact ⟨blind_program, blind_block (by decide), blind_block (by decide), blind_block (by decide),
    blind_staticBlock, blind_empty, blind_expressionStatement, blind_debuggerStatement,
    blind_jump _, blind_jump _, blind_labeled, blind_leave _, blind_leave _,
    blind_variableDeclaration, blind_declarator, blind_ifRule, blind_forRule, blind_forEach _,
    blind_forEach _, blind_headed _ _, blind_doWhile, blind_headed _ _, blind_tryRule,
    blind_switchRule, List.forall_mem_nil _⟩

lemma blind_functionRules : ∀ entry ∈ functionRules, Blind entry.1 entry.2 := by
  simp only [functionRules, List.forall_mem_cons]
  exact ⟨blind_function, blind_function, blind_function, blind_arrow, blind_decorator,
    blind_classRule, blind_classRule, blind_classMethod (by decide), blind_classMethod (by decide),
    blind_classProperty _, blind_classProperty _, blind_classProperty _, blind_parameterProperty,
    List.forall_mem_nil _⟩

lemma blind_exchangeRules : ∀ entry ∈ exchangeRules, Blind entry.1 entry.2 := by
  simp only [exchangeRules, List.forall_mem_cons]
  exact ⟨blind_importAttribute, blind_importRule, blind_exportNamed, blind_exportDefault,
    blind_exportAll, List.forall_mem_nil _⟩

lemma blind_typedRules : ∀ entry ∈ typedRules, Blind entry.1 entry.2 := by
  simp only [typedRules, List.forall_mem_cons]
  exact ⟨blind_typedExpression _ _, blind_typedExpression _ _, blind_nonNull, blind_typeAssertion,
    blind_instantiation, blind_qualifiedName, blind_typeAlias, blind_interface,
    blind_memberBlock (by decide), blind_enumeration, blind_enumMember, blind_namespaceRule,
    blind_classIndexSignature, List.forall_mem_nil _⟩

lemma blind_valueRules : ∀ entry ∈ valueRules, Blind entry.1 entry.2 := by
  simp only [valueRules, List.forall_mem_append]
  exact ⟨⟨⟨⟨⟨⟨blind_primaryRules, blind_collectionRules⟩, blind_operatorRules⟩,
    blind_statementRules⟩, blind_functionRules⟩, blind_exchangeRules⟩, blind_typedRules⟩

lemma blind_typeRules : ∀ entry ∈ typeRules, Blind entry.1 entry.2 := by
  simp only [typeRules, List.forall_mem_append, List.forall_mem_map, List.forall_mem_cons]
  exact ⟨fun entry _ => blind_keywordType _,
    blind_enumMember, blind_ascribedType, blind_typeReference, blind_instantiation,
    blind_instantiation, blind_instantiation, blind_angleBrackets, blind_angleBrackets,
    blind_typeParameter, blind_arrayType, blind_tupleType, blind_namedTupleMember,
    blind_optionalType, blind_restType, blind_unionType, blind_intersectionType,
    blind_conditionalType, blind_inferType, blind_functionType, blind_constructorType,
    blind_memberBlock (by decide), blind_propertySignature, blind_methodSignature,
    blind_callSignature, blind_constructSignature, blind_indexSignature, blind_mappedType,
    blind_typeOperator, blind_indexedAccess, blind_typeQuery, blind_literalType,
    blind_templateType, blind_parenthesizedType, blind_importType, blind_typePredicate,
    List.forall_mem_nil _⟩

lemma blind_of_find {role : Role} {kind : Json} {rule : Rule}
    (h : find role.rules kind = .ok (some rule)) : ∃ name, kind = .str name ∧ Blind name rule := by
  obtain ⟨name, hkind, hmem⟩ := mem_of_find h
  refine ⟨name, hkind, ?_⟩
  cases role with
  | value => exact blind_valueRules _ hmem
  | bare => exact blind_valueRules _ hmem
  | type => exact blind_typeRules _ hmem

end Rules

/-! ## Trees -/

namespace Render

variable {node node' : Json} {place : Place}

/-- Comments belong to nodes, and are the same on both sides. -/
lemma follows_dressed (h : Alike node node') (role : Role) {x y : Render Unit}
    (hxy : Follows Eq x y) : Follows Eq (dressed role node x) (dressed role node' y) := by
  have hbehind : Follows Eq (queueTrailing node) (queueTrailing node') := by
    refine .reading (h.fixed (by decide)).given fun _ _ hlist => ?_
    cases hlist with
    | none => exact .refl _
    | @some list list' hlist =>
        have hsame : list.1 = list'.1 := hlist
        simp only [hsame]
        exact .refl _
  cases role with
  | value =>
      refine .readingSame (h.fixed (by decide)).comments fun notes => .andThen ?_ ?_
      · have hleading := follows_leading (h.fixed (by decide)) h.loose.isNull
        exact .readingSame (hleading _ _) fun _ => .refl _
      · exact hxy.andThen hbehind
  | bare => exact hxy.andThen hbehind
  | type => exact hxy

/-- Parentheses in the tree write nothing. -/
lemma tree_of_parenthesizes {inside : Json} (h : node.Parenthesizes inside) :
    tree .value node = tree .value inside := by
  obtain ⟨part, hpart, rfl⟩ := h.inside
  rw [tree_of_isPlain "ParenthesizedExpression" h.plain h.kind rfl]
  exact read_bind hpart _

lemma isObject_of_tree {role : Role} {s : Setting} {q : List Json} {e : Emission Unit}
    (h : tree role node s q = .ok e) : node.isObject = true := by
  rw [tree_eq] at h
  obtain ⟨_, hkind, -⟩ := read_bind_eq_ok_iff.mp h
  exact isObject_of_kind hkind

lemma regrouped_parts
    (hvalue : ∀ {v w : Json}, w.Inside node' → Loose v w → Follows Eq (tree .value v) (tree .value w))
    (hrole : ∀ {v w : Json} (role : Role), w.Inside node' → Alike v w →
      Follows Eq (tree role v) (tree role w)) :
    (partsOf node).Regrouped (partsOf node') where
  value {_ part'} hrel := hvalue part'.2 hrel
  bare {_ part'} hrel := hrole .bare part'.2 hrel
  type {_ part'} hrel := hrole .type part'.2 hrel
  either {_ part'} hrel := .readingSame (Alike.type hrel).requireKind fun _ =>
    .readingSame (.refl _) fun _ => .ite (hrole .type part'.2 hrel) (hrole .value part'.2 hrel)
  isObject hrun := isObject_of_tree hrun

/-- **Two trees that are the same up to parentheses are rendered alike.**  Only what is rendered
with its comments may be put in parentheses itself. -/
theorem follows_tree {v w : Json} (role : Role) (h : Regroups place v w)
    (hrole : role = .value ∨ place = .part) : Follows Eq (tree role v) (tree role w) := by
  -- by induction on the tree with more parentheses
  induction hn : sizeOf w using Nat.strong_induction_on generalizing v w role place with
  | h n ih =>
  subst hn
  cases h with
  | same => exact .refl _
  | wrap _ _ hu hw =>
      obtain rfl : role = .value := hrole.resolve_right (by decide)
      rw [tree_of_parenthesizes hw]
      exact ih _ hw.sizeOf_lt .value hu (.inl rfl) rfl
  | parts => exact fun _ _ _ hrun => absurd (isObject_of_tree hrun) Bool.false_ne_true
  | expressions => exact fun _ _ _ hrun => absurd (isObject_of_tree hrun) Bool.false_ne_true
  | @node _ fields fields' _ hfields =>
      have halike : Alike (.obj fields) (.obj fields') := .node (by decide) hfields
      have hparts : (partsOf (.obj fields)).Regrouped (partsOf (.obj fields')) :=
        regrouped_parts (fun hin hrel => ih _ hin.sizeOf_lt .value hrel.choose_spec (.inl rfl) rfl)
          fun role hin hrel => ih _ hin.sizeOf_lt role hrel (.inr rfl) rfl
      rw [tree_eq, tree_eq]
      refine .readingKnowing halike.type.kind fun kind _ hkind hsame => ?_
      subst hsame
      refine .readingKnowing (.refl _) fun found found' hfound hsame => ?_
      subst hsame
      cases found with
      | none =>
          intro s q e he
          obtain ⟨_, -, hthrow⟩ := read_bind_eq_ok_iff.mp he
          obtain ⟨_, hthrow, -⟩ := read_eq_ok_iff.mp hthrow
          exact absurd hthrow (Unhandled.throw_ne_ok _ _)
      | some rule =>
          obtain ⟨name, rfl, hblind⟩ := Rules.blind_of_find hfound
          exact follows_dressed halike role (hblind hkind halike hparts)

end Render

/-! ## Prints -/

variable {place : Place} {tree tree' : Json}

lemma asProgram_of_isObject (h : tree.isObject = true) : asProgram tree = .ok tree := by
  cases tree with
  | obj fields => rfl
  | _ => cases h

/-- The roots of two trees that are the same up to parentheses are so as well. -/
lemma follows_asProgram (h : Regroups place tree tree') (hplace : place ≠ .expressions) :
    Json.Follows Loose (asProgram tree) (asProgram tree') := by
  cases h with
  | same => exact (Json.Follows.refl _).mono fun _ _ hrel => hrel ▸ .refl _
  | wrap hv hplain hu hw =>
      obtain ⟨_, _, hname⟩ := Json.exists_kindName? hv
      rw [asProgram_of_isObject (Json.isObject_of_kindName? hname),
        asProgram_of_isObject (Json.isObject_of_kindName? (Json.kindName?_of_kind hw.kind))]
      exact .pure ⟨_, .wrap hv hplain hu hw⟩
  | @parts vs ws h =>
      -- a list of statements becomes the body of a program
      have hbody : (programOf vs).place "body" = .part := by
        rw [Json.place_eq (show (programOf vs).kind = .ok (.str "Program") from rfl)]
        exact (by decide : ∀ isComputed, Grouping.placeIn isComputed "Program" "body" = .part) _
      refine .pure (Alike.loose (.node (by decide) (.cons (.same _ _) (.cons ?_ (.cons (.same _ _)
        (.nil _))))))
      exact hbody ▸ .parts h
  | expressions => exact absurd rfl hplace
  | node hfixed h => exact .pure ⟨_, .node hfixed h⟩

lemma follows_renderWhole (h : Loose tree tree') :
    Render.Follows Eq (renderWhole tree) (renderWhole tree') :=
  (Render.follows_tree .value h.choose_spec (.inl rfl)).andThen (.refl _)

/-- **Grouping is derived again.**  If a tree can be printed under some options, a tree that puts
some of its expressions in parentheses, any number around each, is printed under them as well: with
the same code, the same map, and the same marks behind the map.  An expression that is the whole
tree may be put in parentheses, too. -/
theorem print_regrouped (options : Options) (h : Regroups place tree tree')
    (hplace : place ≠ .expressions) (out : Output) (hprint : printTree options tree = .ok out) :
    printTree options tree' = .ok out ∧ writeTree options tree' = writeTree options tree := by
  obtain ⟨marks, hwrite, hmap⟩ := printTree_eq_ok_iff.mp hprint
  obtain ⟨root, hroot, hrest⟩ := bind_eq_ok_iff.mp hwrite
  obtain ⟨commands, hcommands, hlinear⟩ := bind_eq_ok_iff.mp hrest
  obtain ⟨root', hroot', hrel⟩ := follows_asProgram h hplace root (ofFault_eq_ok_iff.mp hroot)
  obtain ⟨e, he, rfl⟩ := exists_render_of_commandsOf hcommands
  have hcommands' := commandsOf_of_render ((follows_renderWhole hrel).run he)
  have hwrite' : writeTree options tree' = .ok (out.code, marks) :=
    bind_eq_ok_iff.mpr ⟨root', ofFault_eq_ok_iff.mpr hroot',
      bind_eq_ok_iff.mpr ⟨e.commands, hcommands', hlinear⟩⟩
  exact ⟨printTree_eq_ok_iff.mpr ⟨marks, hwrite', hmap⟩, hwrite'.trans hwrite.symm⟩

/-- An object that is made by what a call gives, from a number with two signs, with `group` around
the callee, the argument and what is below the outer sign. -/
def groupedCreation (group : Json → Json) : Json :=
  let node (kind : String) (fields : List (String × Json)) : Json :=
    .obj (("type", .str kind) :: fields)
  let name (s : String) : Json := node "Identifier" [("name", .str s)]
  let sign (argument : Json) : Json :=
    node "UnaryExpression" [("operator", .str "-"), ("prefix", .bool true), ("argument", argument)]
  .arr [node "ExpressionStatement" [("expression", node "NewExpression"
    [("callee", group (node "CallExpression" [("callee", name "f"), ("arguments", .arr [])])),
      ("arguments", .arr [group (sign (group (sign (name "a"))))])])]]

/-- Two pairs of parentheses. -/
def inParentheses (v : Json) : Json :=
  let parens (v : Json) : Json := .obj [("type", .str "ParenthesizedExpression"), ("expression", v)]
  parens (parens v)

lemma regroups_inParentheses {v u : Json} (hkind : v.isExpression = true) (hplain : v.IsPlain)
    (h : Regroups .expression v u) : Regroups .expression v (inParentheses u) :=
  have hparens (inside : Json) : Json.Parenthesizes
      (.obj [("type", .str "ParenthesizedExpression"), ("expression", inside)]) inside :=
    ⟨rfl, ⟨_, rfl, rfl⟩, rfl, rfl⟩
  .wrap hkind hplain (.wrap hkind hplain h (hparens _)) (hparens _)

theorem print_regrouped_creation :
    ∃ out, printTree {} (groupedCreation id) = .ok out ∧
      Regroups .part (groupedCreation id) (groupedCreation inParentheses) ∧
      printTree {} (groupedCreation inParentheses) = .ok out ∧
      writeTree {} (groupedCreation inParentheses) = writeTree {} (groupedCreation id) := by
  have hestree : (groupedCreation id).isEstree = true := by decide
  obtain ⟨out, hout⟩ := exists_print {} hestree
  have hregroups : Regroups .part (groupedCreation id) (groupedCreation inParentheses) := by
    have hsign {v u : Json} (h : Regroups .expression v u) : Regroups .expression
        (.obj [("type", .str "UnaryExpression"), ("operator", .str "-"), ("prefix", .bool true),
          ("argument", v)])
        (inParentheses (.obj [("type", .str "UnaryExpression"), ("operator", .str "-"),
          ("prefix", .bool true), ("argument", u)])) :=
      regroups_inParentheses rfl ⟨rfl, rfl⟩ <| .node (by decide) <| .cons (.same _ _) <|
        .cons (.same _ _) <| .cons (.same _ _) <| .cons h (.nil _)
    exact .parts <| .cons (.node (by decide) <| .cons (.same _ _) <|
      .cons (.node (by decide) <| .cons (.same _ _) <|
        .cons (regroups_inParentheses rfl ⟨rfl, rfl⟩ (.same _ _)) <|
        .cons (.expressions (.cons (hsign (hsign (.same _ _))) (.nil _))) (.nil _)) (.nil _)) (.nil _)
  exact ⟨out, hout, hregroups, print_regrouped {} hregroups (by decide) out hout⟩

end EstreePrinter
