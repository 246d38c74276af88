import Mathlib
import EstreePrinter.Proofs.Render.Invariant
import EstreePrinter.Proofs.Rules.Type

/-!
# Every rendering keeps every correspondence

The rule for a kind of node is looked up in a table.  All rules of the tables keep a correspondence
(`Rules.owned_of_find`, `Rules.keptBy_of_find`), so by induction on the size of the tree two
renderings correspond (`Render.Correspondence.treeWith`).

The two may differ in what goes with each node beside what its rule does: its `Dressing`.  The
dressing of a print is `Render.dressed`, and with that on both sides an invariant is kept by every
rendering (`Render.Invariant.treeOf`).
-/

namespace EstreePrinter

namespace Render

/-! ## Dressings -/

/-- What goes with a node, given how its rule renders it. -/
abbrev Dressing := Role → Json → Render Unit → Render Unit

/-- Render a tree, where a dressing tells what goes with each node. -/
def treeWith (dress : Dressing) (role : Role) (node : Json) : Render Unit := do
  let kind ← node.kind
  match ← Rules.find role.rules kind with
  | none =>
    let span ← node.span
    Unhandled.throw { kind, span, category := role.category }
  | some rule =>
    dress role node <| rule node
      { value := fun part => treeWith dress .value part.1
        bare := fun part => treeWith dress .bare part.1
        type := fun part => treeWith dress .type part.1
        either := fun part => do
          if ← Rules.isTypeKind (← part.1.requireKind) then treeWith dress .type part.1
          else treeWith dress .value part.1 }
termination_by sizeOf node
decreasing_by all_goals exact part.2.sizeOf_lt

/-- How the parts of a node are rendered. -/
def partsWith (dress : Dressing) (node : Json) : Inner node where
  value part := treeWith dress .value part.1
  bare part := treeWith dress .bare part.1
  type part := treeWith dress .type part.1
  either part := do
    if ← Rules.isTypeKind (← part.1.requireKind) then treeWith dress .type part.1
    else treeWith dress .value part.1

lemma treeWith_eq (dress : Dressing) (role : Role) (node : Json) :
    treeWith dress role node = (do
      let kind ← node.kind
      match ← Rules.find role.rules kind with
      | none =>
        let span ← node.span
        Unhandled.throw { kind, span, category := role.category }
      | some rule => dress role node (rule node (partsWith dress node))) := by
  rw [treeWith]
  rfl

/-- A print dresses its nodes with their comments. -/
lemma treeWith_dressed (role : Role) (node : Json) :
    treeWith dressed role node = tree role node := by
  induction hn : sizeOf node using Nat.strong_induction_on generalizing role node with
  | h n ih =>
      have hpart (role : Role) (part : Json.Part node) :
          treeWith dressed role part.1 = tree role part.1 :=
        ih _ (hn ▸ part.2.sizeOf_lt) role part.1 rfl
      have hparts : partsWith dressed node = partsOf node := by
        simp only [partsWith, partsOf, hpart]
      have htree := treeWith_eq dressed role node
      rw [hparts] at htree
      exact htree.trans (tree_eq role node).symm

end Render

variable {C : Render.Correspondence}

namespace Rules

/-! ## The tables -/

/-- A rule keeps a correspondence on the nodes of a kind, for which it may emit comments itself. -/
def OwnedBy (C : Render.Correspondence) (name : String) (rule : Rule) : Prop :=
  ∀ (node : Json) (inner inner' : Inner node), inner.Matches inner' C →
    node.kind = .ok (.str name) → C.Own node (rule node inner) (rule node inner')

lemma owned_of_keptBy {name : String} {rule : Rule} (h : C.KeptBy rule)
    (hname : name ≠ "SwitchStatement") : OwnedBy C name rule :=
  fun node inner inner' hinner hkind => C.own hinner.applies hkind hname (h node inner inner' hinner)

lemma owned_program : OwnedBy C "Program" program := fun _ _ _ h hkind =>
  C.program h.applies hkind h.bare

lemma owned_switchRule : OwnedBy C "SwitchStatement" switchRule := fun _ _ _ h hkind =>
  C.switch h.applies hkind h.value

/-- A table of rules that all keep a correspondence, without a rule for `switch` statements. -/
lemma owned_of_table {table : List (String × Rule)} (h : ∀ entry ∈ table, C.KeptBy entry.2)
    (hnames : "SwitchStatement" ∉ table.map Prod.fst) :
    ∀ entry ∈ table, OwnedBy C entry.1 entry.2 := fun entry hentry =>
  owned_of_keptBy (h entry hentry) fun hname =>
    hnames (hname ▸ List.mem_map_of_mem hentry)

lemma keptBy_primaryRules : ∀ entry ∈ primaryRules, C.KeptBy entry.2 := by
  simp only [primaryRules, List.forall_mem_cons]
  exact ⟨keptBy_identifier, keptBy_privateIdentifier, keptBy_word _, keptBy_word _, keptBy_literal,
    keptBy_template, keptBy_taggedTemplate, keptBy_transparent, keptBy_metaProperty,
    keptBy_importCall, List.forall_mem_nil _⟩

lemma keptBy_collectionRules : ∀ entry ∈ collectionRules, C.KeptBy entry.2 := by
  simp only [collectionRules, List.forall_mem_cons]
  exact ⟨keptBy_array, keptBy_array, keptBy_object, keptBy_objectPattern, keptBy_property,
    keptBy_defaulted, keptBy_spread, keptBy_spread, List.forall_mem_nil _⟩

lemma keptBy_operatorRules : ∀ entry ∈ operatorRules, C.KeptBy entry.2 := by
  simp only [operatorRules, List.forall_mem_cons]
  exact ⟨keptBy_binary, keptBy_binary, keptBy_unary, keptBy_update, keptBy_assignment,
    keptBy_conditional, keptBy_commaExpression, keptBy_await, keptBy_yield, keptBy_member,
    keptBy_transparent, keptBy_call _, keptBy_call _, List.forall_mem_nil _⟩

lemma owned_statementRules : ∀ entry ∈ statementRules, OwnedBy C entry.1 entry.2 := by
  have hblock : OwnedBy C "BlockStatement" block := owned_of_keptBy keptBy_block (by decide)
  simp only [statementRules, List.forall_mem_cons]
  exact ⟨owned_program, hblock, owned_of_keptBy keptBy_block (by decide),
    owned_of_keptBy keptBy_block (by decide), owned_of_keptBy keptBy_staticBlock (by decide),
    owned_of_keptBy keptBy_empty (by decide), owned_of_keptBy keptBy_expressionStatement (by decide),
    owned_of_keptBy keptBy_debuggerStatement (by decide),
    owned_of_keptBy (keptBy_jump _) (by decide), owned_of_keptBy (keptBy_jump _) (by decide),
    owned_of_keptBy keptBy_labeled (by decide), owned_of_keptBy (keptBy_leave _) (by decide),
    owned_of_keptBy (keptBy_leave _) (by decide),
    owned_of_keptBy keptBy_variableDeclaration (by decide),
    owned_of_keptBy keptBy_declarator (by decide), owned_of_keptBy keptBy_ifRule (by decide),
    owned_of_keptBy keptBy_forRule (by decide), owned_of_keptBy (keptBy_forEach _) (by decide),
    owned_of_keptBy (keptBy_forEach _) (by decide),
    owned_of_keptBy (keptBy_headed _ _ (by decide)) (by decide),
    owned_of_keptBy keptBy_doWhile (by decide),
    owned_of_keptBy (keptBy_headed _ _ (by decide)) (by decide),
    owned_of_keptBy keptBy_tryRule (by decide), owned_switchRule, List.forall_mem_nil _⟩

lemma keptBy_functionRules : ∀ entry ∈ functionRules, C.KeptBy entry.2 := by
  simp only [functionRules, List.forall_mem_cons]
  exact ⟨keptBy_function, keptBy_function, keptBy_function, keptBy_arrow, keptBy_decorator,
    keptBy_classRule, keptBy_classRule, keptBy_classMethod, keptBy_classMethod,
    keptBy_classProperty _, keptBy_classProperty _, keptBy_classProperty _,
    keptBy_parameterProperty, List.forall_mem_nil _⟩

lemma keptBy_exchangeRules : ∀ entry ∈ exchangeRules, C.KeptBy entry.2 := by
  simp only [exchangeRules, List.forall_mem_cons]
  exact ⟨keptBy_importAttribute, keptBy_importRule, keptBy_exportNamed, keptBy_exportDefault,
    keptBy_exportAll, List.forall_mem_nil _⟩

lemma keptBy_typedRules : ∀ entry ∈ typedRules, C.KeptBy entry.2 := by
  simp only [typedRules, List.forall_mem_cons]
  exact ⟨keptBy_typedExpression _ _, keptBy_typedExpression _ _, keptBy_nonNull,
    keptBy_typeAssertion, keptBy_instantiation, keptBy_qualifiedName, keptBy_typeAlias,
    keptBy_interface, keptBy_memberBlock _, keptBy_enumeration, keptBy_enumMember,
    keptBy_namespaceRule, keptBy_classIndexSignature, List.forall_mem_nil _⟩

lemma owned_valueRules : ∀ entry ∈ valueRules, OwnedBy C entry.1 entry.2 := by
  simp only [valueRules, List.forall_mem_append]
  exact ⟨⟨⟨⟨⟨⟨owned_of_table keptBy_primaryRules (by decide),
    owned_of_table keptBy_collectionRules (by decide)⟩,
    owned_of_table keptBy_operatorRules (by decide)⟩, owned_statementRules⟩,
    owned_of_table keptBy_functionRules (by decide)⟩,
    owned_of_table keptBy_exchangeRules (by decide)⟩,
    owned_of_table keptBy_typedRules (by decide)⟩

lemma keptBy_typeRules : ∀ entry ∈ typeRules, C.KeptBy entry.2 := by
  simp only [typeRules, List.forall_mem_append, List.forall_mem_map, List.forall_mem_cons]
  exact ⟨fun entry _ => keptBy_keywordType _,
    keptBy_enumMember, keptBy_ascribedType, keptBy_typeReference, keptBy_instantiation,
    keptBy_instantiation, keptBy_instantiation, keptBy_angleBrackets, keptBy_angleBrackets,
    keptBy_typeParameter, keptBy_arrayType, keptBy_tupleType, keptBy_namedTupleMember,
    keptBy_optionalType, keptBy_restType, keptBy_unionType, keptBy_intersectionType,
    keptBy_conditionalType, keptBy_inferType, keptBy_functionType, keptBy_constructorType,
    keptBy_memberBlock _, keptBy_propertySignature, keptBy_methodSignature, keptBy_callSignature,
    keptBy_constructSignature, keptBy_indexSignature, keptBy_mappedType, keptBy_typeOperator,
    keptBy_indexedAccess, keptBy_typeQuery, keptBy_literalType, keptBy_templateType,
    keptBy_parenthesizedType, keptBy_importType, keptBy_typePredicate, List.forall_mem_nil _⟩

/-- A rule is found under the name of a kind. -/
lemma lookup_of_find {table : List (String × Rule)} {kind : Json} {rule : Rule}
    (h : find table kind = .ok (some rule)) :
    ∃ name, kind = .str name ∧ table.lookup name = some rule := by
  unfold find at h
  split at h
  · cases h
  · obtain ⟨key, hkey, h⟩ := bind_eq_ok_iff.mp h
    have hself : kind = key := by cases kind <;> first | exact Except.ok.inj hkey | cases hkey
    subst hself
    cases kind with
    | str name => exact ⟨name, rfl, Except.ok.inj h⟩
    | _ => cases h

/-- A rule that is found stands in the table. -/
lemma mem_of_find {table : List (String × Rule)} {kind : Json} {rule : Rule}
    (h : find table kind = .ok (some rule)) : ∃ name, kind = .str name ∧ (name, rule) ∈ table := by
  obtain ⟨name, hkind, hlookup⟩ := lookup_of_find h
  obtain ⟨before, behind, happend, -⟩ := List.lookup_eq_some_iff.mp hlookup
  exact ⟨name, hkind, by simp [happend]⟩

lemma owned_of_find {node kind : Json} {rule : Rule} {inner inner' : Inner node}
    (hkind : node.kind = .ok kind) (h : find valueRules kind = .ok (some rule))
    (hinner : inner.Matches inner' C) : C.Own node (rule node inner) (rule node inner') := by
  obtain ⟨name, rfl, hmem⟩ := mem_of_find h
  exact owned_valueRules _ hmem node inner inner' hinner hkind

lemma keptBy_of_find {kind : Json} {rule : Rule} (h : find typeRules kind = .ok (some rule)) :
    C.KeptBy rule := by
  obtain ⟨name, -, hmem⟩ := mem_of_find h
  exact keptBy_typeRules _ hmem

end Rules

/-! ## Trees -/

/-- A report on a node without a rule is never a success. -/
lemma Unhandled.throw_ne_ok {α : Type} (u : Unhandled) (a : α) : u.throw ≠ .ok a := by
  intro h
  obtain ⟨_, -, h⟩ := bind_eq_ok_iff.mp h
  cases h

namespace Render

/-- **Two dressings correspond** if they make corresponding renderings of a node out of
corresponding runs of its rule. -/
structure Correspondence.Dresses (C : Correspondence) (dress dress' : Dressing) : Prop where
  value : ∀ {node : Json} {x y : Render Unit}, C.Applies node → node.isObject = true →
    C.Own node x y → C.Related node.nodes (dress .value node x) (dress' .value node y)
  bare : ∀ {node : Json} {x y : Render Unit}, C.Applies node → node.isObject = true →
    C.Own node x y → C.Bare node (dress .bare node x) (dress' .bare node y)
  type : ∀ {node : Json} {x y : Render Unit}, C.Applies node → node.isObject = true →
    C.Related node.within x y → C.Related node.nodes (dress .type node x) (dress' .type node y)

/-- What two renderings of a node have in common, by the role it is rendered in. -/
def Correspondence.Rendered (C : Correspondence) (role : Role) (node : Json) (x y : Render Unit) :
    Prop :=
  match role with
  | .bare => C.Bare node x y
  | _ => C.Related node.nodes x y

lemma Correspondence.renderedRead (C : Correspondence) {α : Type} {role : Role} {node : Json}
    {x : Except Fault α} {f g : α → Render Unit}
    (hf : ∀ a, x = .ok a → C.Rendered role node (f a) (g a)) :
    C.Rendered role node ((liftM x : Render α) >>= f) ((liftM x : Render α) >>= g) := by
  cases role with
  | bare => exact C.bareRead hf
  | value => exact C.reading hf
  | type => exact C.reading hf

lemma isObject_of_kind {node kind : Json} (h : node.kind = .ok kind) : node.isObject = true := by
  obtain ⟨found, hfound, -⟩ := EstreePrinter.bind_eq_ok_iff.mp h
  unfold Json.get at hfound
  split at hfound
  · assumption
  · cases hfound

/-- **Two renderings of a tree correspond** if what goes with each node does. -/
theorem Correspondence.treeWith (C : Correspondence) {dress dress' : Dressing}
    (hdress : C.Dresses dress dress') (role : Role) {node : Json} (happlies : C.Applies node) :
    C.Rendered role node (Render.treeWith dress role node) (Render.treeWith dress' role node) := by
  induction hn : sizeOf node using Nat.strong_induction_on generalizing role node with
  | h n ih =>
      rw [treeWith_eq, treeWith_eq]
      have hpart (role : Role) (part : Json.Part node) :=
        ih _ (hn ▸ part.2.sizeOf_lt) role (C.applies_inside happlies part.2) rfl
      have hparts : (partsWith dress node).Matches (partsWith dress' node) C :=
        { applies := happlies
          value := hpart .value
          bare := hpart .bare
          type := hpart .type
          either := fun part => C.skip fun _ => C.skip fun _ =>
            C.ite (hpart .type part) (hpart .value part) }
      refine C.renderedRead fun kind hkind => C.renderedRead fun rule hrule => ?_
      have hobject := isObject_of_kind hkind
      cases rule with
      | none =>
          refine C.renderedRead fun span _ => ?_
          -- a report ends the rendering, so there is nothing left to correspond
          rw [← bind_pure (liftM _ : Render Unit)]
          exact C.renderedRead fun a ha => absurd ha (Unhandled.throw_ne_ok _ a)
      | some rule =>
          cases role with
          | value => exact hdress.value happlies hobject (Rules.owned_of_find hkind hrule hparts)
          | bare => exact hdress.bare happlies hobject (Rules.owned_of_find hkind hrule hparts)
          | type =>
              exact hdress.type happlies hobject (Rules.keptBy_of_find hrule node _ _ hparts)

namespace Invariant

lemma dressed (R : Render.Invariant) (role : Role) (node : Json) {x : Render Unit}
    (hx : R.Holds x) : R.Holds (Render.dressed role node x) := by
  cases role with
  | value =>
      exact R.reading _ fun _ => R.andThen (R.leadingComments _ _ _)
        (R.andThen hx (R.queueTrailing _))
  | bare => exact R.andThen hx (R.queueTrailing _)
  | type => exact hx

/-- **Every rendering keeps every invariant** that is about its tree. -/
theorem treeOf (R : Render.Invariant) (role : Role) {node : Json} (happlies : R.Applies node) :
    R.Holds (Render.tree role node) := by
  have hdress : R.correspondence.Dresses Render.dressed Render.dressed :=
    { value := fun _ _ hx => R.dressed .value _ hx
      bare := fun _ _ hx => R.dressed .bare _ hx
      type := fun _ _ hx => R.dressed .type _ hx }
  have h := R.correspondence.treeWith hdress role happlies
  rw [treeWith_dressed] at h
  cases role with
  | _ => exact h

/-- The same for an invariant of all trees. -/
theorem tree (R : Render.Invariant) [R.IsGlobal] (role : Role) (node : Json) :
    R.Holds (Render.tree role node) :=
  R.treeOf role (IsGlobal.applies node)

end Invariant

end Render

end EstreePrinter
