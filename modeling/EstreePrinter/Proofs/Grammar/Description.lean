import Mathlib
import EstreePrinter.Proofs.Estree.Ends
import EstreePrinter.Proofs.Render.Plain
import EstreePrinter.Proofs.Grammar.Strength

/-!
# Trees of expressions

Which trees describe an expression (`DescribesAmid`): nodes of the kinds that the grammar of
expressions covers, with the fields that such nodes have.  Nodes that stand for parentheses may be
anywhere; they describe what is inside of them.  Comments may be attached to any node; which ones
these are is said by a property, and `Describes` allows none.

On such trees every question about binding strengths has an answer, and the answers are right: what
is left without parentheses stands at the level that the grammar asks for.

* `unwrap_of_describes` — the node inside of the parentheses;
* `bindsLooser_of_describes`, `wrapsAsHead_of_describes`, `wrapsAsTest_of_describes` — answers that
  are read off the strength;
* **`needsParens_of_describes`** — the operands of binary and logical operations;
* `startsWith_of_describes` — no such expression begins with a brace.
-/

namespace EstreePrinter

namespace Json

/-- A node has a field with a value. -/
def Has (node : Json) (key : String) (value : Json) : Prop :=
  ∃ h, node.require key = .ok ⟨value, h⟩

/-- **A node of a kind**, at which all comments are known. -/
structure IsNodeAmid (known : Json → Prop) (node : Json) (kind : String) : Prop where
  kind_eq : node.kind = .ok (.str kind)
  /-- A comment before the node is followed by a line feed if the places say so. -/
  leading : ∃ comments, node.comments "leadingComments" = .ok comments ∧
    (∀ c ∈ comments, known c) ∧ (comments ≠ [] → node.HasPlace)
  /-- Only the first comment behind a node is ever attached. -/
  trailing : node.given "trailingComments" = .ok none ∨ ∃ list first,
    node.given "trailingComments" = .ok (some list) ∧ list.1.first = .ok first ∧ known first

/-- A node of a kind, without comments. -/
abbrev IsNode (node : Json) (kind : String) : Prop := IsNodeAmid NoComment node kind

/-- A node that stands at no place in the source, or at one that is given with numbers. -/
def IsPlaced (node : Json) : Prop :=
  ∃ span, node.span = .ok span ∧ ∀ s, (Command.chunk s span).IsWritable

/-- A name in a tree, without a type or a mark that it is optional. -/
structure IsIdentifierAmid (known : Json → Prop) (node : Json) (s : String) : Prop
    extends IsNodeAmid known node "Identifier" where
  name : node.Has "name" (.str s)
  optional : node.flag "optional" = .ok false
  annotation : node.given "typeAnnotation" = .ok none
  /-- If the node tells where it stands, it does so with numbers. -/
  span : ∃ span, node.span = .ok span ∧ (Command.chunk s span).IsWritable

/-- A name without comments. -/
abbrev IsIdentifier (node : Json) (s : String) : Prop := IsIdentifierAmid NoComment node s

variable {known : Json → Prop}

lemma Has.sizeOf_lt {node value : Json} {key : String} (h : node.Has key value) :
    sizeOf value < sizeOf node := h.1.sizeOf_lt

/-- A node with a kind has one when it has to have one. -/
lemma requireKind_of_kind {node : Json} {kind : String} (hkind : node.kind = .ok (.str kind)) :
    node.requireKind = .ok (.str kind) := by
  unfold Json.kind getValue get at hkind
  unfold requireKind require
  by_cases hobject : node.isObject = true
  · rw [if_pos hobject, ok_bind] at hkind
    rw [if_pos hobject]
    cases hfield : node.field? "type" with
    | none => simp [hfield] at hkind
    | some part => simpa [hfield] using hkind
  · rw [if_neg hobject] at hkind
    simp at hkind

lemma ne_null_of_kind {node : Json} {kind : String} (hkind : node.kind = .ok (.str kind)) :
    node.isNull = false := by
  cases node with
  | null => exact absurd hkind (by simp [Json.kind, getValue, get, isObject])
  | _ => rfl

namespace IsNodeAmid

variable {node : Json} {kind : String}

lemma requireKind_eq (h : IsNodeAmid known node kind) : node.requireKind = .ok (.str kind) :=
  requireKind_of_kind h.kind_eq

lemma ne_null (h : IsNodeAmid known node kind) : node.isNull = false := ne_null_of_kind h.kind_eq

/-- A node without comments. -/
lemma ofPlain (hplain : node.IsPlain) (hkind : node.kind = .ok (.str kind)) :
    IsNodeAmid known node kind :=
  ⟨hkind, ⟨[], hplain.leading, by simp, by simp⟩, Or.inl hplain.trailing⟩

/-- Where no comment is known there are none. -/
lemma toIsPlain (h : IsNodeAmid NoComment node kind) : node.IsPlain := by
  obtain ⟨comments, hcomments, hnone, -⟩ := h.leading
  obtain rfl : comments = [] := List.eq_nil_iff_forall_not_mem.mpr hnone
  refine ⟨hcomments, h.trailing.resolve_right ?_⟩
  rintro ⟨list, first, -, -, hfirst⟩
  exact hfirst

end IsNodeAmid

/-- A field that is there and not null. -/
lemma Has.present_eq {node value : Json} {key : String} (h : node.Has key value)
    (hvalue : value.isNull = false) :
    ∃ hinside, node.present key = .ok (some ⟨value, hinside⟩) := by
  obtain ⟨hinside, hread⟩ := h
  refine ⟨hinside, ?_⟩
  unfold require at hread
  unfold present get
  split at hread
  · rename_i hobject
    rw [if_pos hobject, ok_bind]
    split at hread
    · rename_i part hfield
      obtain rfl : part = ⟨value, hinside⟩ := Except.ok.inj hread
      simp [hfield, hvalue]
    · simp at hread
  · simp at hread

end Json

namespace Grammar

open Json (Part)

/-! ## Which trees describe an expression -/

section Trees

variable (known : Json → Prop)

/-- A tree that gives the name of a member. -/
inductive NamesMemberAmid : Json → String → Prop
  | name {node : Json} {p : String} (h : node.IsIdentifierAmid known p) (hp : IsWord p) :
      NamesMemberAmid node p
  | parens {node inner : Json} {p : String}
      (hnode : node.IsNodeAmid known "ParenthesizedExpression")
      (hinner : node.Has "expression" inner) (h : NamesMemberAmid inner p) : NamesMemberAmid node p

/-- The node of a binary or logical operation. -/
structure IsOperationAmid (family : Family) (node : Json) (op : String) (left right : Json) : Prop
    extends node.IsNodeAmid known family.kind where
  operator : node.Has "operator" (.str op)
  isOperator : op ∈ family.operators
  left : node.Has "left" left
  right : node.Has "right" right

/-- **Which trees describe an expression.** -/
inductive DescribesAmid : Json → Expr → Prop
  | parens {node inner : Json} {e : Expr} (hnode : node.IsNodeAmid known "ParenthesizedExpression")
      (hinner : node.Has "expression" inner) (h : DescribesAmid inner e) : DescribesAmid node e
  | name {node : Json} {s : String} (h : node.IsIdentifierAmid known s) (hs : IsName s) :
      DescribesAmid node (.name s)
  | binary {node left right : Json} {op : String} {e f : Expr}
      (h : IsOperationAmid known .binary node op left right) (hleft : DescribesAmid left e)
      (hright : DescribesAmid right f) : DescribesAmid node (.binary op e f)
  | logical {node left right : Json} {op : String} {e f : Expr}
      (h : IsOperationAmid known .logical node op left right) (hleft : DescribesAmid left e)
      (hright : DescribesAmid right f) : DescribesAmid node (.logical op e f)
  | unary {node argument : Json} {op : String} {e : Expr}
      (hnode : node.IsNodeAmid known "UnaryExpression")
      (hop : node.Has "operator" (.str op)) (hmem : op ∈ unaryOperators)
      (hbefore : node.flagUnlessAbsent "prefix" = .ok true)
      (hargument : node.Has "argument" argument) (h : DescribesAmid argument e) :
      DescribesAmid node (.unary op e)
  | update {node argument : Json} {op : String} {isBefore : Bool} {e : Expr}
      (hnode : node.IsNodeAmid known "UpdateExpression") (hop : node.Has "operator" (.str op))
      (hmem : op ∈ updateOperators) (hbefore : node.flag "prefix" = .ok isBefore)
      (hargument : node.Has "argument" argument) (h : DescribesAmid argument e)
      (htarget : e.IsTarget) : DescribesAmid node (.update op isBefore e)
  | await {node argument : Json} {e : Expr} (hnode : node.IsNodeAmid known "AwaitExpression")
      (hargument : node.Has "argument" argument) (h : DescribesAmid argument e) :
      DescribesAmid node (.await e)
  | yieldNothing {node : Json} (hnode : node.IsNodeAmid known "YieldExpression")
      (hdelegate : node.flag "delegate" = .ok false)
      (hargument : node.present "argument" = .ok none) : DescribesAmid node (.yield none)
  | yield {node argument : Json} {e : Expr} (hnode : node.IsNodeAmid known "YieldExpression")
      (hdelegate : node.flag "delegate" = .ok false) (hargument : node.Has "argument" argument)
      (h : DescribesAmid argument e) : DescribesAmid node (.yield (some e))
  | yieldAll {node argument : Json} {e : Expr} (hnode : node.IsNodeAmid known "YieldExpression")
      (hdelegate : node.flag "delegate" = .ok true) (hargument : node.Has "argument" argument)
      (h : DescribesAmid argument e) : DescribesAmid node (.yieldAll e)
  | conditional {node test yes no : Json} {e f g : Expr}
      (hnode : node.IsNodeAmid known "ConditionalExpression") (htest : node.Has "test" test)
      (hyes : node.Has "consequent" yes) (hno : node.Has "alternate" no) (h : DescribesAmid test e)
      (hf : DescribesAmid yes f) (hg : DescribesAmid no g) : DescribesAmid node (.conditional e f g)
  | assign {node left right : Json} {op : String} {e f : Expr}
      (hnode : node.IsNodeAmid known "AssignmentExpression") (hop : node.Has "operator" (.str op))
      (hmem : op ∈ assignmentOperators) (hleft : node.Has "left" left)
      (hright : node.Has "right" right) (h : DescribesAmid left e) (htarget : e.IsTarget)
      (hf : DescribesAmid right f) : DescribesAmid node (.assign op e f)
  | sequence {node : Json} {items : List Json} {first second : Expr} {rest : List Expr}
      (hnode : node.IsNodeAmid known "SequenceExpression")
      (hitems : node.Has "expressions" (.arr items))
      (h : List.Forall₂ DescribesAmid items (first :: second :: rest)) :
      DescribesAmid node (.sequence first second rest)
  | arrow {node body : Json} {items : List Json} {isAsync : Bool} {names : List String} {e : Expr}
      (hnode : node.IsNodeAmid known "ArrowFunctionExpression")
      (hasync : node.flag "async" = .ok isAsync)
      (hgeneric : node.given "typeParameters" = .ok none)
      (hresult : node.given "returnType" = .ok none) (hitems : node.Has "params" (.arr items))
      (hparams : List.Forall₂ DescribesAmid items (names.map .name)) (hbody : node.Has "body" body)
      (h : DescribesAmid body e) : DescribesAmid node (.arrow isAsync names e)
  | member {node head property : Json} {p : String} {e : Expr}
      (hnode : node.IsNodeAmid known "MemberExpression")
      (hcomputed : node.flag "computed" = .ok false)
      (hoptional : node.flag "optional" = .ok false) (hhead : node.Has "object" head)
      (hproperty : node.Has "property" property) (h : DescribesAmid head e)
      (hp : NamesMemberAmid known property p) : DescribesAmid node (.member e p)
  | index {node head property : Json} {e f : Expr}
      (hnode : node.IsNodeAmid known "MemberExpression")
      (hcomputed : node.flag "computed" = .ok true) (hoptional : node.flag "optional" = .ok false)
      (hhead : node.Has "object" head) (hproperty : node.Has "property" property)
      (h : DescribesAmid head e) (hf : DescribesAmid property f) : DescribesAmid node (.index e f)
  | call {node head : Json} {items : List Json} {e : Expr} {args : List Expr}
      (hnode : node.IsNodeAmid known "CallExpression")
      (hoptional : node.flag "optional" = .ok false)
      (hgeneric : node.givenOr "typeArguments" "typeParameters" = .ok none)
      (hhead : node.Has "callee" head) (hitems : node.Has "arguments" (.arr items))
      (h : DescribesAmid head e) (hargs : List.Forall₂ DescribesAmid items args) :
      DescribesAmid node (.call e args)

/-- The same without comments. -/
abbrev NamesMember : Json → String → Prop := NamesMemberAmid Json.NoComment

/-- The node of an operation, without comments. -/
abbrev IsOperation : Family → Json → String → Json → Json → Prop := IsOperationAmid Json.NoComment

/-- Which trees without comments describe an expression. -/
abbrev Describes : Json → Expr → Prop := DescribesAmid Json.NoComment

end Trees

variable {known : Json → Prop}

/-- A described node is of the kind of its expression, unless it stands for parentheses. -/
lemma DescribesAmid.isNode {node : Json} {e : Expr} (h : DescribesAmid known node e) :
    node.IsNodeAmid known e.kind ∨ node.IsNodeAmid known "ParenthesizedExpression" ∧
      ∃ inner, node.Has "expression" inner ∧ DescribesAmid known inner e := by
  cases h with
  | parens hnode hinner h => exact Or.inr ⟨hnode, _, hinner, h⟩
  | name h hs => exact Or.inl h.toIsNodeAmid
  | binary h hleft hright => exact Or.inl h.toIsNodeAmid
  | logical h hleft hright => exact Or.inl h.toIsNodeAmid
  | unary hnode => exact Or.inl hnode
  | update hnode => exact Or.inl hnode
  | await hnode => exact Or.inl hnode
  | yieldNothing hnode => exact Or.inl hnode
  | yield hnode => exact Or.inl hnode
  | yieldAll hnode => exact Or.inl hnode
  | conditional hnode => exact Or.inl hnode
  | assign hnode => exact Or.inl hnode
  | sequence hnode => exact Or.inl hnode
  | arrow hnode => exact Or.inl hnode
  | member hnode => exact Or.inl hnode
  | index hnode => exact Or.inl hnode
  | call hnode => exact Or.inl hnode

lemma DescribesAmid.ne_null {node : Json} {e : Expr} (h : DescribesAmid known node e) :
    node.isNull = false := by
  rcases h.isNode with hnode | ⟨hnode, -⟩
  · exact hnode.ne_null
  · exact hnode.ne_null

/-! ## Answers about one expression -/

/-- The kinds that a described node does not have. -/
lemma Expr.kind_ne (e : Expr) : e.kind ≠ "ParenthesizedExpression" ∧ e.kind ≠ "ChainExpression" ∧
    e.kind ≠ "PrivateIdentifier" ∧ e.kind ∉ Rules.braceHeaded ∧ e.kind ≠ "" ∧
      e.kind ≠ "BlockStatement" := by
  cases e <;> simp [kind, Rules.braceHeaded]

/-- A node of the kind of an expression does not stand for parentheses. -/
lemma not_parens {node : Json} {e : Expr} (h : node.IsNodeAmid known e.kind) :
    ¬node.IsNodeAmid known "ParenthesizedExpression" := by
  intro hparens
  have := h.kind_eq.symm.trans hparens.kind_eq
  simp [e.kind_ne.1] at this

lemma unwrap_of_isNode {node : Json} {kind : String} (h : node.IsNodeAmid known kind)
    (hkind : kind ≠ "ParenthesizedExpression") :
    Precedence.unwrap node = .ok ⟨node, Nat.le_refl _⟩ := by
  rw [Precedence.unwrap, h.kind_eq, ok_bind]
  simp [Json.isText, hkind]

/-- Parentheses of the tree are looked through. -/
lemma unwrap_of_parens {node inner : Json} (hnode : node.IsNodeAmid known "ParenthesizedExpression")
    (hinner : node.Has "expression" inner) {core : { core : Json // sizeOf core ≤ sizeOf inner }}
    (hcore : Precedence.unwrap inner = .ok core) :
    ∃ core', Precedence.unwrap node = .ok core' ∧ core'.1 = core.1 := by
  obtain ⟨hinside, hread⟩ := hinner
  refine ⟨⟨core.1, by have := core.2; have := hinside.sizeOf_lt; omega⟩, ?_, rfl⟩
  rw [Precedence.unwrap, hnode.kind_eq, ok_bind]
  simp [Json.isText, hread, hcore]

section Answers

variable {node : Json} {core : { core : Json // sizeOf core ≤ sizeOf node }} {kind : String}
  {strength : Nat}

/-- A node binds as strongly as the table says for its kind. -/
lemma strength_of_isNode (hcore : Precedence.unwrap node = .ok core)
    (hkind : core.1.IsNodeAmid known kind)
    (hlookup : Precedence.kinds.lookup kind = some strength) :
    Precedence.strength? node = .ok (some strength) := by
  rw [Precedence.strength?, hcore, ok_bind, hkind.kind_eq, ok_bind]
  simp [Precedence.ofKind, Json.key, hlookup]

lemma bindsLooser_of_strength (h : Precedence.strength? node = .ok (some strength))
    (threshold : Nat) :
    Precedence.bindsLooser node threshold = .ok (decide (strength < threshold)) := by
  rw [Precedence.bindsLooser, h]
  rfl

lemma wrapsAsTest_of_strength (h : Precedence.strength? node = .ok (some strength)) :
    Precedence.wrapsAsTest node = .ok (decide (strength ≤ 4)) := by
  rw [Precedence.wrapsAsTest, h]
  rfl

lemma wrapsAsHead_of_strength (hcore : Precedence.unwrap node = .ok core)
    (hkind : core.1.IsNodeAmid known kind) (h : Precedence.strength? node = .ok (some strength))
    (threshold : Nat) :
    Precedence.wrapsAsHead node threshold =
      .ok (decide (strength < threshold) || kind == "ChainExpression") := by
  rw [Precedence.wrapsAsHead, bindsLooser_of_strength h, ok_bind]
  by_cases hlooser : strength < threshold
  · simp [hlooser]
  · simp [hlooser, hcore, hkind.kind_eq, Json.isText]

end Answers

/-- **The node inside of the parentheses.** -/
lemma unwrap_of_describes {node : Json} {e : Expr} (h : DescribesAmid known node e) :
    ∃ core, Precedence.unwrap node = .ok core ∧ DescribesAmid known core.1 e ∧
      core.1.IsNodeAmid known e.kind := by
  rcases h.isNode with hnode | ⟨hnode, inner, hhas, hinner⟩
  · exact ⟨_, unwrap_of_isNode hnode e.kind_ne.1, h, hnode⟩
  · have := hhas.sizeOf_lt
    obtain ⟨core, hcore, hdescribes, hkind⟩ := unwrap_of_describes hinner
    obtain ⟨core', hcore', heq⟩ := unwrap_of_parens hnode hhas hcore
    exact ⟨core', hcore', heq ▸ hdescribes, heq ▸ hkind⟩
termination_by sizeOf node

lemma strength_of_describes {node : Json} {e : Expr} (h : DescribesAmid known node e) :
    Precedence.strength? node = .ok (some e.strength) := by
  obtain ⟨core, hcore, -, hkind⟩ := unwrap_of_describes h
  exact strength_of_isNode hcore hkind e.lookup_kind

lemma bindsLooser_of_describes {node : Json} {e : Expr} (h : DescribesAmid known node e)
    (threshold : Nat) :
    Precedence.bindsLooser node threshold = .ok (decide (e.strength < threshold)) :=
  bindsLooser_of_strength (strength_of_describes h) threshold

lemma wrapsAsHead_of_describes {node : Json} {e : Expr} (h : DescribesAmid known node e)
    (threshold : Nat) :
    Precedence.wrapsAsHead node threshold = .ok (decide (e.strength < threshold)) := by
  obtain ⟨core, hcore, -, hkind⟩ := unwrap_of_describes h
  simp [wrapsAsHead_of_strength hcore hkind (strength_of_describes h), e.kind_ne.2.1]

lemma wrapsAsTest_of_describes {node : Json} {e : Expr} (h : DescribesAmid known node e) :
    Precedence.wrapsAsTest node = .ok (decide (e.strength ≤ 4)) :=
  wrapsAsTest_of_strength (strength_of_describes h)

/-! ## Answers about operands -/

/-- The operator of an operation. -/
lemma DescribesAmid.operator {family : Family} {node : Json} {op : String} {e f : Expr}
    (h : DescribesAmid known node (family.expr op e f))
    (hnode : node.IsNodeAmid known (family.expr op e f).kind) :
    node.Has "operator" (.str op) ∧ op ∈ family.operators := by
  cases family with
  | binary =>
      cases h with
      | parens hparens hinner h => exact absurd hparens (not_parens hnode)
      | binary h hleft hright => exact ⟨h.operator, h.isOperator⟩
  | logical =>
      cases h with
      | parens hparens hinner h => exact absurd hparens (not_parens hnode)
      | logical h hleft hright => exact ⟨h.operator, h.isOperator⟩

lemma ofOperator_of_mem {family : Family} {op : String} (h : op ∈ family.operators) :
    Precedence.ofOperator (.str op) = .ok ((Precedence.operators.lookup op).getD 0) := by
  have hall : ∀ op ∈ family.operators, (Precedence.operators.lookup op).isSome = true := by
    cases family with
    | binary => decide
    | logical => decide
  obtain ⟨strength, hstrength⟩ := Option.isSome_iff_exists.mp (hall op h)
  simp [Precedence.ofOperator, Json.key, hstrength]

/-- An operand that is an operation of the same family. -/
lemma needsParensAmongEquals_eq {family : Family} {node parent : Json} {inner outer : String}
    (hinner : node.Has "operator" (.str inner)) (hinner' : inner ∈ family.operators)
    (houter : parent.Has "operator" (.str outer)) (houter' : outer ∈ family.operators)
    (hmixes : (outer == "??") = (inner == "??")) (isRight : Bool) :
    Precedence.needsParensAmongEquals node parent isRight =
      .ok (wrapsAmong inner outer isRight) := by
  obtain ⟨hinside, hread⟩ := hinner
  obtain ⟨hinside', hread'⟩ := houter
  rw [Precedence.needsParensAmongEquals, hread, ok_bind]
  by_cases hinnerPower : inner = "**"
  · by_cases houterPower : outer = "**"
    · subst hinnerPower houterPower
      simp [Json.isText, hread', wrapsAmong]
    · simp [Json.isText, hread', wrapsAmong, hinnerPower, houterPower,
        ofOperator_of_mem houter', hinnerPower ▸ ofOperator_of_mem hinner', hinnerPower ▸ hmixes]
  · simp [Json.isText, hread', wrapsAmong, hinnerPower, ofOperator_of_mem houter',
      ofOperator_of_mem hinner', hmixes]

/-- An operand of another strength than the operation has. -/
lemma needsParensByStrength_eq {kind node parent : Json} {op : String}
    (hop : parent.Has "operator" (.str op)) (isRight : Bool) {strength outer : Nat}
    (hne : strength ≠ outer) :
    Precedence.needsParensByStrength kind node parent isRight strength outer =
      .ok ((!isRight && kind.isOneOf ["UnaryExpression", "AwaitExpression"] &&
        outer == Precedence.binary && op == "**") || decide (strength < outer)) := by
  obtain ⟨hinside, hread⟩ := hop
  rw [Precedence.needsParensByStrength, if_pos hne]
  by_cases hunder : (!isRight && kind.isOneOf ["UnaryExpression", "AwaitExpression"] &&
      outer == Precedence.binary) = true
  · simp [hunder, hread, Json.isText]
  · simp [hunder]

section Operands

variable {family : Family} {parent operand : Json} {outer : String} {shape : Shape}
  {core : { core : Json // sizeOf core ≤ sizeOf operand }} {kind : String} {strength : Nat}

/-- What is asked about an operand once the two kinds are known. -/
lemma needsParens_eq (hparent : parent.IsNodeAmid known family.kind)
    (hcore : Precedence.unwrap operand = .ok core) (hkind : core.1.IsNodeAmid known kind)
    (hlookup : Precedence.kinds.lookup kind = some strength)
    (hprivate : kind ≠ "PrivateIdentifier") (isRight : Bool) :
    Precedence.needsParens operand parent isRight = (do
      let mixed ← if kind = "LogicalExpression" ∧ family = .logical
        then Precedence.mixesCoalescing core.1 parent else pure false
      if mixed then pure true
      else
        Precedence.needsParensByStrength (.str kind) core.1 parent isRight strength
          family.strength) := by
  have hempty : kind ≠ "" := by
    rintro rfl
    have hnone : Precedence.kinds.lookup "" = none := by decide
    simp [hnone] at hlookup
  have hinner : Precedence.ofKind (.str kind) = .ok (some strength) := by
    simp [Precedence.ofKind, Json.key, hlookup]
  have houter : Precedence.ofKind (.str family.kind) = .ok (some family.strength) := by
    cases family with
    | binary => rfl
    | logical => rfl
  have hlogical : (family.kind = "LogicalExpression") = (family = .logical) := by
    cases family with
    | binary => simp [Family.kind]
    | logical => simp [Family.kind]
  rw [Precedence.needsParens, hcore, ok_bind, hkind.kind_eq, ok_bind, hparent.requireKind_eq]
  simp only [Json.isText, beq_iff_eq, hprivate, if_false, ok_bind, Json.isGiven, bne_iff_ne, ne_eq,
    hempty, not_false_eq_true, if_true, hinner, houter, hlogical]
  by_cases hboth : kind = "LogicalExpression"
  · by_cases hfamily : family = .logical
    · simp [hboth, hfamily]
    · simp [hboth, hfamily]
  · simp [hboth]

/-- An operand that is an operation of the same family. -/
lemma needsParens_among {inner : String} (hparent : parent.IsNodeAmid known family.kind)
    (hop : parent.Has "operator" (.str outer)) (houter : outer ∈ family.operators)
    (hcore : Precedence.unwrap operand = .ok core) (hkind : core.1.IsNodeAmid known family.kind)
    (hinner : core.1.Has "operator" (.str inner)) (hinner' : inner ∈ family.operators)
    (isRight : Bool) :
    Precedence.needsParens operand parent isRight = .ok (wrapsAmong inner outer isRight) := by
  have hequals (hmixes : (outer == "??") = (inner == "??")) :=
    needsParensAmongEquals_eq hinner hinner' hop houter hmixes isRight
  cases family with
  | binary =>
      have hcoalesce : ∀ op ∈ Family.binary.operators, (op == "??") = false := by decide
      rw [needsParens_eq hparent hcore hkind (show _ = some 14 from rfl) (by decide)]
      simp [Family.kind, Family.strength, Precedence.needsParensByStrength, Precedence.binary,
        hequals ((hcoalesce outer houter).trans (hcoalesce inner hinner').symm)]
  | logical =>
      obtain ⟨hinside, hread⟩ := hop
      obtain ⟨hinside', hread'⟩ := hinner
      rw [needsParens_eq hparent hcore hkind (show _ = some 13 from rfl) (by decide)]
      by_cases hmixes : (outer == "??") = (inner == "??")
      · simp [Family.kind, Family.strength, Precedence.mixesCoalescing, hread, hread', Json.isText,
          Precedence.needsParensByStrength, Precedence.logical, hequals hmixes, hmixes]
      · simp [Family.kind, Precedence.mixesCoalescing, hread, hread', Json.isText, wrapsAmong,
          hmixes]

/-- **An operand that is left without parentheses** stands at the level that is asked for there, if
it does so when it is an operation of the same family, and when it binds stronger. -/
theorem needsParens_of_level (hparent : parent.IsNodeAmid known family.kind)
    (hop : parent.Has "operator" (.str outer)) (hshape : (outer, shape) ∈ family.shapes)
    (hcore : Precedence.unwrap operand = .ok core) (hkind : core.1.IsNodeAmid known kind)
    (hlookup : Precedence.kinds.lookup kind = some strength)
    (hprivate : kind ≠ "PrivateIdentifier") {l : Level}
    (hsame : strength = family.strength → kind = family.kind ∧ ∃ inner shape',
      core.1.Has "operator" (.str inner) ∧ (inner, shape') ∈ family.shapes ∧ l = shape'.own)
    (isRight : Bool)
    (hstrong : family.strength < strength →
      (outer = "**" → family = .binary → isRight = false →
        kind ≠ "UnaryExpression" ∧ kind ≠ "AwaitExpression") → l.Within (shape.operand isRight)) :
    ∃ wrap, Precedence.needsParens operand parent isRight = .ok wrap ∧
      (wrap = false → l.Within (shape.operand isRight)) := by
  have houter : outer ∈ family.operators := List.mem_map_of_mem hshape
  by_cases hequal : strength = family.strength
  · -- the operand is an operation of the same family
    obtain ⟨rfl, inner, shape', hinner, hshape', rfl⟩ := hsame hequal
    have hinner' : inner ∈ family.operators := List.mem_map_of_mem hshape'
    exact ⟨_, needsParens_among hparent hop houter hcore hkind hinner hinner' isRight,
      operand_of_wrapsAmong hshape' hshape⟩
  · have hmixed : ¬(kind = "LogicalExpression" ∧ family = .logical) := by
      rintro ⟨rfl, rfl⟩
      exact hequal (Option.some.inj hlookup).symm
    have hwraps : Precedence.needsParens operand parent isRight =
        Precedence.needsParensByStrength (.str kind) core.1 parent isRight strength
          family.strength := by
      rw [needsParens_eq hparent hcore hkind hlookup hprivate, if_neg hmixed]
      rfl
    rw [needsParensByStrength_eq hop isRight hequal] at hwraps
    refine ⟨_, hwraps, fun hwrap => ?_⟩
    rw [Bool.or_eq_false_iff, decide_eq_false_iff_not, not_lt] at hwrap
    obtain ⟨hpower, hweak⟩ := hwrap
    refine hstrong (lt_of_le_of_ne hweak (Ne.symm hequal)) ?_
    rintro rfl hbinary rfl
    simpa [Json.isOneOf, hbinary, Family.strength, Precedence.binary] using hpower

end Operands

/-- The same for a described expression. -/
theorem needsParens_of_describes {family : Family} {parent operand : Json} {outer : String}
    {shape : Shape} (hparent : parent.IsNodeAmid known family.kind)
    (hop : parent.Has "operator" (.str outer)) (hshape : (outer, shape) ∈ family.shapes)
    {e : Expr} (h : DescribesAmid known operand e) (isRight : Bool) :
    ∃ wrap, Precedence.needsParens operand parent isRight = .ok wrap ∧
      (wrap = false → e.level.Within (shape.operand isRight)) := by
  obtain ⟨core, hcore, hdescribes, hkind⟩ := unwrap_of_describes h
  refine needsParens_of_level hparent hop hshape hcore hkind e.lookup_kind e.kind_ne.2.2.1
    (fun hequal => ?_) isRight (operand_of_strength hshape)
  obtain ⟨inner, left, right, rfl⟩ : ∃ inner left right, e = family.expr inner left right := by
    cases family <;> cases e <;> simp_all [Expr.strength, Family.strength, Family.expr]
  obtain ⟨hinner, hinner'⟩ := hdescribes.operator hkind
  obtain ⟨shape', hlookup⟩ := Family.lookup_of_mem hinner'
  refine ⟨?_, inner, shape', hinner, Family.mem_of_lookup hlookup,
    Expr.level_operation hlookup left right⟩
  cases family with
  | binary => rfl
  | logical => rfl

/-! ## Beginnings -/

/-- What the printed text of a described expression begins with is described as well. -/
lemma leftmost_of_describes {node : Json} {e : Expr} (h : DescribesAmid known node e)
    (hnode : node.IsNodeAmid known e.kind) :
    ∃ found, Precedence.leftmost node (.str e.kind) = .ok found ∧
      ∀ child, found = some child → ∃ f, DescribesAmid known child.1 f := by
  -- a child that is left out when parentheses are put around it
  have hbare {child : Json} (hinside : child.Inside node) {f : Expr}
      (hf : DescribesAmid known child f) (wrap : Bool) (found : Part node)
      (hfound : (if wrap then none else some ⟨child, hinside⟩) = some found) :
      ∃ f, DescribesAmid known found.1 f := by
    cases wrap with
    | true => simp at hfound
    | false => exact ⟨f, Option.some.inj hfound ▸ hf⟩
  have hoperation {family : Family} {op : String} {left right : Json} {f : Expr}
      (h : IsOperationAmid known family node op left right) (hleft : DescribesAmid known left f)
      (isRight : Bool) :
      ∃ wrap, Precedence.needsParens left node isRight = .ok wrap := by
    obtain ⟨shape, hshape⟩ := Family.lookup_of_mem h.isOperator
    obtain ⟨wrap, hwrap, -⟩ := needsParens_of_describes h.toIsNodeAmid h.operator
      (Family.mem_of_lookup hshape) hleft isRight
    exact ⟨wrap, hwrap⟩
  have hwraps {head : Json} {f : Expr} (hf : DescribesAmid known head f) (threshold : Nat) :
      ∃ wrap, Precedence.wrapsAsHead head threshold = .ok wrap :=
    ⟨_, wrapsAsHead_of_describes hf threshold⟩
  cases h with
  | parens hparens hinner h => exact absurd hparens (not_parens hnode)
  | binary h hleft hright =>
      obtain ⟨hinside, hread⟩ := h.left
      obtain ⟨wrap, hwrap⟩ := hoperation h hleft false
      exact ⟨_, by simp [Precedence.leftmost, Expr.kind, hread, hwrap], hbare hinside hleft wrap⟩
  | logical h hleft hright =>
      obtain ⟨hinside, hread⟩ := h.left
      obtain ⟨wrap, hwrap⟩ := hoperation h hleft false
      exact ⟨_, by simp [Precedence.leftmost, Expr.kind, hread, hwrap], hbare hinside hleft wrap⟩
  | conditional hnode htest hyes hno h hf hg =>
      obtain ⟨hinside, hread⟩ := htest
      obtain ⟨wrap, hwrap⟩ : ∃ wrap, Precedence.wrapsAsTest _ = .ok wrap :=
        ⟨_, wrapsAsTest_of_describes h⟩
      exact ⟨_, by simp [Precedence.leftmost, Expr.kind, hread, hwrap], hbare hinside h wrap⟩
  | member hnode hcomputed hoptional hhead hproperty h hp =>
      obtain ⟨hinside, hread⟩ := hhead
      obtain ⟨wrap, hwrap⟩ := hwraps h Precedence.member
      exact ⟨_, by simp [Precedence.leftmost, Expr.kind, hread, hwrap], hbare hinside h wrap⟩
  | index hnode hcomputed hoptional hhead hproperty h hf =>
      obtain ⟨hinside, hread⟩ := hhead
      obtain ⟨wrap, hwrap⟩ := hwraps h Precedence.member
      exact ⟨_, by simp [Precedence.leftmost, Expr.kind, hread, hwrap], hbare hinside h wrap⟩
  | call hnode hoptional hgeneric hhead hitems h hargs =>
      obtain ⟨hinside, hread⟩ := hhead
      obtain ⟨wrap, hwrap⟩ := hwraps h Precedence.call
      exact ⟨_, by simp [Precedence.leftmost, Expr.kind, hread, hwrap], hbare hinside h wrap⟩
  | @update _ _ _ isBefore _ hnode hop hmem hbefore hargument h htarget =>
      obtain ⟨hinside, hread⟩ := hargument
      refine ⟨_, ?_, hbare hinside h isBefore⟩
      cases isBefore with
      | true => simp [Precedence.leftmost, Expr.kind, hbefore]
      | false => simp [Precedence.leftmost, Expr.kind, hbefore, hread]
  | assign hnode hop hmem hleft hright h htarget hf =>
      obtain ⟨hinside, hread⟩ := hleft
      exact ⟨_, by simp [Precedence.leftmost, Expr.kind, hread], hbare hinside h false⟩
  | name => exact ⟨none, rfl, by simp⟩
  | unary => exact ⟨none, rfl, by simp⟩
  | await => exact ⟨none, rfl, by simp⟩
  | yieldNothing => exact ⟨none, rfl, by simp⟩
  | yield => exact ⟨none, rfl, by simp⟩
  | yieldAll => exact ⟨none, rfl, by simp⟩
  | sequence => exact ⟨none, rfl, by simp⟩
  | arrow => exact ⟨none, rfl, by simp⟩

/-- **No described expression begins with a brace.** -/
theorem startsWith_of_describes {node : Json} {e : Expr} (h : DescribesAmid known node e) :
    Precedence.startsWith node Rules.braceHeaded = .ok false := by
  obtain ⟨core, hcore, hdescribes, hkind⟩ := unwrap_of_describes h
  obtain ⟨found, hfound, hchild⟩ := leftmost_of_describes hdescribes hkind
  rw [Precedence.startsWith, hcore, ok_bind, hkind.kind_eq, ok_bind, hfound]
  have hin : Json.isIn Rules.braceHeaded (.str e.kind) = .ok false := by
    have := e.kind_ne.2.2.2.1
    simp [Json.isIn, Json.key, Json.isOneOf, this]
  rw [hin, ok_bind]
  cases found with
  | none => rfl
  | some child =>
      obtain ⟨f, hf⟩ := hchild child rfl
      exact startsWith_of_describes hf
termination_by sizeOf node
decreasing_by
  have := child.2.sizeOf_lt
  have := core.2
  omega

/-! ## Signs -/

/-- A field that counts as given does so as well if it may be absent. -/
lemma flagUnlessAbsent_of_flag {node : Json} {key : String} {b : Bool}
    (h : node.flag key = .ok b) :
    ∃ c, node.flagUnlessAbsent key = .ok c ∧ (b = true → c = true) := by
  unfold Json.flag Json.getValue at h
  unfold Json.flagUnlessAbsent
  cases hget : node.get key with
  | error fault => simp [hget] at h
  | ok found =>
      cases found with
      | none => exact ⟨true, by simp, by simp⟩
      | some part =>
          obtain rfl : part.1.isGiven = b := by simpa [hget] using h
          exact ⟨_, rfl, id⟩

/-- What an expression begins with if it is strong enough to be an argument: a word, a parenthesis
or its own operator. -/
def Leads (t : String) (e : Expr) : Prop := IsWord t ∨ t = "(" ∨ e.sign = some t

/-- A sign is compared with the first character of an operator. -/
lemma same_first {op sign : String} (hop : op = "+" ∨ op = "-")
    (hsign : sign ∈ unaryOperators ++ updateOperators) :
    ∃ first, Json.first (.str sign) = .ok first ∧
      (first.same (.str op) = false → areApart op sign = true) := by
  have hall : ∀ sign ∈ unaryOperators ++ updateOperators, ∀ op ∈ ["+", "-"],
      (Json.str (String.ofList (sign.toList.take 1))).same (.str op) = false →
        areApart op sign = true := by decide
  have hfirst : ∀ sign ∈ unaryOperators ++ updateOperators,
      Json.first (.str sign) = .ok (.str (String.ofList (sign.toList.take 1))) := by
    intro sign hsign
    fin_cases hsign <;> rfl
  exact ⟨_, hfirst sign hsign, hall sign hsign op (by simpa using hop)⟩

section Signs

variable {op : String} {argument : Json} {core : { core : Json // sizeOf core ≤ sizeOf argument }}
  {kind : String}

/-- What is no operator before its argument does not run together with a sign. -/
lemma signsCollide_of_isNode (hcore : Precedence.unwrap argument = .ok core)
    (hkind : core.1.IsNodeAmid known kind)
    (hother : kind ≠ "UnaryExpression" ∧ kind ≠ "UpdateExpression") :
    Rules.signsCollide (.str op) argument = .ok false := by
  rw [Rules.signsCollide, hcore, ok_bind, hkind.requireKind_eq, ok_bind]
  simp [Json.isOneOf, hother]

/-- Two signs that would run together are noticed. -/
lemma signsCollide_of_sign (hop : op = "+" ∨ op = "-") {sign : String} {isBefore : Bool}
    (hcore : Precedence.unwrap argument = .ok core) (hkind : core.1.IsNodeAmid known kind)
    (hoperator : kind = "UnaryExpression" ∨ kind = "UpdateExpression")
    (hsign : core.1.Has "operator" (.str sign)) (hmem : sign ∈ unaryOperators ++ updateOperators)
    (hbefore : core.1.flagUnlessAbsent "prefix" = .ok isBefore) :
    ∃ collide, Rules.signsCollide (.str op) argument = .ok collide ∧
      (collide = false → isBefore = true → areApart op sign = true) := by
  obtain ⟨hinside, hread⟩ := hsign
  obtain ⟨first, hfirst, hapart⟩ := same_first hop hmem
  have hkinds : (Json.str kind).isOneOf ["UnaryExpression", "UpdateExpression"] = true := by
    rcases hoperator with rfl | rfl
    · rfl
    · rfl
  rw [Rules.signsCollide, hcore, ok_bind, hkind.requireKind_eq, ok_bind]
  cases hsame : first.same (.str op) with
  | false => exact ⟨false, by simp [hkinds, hread, hfirst, hsame], fun _ _ => hapart hsame⟩
  | true =>
      exact ⟨isBefore, by simp [hkinds, hread, hfirst, hsame, hbefore], fun hno hyes =>
        absurd hyes (by simp [hno])⟩

/-- **A blank goes behind a unary operator** that is a word, and between two signs that would run
together. -/
lemma spacedUnary_of_sign (hop : op ∈ unaryOperators) {sign : Option String}
    (hsign : ∀ t, sign = some t → t ∈ unaryOperators ++ updateOperators)
    (hcollide : op = "+" ∨ op = "-" → ∃ collide,
      Rules.signsCollide (.str op) argument = .ok collide ∧
        (collide = false → ∀ t, sign = some t → areApart op t = true)) :
    ∃ spaced, Rules.spacedUnary (.str op) argument = .ok spaced ∧
      (spaced = false → op ∈ ["!", "~", "+", "-"] ∧
        ∀ t, sign = some t → areApart op t = true) := by
  have hsigns : ∀ op ∈ ["!", "~"], ∀ t ∈ unaryOperators ++ updateOperators,
      areApart op t = true := by decide
  have hcases : op ∈ ["typeof", "void", "delete"] ∨ op ∈ ["!", "~"] ∨ op = "+" ∨ op = "-" := by
    fin_cases hop <;> simp
  rcases hcases with hmem | hmem | hmem
  · refine ⟨true, ?_, by simp⟩
    fin_cases hmem <;> rfl
  · refine ⟨false, by fin_cases hmem <;> rfl, fun _ => ⟨List.mem_append_left _ hmem, ?_⟩⟩
    exact fun t ht => hsigns op hmem t (hsign t ht)
  · obtain ⟨collide, hcollide, hapart⟩ := hcollide hmem
    refine ⟨collide, ?_, fun hno => ⟨?_, hapart hno⟩⟩
    · rcases hmem with rfl | rfl
      · exact hcollide
      · exact hcollide
    · rcases hmem with rfl | rfl
      · decide
      · decide

end Signs

/-- Two signs that would run together are noticed. -/
lemma signsCollide_of_describes {op : String} (hop : op = "+" ∨ op = "-") {argument : Json}
    {e : Expr} (h : DescribesAmid known argument e) :
    ∃ collide, Rules.signsCollide (.str op) argument = .ok collide ∧
      (collide = false → ∀ t, e.sign = some t → areApart op t = true) := by
  obtain ⟨core, hcore, hdescribes, hkind⟩ := unwrap_of_describes h
  cases hdescribes with
  | parens hparens hinner h => exact absurd hparens (not_parens hkind)
  | @unary _ _ sign _ hnode hsign hmem hbefore hargument h =>
      obtain ⟨collide, hcollide, hapart⟩ := signsCollide_of_sign hop hcore hkind (Or.inl rfl) hsign
        (List.mem_append_left _ hmem) hbefore
      refine ⟨collide, hcollide, fun hno t ht => ?_⟩
      obtain rfl : sign = t := by simpa [Expr.sign] using ht
      exact hapart hno rfl
  | @update _ _ sign isBefore _ hnode hsign hmem hbefore hargument h htarget =>
      obtain ⟨found, hfound, hgiven⟩ := flagUnlessAbsent_of_flag hbefore
      obtain ⟨collide, hcollide, hapart⟩ := signsCollide_of_sign hop hcore hkind (Or.inr rfl) hsign
        (List.mem_append_right _ hmem) hfound
      refine ⟨collide, hcollide, fun hno t ht => ?_⟩
      cases isBefore with
      | false => simp [Expr.sign] at ht
      | true =>
          obtain rfl : sign = t := by simpa [Expr.sign] using ht
          exact hapart hno (hgiven rfl)
  | _ =>
      exact ⟨false, signsCollide_of_isNode hcore hkind (by simp [Expr.kind]), by simp [Expr.sign]⟩

lemma DescribesAmid.sign_mem {node : Json} {e : Expr} (h : DescribesAmid known node e) {t : String}
    (ht : e.sign = some t) : t ∈ unaryOperators ++ updateOperators := by
  obtain ⟨⟨core, hle⟩, -, hdescribes, hkind⟩ := unwrap_of_describes h
  cases hdescribes with
  | parens hparens hinner h => exact absurd hparens (not_parens hkind)
  | @unary _ _ sign _ hnode hsign hmem hbefore hargument h =>
      obtain rfl : sign = t := by simpa [Expr.sign] using ht
      exact List.mem_append_left _ hmem
  | @update _ _ sign isBefore _ hnode hsign hmem hbefore hargument h htarget =>
      cases isBefore with
      | false => simp [Expr.sign] at ht
      | true =>
          obtain rfl : sign = t := by simpa [Expr.sign] using ht
          exact List.mem_append_right _ hmem
  | _ => simp [Expr.sign] at ht

/-- **Where no blank goes behind a unary operator**, what follows does not run into it. -/
theorem spacedUnary_of_describes {op : String} (hop : op ∈ unaryOperators) {argument : Json}
    {e : Expr} (h : DescribesAmid known argument e) :
    ∃ spaced, Rules.spacedUnary (.str op) argument = .ok spaced ∧
      (spaced = false → ∀ t, Leads t e → Apart op t) := by
  have hparen : ∀ op ∈ ["!", "~", "+", "-"], op ∈ punctuators ∧ areApart op "(" = true := by
    decide
  obtain ⟨spaced, hspaced, hapart⟩ := spacedUnary_of_sign hop (fun _ => h.sign_mem)
    fun hsign => signsCollide_of_describes hsign h
  refine ⟨spaced, hspaced, fun hno => ?_⟩
  obtain ⟨hmem, hsign⟩ := hapart hno
  -- only a sign of the argument can run into a sign, not a word or a parenthesis
  rintro t (hword | rfl | ht)
  · exact apart_isWord (hparen op hmem).1 hword
  · exact apart_of_areApart (hparen op hmem).1 (hparen op hmem).2
  · exact apart_of_areApart (hparen op hmem).1 (hsign t ht)

end Grammar

end EstreePrinter
