import Mathlib
import EstreePrinter.Proofs.Estree.Answers
import EstreePrinter.Proofs.Rules.Opening

/-!
# With which node an expression begins

The question whether the text of an expression begins with one of some kinds of nodes
(`Precedence.startsWith`) goes down the parts that are printed first.  Which part that is it works
out by itself (`Precedence.leftmost`), and for every kind of expression the answer is what its rule
does (`Rules.leads_of_isA`).

By induction on the tree the question is answered rightly (`Render.exists_openers`): the nodes it
goes through are those that are open at the first text.
-/

namespace EstreePrinter

open Json (Part)

namespace Json

/-- A node is of one of some kinds. -/
def IsKindIn (kinds : List String) (node : Json) : Prop :=
  ∃ kind ∈ kinds, node.kindName? = some kind

lemma IsOf.isKindIn_iff {table : List (String × Form)} {node : Json} {kind : String}
    (h : node.IsOf table kind) {kinds : List String} : node.IsKindIn kinds ↔ kind ∈ kinds := by
  simp [IsKindIn, h.kindName]

/-- Whether a node, if it is an assignment, assigns to something; a pattern with a default is the
inside of a pattern, and nothing to assign to. -/
def hasTarget (node : Json) : Bool :=
  node.kindName? != some "AssignmentExpression" ||
    (node.field? "left").all fun left => left.1.kindName? != some "AssignmentPattern"

/-- All assignments in a tree assign to something. -/
def AssignsToTargets (tree : Json) : Prop := ∀ node ∈ tree.nodes, node.hasTarget = true

lemma AssignsToTargets.part {node : Json} (h : node.AssignsToTargets) (part : Part node) :
    part.1.AssignsToTargets :=
  fun n hn => h n (Multiset.mem_of_le (nodes_le_of_inside part.2) hn)

lemma AssignsToTargets.self {node : Json} (h : node.AssignsToTargets)
    (hobject : node.isObject = true) : node.hasTarget = true :=
  h node (by simp [nodes_eq_cons hobject])

end Json

namespace Precedence

variable {node : Json} {kind : String} {options : List String}

/-! ## The question, one step at a time -/

lemma unwrap_of_isA (h : node.IsA kind) (hkind : kind ≠ "ParenthesizedExpression") :
    unwrap node = .ok ⟨node, Nat.le_refl _⟩ := by
  rw [unwrap, h.kind_eq, ok_bind]
  simp [Json.isText, hkind]

lemma startsWith_of_isA (h : node.IsA kind) (hkind : kind ≠ "ParenthesizedExpression") :
    startsWith node options =
      if kind ∈ options then .ok true
      else (do
        match ← leftmost node (.str kind) with
        | some child => startsWith child.1 options
        | none => pure false) := by
  have hin : Json.isIn options (.str kind) = .ok (decide (kind ∈ options)) := by
    simp [Json.isIn, Json.key, Json.isOneOf]
  rw [startsWith, unwrap_of_isA h hkind, ok_bind, h.kind_eq, ok_bind, hin, ok_bind]
  by_cases hmem : kind ∈ options
  · simp [hmem]
  · simp only [hmem, decide_false, Bool.false_eq_true, if_false]
    rcases leftmost node (.str kind) with fault | (_ | child) <;> rfl

/-- An expression in parentheses begins as it does without them. -/
lemma startsWith_parenthesized (h : node.IsA "ParenthesizedExpression") {part : Part node}
    (hpart : node.require "expression" = .ok part) :
    startsWith node options = startsWith part.1 options := by
  obtain ⟨found, hfound, inner, -, hinner⟩ := (h.conforms rfl).requireNode "expression" rfl
  obtain rfl : part = found := Except.ok.inj (hpart.symm.trans hfound)
  obtain ⟨core, hcore, -⟩ := exists_unwrap hinner
  have hsmaller := part.2.sizeOf_lt
  have hnode : unwrap node = .ok ⟨core.1, by have := core.2; omega⟩ := by
    rw [unwrap, h.kind_eq, ok_bind]
    simp [Json.isText, hpart, hcore]
  rw [startsWith, hnode, ok_bind]
  conv_rhs => rw [startsWith, hcore, ok_bind]
  refine bind_congr fun kind => bind_congr fun isOption => ?_
  cases isOption with
  | true => rfl
  | false => rcases leftmost core.1 kind with fault | (_ | child) <;> rfl

/-! ## The part a rule begins with -/

/-- The kinds of nodes that may stand at the beginning of an expression. -/
def headKinds : List String :=
  ["Super", "PrivateIdentifier", "ObjectPattern", "ArrayPattern", "RestElement", "Decorator"] ++
    Estree.expressions

/-- **What the output for a node begins with**, next to what is taken to be its first part: a text
of its own, or that part. -/
inductive Leads (node : Json) (kind : String) (s : Setting) : Option (Part node) → Prop
  | own (h : leftmost node (.str kind) = .ok none) : Leads node kind s none
  | part {part : Part node} {inner : String} (h : leftmost node (.str kind) = .ok (some part))
      (hpart : part.1.IsA inner) (hinner : inner ∈ headKinds) : Leads node kind s (some part)
  /-- Where a bare `in` would be misread there are more parentheses. -/
  | hidden (h : s.noIn = true) : Leads node kind s none
  /-- A name or decorator with which nothing else can begin. -/
  | plain {part : Part node} {inner : String} (h : leftmost node (.str kind) = .ok none)
      (hpart : part.1.IsA inner) (hinner : inner ∈ ["Identifier", "Decorator"]) :
      Leads node kind s (some part)

variable {s : Setting} {form : Form} {key : String} {kinds : List String} {part : Part node}

lemma isA_of_require (h : node.IsA kind) (hform : Estree.forms.lookup kind = some form)
    (hneed : (Estree.common ++ form).lookup key = some ⟨.node kinds, false⟩)
    (hpart : node.require key = .ok part) : ∃ inner ∈ kinds, part.1.IsA inner := by
  obtain ⟨found, hfound, hinner⟩ := (h.conforms hform).requireNode key hneed
  obtain rfl : part = found := Except.ok.inj (hpart.symm.trans hfound)
  exact hinner

/-- The first part, unless it goes in parentheses. -/
lemma leads_bare (h : node.IsA kind) (hform : Estree.forms.lookup kind = some form)
    (hneed : (Estree.common ++ form).lookup key = some ⟨.node kinds, false⟩)
    (hkinds : ∀ inner ∈ kinds, inner ∈ headKinds) {wraps : Part node → Except Fault Bool}
    (hleftmost : leftmost node (.str kind) = (do
      let child ← node.require key
      pure (if ← wraps child then none else some child)))
    {wrap : Bool} (hpart : node.require key = .ok part) (hwrap : wraps part = .ok wrap) :
    Leads node kind s (if wrap then none else some part) := by
  have hfound : leftmost node (.str kind) = .ok (if wrap then none else some part) := by
    rw [hleftmost, hpart, ok_bind, hwrap]
    rfl
  cases wrap with
  | true => exact .own hfound
  | false =>
      obtain ⟨inner, hmem, hinner⟩ := isA_of_require h hform hneed hpart
      exact .part hfound hinner (hkinds inner hmem)

/-- The first part, which never goes in parentheses. -/
lemma leads_first {inner : String} (hinner : part.1.IsA inner) (hmem : inner ∈ headKinds)
    (hleftmost : leftmost node (.str kind) = some <$> node.require key)
    (hpart : node.require key = .ok part) : Leads node kind s (some part) :=
  .part (by rw [hleftmost, hpart]; rfl) hinner hmem

end Precedence

namespace Rules

open Render
open Precedence (Leads headKinds leads_bare leads_first isA_of_require)

variable {node : Json} {kind : String} {s : Setting}

/-- A kind has a rule, and what it emits for a node of the kind begins as is taken to be. -/
def LeadsOn (s : Setting) (kind : String) : Prop :=
  ∃ rule, valueRules.lookup kind = some rule ∧
    ∀ (node : Json) (inner : Inner node), node.IsA kind → node.hasTarget = true →
      Opens inner (Leads node kind s) s (rule node inner)

/-- A rule that begins with a text of its own. -/
lemma leadsOn_own {rule : Rule} (hrule : valueRules.lookup kind = some rule)
    (hleftmost : ∀ node, Precedence.leftmost node (.str kind) = .ok none)
    (hopens : ∀ (node : Json) (inner : Inner node) (P : Option (Part node) → Prop), node.IsA kind →
      P none → Opens inner P s (rule node inner)) : LeadsOn s kind :=
  ⟨rule, hrule, fun node inner h _ => hopens node inner _ h (.own (hleftmost node))⟩

lemma opensTypes_of_isA (h : node.IsA kind) (inner : Inner node) : OpensTypes inner s := by
  intro part hpart
  obtain ⟨form, -, hform⟩ := h.form
  have hnone : node.given "typeParameters" = .ok none := hform.given_unused "typeParameters" rfl
  cases hpart.symm.trans hnone

lemma leadsOn_metaProperty : LeadsOn s "MetaProperty" :=
  ⟨_, rfl, fun _ _ h _ => opens_metaProperty fun part hpart => by
    obtain ⟨inner, hmem, hinner⟩ := isA_of_require h rfl rfl hpart
    exact .plain rfl hinner (List.mem_cons.mpr (Or.inl (List.mem_singleton.mp hmem)))⟩

lemma leadsOn_update : LeadsOn s "UpdateExpression" := by
  refine ⟨_, rfl, fun node inner h _ => opens_update (fun hflag => .own ?_) fun hflag part hpart => ?_⟩
  · simp only [Precedence.leftmost, hflag, ok_bind, if_true]
    rfl
  · obtain ⟨inner, hmem, hinner⟩ := isA_of_require h rfl rfl hpart
    refine .part ?_ hinner (List.mem_append_right _ hmem)
    simp [Precedence.leftmost, hflag, hpart]

lemma leadsOn_assignment : LeadsOn s "AssignmentExpression" := by
  refine ⟨_, rfl, fun node inner h htarget => opens_assignment fun part hpart => ?_⟩
  obtain ⟨inner, hmem, hinner⟩ := isA_of_require h rfl rfl hpart
  have hpattern : inner ≠ "AssignmentPattern" := by
    rintro rfl
    have hfield : node.field? "left" = some part := by
      unfold Json.require at hpart
      rw [if_pos h.isObject] at hpart
      cases hfound : node.field? "left" with
      | none => simp [hfound] at hpart
      | some found => simpa [hfound] using hpart
    simp [Json.hasTarget, h.kindName, hfield, hinner.kindName] at htarget
  have hheads : ∀ k ∈ Estree.patterns ++ Estree.expressions,
      k ≠ "AssignmentPattern" → k ∈ headKinds := by decide
  exact leads_first hinner (hheads inner hmem hpattern) rfl hpart

lemma leadsOn_class : LeadsOn s "ClassExpression" := by
  refine ⟨_, rfl, fun node inner h _ => opens_classRule (.own rfl) fun list parts hlist hparts => ?_⟩
  obtain ⟨found, hfound, hfits⟩ := (h.conforms rfl).given "decorators" rfl
  obtain rfl : some list = found := Except.ok.inj (hlist.symm.trans hfound)
  obtain ⟨all, hall, hnodes⟩ := Json.parts_of_fits (hfits list rfl).1
  obtain rfl : parts = all := Except.ok.inj (hparts.symm.trans hall)
  intro part hmem
  obtain ⟨inner, hkind, hinner⟩ := Json.isA_of_fits ((hnodes part hmem).resolve_left (by simp))
  exact .plain rfl hinner (List.mem_cons_of_mem _ hkind)

/-- **Every rule for expressions begins as is taken to be.** -/
lemma leadsOn_headKinds :
    ∀ kind ∈ headKinds, kind ≠ "ParenthesizedExpression" → LeadsOn s kind := by
  have hexpressions : ∀ k ∈ Estree.expressions, k ∈ headKinds := by decide
  have hbinary : LeadsOn s "BinaryExpression" :=
    ⟨_, rfl, fun _ _ h _ => opens_binary .hidden fun _ _ => leads_bare h rfl rfl (by decide) rfl⟩
  have hlogical : LeadsOn s "LogicalExpression" :=
    ⟨_, rfl, fun _ _ h _ => opens_binary .hidden fun _ _ => leads_bare h rfl rfl hexpressions rfl⟩
  have hword (content : String) {kind : String} (hrule : valueRules.lookup kind = some (word content))
      (hleftmost : ∀ node, Precedence.leftmost node (.str kind) = .ok none) : LeadsOn s kind :=
    leadsOn_own hrule hleftmost fun _ _ _ _ hP => opens_word hP content
  simp only [headKinds, Estree.expressions, List.cons_append, List.nil_append,
    List.forall_mem_cons]
  refine ⟨fun _ => hword "super" rfl fun _ => rfl,
    fun _ => leadsOn_own rfl (fun _ => rfl) fun _ _ _ _ hP => opens_privateIdentifier hP,
    fun _ => leadsOn_own rfl (fun _ => rfl) fun _ _ _ _ hP => opens_objectPattern hP,
    fun _ => leadsOn_own rfl (fun _ => rfl) fun _ _ _ _ hP => opens_array hP,
    fun _ => leadsOn_own rfl (fun _ => rfl) fun _ _ _ _ hP => opens_spread hP,
    fun _ => leadsOn_own rfl (fun _ => rfl) fun _ _ _ _ hP => opens_decorator hP,
    fun _ => leadsOn_own rfl (fun _ => rfl) fun _ _ _ _ hP => opens_identifier hP,
    fun _ => leadsOn_own rfl (fun _ => rfl) fun _ _ _ _ hP => opens_literal hP,
    fun _ => hword "this" rfl fun _ => rfl,
    fun _ => leadsOn_own rfl (fun _ => rfl) fun _ _ _ _ hP => opens_array hP,
    fun _ => leadsOn_own rfl (fun _ => rfl) fun _ _ _ _ hP => opens_object hP,
    fun _ => leadsOn_own rfl (fun _ => rfl) fun _ _ _ _ hP => opens_function hP,
    fun _ => leadsOn_own rfl (fun _ => rfl) fun _ inner _ h hP =>
      opens_arrow hP (opensTypes_of_isA h inner),
    fun _ => leadsOn_class,
    fun _ => leadsOn_own rfl (fun _ => rfl) fun _ _ _ _ hP => opens_unary hP,
    fun _ => leadsOn_update, fun _ => hbinary, fun _ => hlogical, fun _ => leadsOn_assignment,
    fun _ => ⟨_, rfl, fun _ _ h _ => opens_conditional fun _ _ =>
      leads_bare h rfl rfl hexpressions rfl⟩,
    fun _ => ⟨_, rfl, fun _ _ h _ => opens_member fun _ _ => leads_bare h rfl rfl (by decide) rfl⟩,
    fun _ => ⟨_, rfl, fun _ _ h _ => opens_call fun _ _ => leads_bare h rfl rfl (by decide) rfl⟩,
    fun _ => leadsOn_own rfl (fun _ => rfl) fun _ _ _ _ hP => opens_new hP,
    fun _ => ⟨_, rfl, fun _ _ h _ => opens_transparent fun part hpart => ?_⟩,
    fun _ => leadsOn_own rfl (fun _ => rfl) fun _ _ _ _ hP => opens_importCall hP,
    fun _ => leadsOn_own rfl (fun _ => rfl) fun _ _ _ _ hP => opens_commaExpression hP,
    fun _ => leadsOn_own rfl (fun _ => rfl) fun _ _ _ _ hP => opens_yield hP,
    fun _ => leadsOn_own rfl (fun _ => rfl) fun _ _ _ _ hP => opens_await hP,
    fun _ => leadsOn_own rfl (fun _ => rfl) fun _ _ _ _ hP => opens_template hP,
    fun _ => ⟨_, rfl, fun _ _ h _ => opens_taggedTemplate fun _ _ =>
      leads_bare h rfl rfl hexpressions rfl⟩,
    fun _ => leadsOn_metaProperty, fun hne => absurd rfl hne, List.forall_mem_nil _⟩
  obtain ⟨inner, hmem, hinner⟩ := isA_of_require h rfl rfl hpart
  exact leads_first hinner ((by decide : ∀ k ∈ ["CallExpression", "MemberExpression"],
    k ∈ headKinds) inner hmem) rfl hpart

end Rules

end EstreePrinter
