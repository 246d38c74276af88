import Mathlib
import EstreePrinter.Precedence
import EstreePrinter.Proofs.Estree.Reading

/-!
# Binding strengths in well-formed trees

The questions that decide about parentheses look into an expression, at its kind, its operator and
the part it begins with.  In a well-formed tree each of them has an answer: the operator of a binary
or logical expression is in the table of strengths, and only such expressions are asked for one.
-/

namespace EstreePrinter

open Json (Part)

namespace Precedence

variable {node : Json} {kind : String}

/-! ## The expression itself -/

/-- What is inside of the parentheses of a well-formed node is well-formed. -/
lemma exists_unwrap {node : Json} {kind : String} (h : node.IsA kind) :
    ∃ core, unwrap node = .ok core ∧ ∃ inner, core.1.IsA inner := by
  by_cases hkind : kind = "ParenthesizedExpression"
  · subst hkind
    obtain ⟨inside, hinside, kind, -, hinner⟩ := (h.conforms rfl).requireNode "expression" rfl
    have hsmaller := inside.2.sizeOf_lt
    obtain ⟨core, hcore, hwell⟩ := exists_unwrap hinner
    refine ⟨⟨core.1, by have := core.2; omega⟩, ?_, hwell⟩
    rw [unwrap, h.kind_eq, ok_bind]
    simp [Json.isText, hinside, hcore]
  · refine ⟨⟨node, Nat.le_refl _⟩, ?_, kind, h⟩
    rw [unwrap, h.kind_eq, ok_bind]
    simp [Json.isText, hkind]
termination_by sizeOf node

lemma exists_strength (h : node.IsA kind) : ∃ strength, strength? node = .ok strength := by
  obtain ⟨core, hcore, inner, hinner⟩ := exists_unwrap h
  exact ⟨_, by rw [strength?, hcore, ok_bind, hinner.kind_eq]; rfl⟩

lemma exists_bindsLooser (h : node.IsA kind) (threshold : Nat) :
    ∃ b, bindsLooser node threshold = .ok b := by
  obtain ⟨strength, hstrength⟩ := exists_strength h
  rw [bindsLooser, hstrength, ok_bind]
  cases strength with
  | none => exact ⟨_, rfl⟩
  | some strength => exact ⟨_, rfl⟩

lemma exists_wrapsAsHead (h : node.IsA kind) (threshold : Nat) :
    ∃ b, wrapsAsHead node threshold = .ok b := by
  obtain ⟨looser, hlooser⟩ := exists_bindsLooser h threshold
  obtain ⟨core, hcore, inner, hinner⟩ := exists_unwrap h
  rw [wrapsAsHead, hlooser, ok_bind]
  cases looser with
  | true => exact ⟨_, rfl⟩
  | false => exact ⟨_, by rw [if_neg Bool.false_ne_true, hcore, ok_bind, hinner.kind_eq]; rfl⟩

lemma exists_wrapsAsTest (h : node.IsA kind) : ∃ b, wrapsAsTest node = .ok b := by
  obtain ⟨strength, hstrength⟩ := exists_strength h
  rw [wrapsAsTest, hstrength, ok_bind]
  cases strength with
  | none => exact ⟨_, rfl⟩
  | some strength => exact ⟨_, rfl⟩

/-! ## Operands -/

/-- The kinds of expressions with an operator between two operands. -/
def operations : List String := ["BinaryExpression", "LogicalExpression"]

lemma exists_ofOperator : ∀ op ∈ Estree.binaryOperators ++ Estree.logicalOperators,
    ∃ n, ofOperator (.str op) = .ok n := by
  have hfound : ∀ op ∈ Estree.binaryOperators ++ Estree.logicalOperators,
      (operators.lookup op).isSome := by decide
  intro op hop
  obtain ⟨n, hn⟩ := Option.isSome_iff_exists.mp (hfound op hop)
  exact ⟨n, by simp [ofOperator, Json.key, hn]⟩

/-- The operator of an operation is in the table. -/
lemma exists_operator (h : node.IsA kind) (hkind : kind ∈ operations) :
    ∃ op, node.require "operator" = .ok op ∧ ∃ n, ofOperator op.1 = .ok n := by
  obtain ⟨op, hop, s, hs, hvalue⟩ : ∃ op, node.require "operator" = .ok op ∧
      ∃ s ∈ Estree.binaryOperators ++ Estree.logicalOperators, op.1 = .str s := by
    simp only [operations, List.mem_cons, List.not_mem_nil, or_false] at hkind
    rcases hkind with rfl | rfl
    · obtain ⟨op, hop, hfits⟩ := (h.conforms rfl).require "operator" rfl
      obtain ⟨s, hs, hvalue⟩ := Json.word_of_fits hfits
      exact ⟨op, hop, s, List.mem_append_left _ hs, hvalue⟩
    · obtain ⟨op, hop, hfits⟩ := (h.conforms rfl).require "operator" rfl
      obtain ⟨s, hs, hvalue⟩ := Json.word_of_fits hfits
      exact ⟨op, hop, s, List.mem_append_right _ hs, hvalue⟩
  exact ⟨op, hop, hvalue ▸ exists_ofOperator s hs⟩

/-- The strengths of operations are the strengths of nothing else. -/
lemma mem_operations_of_lookup {strength : Nat} (h : kinds.lookup kind = some strength)
    (hstrength : strength = logical ∨ strength = binary) : kind ∈ operations := by
  have hall : ∀ entry ∈ kinds, entry.2 = logical ∨ entry.2 = binary → entry.1 ∈ operations := by
    decide
  obtain ⟨before, behind, htable, -⟩ := List.lookup_eq_some_iff.mp h
  exact hall (kind, strength) (by simp [htable]) hstrength

variable {parent : Json} {outer : String}

lemma exists_needsParensAmongEquals (h : node.IsA kind) (hkind : kind ∈ operations)
    (hparent : parent.IsA outer) (houter : outer ∈ operations) (isRight : Bool) :
    ∃ b, needsParensAmongEquals node parent isRight = .ok b := by
  obtain ⟨inner, hinner, n, hn⟩ := exists_operator h hkind
  obtain ⟨op, hop, m, hm⟩ := exists_operator hparent houter
  simp only [needsParensAmongEquals, hinner, hop, hn, hm, ok_bind, pure_eq_ok]
  by_cases hpower : inner.1.isText "**" = true
  · simp only [hpower, if_true]
    split
    · exact ⟨_, rfl⟩
    · exact ⟨_, rfl⟩
  · simp [hpower]

lemma exists_needsParensByStrength (h : node.IsA kind) (hparent : parent.IsA outer)
    (houter : outer ∈ operations) (isRight : Bool) {strength m : Nat}
    (hstrength : kinds.lookup kind = some strength) :
    ∃ b, needsParensByStrength (.str kind) node parent isRight strength m = .ok b := by
  obtain ⟨op, hop, -⟩ := exists_operator hparent houter
  unfold needsParensByStrength
  split_ifs with hne hpower hneither
  · exact ⟨_, by rw [hop]; rfl⟩
  · exact ⟨_, rfl⟩
  · exact ⟨_, rfl⟩
  · exact exists_needsParensAmongEquals h (mem_operations_of_lookup hstrength (by omega)) hparent
      houter isRight

lemma exists_mixesCoalescing (h : node.IsA "LogicalExpression") (hparent : parent.IsA outer)
    (houter : outer ∈ operations) : ∃ b, mixesCoalescing node parent = .ok b := by
  obtain ⟨inner, hinner, -⟩ := exists_operator h (by decide)
  obtain ⟨op, hop, -⟩ := exists_operator hparent houter
  exact ⟨_, by rw [mixesCoalescing, hop, ok_bind, hinner]; rfl⟩

/-- Logic inside logic is asked about before anything else is. -/
lemma exists_unlessMixed (h : node.IsA kind) (hparent : parent.IsA outer)
    (houter : outer ∈ operations) {rest : Except Fault Bool} (hrest : ∃ b, rest = .ok b) :
    ∃ b, (if Json.isText "LogicalExpression" (.str kind) then
        if Json.isText "LogicalExpression" (.str outer) then do
          let mixed ← mixesCoalescing node parent
          if mixed then .ok true else rest
        else rest
      else rest) = .ok b := by
  split
  · rename_i hlogical
    obtain rfl : kind = "LogicalExpression" := by simpa [Json.isText] using hlogical
    obtain ⟨mixed, hmixed⟩ := exists_mixesCoalescing h hparent houter
    rw [hmixed, ok_bind]
    split
    · cases mixed with
      | false => exact hrest
      | true => exact ⟨_, rfl⟩
    · exact hrest
  · exact hrest

/-- **Whether an operand needs parentheses** can be told. -/
lemma exists_needsParens (h : node.IsA kind) (hparent : parent.IsA outer)
    (houter : outer ∈ operations) (isRight : Bool) :
    ∃ b, needsParens node parent isRight = .ok b := by
  obtain ⟨core, hcore, inner, hinner⟩ := exists_unwrap h
  have hof (name : String) : ofKind (.str name) = .ok (kinds.lookup name) := rfl
  simp only [needsParens, hcore, ok_bind, hinner.kind_eq, hparent.requireKind_eq,
    hinner.isGiven_kind, if_true, hof, pure_eq_ok, Bool.false_eq_true, if_false]
  split
  · exact ⟨_, rfl⟩
  · refine exists_unlessMixed hinner hparent houter ?_
    split
    · rename_i strength m hstrength _
      exact exists_needsParensByStrength hinner hparent houter isRight hstrength
    · exact ⟨_, rfl⟩

/-! ## Heads -/

lemma exists_hasCall {node : Json} {kind : String} (h : node.IsA kind) :
    ∃ b, hasCall node = .ok b := by
  obtain ⟨core, hcore, inner, hinner⟩ := exists_unwrap h
  have hsize := core.2
  rw [hasCall]
  split
  · exact ⟨_, rfl⟩
  · simp only [hcore, ok_bind, hinner.requireKind_eq]
    split
    · exact ⟨_, rfl⟩
    · split
      · rename_i hmember
        obtain rfl : inner = "MemberExpression" := by simpa [Json.isText] using hmember
        obtain ⟨head, hhead, k, -, hk⟩ := (hinner.conforms rfl).requireNode "object" rfl
        have := head.2.sizeOf_lt
        rw [hhead, ok_bind]
        exact exists_hasCall hk
      · exact ⟨_, rfl⟩
termination_by sizeOf node

/-- A field that begins the text of its node, unless it goes in parentheses. -/
lemma exists_bare (h : node.IsA kind) {form : Form} (hform : Estree.forms.lookup kind = some form)
    (key : String) {options : List String}
    (hneed : (Estree.common ++ form).lookup key = some ⟨.node options, false⟩)
    {wrap : Part node → Except Fault Bool}
    (hwrap : ∀ child inner, child.1.IsA inner → ∃ b, wrap child = .ok b) :
    ∃ found, (do
      let child ← node.require key
      pure (if ← wrap child then none else some child)) = .ok found ∧
        ∀ child ∈ found, ∃ inner, child.1.IsA inner := by
  obtain ⟨child, hchild, inner, -, hinner⟩ := (h.conforms hform).requireNode key hneed
  obtain ⟨b, hb⟩ := hwrap child inner hinner
  refine ⟨if b then none else some child, by rw [hchild, ok_bind, hb]; rfl, fun found hfound => ?_⟩
  cases b with
  | true => cases hfound
  | false =>
      cases hfound
      exact ⟨inner, hinner⟩

/-- A field that begins the text of its node without parentheses. -/
lemma exists_first (h : node.IsA kind) {form : Form} (hform : Estree.forms.lookup kind = some form)
    (key : String) {options : List String}
    (hneed : (Estree.common ++ form).lookup key = some ⟨.node options, false⟩) :
    ∃ found, some <$> node.require key = .ok found ∧
      ∀ child ∈ found, ∃ inner, child.1.IsA inner := by
  obtain ⟨child, hchild, inner, -, hinner⟩ := (h.conforms hform).requireNode key hneed
  refine ⟨some child, by rw [hchild]; rfl, fun found hfound => ?_⟩
  cases hfound
  exact ⟨inner, hinner⟩

/-- The part with which the text of a well-formed node begins is well-formed. -/
lemma exists_leftmost (h : node.IsA kind) :
    ∃ found, leftmost node (.str kind) = .ok found ∧
      ∀ child ∈ found, ∃ inner, child.1.IsA inner := by
  have hforeign {name : String} (hname : Estree.forms.lookup name = none) (hkind : kind = name) :
      False := by
    obtain ⟨form, hform, -⟩ := h.form
    simp [hkind, hname] at hform
  unfold leftmost
  split
  · rename_i heq
    cases heq
    exact exists_bare h rfl "left" rfl fun child inner hinner =>
      exists_needsParens hinner h (by decide) false
  · rename_i heq
    cases heq
    exact exists_bare h rfl "left" rfl fun child inner hinner =>
      exists_needsParens hinner h (by decide) false
  · rename_i heq
    cases heq
    exact exists_bare h rfl "test" rfl fun child inner hinner => exists_wrapsAsTest hinner
  · rename_i heq
    cases heq
    exact exists_bare h rfl "object" rfl fun child inner hinner => exists_wrapsAsHead hinner member
  · rename_i heq
    cases heq
    exact exists_bare h rfl "callee" rfl fun child inner hinner => exists_wrapsAsHead hinner call
  · rename_i heq
    cases heq
    exact exists_bare h rfl "tag" rfl fun child inner hinner => exists_wrapsAsHead hinner member
  · rename_i heq
    exact (hforeign rfl (Json.str.inj heq)).elim
  · rename_i heq
    exact (hforeign rfl (Json.str.inj heq)).elim
  · rename_i heq
    exact (hforeign rfl (Json.str.inj heq)).elim
  · rename_i heq
    cases heq
    obtain ⟨isBefore, hbefore⟩ := Json.exists_flag h.isObject "prefix"
    rw [hbefore, ok_bind]
    cases isBefore with
    | true => exact ⟨none, rfl, fun child hchild => by cases hchild⟩
    | false => exact exists_first h rfl "argument" rfl
  · rename_i heq
    cases heq
    exact exists_first h rfl "left" rfl
  · rename_i heq
    cases heq
    exact exists_first h rfl "expression" rfl
  · exact ⟨none, rfl, fun child hchild => by cases hchild⟩

/-- **Whether the text of an expression begins with one of some kinds** can be told. -/
lemma exists_startsWith {node : Json} {kind : String} (h : node.IsA kind) (options : List String) :
    ∃ b, startsWith node options = .ok b := by
  obtain ⟨core, hcore, inner, hinner⟩ := exists_unwrap h
  obtain ⟨found, hfound, hwell⟩ := exists_leftmost hinner
  have hsize := core.2
  rw [startsWith, hcore, ok_bind, hinner.kind_eq, ok_bind]
  simp only [Json.isIn, Json.key, ok_bind, pure_eq_ok]
  split
  · exact ⟨_, rfl⟩
  · rw [hfound, ok_bind]
    cases found with
    | none => exact ⟨_, rfl⟩
    | some child =>
        obtain ⟨k, hk⟩ := hwell child rfl
        have := child.2.sizeOf_lt
        exact exists_startsWith hk options
termination_by sizeOf node

end Precedence

end EstreePrinter
