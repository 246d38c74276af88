import Mathlib
import EstreePrinter.Precedence
import EstreePrinter.Proofs.Grammar.Phrase

/-!
# Strengths and levels

Parentheses are decided on by binding strengths, which are numbers; the grammar has levels, and the
two do not line up: one strength stands for all binary operators, and a comma expression has the
strength of a name because it brings its own parentheses.

**Operators.**  A `Shape` says at which level an operation stands and at which levels its two
operands do.  `Phrase.operation` puts an operation of any shape together.

**Expressions.**  `Expr.strength` is the strength of an expression and `Expr.level` the level at
which its printed text stands.  The lemmas `level_within_*` are what the strengths are good for: an
expression that is strong enough stands at a level that is low enough.
-/

namespace EstreePrinter

namespace Grammar

/-! ## Operations -/

/-- The level of an operation, and the levels of its operands. -/
structure Shape where
  own : Level
  left : Level
  right : Level

namespace Shape

/-- An operation at a level that groups to the left. -/
def groupsLeft (l : Level) : Shape := ⟨l, l, l.below.headD .primary⟩

/-- The level of one of the operands. -/
def operand (shape : Shape) (isRight : Bool) : Level := if isRight then shape.right else shape.left

end Shape

/-- The two kinds of operations. -/
inductive Family where
  | binary
  | logical
  deriving DecidableEq

namespace Family

/-- The kind of the nodes. -/
def kind : Family → String
  | .binary => "BinaryExpression"
  | .logical => "LogicalExpression"

/-- The strength of the operations. -/
def strength : Family → Nat
  | .binary => 14
  | .logical => 13

/-- The operation with given operands. -/
def expr : Family → String → Expr → Expr → Expr
  | .binary => .binary
  | .logical => .logical

/-- The shapes of the operations, by their operators.  All group to the left but `**`, which groups
to the right, and `??`, which does not mix with the other logical operators. -/
def shapes : Family → List (String × Shape)
  | .binary => ("**", ⟨.power, .update, .power⟩) ::
      binaryLevels.map fun entry => (entry.1, .groupsLeft entry.2)
  | .logical => ("??", ⟨.coalesce, .coalesceHead, .bitOr⟩) ::
      logicalLevels.map fun entry => (entry.1, .groupsLeft entry.2)

/-- The operators. -/
def operators (family : Family) : List String := family.shapes.map Prod.fst

/-- The level of the operation with an operator. -/
def levelOf (family : Family) (op : String) : Level :=
  ((family.shapes.lookup op).map Shape.own).getD .primary

lemma lookup_of_mem {family : Family} {op : String} (h : op ∈ family.operators) :
    ∃ shape, family.shapes.lookup op = some shape := by
  rw [← Option.isSome_iff_exists]
  have hall : ∀ op ∈ family.operators, (family.shapes.lookup op).isSome = true := by
    cases family with
    | binary => decide
    | logical => decide
  exact hall op h

lemma mem_of_lookup {family : Family} {op : String} {shape : Shape}
    (h : family.shapes.lookup op = some shape) : (op, shape) ∈ family.shapes := by
  obtain ⟨l₁, l₂, hshapes, -⟩ := List.lookup_eq_some_iff.mp h
  rw [hshapes]
  simp

lemma levelOf_eq {family : Family} {op : String} {shape : Shape}
    (h : family.shapes.lookup op = some shape) : family.levelOf op = shape.own := by
  simp [levelOf, h]

/-- No operation stands at the level of calls. -/
lemma levelOf_ne_call (family : Family) (op : String) : family.levelOf op ≠ .call := by
  have hall : ∀ entry ∈ family.shapes, entry.2.own ≠ .call := by
    cases family with
    | binary => decide
    | logical => decide
  cases hlookup : family.shapes.lookup op with
  | none => simp [levelOf, hlookup]
  | some shape =>
      rw [levelOf_eq hlookup]
      exact hall _ (mem_of_lookup hlookup)

end Family

/-- The right operand of an operation that groups to the left stands one level below it. -/
lemma Shape.right_mem_below :
    (∀ entry ∈ binaryLevels, (Shape.groupsLeft entry.2).right ∈ entry.2.below) ∧
      ∀ entry ∈ logicalLevels, (Shape.groupsLeft entry.2).right ∈ entry.2.below := by
  decide

/-- An operation of any shape, put together from its operands. -/
lemma Phrase.operation {family : Family} {op : String} {shape : Shape}
    (hshape : (op, shape) ∈ family.shapes) {ls ms : List Lexeme} {e f : Expr} {d : Bool}
    (h : Phrase shape.left ls e) (hf : Phrase shape.right ms f) :
    Phrase shape.own (ls ++ .gap false :: .token op :: .gap d :: ms) (family.expr op e f) := by
  cases family with
  | binary =>
      rcases List.mem_cons.mp hshape with heq | hmem
      · obtain ⟨rfl, rfl⟩ := Prod.mk.inj heq
        exact h.power hf
      · obtain ⟨entry, hentry, heq⟩ := List.mem_map.mp hmem
        obtain ⟨rfl, rfl⟩ := Prod.mk.inj heq
        exact Phrase.binary hentry (Shape.right_mem_below.1 entry hentry) h hf
  | logical =>
      rcases List.mem_cons.mp hshape with heq | hmem
      · obtain ⟨rfl, rfl⟩ := Prod.mk.inj heq
        exact h.coalesce hf
      · obtain ⟨entry, hentry, heq⟩ := List.mem_map.mp hmem
        obtain ⟨rfl, rfl⟩ := Prod.mk.inj heq
        exact Phrase.logical hentry (Shape.right_mem_below.2 entry hentry) h hf

/-! ## Expressions -/

/-- The level of a member access, given the level of its head. -/
def Level.extended (l : Level) : Level := if l = .call then .call else .member

lemma Level.extended_cases (l : Level) : l.extended = .member ∨ l.extended = .call := by
  unfold Level.extended
  split
  · exact Or.inr rfl
  · exact Or.inl rfl

namespace Expr

/-- The kind of the nodes that an expression describes. -/
def kind : Expr → String
  | .name _ => "Identifier"
  | .binary _ _ _ => "BinaryExpression"
  | .logical _ _ _ => "LogicalExpression"
  | .unary _ _ => "UnaryExpression"
  | .update _ _ _ => "UpdateExpression"
  | .await _ => "AwaitExpression"
  | .yield _ => "YieldExpression"
  | .yieldAll _ => "YieldExpression"
  | .conditional _ _ _ => "ConditionalExpression"
  | .assign _ _ _ => "AssignmentExpression"
  | .sequence _ _ _ => "SequenceExpression"
  | .arrow _ _ _ => "ArrowFunctionExpression"
  | .member _ _ => "MemberExpression"
  | .index _ _ => "MemberExpression"
  | .call _ _ => "CallExpression"

/-- How strongly an expression binds. -/
def strength : Expr → Nat
  | .name _ => 20
  | .sequence _ _ _ => 20
  | .member _ _ => 19
  | .index _ _ => 19
  | .call _ _ => 19
  | .await _ => 17
  | .update _ _ _ => 16
  | .unary _ _ => 15
  | .binary _ _ _ => 14
  | .logical _ _ _ => 13
  | .conditional _ _ _ => 4
  | .assign _ _ _ => 3
  | .arrow _ _ _ => 3
  | .yield _ => 2
  | .yieldAll _ => 2

/-- The level at which an expression is printed. -/
def level : Expr → Level
  | .name _ => .primary
  | .sequence _ _ _ => .primary
  | .member head _ => head.level.extended
  | .index head _ => head.level.extended
  | .call _ _ => .call
  | .update _ _ _ => .update
  | .await _ => .unary
  | .unary _ _ => .unary
  | .binary op _ _ => Family.binary.levelOf op
  | .logical op _ _ => Family.logical.levelOf op
  | .conditional _ _ _ => .conditional
  | .assign _ _ _ => .assignment
  | .arrow _ _ _ => .assignment
  | .yield _ => .assignment
  | .yieldAll _ => .assignment

/-- The operator that an expression begins with, if it does. -/
def sign : Expr → Option String
  | .unary op _ => some op
  | .update op true _ => some op
  | _ => none

/-- The strengths are those of the table. -/
lemma lookup_kind (e : Expr) : Precedence.kinds.lookup e.kind = some e.strength := by
  cases e <;> rfl

/-- An operation stands at the level of its shape. -/
lemma level_operation {family : Family} {op : String} {shape : Shape}
    (h : family.shapes.lookup op = some shape) (e f : Expr) :
    (family.expr op e f).level = shape.own := by
  rw [← Family.levelOf_eq h]
  cases family with
  | binary => rfl
  | logical => rfl

/-- A head is a primary expression, a member access or a call. -/
lemma level_head {e : Expr} (h : 19 ≤ e.strength) :
    e.level = .primary ∨ e.level = .member ∨ e.level = .call := by
  cases e with
  | name s => exact Or.inl rfl
  | sequence first second rest => exact Or.inl rfl
  | member head p => exact Or.inr (Level.extended_cases _)
  | index head p => exact Or.inr (Level.extended_cases _)
  | call callee args => exact Or.inr (Or.inr rfl)
  | _ => simp [strength] at h

/-- Nothing but a member access or a call stands at the level of calls. -/
lemma level_ne_call {e : Expr} (h : e.strength < 19) : e.level ≠ .call := by
  cases e with
  | binary op left right => exact Family.levelOf_ne_call .binary op
  | logical op left right => exact Family.levelOf_ne_call .logical op
  | _ => simp [strength, level] at h ⊢

/-- A head begins with no operator of its own. -/
lemma sign_eq_none {e : Expr} (h : 19 ≤ e.strength) : e.sign = none := by
  cases e with
  | unary op argument => simp [strength] at h
  | update op isBefore target => simp [strength] at h
  | _ => rfl

lemma level_within_leftHand {e : Expr} (h : 19 ≤ e.strength) : e.level.Within .leftHand := by
  rcases level_head h with hl | hl | hl
  · exact hl ▸ Level.within_of_isWithin rfl
  · exact hl ▸ Level.within_of_isWithin rfl
  · exact hl ▸ Level.within_of_isWithin rfl

lemma level_within_update {e : Expr} (h : 16 ≤ e.strength) (hawait : e.kind ≠ "AwaitExpression") :
    e.level.Within .update := by
  by_cases hhead : 19 ≤ e.strength
  · exact (level_within_leftHand hhead).trans (Level.within_of_isWithin rfl)
  · cases e with
    | update op isBefore target => exact .refl
    | await argument => exact absurd rfl hawait
    | _ => simp [strength] at h hhead

lemma level_within_unary {e : Expr} (h : 15 ≤ e.strength) : e.level.Within .unary := by
  by_cases hhead : 19 ≤ e.strength
  · exact (level_within_leftHand hhead).trans (Level.within_of_isWithin rfl)
  · cases e with
    | update op isBefore target => exact Level.within_of_isWithin rfl
    | await argument => exact .refl
    | unary op argument => exact .refl
    | _ => simp [strength] at h hhead

/-- All operations stand below the conditional expressions, and the binary ones below the logical
ones. -/
lemma levelOf_within (family : Family) (op : String) :
    (family.levelOf op).Within (if family = .binary then .bitOr else .shortCircuit) := by
  have hall : ∀ entry ∈ family.shapes, Level.isWithin 22 entry.2.own
      (if family = .binary then .bitOr else .shortCircuit) = true := by
    cases family with
    | binary => decide
    | logical => decide
  cases hlookup : family.shapes.lookup op with
  | none =>
      rw [Family.levelOf, hlookup]
      cases family with
      | binary => exact Level.within_of_isWithin rfl
      | logical => exact Level.within_of_isWithin rfl
  | some shape =>
      rw [Family.levelOf_eq hlookup]
      exact Level.within_of_isWithin (hall _ (Family.mem_of_lookup hlookup))

lemma level_within_shortCircuit {e : Expr} (h : 4 < e.strength) :
    e.level.Within .shortCircuit := by
  by_cases hunary : 15 ≤ e.strength
  · exact (level_within_unary hunary).trans (Level.within_of_isWithin rfl)
  · cases e with
    | binary op left right =>
        exact (levelOf_within .binary op).trans (Level.within_of_isWithin rfl)
    | logical op left right => exact levelOf_within .logical op
    | _ => simp [strength] at h hunary

/-- Every expression can stand as an item of a list. -/
lemma level_within_assignment (e : Expr) : e.level.Within .assignment := by
  by_cases h : 4 < e.strength
  · exact (level_within_shortCircuit h).trans (Level.within_of_isWithin rfl)
  · cases e with
    | conditional test yes no => exact Level.within_of_isWithin rfl
    | assign op target value => exact .refl
    | arrow isAsync parameters body => exact .refl
    | yield argument => exact .refl
    | yieldAll argument => exact .refl
    | _ => simp [strength] at h

end Expr

/-! ## Operands -/

/-- Whether an operand needs parentheses that is an operation of the same family: `**` groups to the
right, the others to the left, and `??` does not mix with the other logical operators. -/
def wrapsAmong (inner outer : String) (isRight : Bool) : Bool :=
  (outer == "??") != (inner == "??") ||
    if inner == "**" && outer == "**" then !isRight
    else
      let strengthOf (op : String) := (Precedence.operators.lookup op).getD 0
      decide (if isRight then strengthOf inner ≤ strengthOf outer
        else strengthOf inner < strengthOf outer)

/-- **An operation that is left without parentheses** as an operand of the same family stands at the
level that is asked for there. -/
lemma operand_of_wrapsAmong {family : Family} {inner outer : String} {shape shape' : Shape}
    (hinner : (inner, shape') ∈ family.shapes) (houter : (outer, shape) ∈ family.shapes)
    {isRight : Bool} (h : wrapsAmong inner outer isRight = false) :
    shape'.own.Within (shape.operand isRight) := by
  have hall : ∀ entry' ∈ family.shapes, ∀ entry ∈ family.shapes, ∀ isRight,
      wrapsAmong entry'.1 entry.1 isRight = false →
        Level.isWithin 22 entry'.2.own (entry.2.operand isRight) = true := by
    cases family with
    | binary => decide
    | logical => decide
  exact Level.within_of_isWithin (hall _ hinner _ houter isRight h)

/-- What the operands of an operation may be at least: a unary expression, or before `**` an
increment or decrement. -/
lemma operand_least {family : Family} {op : String} {shape : Shape}
    (hop : (op, shape) ∈ family.shapes) (isRight : Bool) :
    Level.Within .update (shape.operand isRight) ∧
      (op ≠ "**" ∨ isRight = true → Level.Within .unary (shape.operand isRight)) := by
  have hall : ∀ entry ∈ family.shapes, ∀ isRight,
      Level.isWithin 22 .update (entry.2.operand isRight) = true ∧
        (entry.1 ≠ "**" ∨ isRight = true →
          Level.isWithin 22 .unary (entry.2.operand isRight) = true) := by
    cases family with
    | binary => decide
    | logical => decide
  obtain ⟨hupdate, hunary⟩ := hall _ hop isRight
  exact ⟨Level.within_of_isWithin hupdate, fun h => Level.within_of_isWithin (hunary h)⟩

/-- A binary operation may be an operand of a logical one. -/
lemma operand_logical {op : String} {shape : Shape} (hop : (op, shape) ∈ Family.logical.shapes)
    (isRight : Bool) : Level.Within .bitOr (shape.operand isRight) := by
  have hall : ∀ entry ∈ Family.logical.shapes, ∀ isRight,
      Level.isWithin 22 .bitOr (entry.2.operand isRight) = true := by decide
  exact Level.within_of_isWithin (hall _ hop isRight)

/-- **An operand at the level of unary expressions** may stand anywhere but before `**`, and at the
level of increments and decrements there as well. -/
lemma operand_of_unary {family : Family} {op : String} {shape : Shape}
    (hop : (op, shape) ∈ family.shapes) {isRight : Bool} {l : Level} (hl : l.Within .unary)
    (hpower : op = "**" → family = .binary → isRight = false → l.Within .update) :
    l.Within (shape.operand isRight) := by
  obtain ⟨hupdate, hunary⟩ := operand_least hop isRight
  by_cases hleft : op ≠ "**" ∨ isRight = true
  · exact hl.trans (hunary hleft)
  · rw [not_or, not_not, Bool.not_eq_true] at hleft
    have hbinary : family = .binary := by
      cases family with
      | binary => rfl
      | logical =>
          have hmem : "**" ∉ Family.logical.operators := by decide
          exact absurd (hleft.1 ▸ List.mem_map_of_mem (f := Prod.fst) hop) hmem
    exact (hpower hleft.1 hbinary hleft.2).trans hupdate

/-- **An operand that binds stronger than the operation** stands at the level that is asked for
there, with one exception: no unary expression may stand before `**`. -/
lemma operand_of_strength {family : Family} {op : String} {shape : Shape}
    (hop : (op, shape) ∈ family.shapes) {isRight : Bool} {e : Expr}
    (hstrong : family.strength < e.strength)
    (hpower : op = "**" → family = .binary → isRight = false →
      e.kind ≠ "UnaryExpression" ∧ e.kind ≠ "AwaitExpression") :
    e.level.Within (shape.operand isRight) := by
  by_cases hstrength : 15 ≤ e.strength
  · refine operand_of_unary hop (Expr.level_within_unary hstrength) fun hop hbinary hleft => ?_
    obtain ⟨hnot, hawait⟩ := hpower hop hbinary hleft
    refine Expr.level_within_update ?_ hawait
    by_contra hweak
    cases e with
    | unary op argument => exact hnot rfl
    | _ => simp [Expr.strength] at hstrength hweak
  · cases family with
    | binary =>
        simp only [Family.strength] at hstrong
        omega
    | logical =>
        -- nothing is weaker than a unary expression here but a binary operation
        cases e with
        | binary op' left right =>
            exact (Expr.levelOf_within .binary op').trans (operand_logical hop isRight)
        | _ => simp [Expr.strength, Family.strength] at hstrong hstrength

end Grammar

end EstreePrinter
