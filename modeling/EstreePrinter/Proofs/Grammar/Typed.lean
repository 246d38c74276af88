import Mathlib
import EstreePrinter.Proofs.Grammar.Strength
import EstreePrinter.Proofs.Grammar.TypeExpression

/-!
# The grammar of expressions with types

The grammar of expressions, with the productions for types in them: `as` and `satisfies` stand among
the relations and group to the left, `!` stands behind a head, and a type in angle brackets stands
before the argument of an operator.  The types are single words.

A type goes on as long as it can: `|` and `&` behind a type are signs of a longer type.  A
derivation therefore tells whether its last token is a type, and before `|` and `&` it must not be
one.

* `Typed` — the trees, without parentheses;
* **`DerivesTyped`** — which tokens are derived from a nonterminal, and with which tree.  No line
  feed may stand before `as`, `satisfies` and `!`;
* `Typed.strength`, `Typed.level` — how strongly an expression binds, and where its printed text
  stands;
* `typedAlphabet` — the signs.
-/

namespace EstreePrinter

namespace Grammar

/-! ## Trees -/

/-- A type behind an expression. -/
inductive Ascription where
  | asType
  | satisfies
  deriving DecidableEq, Repr

namespace Ascription

/-- The word between the expression and the type. -/
def word : Ascription → String
  | .asType => "as"
  | .satisfies => "satisfies"

/-- The kind of the nodes. -/
def kind : Ascription → String
  | .asType => "TSAsExpression"
  | .satisfies => "TSSatisfiesExpression"

/-- How strongly an expression with a type behind it binds. -/
def strength : Ascription → Nat
  | .asType => 16
  | .satisfies => 18

end Ascription

/-- An expression with types in it. -/
inductive Typed where
  | name (s : String)
  | binary (operator : String) (left right : Typed)
  | logical (operator : String) (left right : Typed)
  | unary (operator : String) (argument : Typed)
  /-- An increment or decrement, written before its target or behind it. -/
  | update (operator : String) (isBefore : Bool) (argument : Typed)
  | await (argument : Typed)
  | conditional (test yes no : Typed)
  | assign (operator : String) (target value : Typed)
  /-- A member by its name. -/
  | member (object : Typed) (property : String)
  /-- A member by an expression. -/
  | index (object property : Typed)
  | call (callee : Typed) (arguments : List Typed)
  /-- A type behind an expression. -/
  | ascribed (how : Ascription) (argument : Typed) (type : String)
  /-- An expression that is said not to be null. -/
  | nonNull (argument : Typed)
  /-- A type before an expression. -/
  | assertion (type : String) (argument : Typed)

namespace Typed

/-- What can be assigned to, whatever types are put on it. -/
def IsTarget : Typed → Prop
  | .name _ => True
  | .member _ _ => True
  | .index _ _ => True
  | .ascribed _ e _ => e.IsTarget
  | .nonNull e => e.IsTarget
  | .assertion _ e => e.IsTarget
  | _ => False

/-- The operation with given operands. -/
def operation : Family → String → Typed → Typed → Typed
  | .binary => .binary
  | .logical => .logical

end Typed

/-! ## Derivations -/

/-- The signs that go on with a type. -/
def typeJoiners : List String := ["|", "&"]

mutual

/-- **Derivations.**  `DerivesTyped l o ts e` says that the tokens `ts` are derived from the
nonterminal `l`, that `e` is their tree, and that `o` tells whether they end with a type. -/
inductive DerivesTyped : Level → Bool → List Token → Typed → Prop
  | unit {l m : Level} {o : Bool} {ts : List Token} {e : Typed} (hm : m ∈ l.below)
      (h : DerivesTyped m o ts e) : DerivesTyped l o ts e
  | name {s : String} {b : Bool} (hs : IsName s) : DerivesTyped .primary false [⟨s, b⟩] (.name s)
  | parens {o : Bool} {ts : List Token} {e : Typed} {b c : Bool}
      (h : DerivesTyped .expression o ts e) :
      DerivesTyped .primary false (⟨"(", b⟩ :: (ts ++ [⟨")", c⟩])) e
  | member {l : Level} {o : Bool} {ts : List Token} {e : Typed} {p : String} {b c : Bool}
      (hl : l = .member ∨ l = .call) (h : DerivesTyped l o ts e) (hp : IsWord p) :
      DerivesTyped l false (ts ++ [⟨".", b⟩, ⟨p, c⟩]) (.member e p)
  | index {l : Level} {o o' : Bool} {ts us : List Token} {e f : Typed} {b c : Bool}
      (hl : l = .member ∨ l = .call) (h : DerivesTyped l o ts e)
      (hf : DerivesTyped .expression o' us f) :
      DerivesTyped l false (ts ++ ⟨"[", b⟩ :: (us ++ [⟨"]", c⟩])) (.index e f)
  | call {l : Level} {o : Bool} {ts us : List Token} {e : Typed} {args : List Typed} {b c : Bool}
      (hl : l = .member ∨ l = .call) (h : DerivesTyped l o ts e)
      (hargs : DerivesListed DerivesArgument us args) :
      DerivesTyped .call false (ts ++ ⟨"(", b⟩ :: (us ++ [⟨")", c⟩])) (.call e args)
  | nonNull {l : Level} {o : Bool} {ts : List Token} {e : Typed} (hl : l = .member ∨ l = .call)
      (h : DerivesTyped l o ts e) : DerivesTyped l false (ts ++ [⟨"!", false⟩]) (.nonNull e)
  | updateBehind {o : Bool} {ts : List Token} {e : Typed} {op : String}
      (hop : op ∈ updateOperators) (h : DerivesTyped .leftHand o ts e) (htarget : e.IsTarget) :
      DerivesTyped .update false (ts ++ [⟨op, false⟩]) (.update op false e)
  | updateBefore {o : Bool} {ts : List Token} {e : Typed} {op : String} {b : Bool}
      (hop : op ∈ updateOperators) (h : DerivesTyped .unary o ts e) (htarget : e.IsTarget) :
      DerivesTyped .update o (⟨op, b⟩ :: ts) (.update op true e)
  | unary {o : Bool} {ts : List Token} {e : Typed} {op : String} {b : Bool}
      (hop : op ∈ unaryOperators) (h : DerivesTyped .unary o ts e) :
      DerivesTyped .unary o (⟨op, b⟩ :: ts) (.unary op e)
  | await {o : Bool} {ts : List Token} {e : Typed} {b : Bool} (h : DerivesTyped .unary o ts e) :
      DerivesTyped .unary o (⟨"await", b⟩ :: ts) (.await e)
  | assertion {o : Bool} {ts : List Token} {e : Typed} {word : String} {b c d : Bool}
      (hword : word ∈ typeKeywords) (h : DerivesTyped .unary o ts e) :
      DerivesTyped .unary o (⟨"<", b⟩ :: ⟨word, c⟩ :: ⟨">", d⟩ :: ts) (.assertion word e)
  | power {o o' : Bool} {ts us : List Token} {e f : Typed} {b : Bool}
      (h : DerivesTyped .update o ts e) (hf : DerivesTyped .power o' us f) :
      DerivesTyped .power o' (ts ++ ⟨"**", b⟩ :: us) (.binary "**" e f)
  | binary {l m : Level} {o o' : Bool} {ts us : List Token} {e f : Typed} {op : String} {b : Bool}
      (hop : (op, l) ∈ binaryLevels) (hm : m ∈ l.below) (h : DerivesTyped l o ts e)
      (hjoin : op ∈ typeJoiners → o = false) (hf : DerivesTyped m o' us f) :
      DerivesTyped l o' (ts ++ ⟨op, b⟩ :: us) (.binary op e f)
  | logical {l m : Level} {o o' : Bool} {ts us : List Token} {e f : Typed} {op : String} {b : Bool}
      (hop : (op, l) ∈ logicalLevels) (hm : m ∈ l.below) (h : DerivesTyped l o ts e)
      (hf : DerivesTyped m o' us f) : DerivesTyped l o' (ts ++ ⟨op, b⟩ :: us) (.logical op e f)
  | coalesce {o o' : Bool} {ts us : List Token} {e f : Typed} {b : Bool}
      (h : DerivesTyped .coalesceHead o ts e) (hf : DerivesTyped .bitOr o' us f) :
      DerivesTyped .coalesce o' (ts ++ ⟨"??", b⟩ :: us) (.logical "??" e f)
  | ascribed {o : Bool} {ts : List Token} {e : Typed} {how : Ascription} {word : String} {b : Bool}
      (hword : word ∈ typeKeywords) (h : DerivesTyped .relation o ts e) :
      DerivesTyped .relation true (ts ++ [⟨how.word, false⟩, ⟨word, b⟩]) (.ascribed how e word)
  | conditional {o o' o'' : Bool} {ts us vs : List Token} {e f g : Typed} {b c : Bool}
      (h : DerivesTyped .shortCircuit o ts e) (hf : DerivesTyped .assignment o' us f)
      (hg : DerivesTyped .assignment o'' vs g) :
      DerivesTyped .conditional o'' (ts ++ ⟨"?", b⟩ :: (us ++ ⟨":", c⟩ :: vs)) (.conditional e f g)
  | assign {o o' : Bool} {ts us : List Token} {e f : Typed} {op : String} {b : Bool}
      (hop : op ∈ assignmentOperators) (h : DerivesTyped .leftHand o ts e) (htarget : e.IsTarget)
      (hf : DerivesTyped .assignment o' us f) :
      DerivesTyped .assignment o' (ts ++ ⟨op, b⟩ :: us) (.assign op e f)

/-- An argument of a call. -/
inductive DerivesArgument : List Token → Typed → Prop
  | mk {o : Bool} {ts : List Token} {e : Typed} (h : DerivesTyped .assignment o ts e) :
      DerivesArgument ts e

end

/-- **What is derived at one level is derived at every level that includes it.** -/
lemma DerivesTyped.raise {m l : Level} (hml : Level.Within m l) {o : Bool} {ts : List Token}
    {e : Typed} (h : DerivesTyped m o ts e) : DerivesTyped l o ts e := by
  induction hml with
  | refl => exact h
  | tail _ hstep ih => exact .unit hstep ih

/-- An operation of any shape, put together from its operands. -/
lemma DerivesTyped.operation {family : Family} {op : String} {shape : Shape}
    (hshape : (op, shape) ∈ family.shapes) {o o' : Bool} {ts us : List Token} {e f : Typed}
    {b : Bool} (h : DerivesTyped shape.left o ts e) (hjoin : op ∈ typeJoiners → o = false)
    (hf : DerivesTyped shape.right o' us f) :
    DerivesTyped shape.own o' (ts ++ ⟨op, b⟩ :: us) (.operation family op e f) := by
  cases family with
  | binary =>
      rcases List.mem_cons.mp hshape with heq | hmem
      · obtain ⟨rfl, rfl⟩ := Prod.mk.inj heq
        exact .power h hf
      · obtain ⟨entry, hentry, heq⟩ := List.mem_map.mp hmem
        obtain ⟨rfl, rfl⟩ := Prod.mk.inj heq
        exact .binary hentry (Shape.right_mem_below.1 entry hentry) h hjoin hf
  | logical =>
      rcases List.mem_cons.mp hshape with heq | hmem
      · obtain ⟨rfl, rfl⟩ := Prod.mk.inj heq
        exact .coalesce h hf
      · obtain ⟨entry, hentry, heq⟩ := List.mem_map.mp hmem
        obtain ⟨rfl, rfl⟩ := Prod.mk.inj heq
        exact .logical hentry (Shape.right_mem_below.2 entry hentry) h hf

/-! ## Strengths and levels -/

namespace Typed

/-- The kind of the nodes that an expression describes. -/
def kind : Typed → String
  | .name _ => "Identifier"
  | .binary _ _ _ => "BinaryExpression"
  | .logical _ _ _ => "LogicalExpression"
  | .unary _ _ => "UnaryExpression"
  | .update _ _ _ => "UpdateExpression"
  | .await _ => "AwaitExpression"
  | .conditional _ _ _ => "ConditionalExpression"
  | .assign _ _ _ => "AssignmentExpression"
  | .member _ _ => "MemberExpression"
  | .index _ _ => "MemberExpression"
  | .call _ _ => "CallExpression"
  | .ascribed how _ _ => how.kind
  | .nonNull _ => "TSNonNullExpression"
  | .assertion _ _ => "TSTypeAssertion"

/-- How strongly an expression binds. -/
def strength : Typed → Nat
  | .name _ => 20
  | .member _ _ => 19
  | .index _ _ => 19
  | .call _ _ => 19
  | .nonNull _ => 18
  | .assertion _ _ => 18
  | .ascribed how _ _ => how.strength
  | .await _ => 17
  | .update _ _ _ => 16
  | .unary _ _ => 15
  | .binary _ _ _ => 14
  | .logical _ _ _ => 13
  | .conditional _ _ _ => 4
  | .assign _ _ _ => 3

/-- The level at which an expression is printed.  A head in parentheses is no call. -/
def level : Typed → Level
  | .name _ => .primary
  | .member head _ => if head.strength < 19 then .member else head.level.extended
  | .index head _ => if head.strength < 19 then .member else head.level.extended
  | .nonNull head => if head.strength < 18 then .member else head.level.extended
  | .call _ _ => .call
  | .update _ _ _ => .update
  | .await _ => .unary
  | .unary _ _ => .unary
  | .assertion _ _ => .unary
  | .ascribed _ _ _ => .relation
  | .binary op _ _ => Family.binary.levelOf op
  | .logical op _ _ => Family.logical.levelOf op
  | .conditional _ _ _ => .conditional
  | .assign _ _ _ => .assignment

/-- The operator that an expression begins with, if it does. -/
def sign : Typed → Option String
  | .unary op _ => some op
  | .update op true _ => some op
  | _ => none

/-- A type behind an expression or before it: these bind as strongly as the table says, but do not
stand at the level that the strength stands for. -/
def isCast : Typed → Bool
  | .ascribed _ _ _ => true
  | .assertion _ _ => true
  | _ => false

/-- Whether an expression may stand at a level without parentheses. -/
def fits (l : Level) (e : Typed) : Bool := Level.isWithin 22 e.level l

/-- Whether the right operand of an operation is left without parentheses. -/
def endsBare (family : Family) (op : String) (right : Typed) : Bool :=
  match family.shapes.lookup op with
  | some shape => right.fits shape.right
  | none => false

/-- Whether the printed text of an expression ends with a type. -/
def endsInType : Typed → Bool
  | .ascribed _ _ _ => true
  | .binary op _ f => endsBare .binary op f && f.endsInType
  | .logical op _ f => endsBare .logical op f && f.endsInType
  | .conditional _ _ g => g.endsInType
  | .assign _ _ f => f.endsInType
  | _ => false

/-- The level at which a head goes on: one that binds looser than `threshold` is in parentheses. -/
def headLevel (threshold : Nat) (e : Typed) : Level :=
  if e.strength < threshold then .member else e.level.extended

variable {e : Typed}

lemma within_of_fits {l : Level} (h : e.fits l = true) : e.level.Within l :=
  Level.within_of_isWithin h

lemma fits_of_within {l : Level} (h : e.level.Within l) : e.fits l = true :=
  Level.isWithin_of_within h

/-- The strengths are those of the table. -/
lemma lookup_kind (e : Typed) : Precedence.kinds.lookup e.kind = some e.strength := by
  cases e with
  | ascribed how e type => cases how <;> rfl
  | _ => rfl

/-- The kinds that a described node does not have. -/
lemma kind_ne (e : Typed) : e.kind ≠ "ParenthesizedExpression" ∧ e.kind ≠ "ChainExpression" ∧
    e.kind ≠ "PrivateIdentifier" := by
  cases e with
  | ascribed how e type => cases how <;> simp [kind, Ascription.kind]
  | _ => simp [kind]

/-- An operation stands at the level of its shape. -/
lemma level_operation {family : Family} {op : String} {shape : Shape}
    (h : family.shapes.lookup op = some shape) (e f : Typed) :
    (operation family op e f).level = shape.own := by
  rw [← Family.levelOf_eq h]
  cases family with
  | binary => rfl
  | logical => rfl

/-- No operation is an argument without parentheses. -/
lemma operation_fits_unary {family : Family} {op : String} {shape : Shape}
    (h : family.shapes.lookup op = some shape) (e f : Typed) :
    (operation family op e f).fits .unary = false := by
  have hall : ∀ entry ∈ family.shapes, Level.isWithin 22 entry.2.own .unary = false := by
    cases family with
    | binary => decide
    | logical => decide
  rw [fits, level_operation h]
  exact hall _ (Family.mem_of_lookup h)

/-- The printed text of an argument does not end with a type. -/
lemma endsInType_of_fits_unary (h : e.fits .unary = true) : e.endsInType = false := by
  have hoperation (family : Family) (op : String) (e f : Typed)
      (hfits : (operation family op e f).fits .unary = true) : endsBare family op f = false := by
    unfold endsBare
    cases hlookup : family.shapes.lookup op with
    | none => rfl
    | some shape => simp [operation_fits_unary hlookup e f] at hfits
  have hother : ∀ l ∈ [Level.relation, .conditional, .assignment],
      Level.isWithin 22 l .unary = false := by decide
  cases e with
  | binary op e f =>
      have hbare := hoperation .binary op e f h
      simp [endsInType, hbare]
  | logical op e f =>
      have hbare := hoperation .logical op e f h
      simp [endsInType, hbare]
  | ascribed => exact absurd h (by simp [fits, level, hother])
  | conditional => exact absurd h (by simp [fits, level, hother])
  | assign => exact absurd h (by simp [fits, level, hother])
  | _ => rfl

/-- The level of an access or of an expression that is said not to be null. -/
lemma headLevel_cases (threshold : Nat) (e : Typed) :
    e.headLevel threshold = .member ∨ e.headLevel threshold = .call := by
  unfold headLevel
  split
  · exact Or.inl rfl
  · exact e.level.extended_cases

/-- A head is a name, an access, a call or one of these that is said not to be null. -/
lemma level_head (h : 18 ≤ e.strength) (hcast : e.isCast = false) :
    e.level = .primary ∨ e.level = .member ∨ e.level = .call := by
  cases e with
  | name s => exact Or.inl rfl
  | member head p => exact Or.inr (headLevel_cases _ _)
  | index head p => exact Or.inr (headLevel_cases _ _)
  | nonNull head => exact Or.inr (headLevel_cases _ _)
  | call callee args => exact Or.inr (Or.inr rfl)
  | ascribed how argument type => simp [isCast] at hcast
  | assertion type argument => simp [isCast] at hcast
  | _ => simp [strength] at h

/-- A head begins with no operator of its own. -/
lemma sign_eq_none (h : 18 ≤ e.strength) : e.sign = none := by
  cases e with
  | unary op argument => simp [strength] at h
  | update op isBefore target => simp [strength] at h
  | _ => rfl

lemma level_within_leftHand (h : 18 ≤ e.strength) (hcast : e.isCast = false) :
    e.level.Within .leftHand := by
  rcases level_head h hcast with hl | hl | hl
  · exact hl ▸ Level.within_of_isWithin rfl
  · exact hl ▸ Level.within_of_isWithin rfl
  · exact hl ▸ Level.within_of_isWithin rfl

lemma level_within_update (h : 16 ≤ e.strength) (hcast : e.isCast = false)
    (hawait : e.kind ≠ "AwaitExpression") : e.level.Within .update := by
  by_cases hhead : 18 ≤ e.strength
  · exact (level_within_leftHand hhead hcast).trans (Level.within_of_isWithin rfl)
  · cases e with
    | update op isBefore target => exact .refl
    | await argument => exact absurd rfl hawait
    | ascribed how argument type => simp [isCast] at hcast
    | _ => simp [strength] at h hhead

lemma level_within_unary (h : 15 ≤ e.strength) (hcast : e.isCast = false) :
    e.level.Within .unary := by
  by_cases hhead : 18 ≤ e.strength
  · exact (level_within_leftHand hhead hcast).trans (Level.within_of_isWithin rfl)
  · cases e with
    | update op isBefore target => exact Level.within_of_isWithin rfl
    | await argument => exact .refl
    | unary op argument => exact .refl
    | ascribed how argument type => simp [isCast] at hcast
    | _ => simp [strength] at h hhead

/-- A cast stands below the relations. -/
lemma level_within_relation (h : 15 ≤ e.strength) : e.level.Within .relation := by
  cases hcast : e.isCast with
  | false => exact (level_within_unary h hcast).trans (Level.within_of_isWithin rfl)
  | true =>
      cases e with
      | ascribed how argument type => exact .refl
      | assertion type argument => exact Level.within_of_isWithin rfl
      | _ => simp [isCast] at hcast

lemma level_within_shortCircuit (h : 4 < e.strength) : e.level.Within .shortCircuit := by
  by_cases hunary : 15 ≤ e.strength
  · exact (level_within_relation hunary).trans (Level.within_of_isWithin rfl)
  · cases e with
    | binary op left right =>
        exact (Expr.levelOf_within .binary op).trans (Level.within_of_isWithin rfl)
    | logical op left right => exact Expr.levelOf_within .logical op
    | ascribed how argument type => cases how <;> simp [strength, Ascription.strength] at hunary
    | _ => simp [strength] at h hunary

/-- Every expression can stand as an item of a list. -/
lemma level_within_assignment (e : Typed) : e.level.Within .assignment := by
  by_cases h : 4 < e.strength
  · exact (level_within_shortCircuit h).trans (Level.within_of_isWithin rfl)
  · cases e with
    | conditional test yes no => exact Level.within_of_isWithin rfl
    | assign op target value => exact .refl
    | ascribed how argument type => cases how <;> simp [strength, Ascription.strength] at h
    | _ => simp [strength] at h

/-- **An operand that binds stronger than the operation** stands at the level that is asked for
there, with two exceptions: no unary expression may stand before `**`, and a cast must fit. -/
lemma operand_of_strength {family : Family} {op : String} {shape : Shape}
    (hop : (op, shape) ∈ family.shapes) {isRight : Bool} (hstrong : family.strength < e.strength)
    (hcast : e.isCast = true → e.level.Within (shape.operand isRight))
    (hpower : op = "**" → family = .binary → isRight = false →
      e.kind ≠ "UnaryExpression" ∧ e.kind ≠ "AwaitExpression") :
    e.level.Within (shape.operand isRight) := by
  cases hcast' : e.isCast with
  | true => exact hcast hcast'
  | false =>
      by_cases hstrength : 15 ≤ e.strength
      · refine operand_of_unary hop (level_within_unary hstrength hcast')
          fun hop hbinary hleft => ?_
        obtain ⟨hnot, hawait⟩ := hpower hop hbinary hleft
        refine level_within_update ?_ hcast' hawait
        by_contra hweak
        cases e with
        | unary op argument => exact hnot rfl
        | ascribed how argument type => simp [isCast] at hcast'
        | _ => simp [strength] at hstrength hweak
      · cases family with
        | binary =>
            simp only [Family.strength] at hstrong
            omega
        | logical =>
            -- nothing is weaker than a unary expression here but a binary operation
            cases e with
            | binary op' left right =>
                exact (Expr.levelOf_within .binary op').trans (operand_logical hop isRight)
            | ascribed how argument type => simp [isCast] at hcast'
            | _ => simp [strength, Family.strength] at hstrong hstrength

/-- A cast may be an operand of a logical operation. -/
lemma operand_of_cast {op : String} {shape : Shape} (hop : (op, shape) ∈ Family.logical.shapes)
    (isRight : Bool) (hcast : e.isCast = true) : e.level.Within (shape.operand isRight) := by
  have hstrength : 15 ≤ e.strength := by
    cases e with
    | ascribed how argument type => cases how <;> simp [strength, Ascription.strength]
    | assertion type argument => simp [strength]
    | _ => simp [isCast] at hcast
  exact (level_within_relation hstrength).trans
    ((Level.within_of_isWithin rfl : Level.Within .relation .bitOr).trans
      (operand_logical hop isRight))

end Typed

/-! ## Signs -/

/-- The signs of expressions with types, and where they stand beside expressions. -/
def typedAlphabet : Alphabet where
  signs := punctuators.erase "\x7d"
  plain := plain_punctuators
  openers := ["(", "-", "+", "!", "~", "++", "--", "<"]
  closers := [")", "]", "++", "--", "!"]
  before := ["(", "[", ">"]
  behind := [")", "]", ",", ".", "[", "(", "++", "--", "!"]
  mem_signs := by decide
  apart_before := by decide
  apart_behind := by decide

end Grammar

end EstreePrinter
