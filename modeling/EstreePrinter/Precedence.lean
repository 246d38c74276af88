import EstreePrinter.Node

/-!
# How strongly expressions bind

Parentheses are not kept from the tree: they are put where the reading of the printed text would
otherwise differ.  Two tables give the binding strengths, one for the kinds of expressions and one
for the operators of binary and logical expressions, and the questions below are answered from them.

* `unwrap` — an expression without the parentheses of the tree around it;
* `needsParens` — for an operand of a binary or logical expression;
* `bindsLooser`, `wrapsAsHead` — for the argument of an operator and the head of an access or call;
* `hasCall` — whether the head of a `new` would be cut short by a call;
* `startsWith` — whether the printed text would begin with one of some kinds of expressions.
-/

namespace EstreePrinter

namespace Precedence

open Json (Part)

/-! ## The tables -/

/-- The binding strengths of the operators of binary and logical expressions. -/
def operators : List (String × Nat) :=
  [("||", 2), ("&&", 3), ("??", 4), ("|", 5), ("^", 6), ("&", 7), ("==", 8), ("!=", 8), ("===", 8),
    ("!==", 8), ("<", 9), (">", 9), ("<=", 9), (">=", 9), ("in", 9), ("instanceof", 9), ("<<", 10),
    (">>", 10), (">>>", 10), ("+", 11), ("-", 11), ("*", 12), ("%", 12), ("/", 12), ("**", 13)]

/-- The binding strengths of the kinds of expressions. -/
def kinds : List (String × Nat) :=
  [("JSXFragment", 20), ("JSXElement", 20), ("ArrayPattern", 20), ("ObjectPattern", 20),
    ("ArrayExpression", 20), ("TaggedTemplateExpression", 20), ("ThisExpression", 20),
    ("Identifier", 20), ("PrivateIdentifier", 20), ("TemplateLiteral", 20), ("Super", 20),
    ("SequenceExpression", 20), ("MemberExpression", 19), ("MetaProperty", 19),
    ("CallExpression", 19), ("ChainExpression", 19), ("ImportExpression", 19),
    ("NewExpression", 19), ("Literal", 18), ("TSSatisfiesExpression", 18),
    ("TSInstantiationExpression", 18), ("TSNonNullExpression", 18), ("TSTypeAssertion", 18),
    ("AwaitExpression", 17), ("ClassExpression", 17), ("FunctionExpression", 17),
    ("ObjectExpression", 17), ("TSAsExpression", 16), ("UpdateExpression", 16),
    ("UnaryExpression", 15), ("BinaryExpression", 14), ("LogicalExpression", 13),
    ("ConditionalExpression", 4), ("ArrowFunctionExpression", 3), ("AssignmentExpression", 3),
    ("YieldExpression", 2), ("RestElement", 1)]

/-- The strength of a member access. -/
def member : Nat := 19

/-- The strength of a call. -/
def call : Nat := 19

/-- The strength of a non-null assertion. -/
def nonNull : Nat := 18

/-- The strength of a `satisfies` expression. -/
def satisfies : Nat := 18

/-- The strength of an `await` expression. -/
def await : Nat := 17

/-- The strength of an `as` expression. -/
def asType : Nat := 16

/-- The strength of a unary expression. -/
def unary : Nat := 15

/-- The strength of a binary expression. -/
def binary : Nat := 14

/-- The strength of a logical expression. -/
def logical : Nat := 13

/-- The strength of a conditional expression. -/
def conditional : Nat := 4

/-- The strength of a kind, nothing for kinds that are not in the table. -/
def ofKind (kind : Json) : Except Fault (Option Nat) := do
  match ← kind.key with
  | .str name => pure (kinds.lookup name)
  | _ => pure none

/-- The strength of an operator, which has to be in the table. -/
def ofOperator (operator : Json) : Except Fault Nat := do
  let operator ← operator.key
  match operator with
  | .str name =>
    match operators.lookup name with
    | some strength => pure strength
    | none => .error (.missing name)
  | v => .error (.missing v.display)

/-! ## Expressions without their parentheses -/

/-- An expression without the parentheses around it; it is no larger than the whole. -/
def unwrap (node : Json) : Except Fault { core : Json // sizeOf core ≤ sizeOf node } := do
  if (← node.kind).isText "ParenthesizedExpression" then
    let inner ← node.require "expression"
    let core ← unwrap inner.1
    pure ⟨core.1, by have := core.2; have := inner.2.sizeOf_lt; omega⟩
  else pure ⟨node, Nat.le_refl _⟩
termination_by sizeOf node
decreasing_by exact inner.2.sizeOf_lt

/-- The strength of an expression, nothing for kinds that are not in the table. -/
def strength? (node : Json) : Except Fault (Option Nat) := do
  ofKind (← (← unwrap node).1.kind)

/-- Whether an expression binds looser than `threshold`. -/
def bindsLooser (node : Json) (threshold : Nat) : Except Fault Bool := do
  match ← strength? node with
  | some strength => pure (decide (strength < threshold))
  | none => pure false

/-- Whether an expression needs parentheses as the head of an access, a call or a template: if it
binds looser, or if it is an optional chain, which would otherwise go on into what follows. -/
def wrapsAsHead (node : Json) (threshold : Nat) : Except Fault Bool := do
  if ← bindsLooser node threshold then pure true
  else pure ((← (← unwrap node).1.kind).isText "ChainExpression")

/-- Whether an expression needs parentheses as the test of a conditional expression. -/
def wrapsAsTest (node : Json) : Except Fault Bool := do
  match ← strength? node with
  | some strength => pure (decide (strength ≤ conditional))
  | none => pure true

/-! ## Operands -/

/-- Whether one of two logical expressions has the operator `??` and the other has not: they cannot
be mixed without parentheses. -/
def mixesCoalescing (node parent : Json) : Except Fault Bool := do
  let outer ← parent.require "operator"
  let inner ← node.require "operator"
  pure (outer.1.isText "??" != inner.1.isText "??")

/-- Whether an operand needs parentheses when it and its parent are both binary or both logical.
The operator `**` groups to the right and all others to the left. -/
def needsParensAmongEquals (node parent : Json) (isRight : Bool) : Except Fault Bool := do
  let inner ← node.require "operator"
  let bothPowers ←
    if inner.1.isText "**" then do pure ((← parent.require "operator").1.isText "**")
    else pure false
  if bothPowers then pure !isRight
  else
    let innerStrength ← ofOperator inner.1
    let outerStrength ← ofOperator (← parent.require "operator").1
    pure (decide (if isRight then innerStrength ≤ outerStrength else innerStrength < outerStrength))

/-- Whether an operand needs parentheses by the strengths of its kind and its parent's kind. -/
def needsParensByStrength (kind node parent : Json) (isRight : Bool) (strength outer : Nat) :
    Except Fault Bool := do
  if strength ≠ outer then
    -- the text `-a ** b` would not be read at all
    let underPower ←
      if !isRight && kind.isOneOf ["UnaryExpression", "AwaitExpression"] && outer == binary then do
        pure ((← parent.require "operator").1.isText "**")
      else pure false
    pure (underPower || decide (strength < outer))
  else if strength ≠ logical ∧ strength ≠ binary then pure false
  else needsParensAmongEquals node parent isRight

/-- Whether an operand of the binary or logical expression `parent` needs parentheses. -/
def needsParens (operand parent : Json) (isRight : Bool) : Except Fault Bool := do
  let node ← unwrap operand
  let kind ← node.1.kind
  if kind.isText "PrivateIdentifier" then pure false
  else
    let mixed ←
      if kind.isText "LogicalExpression" then do
        if (← parent.requireKind).isText "LogicalExpression" then mixesCoalescing node.1 parent
        else pure false
      else pure false
    if mixed then pure true
    else
      let strength ← if kind.isGiven then ofKind kind else pure none
      let outer ← ofKind (← parent.requireKind)
      match strength, outer with
      | some strength, some outer => needsParensByStrength kind node.1 parent isRight strength outer
      | _, _ => pure false

/-! ## Heads -/

/-- Whether a call stands anywhere along a chain of member accesses. -/
def hasCall (node : Json) : Except Fault Bool := do
  if node.isNull then pure false
  else
    let core ← unwrap node
    let kind ← core.1.requireKind
    if kind.isText "CallExpression" then pure true
    else if kind.isText "MemberExpression" then
      let head ← core.1.require "object"
      hasCall head.1
    else pure false
termination_by sizeOf node
decreasing_by
  have := head.2.sizeOf_lt
  have := core.2
  omega

/-- The part with which the printed text of an expression begins, unless a parenthesis is printed
before it or the expression begins with something else. -/
def leftmost (node : Json) (kind : Json) : Except Fault (Option (Part node)) := do
  let bare (wrap : Part node → Except Fault Bool) (key : String) := do
    let child ← node.require key
    pure (if ← wrap child then none else some child)
  match kind with
  | .str "BinaryExpression" | .str "LogicalExpression" =>
    bare (fun child => needsParens child.1 node false) "left"
  | .str "ConditionalExpression" => bare (fun child => wrapsAsTest child.1) "test"
  | .str "MemberExpression" => bare (fun child => wrapsAsHead child.1 member) "object"
  | .str "CallExpression" => bare (fun child => wrapsAsHead child.1 call) "callee"
  | .str "TaggedTemplateExpression" => bare (fun child => wrapsAsHead child.1 member) "tag"
  | .str "TSAsExpression" => bare (fun child => bindsLooser child.1 asType) "expression"
  | .str "TSSatisfiesExpression" => bare (fun child => bindsLooser child.1 satisfies) "expression"
  | .str "TSNonNullExpression" => bare (fun child => bindsLooser child.1 nonNull) "expression"
  | .str "UpdateExpression" =>
    if ← node.flag "prefix" then pure none else some <$> node.require "argument"
  | .str "AssignmentExpression" => some <$> node.require "left"
  | .str "ChainExpression" => some <$> node.require "expression"
  | _ => pure none

/-- Whether the printed text of an expression begins with an expression of one of the kinds
`options`. -/
def startsWith (node : Json) (options : List String) : Except Fault Bool := do
  let core ← unwrap node
  let kind ← core.1.kind
  if ← kind.isIn options then pure true
  else
    match ← leftmost core.1 kind with
    | some child => startsWith child.1 options
    | none => pure false
termination_by sizeOf node
decreasing_by
  have := child.2.sizeOf_lt
  have := core.2
  omega

end Precedence

end EstreePrinter
