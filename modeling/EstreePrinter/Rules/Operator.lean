import EstreePrinter.Rules.Signature
import EstreePrinter.Precedence

/-!
# Operators

Binary, unary and conditional expressions, assignments, and expressions with types in them, with the
parentheses that the binding strengths ask for.
-/

namespace EstreePrinter

namespace Rules

open Render
open Json (Part)

/-- The operands of a binary or logical expression with the operator between them. -/
def operands {node : Json} (inner : Inner node) (operator : Json) : Render Unit := do
  let left ← node.require "left"
  let right ← node.require "right"
  inner.wrapped left (← Precedence.needsParens left.1 node false)
  text (" " ++ operator.display ++ " ")
  inner.wrapped right (← Precedence.needsParens right.1 node true)

/-- A binary or logical expression.  Where a bare `in` would be misread it goes in parentheses,
inside of which it is not misread any more. -/
def binary : Rule := fun node inner => do
  let operator ← node.require "operator"
  if operator.1.isText "in" && (← setting).noIn then
    text "("
    withNoIn false (operands inner operator.1)
    text ")"
  else operands inner operator.1

/-- Whether a sign before `argument` would run together with a sign that `argument` begins with. -/
def signsCollide (operator argument : Json) : Except Fault Bool := do
  let core ← Precedence.unwrap argument
  if !(← core.1.requireKind).isOneOf ["UnaryExpression", "UpdateExpression"] then pure false
  else if !(← (← core.1.require "operator").1.first).same operator then pure false
  else core.1.flagUnlessAbsent "prefix"

/-- Whether a blank goes between a unary operator and its argument: behind a word, and between two
equal signs. -/
def spacedUnary (operator argument : Json) : Except Fault Bool := do
  let length ← orMalformed operator.length?
  if 1 < length then pure true
  else
    let sign ← operator.text
    if ["", "+", "-"].contains sign then signsCollide operator argument else pure false

/-- A unary expression. -/
def unary : Rule := fun node inner => do
  let operator ← node.require "operator"
  let argument ← node.require "argument"
  emit [.ofValue operator.1]
  if ← spacedUnary operator.1 argument.1 then text " "
  inner.wrapped argument (← Precedence.bindsLooser argument.1 Precedence.unary)

/-- An increment or decrement, before or behind its target. -/
def update : Rule := fun node inner => do
  if ← node.flag "prefix" then
    emit [.ofValue (← node.require "operator").1]
    inner.field "argument"
  else
    inner.field "argument"
    emit [.ofValue (← node.require "operator").1]

/-- An assignment. -/
def assignment : Rule := fun node inner => do
  inner.field "left"
  text (" " ++ (← node.require "operator").1.display ++ " ")
  inner.field "right"

/-- The commands of the two branches of a conditional expression: one below the other if they need
several lines. -/
def branches (broken : Bool) (yes no : List Command) : List Command :=
  if broken then
    .deferred "conditional-consequent" [.indent, .newline, .text "? "] :: yes ++
      .deferred "conditional-alternate" [.newline, .text ": "] :: no ++ [.dedent]
  else
    .deferred "conditional-consequent" [.text " ? "] :: yes ++
      .deferred "conditional-alternate" [.text " : "] :: no

/-- A conditional expression. -/
def conditional : Rule := fun node inner => do
  let test ← node.require "test"
  inner.wrapped test (← Precedence.wrapsAsTest test.1)
  let yes ← fork (inner.field "consequent")
  let no ← fork (inner.field "alternate")
  let broken := yes.multiline || no.multiline
  raiseIf broken
  emit (branches broken yes.commands no.commands)

/-- Expressions evaluated one after the other, always in parentheses. -/
def commaExpression : Rule := fun node inner => do
  text "("
  list inner false (← node.require "expressions")
  text ")"

/-- An `await` expression. -/
def await : Rule := fun node inner => do
  match ← node.present "argument" with
  | none => text "await"
  | some argument =>
    if ← Precedence.bindsLooser argument.1 Precedence.await then
      text "await ("
      inner.value argument
      text ")"
    else
      text "await "
      inner.value argument

/-- A `yield` expression. -/
def yield : Rule := fun node inner => do
  let keyword := if ← node.flag "delegate" then "yield*" else "yield"
  match ← node.present "argument" with
  | none => text keyword
  | some argument =>
    text (keyword ++ " ")
    inner.value argument

/-! ## Expressions with types in them -/

/-- An expression, a word and a type. -/
def typedExpression (strength : Nat) (word : String) : Rule := fun node inner => do
  let expression ← node.require "expression"
  inner.wrapped expression (← Precedence.bindsLooser expression.1 strength)
  text word
  inner.typeField "typeAnnotation"

/-- An expression that is said not to be null. -/
def nonNull : Rule := fun node inner => do
  let expression ← node.require "expression"
  inner.wrapped expression (← Precedence.bindsLooser expression.1 Precedence.nonNull)
  text "!"

/-- An expression with a type in angle brackets before it. -/
def typeAssertion : Rule := fun node inner => do
  text "<"
  inner.typeField "typeAnnotation"
  text ">"
  let expression ← node.require "expression"
  inner.wrapped expression (← Precedence.bindsLooser expression.1 Precedence.unary)

/-- An expression with type arguments; also a type named by an expression. -/
def instantiation : Rule := fun _ inner => do
  inner.field "expression"
  typeArguments inner

/-- Two names with a dot between them. -/
def qualifiedName : Rule := fun _ inner => do
  inner.field "left"
  text "."
  inner.field "right"

end Rules

end EstreePrinter
