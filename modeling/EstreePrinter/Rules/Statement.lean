import EstreePrinter.Rules.Signature
import EstreePrinter.Precedence

/-!
# Statements and blocks

An expression that would be read as a block or a declaration at the start of a statement goes in
parentheses, and so does the argument of a `return` whose leading comment would end the line.
-/

namespace EstreePrinter

namespace Rules

open Render
open Json (Part)

/-- The statements of a program. -/
def program : Rule := fun node inner => do
  body inner (← Json.parts (← node.require "body"))

/-- Whether all statements of a list are empty ones. -/
def allEmpty {node : Json} : List (Part node) → Except Fault Bool
  | [] => pure true
  | statement :: rest => do
    if (← statement.1.requireKind).isText "EmptyStatement" then allEmpty rest else pure false

/-- Statements in braces, one to a line; an empty list stays on the line. -/
def block : Rule := fun node inner => do
  let statements ← Json.parts (← node.require "body")
  if ← allEmpty statements then text "\x7b\x7d"
  else
    raise
    emit [.text "\x7b", .indent, .newline]
    body inner statements
    emit [.dedent, .newline, .text "\x7d"]

/-- The block of a class that runs once. -/
def staticBlock : Rule := fun node inner => do
  text "static "
  block node inner

/-- An empty statement. -/
def empty : Rule := fun _ _ => text ";"

/-- The kinds of expressions that would be read as something else at the start of a statement. -/
def statementHeaded : List String :=
  ["ObjectExpression", "ObjectPattern", "FunctionExpression", "ClassExpression"]

/-- An expression as a statement. -/
def expressionStatement : Rule := fun node inner => do
  let expression ← node.require "expression"
  inner.wrapped expression (← Precedence.startsWith expression.1 statementHeaded)
  text ";"

/-- A `debugger` statement. -/
def debuggerStatement : Rule := fun node _ => do
  chunk (.str "debugger") node
  text ";"

/-- A jump out of a loop or to its next round. -/
def jump (keyword : String) : Rule := fun node inner => do
  match ← node.given "label" with
  | some label =>
    text (keyword ++ " ")
    inner.value label
    text ";"
  | none => text (keyword ++ ";")

/-- A statement with a label. -/
def labeled : Rule := fun _ inner => do
  inner.field "label"
  text ": "
  inner.field "body"

/-- Whether one of some comments ends its line. -/
def anySpansLines : List Json → Except Fault Bool
  | [] => pure false
  | comment :: rest => do
    if ← comment.spansLines then pure true else anySpansLines rest

/-- A statement that leaves a function or throws; without an argument it is the keyword alone. -/
def leave (keyword : String) : Rule := fun node inner => do
  match ← node.present "argument" with
  | none => text (keyword ++ ";")
  | some argument =>
    if ← anySpansLines (← argument.1.comments "leadingComments") then
      text (keyword ++ " (")
      inner.value argument
      text ");"
    else
      text (keyword ++ " ")
      inner.value argument
      text ";"

/-- A variable declaration. -/
def variableDeclaration : Rule := fun node inner => do
  declarations node inner
  text ";"

/-- One of the variables of a declaration. -/
def declarator : Rule := fun node inner => do
  inner.field "id"
  inner.valueAfter " = " (← node.given "init")

end Rules

end EstreePrinter
