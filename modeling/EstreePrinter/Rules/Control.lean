import EstreePrinter.Rules.Statement

/-!
# Control flow

Branches, loops, `try` and `switch`.  In the head of a loop with three parts a bare `in` would be
misread, so the first part is rendered with that in mind.
-/

namespace EstreePrinter

namespace Rules

open Render
open Json (Part)

/-- An `if` statement. -/
def ifRule : Rule := fun node inner => do
  text "if ("
  inner.field "test"
  text ") "
  inner.field "consequent"
  inner.valueAfter " else " (← node.given "alternate")

/-- Render the declaration or expression in the head of a loop, without a semicolon. -/
def loopHead {node : Json} (inner : Inner node) (head : Part node) : Render Unit := do
  if (← head.1.requireKind).isText "VariableDeclaration" then
    declarations head.1 (inner.under head)
  else inner.value head

/-- A loop whose head has three parts. -/
def forRule : Rule := fun node inner => do
  text "for ("
  match ← node.given "init" with
  | some start => withNoIn true (loopHead inner start)
  | none => pure ()
  text ";"
  inner.valueAfter " " (← node.given "test")
  text ";"
  inner.valueAfter " " (← node.given "update")
  text ") "
  inner.field "body"

/-- A loop over the keys or the values of something. -/
def forEach (word : String) : Rule := fun node inner => do
  text "for "
  textIf node "await" "await "
  text "("
  loopHead inner (← node.require "left")
  text word
  inner.field "right"
  text ") "
  inner.field "body"

/-- A statement with a keyword, an expression in parentheses and a body. -/
def headed (keyword key : String) : Rule := fun _ inner => do
  text (keyword ++ " (")
  inner.field key
  text ") "
  inner.field "body"

/-- A loop with its test at the end. -/
def doWhile : Rule := fun _ inner => do
  text "do "
  inner.field "body"
  text " while ("
  inner.field "test"
  text ");"

/-- Render the handler of a `try` statement. -/
def catchClause {node : Json} (inner : Inner node) : Render Unit := do
  match ← node.given "param" with
  | some parameter =>
    text " catch ("
    inner.value parameter
    text ") "
  | none => text " catch "
  inner.field "body"

/-- A `try` statement. -/
def tryRule : Rule := fun node inner => do
  text "try "
  inner.field "block"
  match ← node.given "handler" with
  | some handler => catchClause (inner.under handler)
  | none => pure ()
  inner.valueAfter " finally " (← node.given "finalizer")

/-- Render the statements of a case, one to a line. -/
def caseStatements {node : Json} (inner : Inner node) : List (Part node) → Render Unit
  | [] => pure ()
  | statement :: rest => do
    emit [.newline]
    inner.value statement
    drainAfterStatement
    caseStatements inner rest

/-- Render one case of a `switch` statement. -/
def switchCase {node : Json} (inner : Inner node) : Render Unit := do
  leadingComments true .null (← node.comments "leadingComments")
  match ← node.given "test" with
  | some test =>
    text "case "
    inner.value test
    text ":"
  | none => text "default:"
  emit [.indent]
  caseStatements inner (← Json.parts (← node.require "consequent"))
  emit [.dedent]

/-- Render the cases of a `switch` statement, with a blank line between them. -/
def switchCases {node : Json} (inner : Inner node) (isFirst : Bool) :
    List (Part node) → Render Unit
  | [] => pure ()
  | case :: rest => do
    if !isFirst then text "\n"
    emit [.newline]
    switchCase (inner.under case)
    switchCases inner false rest

/-- A `switch` statement. -/
def switchRule : Rule := fun node inner => do
  raise
  text "switch ("
  inner.field "discriminant"
  emit [.text ") \x7b", .indent]
  switchCases inner true (← Json.parts (← node.require "cases"))
  emit [.dedent, .newline, .text "\x7d"]

end Rules

end EstreePrinter
