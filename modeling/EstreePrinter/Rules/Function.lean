import EstreePrinter.Rules.Signature
import EstreePrinter.Precedence

/-!
# Functions

Declarations, expressions and arrows.  The body of an arrow goes in parentheses where its first
brace would be read as the start of a block.
-/

namespace EstreePrinter

namespace Rules

open Render
open Json (Part)

/-- Render the body of a function, or the semicolon that stands for a missing one. -/
def functionBody {node : Json} (inner : Inner node) : Render Unit := do
  match ← node.present "body" with
  | none => text ";"
  | some body =>
    text " "
    inner.value body

/-- A function. -/
def function : Rule := fun node inner => do
  textIf node "declare" "declare "
  textIf node "async" "async "
  text (if ← node.flag "generator" then "function* " else "function ")
  match ← node.given "id" with
  | some name => inner.value name
  | none => pure ()
  signature inner
  functionBody inner

/-- The kinds of expressions whose text begins with a brace. -/
def braceHeaded : List String := ["ObjectExpression", "ObjectPattern"]

/-- An arrow function. -/
def arrow : Rule := fun node inner => do
  textIf node "async" "async "
  signature inner
  text " => "
  let body ← node.require "body"
  if (← body.1.requireKind).isText "BlockStatement" then inner.value body
  else inner.wrapped body (← Precedence.startsWith body.1 braceHeaded)

end Rules

end EstreePrinter
