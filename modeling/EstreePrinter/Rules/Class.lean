import EstreePrinter.Rules.Function

/-!
# Classes

Classes, their members and decorators.  A decorator stands on a line of its own.
-/

namespace EstreePrinter

namespace Rules

open Render
open Json (Part)

/-- Render parts one after the other. -/
def each {node : Json} (render : Part node → Render Unit) : List (Part node) → Render Unit
  | [] => pure ()
  | part :: rest => do
    render part
    each render rest

/-- Render the decorators of a node. -/
def decorators {node : Json} (inner : Inner node) : Render Unit := do
  match ← node.given "decorators" with
  | some list => each inner.value (← Json.parts list)
  | none => pure ()

/-- A decorator. -/
def decorator : Rule := fun node inner => do
  let expression ← node.require "expression"
  text "@"
  inner.wrapped expression (← Precedence.bindsLooser expression.1 Precedence.member)
  emit [.newline]

/-- Render the name of a class with its type parameters, if it has a name. -/
def className {node : Json} (inner : Inner node) : Render Unit := do
  match ← node.given "id" with
  | none => pure ()
  | some name =>
    inner.value name
    typeParameters inner
    text " "

/-- Render what a class extends, if it extends something. -/
def superClass {node : Json} (inner : Inner node) : Render Unit := do
  match ← node.given "superClass" with
  | none => pure ()
  | some parent =>
    text "extends "
    inner.wrapped parent (← Precedence.bindsLooser parent.1 Precedence.member)
    inner.typeIf (← node.givenOr "superTypeArguments" "superTypeParameters")
    text " "

/-- Render the types that a class implements, if there are any. -/
def implemented {node : Json} (inner : Inner node) : Render Unit := do
  match ← node.given "implements" with
  | none => pure ()
  | some types =>
    text "implements "
    typeList inner false "," types
    text " "

/-- A class. -/
def classRule : Rule := fun node inner => do
  decorators inner
  textIf node "declare" "declare "
  textIf node "abstract" "abstract "
  text "class "
  className inner
  superClass inner
  implemented inner
  inner.field "body"

/-- A method of a class. -/
def classMethod : Rule := fun node inner => do
  decorators inner
  modifiers node
  let function ← node.require "value"
  let _ ← accessor node
  textIf function.1 "async" "async "
  textIf function.1 "generator" "*"
  key inner
  textIf node "optional" "?"
  let body := inner.under function
  signature body
  functionBody body

/-- A property of a class, which may be one with accessors. -/
def classProperty (isAccessor : Bool) : Rule := fun node inner => do
  decorators inner
  modifiers node
  if isAccessor then text "accessor "
  key inner
  textIf node "optional" "?"
  textIf node "definite" "!"
  ascription inner
  inner.valueAfter " = " (← node.given "value")
  text ";"

/-- A parameter of a constructor that also declares a member. -/
def parameterProperty : Rule := fun node inner => do
  modifiers node
  inner.field "parameter"

end Rules

end EstreePrinter
