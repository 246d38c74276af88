import EstreePrinter.Rules.Signature

/-!
# Arrays, objects and patterns

A property whose value is a function without a name is written as a method, and one whose key and
value are the same name is written once.
-/

namespace EstreePrinter

namespace Rules

open Render
open Json (Part)

/-- An array or an array pattern. -/
def array : Rule := fun node inner => do
  text "["
  list inner false (← node.require "elements")
  text "]"
  ascription inner

/-- Whether a property is written as a method. -/
def isMethod (property : Json) : Except Fault Bool := do
  let value ← property.require "value"
  if !(← value.1.kind).isText "FunctionExpression" then pure false
  else if ← value.1.flag "id" then pure false
  else if (← property.getValue "kind").isOneOf ["get", "set"] then pure true
  else property.flagUnlessAbsent "method"

/-- A property that is written as a method. -/
def method {node : Json} (inner : Inner node) : Render Unit := do
  let function ← node.require "value"
  if !(← accessor node) then
    textIf function.1 "async" "async "
    textIf function.1 "generator" "*"
  key inner
  let body := inner.under function
  signature body
  text " "
  body.field "body"

/-- A member of an object. -/
def objectMember {node : Json} (inner : Inner node) (member : Part node) : Render Unit := do
  let asMethod ←
    if (← member.1.requireKind).isText "Property" then isMethod member.1 else pure false
  if asMethod then method (inner.under member) else inner.value member

/-- An object. -/
def object : Rule := fun node inner => do
  text "\x7b"
  sequence true "," (objectMember inner) (← Json.itemsOf (← node.require "properties"))
  text "\x7d"

/-- An object pattern. -/
def objectPattern : Rule := fun node inner => do
  text "\x7b"
  list inner true (← node.require "properties")
  text "\x7d"
  ascription inner

/-- Whether the key and the value of a property are the same name, so that it is written once. -/
def isShorthand (node key value : Json) : Except Fault Bool := do
  let target ←
    if (← value.requireKind).isText "AssignmentPattern" then pure (← value.require "left").1
    else pure value
  if ← node.flag "computed" then pure false
  else
    let kind ← match ← node.get "kind" with
      | some kind => pure kind.1
      | none => pure (.str "init")
    if !kind.isText "init" then pure false
    else if !(← key.requireKind).isText "Identifier" then pure false
    else if !(← target.requireKind).isText "Identifier" then pure false
    else
      let name ← key.require "name"
      pure (name.1.same (← target.require "name").1)

/-- A property of an object or an object pattern. -/
def property : Rule := fun node inner => do
  let name ← node.require "key"
  let value ← node.require "value"
  if ← isShorthand node name.1 value.1 then inner.value value
  else
    key inner
    text ": "
    inner.value value

/-- A pattern with a default. -/
def defaulted : Rule := fun _ inner => do
  inner.field "left"
  text " = "
  inner.field "right"

/-- The rest of a list, or a list spread out. -/
def spread : Rule := fun _ inner => do
  text "..."
  inner.field "argument"
  ascription inner

end Rules

end EstreePrinter
