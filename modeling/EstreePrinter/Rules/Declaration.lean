import EstreePrinter.Rules.Signature

/-!
# Declarations of types and namespaces
-/

namespace EstreePrinter

namespace Rules

open Render
open Json (Part)

/-- A name for a type. -/
def typeAlias : Rule := fun node inner => do
  textIf node "declare" "declare "
  text "type "
  inner.field "id"
  typeParameters inner
  text " = "
  inner.typeField "typeAnnotation"
  text ";"

/-- An interface. -/
def interface : Rule := fun node inner => do
  textIf node "declare" "declare "
  text "interface "
  inner.field "id"
  typeParameters inner
  match ← node.given "extends" with
  | some parents =>
    text " extends "
    typeList inner false "," parents
  | none => pure ()
  text " "
  inner.field "body"

/-- Members of an object type in braces, under the field `field`. -/
def memberBlock (field : String) : Rule := fun node inner => do
  text "\x7b"
  typeList inner true ";" (← node.require field)
  text "\x7d"

/-- The members of an enumeration, which stand in the node or one level deeper. -/
def enumMembers (node : Json) : Except Fault (Part node) := do
  match ← node.present "members" with
  | some members => pure members
  | none =>
    let body ← node.require "body"
    pure (body.within (← body.1.require "members"))

/-- An enumeration. -/
def enumeration : Rule := fun node inner => do
  textIf node "declare" "declare "
  textIf node "const" "const "
  text "enum "
  inner.field "id"
  text " \x7b"
  list inner true (← enumMembers node)
  text "\x7d"

/-- A member of an enumeration. -/
def enumMember : Rule := fun node inner => do
  if ← node.flag "computed" then
    text "["
    inner.field "id"
    text "]"
  else inner.field "id"
  inner.valueAfter " = " (← node.given "initializer")

/-- The word before the name of a namespace: the one it had, none for the global one, and otherwise
the one that goes with its name. -/
def namespaceWord (node : Json) : Except Fault Json := do
  let kind ← node.getValue "kind"
  if !kind.isNull then pure kind
  else if ← node.flag "global" then pure .null
  else
    let name ← node.require "id"
    pure (.str (if (← name.1.requireKind).isText "Literal" then "module" else "namespace"))

/-- Render the body of a namespace.  A body that is itself a namespace continues the name. -/
def namespaceBody {whole : Json} (inner : Inner whole) (body : Part whole) : Render Unit := do
  if (← body.1.requireKind).isText "TSModuleDeclaration" then
    text "."
    (inner.under body).field "id"
    match ← body.1.present "body" with
    | some next => namespaceBody inner (body.within next)
    | none => text ";"
  else
    text " "
    inner.value body
termination_by sizeOf body.1
decreasing_by exact next.2.sizeOf_lt

/-- A namespace or module. -/
def namespaceRule : Rule := fun node inner => do
  textIf node "declare" "declare "
  let word ← namespaceWord node
  if word.isGiven && !word.isText "global" then text ((← word.text) ++ " ")
  inner.field "id"
  match ← node.present "body" with
  | some body => namespaceBody inner body
  | none => text ";"

end Rules

end EstreePrinter
