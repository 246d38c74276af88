import EstreePrinter.Render.Layout

/-!
# Parts that many rules share

Type arguments, type ascriptions, keys, parameter lists and modifiers occur in functions, classes,
object types and elsewhere.  Trees come in two dialects, which name some of these fields
differently; either name is read.
-/

namespace EstreePrinter

namespace Rules

open Render
open Json (Part)

variable {node : Json}

/-- Render the type arguments of a node, if it has any. -/
def typeArguments (inner : Inner node) : Render Unit := do
  inner.typeIf (← node.givenOr "typeArguments" "typeParameters")

/-- Render the type parameters of a node, if it has any. -/
def typeParameters (inner : Inner node) : Render Unit := do
  inner.typeIf (← node.given "typeParameters")

/-- Render the type that is written behind a binding, if it has one. -/
def ascription (inner : Inner node) : Render Unit := do
  inner.typeIf (← node.given "typeAnnotation")

/-- Render the key of a property or member, in brackets if it is computed. -/
def key (inner : Inner node) : Render Unit := do
  if ← node.flag "computed" then
    text "["
    inner.field "key"
    text "]"
  else inner.field "key"

/-- Render a separated list of parts. -/
def list (inner : Inner node) (spaces : Bool) (nodes : Part node) : Render Unit := do
  sequence spaces "," inner.value (← Json.itemsOf nodes)

/-- Render a separated list of types. -/
def typeList (inner : Inner node) (spaces : Bool) (separator : String) (nodes : Part node) :
    Render Unit := do
  sequence spaces separator inner.type (← Json.itemsOf nodes)

/-- The parameter list of a function or a signature. -/
def parametersOf (node : Json) : Except Fault (Option (Part node)) := do
  match ← node.present "params" with
  | some list => pure (some list)
  | none => node.given "parameters"

/-- Render the parameters of a function or a signature. -/
def parameters (inner : Inner node) : Render Unit := do
  match ← parametersOf node with
  | some nodes => list inner false nodes
  | none => pure ()

/-- Render the type parameters, the parameters and the result type of a function. -/
def signature (inner : Inner node) : Render Unit := do
  typeParameters inner
  text "("
  parameters inner
  text ")"
  inner.typeIf (← node.given "returnType")

/-- The result type of a signature inside a type, without the node that stands for the colon. -/
def resultType (node : Json) : Except Fault (Option (Part node)) := do
  let found ← match ← node.given "returnType" with
    | some part => pure (some part)
    | none => node.present "typeAnnotation"
  match found with
  | none => pure none
  | some part =>
    if (← part.1.requireKind).isText "TSTypeAnnotation" then
      let inside ← part.1.require "typeAnnotation"
      pure (if inside.1.isNull then none else some (part.within inside))
    else pure (some part)

/-- Render a signature inside a type. -/
def typeSignature (inner : Inner node) : Render Unit := do
  typeParameters inner
  text "("
  parameters inner
  text ")"
  inner.typeAfter ": " (← resultType node)

/-- Render a method's word `get` or `set`, and tell whether it has one. -/
def accessor (node : Json) : Render Bool := do
  match ← node.getValue "kind" with
  | .str "get" => do
    text "get "
    pure true
  | .str "set" => do
    text "set "
    pure true
  | _ => pure false

/-- Render the modifiers of a member, in the order in which they have to stand. -/
def modifiers (node : Json) : Render Unit := do
  let kind ← (← node.requireKind).text
  textIf node "declare" "declare "
  let accessibility ← node.getValue "accessibility"
  if accessibility.isGiven then text (accessibility.display ++ " ")
  textIf node "static" "static "
  if (← node.flag "abstract") || "TSAbstract".toList.isPrefixOf kind.toList then text "abstract "
  textIf node "override" "override "
  textIf node "readonly" "readonly "

end Rules

end EstreePrinter
