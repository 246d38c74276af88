import EstreePrinter.Rules.Signature

/-!
# Members of object types
-/

namespace EstreePrinter

namespace Rules

open Render

/-- A property of an object type. -/
def propertySignature : Rule := fun node inner => do
  textIf node "readonly" "readonly "
  key inner
  textIf node "optional" "?"
  ascription inner

/-- A method of an object type. -/
def methodSignature : Rule := fun node inner => do
  let _ ← accessor node
  key inner
  textIf node "optional" "?"
  typeSignature inner

/-- What a type does when it is called. -/
def callSignature : Rule := fun _ inner => typeSignature inner

/-- What a type does when an object is made of it. -/
def constructSignature : Rule := fun _ inner => do
  text "new "
  typeSignature inner

/-- What a type gives for an index. -/
def indexSignature : Rule := fun node inner => do
  modifiers node
  text "["
  parameters inner
  text "]"
  ascription inner

/-- The same among the members of a class. -/
def classIndexSignature : Rule := fun node inner => do
  indexSignature node inner
  text ";"

/-! ## Mapped types -/

/-- Render a modifier of a mapped type, which may be added or removed explicitly. -/
def mappedModifier (node : Json) (key word : String) : Render Unit := do
  let value ← node.getValue key
  if value.isOneOf ["+", "-"] then text (value.display ++ word)
  else if value.isGiven then text word

/-- Render a name that is a text or a node. -/
def nameOrText {node : Json} (inner : Inner node) (name : Json.Part node) : Render Unit :=
  match name.1 with
  | .str s => text s
  | _ => inner.value name

/-- Render the key of a mapped type and the type it ranges over. -/
def mappedKey {node : Json} (inner : Inner node) : Render Unit := do
  match ← node.present "key" with
  | some name =>
    inner.value name
    let range ← node.require "constraint"
    text " in "
    inner.type range
  | none =>
    let parameter ← node.require "typeParameter"
    nameOrText (inner.under parameter) (← parameter.1.require "name")
    let range ← parameter.1.require "constraint"
    text " in "
    (inner.under parameter).type range

/-- A type with one member for every key of a type. -/
def mappedType : Rule := fun node inner => do
  text "\x7b "
  mappedModifier node "readonly" "readonly "
  text "["
  mappedKey inner
  inner.typeAfter " as " (← node.given "nameType")
  text "]"
  mappedModifier node "optional" "?"
  inner.typeAfter ": " (← node.given "typeAnnotation")
  text " \x7d"

end Rules

end EstreePrinter
