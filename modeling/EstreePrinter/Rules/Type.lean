import EstreePrinter.Rules.Primary
import EstreePrinter.Rules.TypeMember

/-!
# Types

A type inside another one goes in parentheses where it binds looser.
-/

namespace EstreePrinter

namespace Rules

open Render
open Json (Part)

/-! ## Names and parameters -/

/-- The types that are a single word. -/
def keywordTypes : List (String × String) :=
  [("TSAnyKeyword", "any"), ("TSUnknownKeyword", "unknown"), ("TSNumberKeyword", "number"),
    ("TSStringKeyword", "string"), ("TSBooleanKeyword", "boolean"), ("TSBigIntKeyword", "bigint"),
    ("TSSymbolKeyword", "symbol"), ("TSObjectKeyword", "object"), ("TSVoidKeyword", "void"),
    ("TSUndefinedKeyword", "undefined"), ("TSNullKeyword", "null"), ("TSNeverKeyword", "never"),
    ("TSIntrinsicKeyword", "intrinsic"), ("TSThisType", "this")]

/-- A type that is a single word. -/
def keywordType (word : String) : Rule := fun _ _ => text word

/-- A type behind a binding, with its colon. -/
def ascribedType : Rule := fun _ inner => do
  text ": "
  inner.typeField "typeAnnotation"

/-- A type that is named. -/
def typeReference : Rule := fun _ inner => do
  inner.field "typeName"
  typeArguments inner

/-- Render types with commas between them. -/
def commaTypes {node : Json} (inner : Inner node) (isFirst : Bool) : List (Part node) → Render Unit
  | [] => pure ()
  | parameter :: rest => do
    if !isFirst then text ", "
    inner.type parameter
    commaTypes inner false rest

/-- Type parameters or type arguments in angle brackets. -/
def angleBrackets : Rule := fun node inner => do
  text "<"
  commaTypes inner true (← Json.parts (← node.require "params"))
  text ">"

/-- A type parameter. -/
def typeParameter : Rule := fun node inner => do
  textIf node "const" "const "
  textIf node "in" "in "
  textIf node "out" "out "
  nameOrText inner (← node.require "name")
  inner.typeAfter " extends " (← node.given "constraint")
  inner.typeAfter " = " (← node.given "default")

/-- A type bound by a pattern of a conditional type. -/
def inferType : Rule := fun _ inner => do
  text "infer "
  inner.typeField "typeParameter"

/-! ## Compound types -/

/-- The types that look like a function or a condition. -/
def functionLike : List String := ["TSFunctionType", "TSConstructorType", "TSConditionalType"]

/-- The types that bind looser than brackets behind them. -/
def looseTypes : List String :=
  functionLike ++ ["TSUnionType", "TSIntersectionType", "TSTypeOperator", "TSInferType"]

/-- Render a type, in parentheses if it is of one of some kinds. -/
def wrappedIfKind {node : Json} (inner : Inner node) (kinds : List String) (part : Part node) :
    Render Unit := do
  inner.wrappedType part (← (← part.1.requireKind).isIn kinds)

/-- An array type. -/
def arrayType : Rule := fun node inner => do
  wrappedIfKind inner looseTypes (← node.require "elementType")
  text "[]"

/-- The type of a member of another type. -/
def indexedAccess : Rule := fun node inner => do
  wrappedIfKind inner looseTypes (← node.require "objectType")
  text "["
  inner.typeField "indexType"
  text "]"

/-- A tuple type. -/
def tupleType : Rule := fun node inner => do
  text "["
  typeList inner false "," (← node.require "elementTypes")
  text "]"

/-- A member of a tuple type that has a name. -/
def namedTupleMember : Rule := fun node inner => do
  inner.field "label"
  textIf node "optional" "?"
  text ": "
  inner.typeField "elementType"

/-- A member of a tuple type that may be left out. -/
def optionalType : Rule := fun _ inner => do
  inner.typeField "typeAnnotation"
  text "?"

/-- The rest of a tuple type. -/
def restType : Rule := fun _ inner => do
  text "..."
  inner.typeField "typeAnnotation"

/-- A union type. -/
def unionType : Rule := fun node inner => do
  sequence false " |" (wrappedIfKind inner functionLike)
    (← Json.itemsOf (← node.require "types"))

/-- An intersection type. -/
def intersectionType : Rule := fun node inner => do
  sequence false " &" (wrappedIfKind inner (functionLike ++ ["TSUnionType"]))
    (← Json.itemsOf (← node.require "types"))

/-- A type that depends on whether one type extends another. -/
def conditionalType : Rule := fun node inner => do
  wrappedIfKind inner functionLike (← node.require "checkType")
  text " extends "
  let bound ← node.require "extendsType"
  inner.wrappedType bound ((← bound.1.requireKind).isText "TSConditionalType")
  text " ? "
  inner.typeField "trueType"
  text " : "
  inner.typeField "falseType"

/-- Render the parameters and the result of a function type. -/
def functionType : Rule := fun node inner => do
  typeParameters inner
  text "("
  parameters inner
  text ") => "
  match ← resultType node with
  | some result => inner.type result
  | none => text "void"

/-- The type of a class. -/
def constructorType : Rule := fun node inner => do
  textIf node "abstract" "abstract "
  text "new "
  functionType node inner

/-- A type behind an operator that is a word. -/
def typeOperator : Rule := fun node inner => do
  text ((← (← node.require "operator").1.text) ++ " ")
  inner.typeField "typeAnnotation"

/-- A type in parentheses. -/
def parenthesizedType : Rule := fun _ inner => do
  text "("
  inner.typeField "typeAnnotation"
  text ")"

/-! ## Types made of values -/

/-- The type of a value. -/
def typeQuery : Rule := fun node inner => do
  text "typeof "
  inner.either (← node.require "exprName")
  typeArguments inner

/-- A literal as a type. -/
def literalType : Rule := fun _ inner => inner.field "literal"

/-- A template as a type. -/
def templateType : Rule := fun node inner => do
  let texts ← node.require "quasis"
  let holes ← node.require "types"
  text "`"
  quasis (fun content _ => emit [.ofValue content]) inner.type holes 0 (← Json.parts texts)
  text "`"

/-- A type from another module. -/
def importType : Rule := fun node inner => do
  text "import("
  match ← node.given "argument" with
  | some argument => inner.either argument
  | none => inner.either (← node.require "parameter")
  text ")"
  inner.valueAfter "." (← node.given "qualifier")
  typeArguments inner

/-- What a function says about one of its parameters. -/
def typePredicate : Rule := fun node inner => do
  textIf node "asserts" "asserts "
  inner.either (← node.require "parameterName")
  match ← node.given "typeAnnotation" with
  | none => pure ()
  | some found =>
    text " is "
    if (← found.1.requireKind).isText "TSTypeAnnotation" then
      (inner.under found).typeField "typeAnnotation"
    else inner.type found

end Rules

end EstreePrinter
