import EstreePrinter.Rules.Signature
import EstreePrinter.Precedence

/-!
# Imports and exports

A name that keeps its name on the way in or out is written once.  Only the names in braces are
broken over several lines.
-/

namespace EstreePrinter

namespace Rules

open Render
open Json (Part)

/-- Render the attributes of an import, if it has any. -/
def importAttributes {node : Json} (inner : Inner node) : Render Unit := do
  match ← node.givenOr "attributes" "assertions" with
  | none => pure ()
  | some attributes =>
    text " with \x7b"
    list inner true attributes
    text "\x7d"

/-- Render where something comes from. -/
def origin {node : Json} (inner : Inner node) : Render Unit := do
  text " from "
  inner.field "source"
  importAttributes inner

/-- An attribute of an import. -/
def importAttribute : Rule := fun _ inner => do
  inner.field "key"
  text ": "
  inner.field "value"

/-- Render the word `type` if only a type is meant. -/
def typeWord (node : Json) (key : String) : Render Unit := do
  if (← node.getValue key).isText "type" then text "type "

/-! ## Imports -/

/-- The names an import brings in. -/
structure Imported (node : Json) where
  /-- The name for the default. -/
  byDefault : Option (Part node) := none
  /-- The name for everything together. -/
  everything : Option (Part node) := none
  /-- The names in braces. -/
  named : List (Part node) := []

/-- Sort the names an import brings in; of two defaults the later one counts. -/
def Imported.ofSpecifiers {node : Json} (found : Imported node) :
    List (Part node) → Except Fault (Imported node)
  | [] => pure found
  | specifier :: rest => do
    let kind ← specifier.1.requireKind
    if kind.isText "ImportDefaultSpecifier" then
      Imported.ofSpecifiers { found with byDefault := some specifier } rest
    else if kind.isText "ImportNamespaceSpecifier" then
      Imported.ofSpecifiers { found with everything := some specifier } rest
    else Imported.ofSpecifiers { found with named := found.named ++ [specifier] } rest

/-- The local name of a specifier. -/
def localName (specifier : Json) : Except Fault Json := do
  pure (← (← specifier.require "local").1.require "name").1

/-- Render a name in the braces of an import. -/
def importSpecifier {node : Json} (inner : Inner node) : Render Unit := do
  typeWord node "importKind"
  let imported ← node.require "imported"
  let localPart ← node.require "local"
  let outside ← imported.1.nameOf
  if !outside.same (← localPart.1.nameOf) then
    inner.value imported
    text " as "
  inner.value localPart

/-- Render the names that an import brings in. -/
def importedNames {node : Json} (inner : Inner node) (found : Imported node) : Render Unit := do
  match found.byDefault with
  | none => pure ()
  | some specifier =>
    chunk (← localName specifier.1) specifier.1
    if found.everything.isSome || !found.named.isEmpty then text ", "
  match found.everything with
  | none => pure ()
  | some specifier =>
    chunk (.str ("* as " ++ (← (← localName specifier.1).text))) specifier.1
  if !found.named.isEmpty then
    text "\x7b"
    sequence true "," (fun specifier => importSpecifier (inner.under specifier))
      (found.named.map some)
    text "\x7d"

/-- An import. -/
def importRule : Rule := fun node inner => do
  text "import "
  typeWord node "importKind"
  match ← node.given "specifiers" with
  | none =>
    inner.field "source"
    importAttributes inner
  | some specifiers =>
    importedNames inner (← Imported.ofSpecifiers {} (← Json.parts specifiers))
    origin inner
  text ";"

/-! ## Exports -/

/-- Render a name in the braces of an export. -/
def exportSpecifier {node : Json} (inner : Inner node) : Render Unit := do
  typeWord node "exportKind"
  let localPart ← node.require "local"
  let exported ← node.require "exported"
  inner.value localPart
  let inside ← localPart.1.nameOf
  if !inside.same (← exported.1.nameOf) then
    text " as "
    inner.value exported

/-- Render the names in the braces of an export. -/
def exportedNames {node : Json} (inner : Inner node) : Render Unit := do
  typeWord node "exportKind"
  text "\x7b"
  match ← node.given "specifiers" with
  | some specifiers =>
    sequence true "," (fun specifier => exportSpecifier (inner.under specifier))
      (← Json.itemsOf specifiers)
  | none => pure ()
  text "\x7d"
  if ← node.flag "source" then origin inner
  text ";"

/-- An export of names or of a declaration. -/
def exportNamed : Rule := fun node inner => do
  text "export "
  match ← node.given "declaration" with
  | some declaration => inner.value declaration
  | none => exportedNames inner

/-- The kinds of declarations that need no semicolon. -/
def selfTerminating : List String :=
  ["FunctionDeclaration", "ClassDeclaration", "TSInterfaceDeclaration", "TSDeclareFunction"]

/-- The kinds of expressions that would be read as a declaration. -/
def declarationHeaded : List String := ["FunctionExpression", "ClassExpression"]

/-- An export of a default. -/
def exportDefault : Rule := fun node inner => do
  let declaration ← node.require "declaration"
  text "export default "
  inner.wrapped declaration (← Precedence.startsWith declaration.1 declarationHeaded)
  if !(← (← declaration.1.requireKind).isIn selfTerminating) then text ";"

/-- An export of everything another module exports. -/
def exportAll : Rule := fun node inner => do
  text "export "
  typeWord node "exportKind"
  text "*"
  inner.valueAfter " as " (← node.given "exported")
  origin inner
  text ";"

end Rules

end EstreePrinter
