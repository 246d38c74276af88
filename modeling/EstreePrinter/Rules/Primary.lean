import EstreePrinter.Rules.Signature
import EstreePrinter.Literal
import EstreePrinter.Precedence

/-!
# Names, literals and templates

Literals keep the text they had in the source when the tree recorded it, and are written from their
value otherwise.  The parentheses of the tree are dropped: whoever renders an expression puts them
where they are needed.
-/

namespace EstreePrinter

namespace Rules

open Render
open Json (Part)

/-- A name, with the type of a binding. -/
def identifier : Rule := fun node inner => do
  chunk (← node.require "name").1 node
  textIf node "optional" "?"
  ascription inner

/-- A private name. -/
def privateIdentifier : Rule := fun node _ => do
  chunk (.str ("#" ++ (← (← node.require "name").1.text))) node

/-- A word of the language that stands for an expression or a statement. -/
def word (content : String) : Rule := fun node _ => chunk (.str content) node

/-- The text of a regular expression. -/
def regexText (regex : Json) : Except Fault String := do
  let pattern ← regex.require "pattern"
  let flags ← match ← regex.get "flags" with
    | some flags => pure flags.1.display
    | none => pure ""
  pure ("/" ++ pattern.1.display ++ "/" ++ flags)

/-- The text of a literal: the one it had, or the one its value has. -/
def literalText (quote : Char) (node : Json) : Except Fault Json := do
  match ← node.given "raw" with
  | some raw => pure raw.1
  | none =>
    match ← node.given "regex" with
    | some regex => .str <$> regexText regex.1
    | none =>
      match ← node.present "bigint" with
      | some digits => pure (.str (digits.1.display ++ "n"))
      | none => pure (.str (Literal.ofValue quote (← node.getValue "value")))

/-- A literal. -/
def literal : Rule := fun node _ => do
  let content ← literalText (← setting).quote node
  raiseIf (← content.hasLineFeed)
  chunk content node

/-- The text of a template between two of its holes. -/
def quasiText (quasi : Json) : Except Fault Json := do
  pure (← (← quasi.require "value").1.require "raw").1

/-- What stands in the hole behind the text number `i` of a template, if there is one. -/
def hole {node : Json} (render : Part node → Render Unit) (holes : Part node) (i : Nat) :
    Render Unit := do
  match ← Json.element holes i with
  | some part =>
    text "$\x7b"
    render part
    text "\x7d"
  | none => pure ()

/-- The texts of a template, each followed by what stands in the hole behind it. -/
def quasis {node : Json} (piece : Json → Json → Render Unit) (render : Part node → Render Unit)
    (holes : Part node) (i : Nat) : List (Part node) → Render Unit
  | [] => pure ()
  | quasi :: rest => do
    let content ← quasiText quasi.1
    piece content quasi.1
    raiseIf (← content.hasLineFeed)
    hole render holes i
    quasis piece render holes (i + 1) rest

/-- A template. -/
def template : Rule := fun node inner => do
  let texts ← node.require "quasis"
  let holes ← node.require "expressions"
  text "`"
  quasis chunk inner.value holes 0 (← Json.parts texts)
  text "`"

/-- A template with a tag in front. -/
def taggedTemplate : Rule := fun node inner => do
  let tag ← node.require "tag"
  inner.wrapped tag (← Precedence.wrapsAsHead tag.1 Precedence.member)
  typeArguments inner
  inner.field "quasi"

/-- An expression in parentheses, which are not kept; also an optional chain. -/
def transparent : Rule := fun _ inner => inner.field "expression"

/-- Two words with a dot between them, such as `new.target`. -/
def metaProperty : Rule := fun _ inner => do
  inner.field "meta"
  text "."
  inner.field "property"

/-- An import that is an expression. -/
def importCall : Rule := fun node inner => do
  chunk (.str "import") node
  text "("
  inner.field "source"
  inner.valueAfter ", " (← node.givenOr "options" "attributes")
  text ")"

end Rules

end EstreePrinter
