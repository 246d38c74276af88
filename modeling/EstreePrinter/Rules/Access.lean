import EstreePrinter.Rules.Signature
import EstreePrinter.Precedence

/-!
# Member accesses and calls

The last argument of a call hugs the parentheses: a callback or an object there may take several
lines without the call being broken.  The arguments before it go on a line each if one of them
needs several lines or if they are too wide together.
-/

namespace EstreePrinter

namespace Rules

open Render
open Json (Part)

/-- A member access. -/
def member : Rule := fun node inner => do
  let head ← node.require "object"
  inner.wrapped head (← Precedence.wrapsAsHead head.1 Precedence.member)
  if ← node.flag "computed" then
    textIf node "optional" "?."
    text "["
    inner.field "property"
    text "]"
  else
    text (if ← node.flag "optional" then "?." else ".")
    inner.field "property"

/-- The arguments of a call as they were rendered. -/
structure Arguments where
  /-- The arguments before the last one, with what separates them. -/
  front : List Slot := []
  /-- Whether they need several lines. -/
  frontMultiline : Bool := false
  /-- The last argument. -/
  last : List Command := []
  /-- Whether it needs several lines. -/
  lastMultiline : Bool := false

/-- What goes between two arguments: an open place, or the comments that wait for one; and whether
one of them is a line comment. -/
def argumentGap : Render (List Slot × Bool) := do
  if ← hasQueue then
    let (commands, line) ← betweenArguments (← takeQueue)
    pure (.own (.text ", ") :: Slot.ofCommands commands, line)
  else pure ([.join], false)

/-- Render the arguments of a call. -/
def arguments {node : Json} (inner : Inner node) : List (Part node) → Render Arguments
  | [] => pure {}
  | [last] => do
    let held ← fork (inner.value last)
    pure { last := held.commands, lastMultiline := held.multiline }
  | argument :: rest => do
    let held ← fork (inner.value argument)
    let (gap, line) ← argumentGap
    let others ← arguments inner rest
    pure { others with
      front := Slot.ofCommands held.commands ++ gap ++ others.front
      frontMultiline := held.multiline || line || others.frontMultiline }

/-- The commands of an argument list, with the contents of its three kinds of placeholders. -/
def argumentList (args : Arguments) (start join stop : List Command) : List Command :=
  .text "(" :: .deferred "arguments-open" start ::
    (Slot.fill "arguments-join" join args.front ++ args.last ++
      [.deferred "arguments-close" stop, .text ")"])

/-- The argument list of a call. -/
def callArguments {node : Json} (inner : Inner node) : Render Unit := do
  let args ← arguments inner (← Json.parts (← node.require "arguments"))
  let broken ← breaks args.frontMultiline (Slot.fill "arguments-join" [] args.front)
    (← setting).width
  raiseIf (broken || args.lastMultiline)
  emit (if broken then
      argumentList args [.indent, .newline] [.text ",", .newline] [.dedent, .newline]
    else argumentList args [] [.text ", "] [])

/-- A call, or the making of an object with `new`. -/
def call (isNew : Bool) : Rule := fun node inner => do
  if isNew then text "new "
  let head ← node.require "callee"
  let wrap ←
    if ← Precedence.wrapsAsHead head.1 Precedence.call then pure true
    else if isNew then Precedence.hasCall head.1
    else pure false
  inner.wrapped head wrap
  textIf node "optional" "?."
  typeArguments inner
  callArguments inner

end Rules

end EstreePrinter
