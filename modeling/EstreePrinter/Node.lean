import EstreePrinter.Fault

/-!
# Reading nodes

A node is an object with a field `type` that names its kind.  The fields of a node are read in one
of two ways: `require` stops when a field is missing, `get` gives nothing.  Asking anything but an
object for a field is a fault in both.

Comments are objects too, with a field `type` that tells line comments from the others and the text
in the field `value`.
-/

namespace EstreePrinter

namespace Json

/-! ## Fields -/

/-- The field `key`, if the object has it. -/
def get (node : Json) (key : String) : Except Fault (Option (Part node)) :=
  if node.isObject then .ok (node.field? key) else .error .malformed

/-- The field `key`, which has to be there. -/
def require (node : Json) (key : String) : Except Fault (Part node) :=
  if node.isObject then
    match node.field? key with
    | some part => .ok part
    | none => .error (.missing key)
  else .error .malformed

/-- The field `key`, or null. -/
def getValue (node : Json) (key : String) : Except Fault Json := do
  match ← node.get key with
  | some part => pure part.1
  | none => pure .null

/-- The field `key`, if it is there and counts as given. -/
def given (node : Json) (key : String) : Except Fault (Option (Part node)) := do
  pure ((← node.get key).filter fun part => part.1.isGiven)

/-- The first of two fields that counts as given. -/
def givenOr (node : Json) (key other : String) : Except Fault (Option (Part node)) := do
  match ← node.given key with
  | some part => pure (some part)
  | none => node.given other

/-- The field `key`, if it is there and not null. -/
def present (node : Json) (key : String) : Except Fault (Option (Part node)) := do
  pure ((← node.get key).filter fun part => !part.1.isNull)

/-- Whether the field `key` counts as given. -/
def flag (node : Json) (key : String) : Except Fault Bool := do
  pure (← node.getValue key).isGiven

/-- Whether the field `key` counts as given, or is not there at all. -/
def flagUnlessAbsent (node : Json) (key : String) : Except Fault Bool := do
  match ← node.get key with
  | some part => pure part.1.isGiven
  | none => pure true

/-- The kind of a node, null if it has none. -/
def kind (node : Json) : Except Fault Json := node.getValue "type"

/-- The kind of a node that has to have one. -/
def requireKind (node : Json) : Except Fault Json := do
  pure (← node.require "type").1

/-- A text; a fault if the value is none. -/
def text : Json → Except Fault String
  | .str s => .ok s
  | _ => .error .malformed

/-- Values that can be looked up in a table: lists and objects cannot. -/
def key : Json → Except Fault Json
  | .arr _ => .error .malformed
  | .obj _ => .error .malformed
  | v => .ok v

/-- Whether a value that can be looked up is one of `options`. -/
def isIn (options : List String) (v : Json) : Except Fault Bool := do
  pure ((← v.key).isOneOf options)

/-! ## Lists -/

/-- The parts of a list of nodes. -/
def parts {whole : Json} (list : Part whole) : Except Fault (List (Part whole)) :=
  orMalformed (parts? list)

/-- The items of a list in which null stands for a hole.  A list that does not count as given has
none. -/
def itemsOf {whole : Json} (list : Part whole) : Except Fault (List (Option (Part whole))) := do
  if list.1.isGiven then
    pure ((← parts list).map fun p => if p.1.isNull then none else some p)
  else pure []

/-- The element at an index; nothing behind the last one. -/
def element {whole : Json} (list : Part whole) (i : Nat) :
    Except Fault (Option (Part whole)) := do
  let length ← orMalformed list.1.length?
  if i < length then
    match list.1 with
    | .obj _ => .error (.missing (toString i))
    | .str _ => .error .malformed
    | _ => pure (← parts list)[i]?
  else pure none

/-- The first element of a list or text. -/
def first (list : Json) : Except Fault Json :=
  match list with
  | .obj _ => .error (.missing "0")
  | list => orMalformed (list.elements?.bind List.head?)

/-- Whether a text has a line feed in it, or a list or object a lone one. -/
def hasLineFeed : Json → Except Fault Bool
  | .str s => .ok (s.toList.contains '\n')
  | list => do
    pure ((← orMalformed list.elements?).any fun v => v.isText "\n")

/-! ## Places -/

/-- The place a position object names. -/
def position (v : Json) : Except Fault Position := do
  let line ← v.require "line"
  let column ← v.require "column"
  pure ⟨line.1, column.1⟩

/-- Where a node stands in its source text, if the tree says so.  A range without an end ends where
it starts. -/
def span (node : Json) : Except Fault (Option Span) := do
  match ← node.given "loc" with
  | none => pure none
  | some loc =>
    let start ← loc.1.given "start"
    let stop ← loc.1.given "end"
    match start with
    | none => pure none
    | some start =>
      let first ← start.1.position
      let last ← (stop.getD start).1.position
      pure (some ⟨first, last⟩)

/-- Where a node stands; null stands nowhere. -/
def spanOrNull (node : Json) : Except Fault (Option Span) :=
  if node.isNull then pure none else node.span

/-! ## Names -/

/-- The name an identifier or a string literal gives, null for anything else. -/
def nameOf (node : Json) : Except Fault Json := do
  let kind ← node.kind
  if kind.isText "Identifier" then node.getValue "name"
  else if kind.isText "Literal" then
    match ← node.getValue "value" with
    | .str s => pure (.str s)
    | _ => pure .null
  else pure .null

/-! ## Comments -/

/-- The comments under `key`, if there are any. -/
def comments (node : Json) (key : String) : Except Fault (List Json) := do
  match ← node.given key with
  | some list => orMalformed list.1.elements?
  | none => pure []

/-- Whether a comment runs to the end of its line. -/
def isLineComment (comment : Json) : Except Fault Bool := do
  pure ((← comment.kind).isText "Line")

/-- The text of a comment; a comment without one is empty. -/
def commentText (comment : Json) : Except Fault Json := do
  match ← comment.get "value" with
  | some part => pure part.1
  | none => pure (.str "")

/-- Whether a comment cannot be followed by code on its own line: a line comment, or one with a
line feed in it. -/
def spansLines (comment : Json) : Except Fault Bool := do
  if ← comment.isLineComment then pure true
  else (← comment.commentText).hasLineFeed

end Json

end EstreePrinter
