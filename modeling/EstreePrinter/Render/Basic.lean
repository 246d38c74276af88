import EstreePrinter.Command.Basic

/-!
# Rendering

A rule renders a node by emitting layout commands.  While it does so it reads the `Setting`, which
it cannot change, and it takes comments from and adds comments to the queue of those that still wait
for their place.  What it emitted so far it cannot read: that is what makes the rendering of a node
independent of the commands before it.

* `Render` — a rendering step: it fails with a `Fault`, or it yields an `Emission`.
* `Render.emit`, `Render.raise` — add commands; note that the output needs several lines.
* `Render.fork` — run a step and hold its commands back, to decide later where they go.
* `Rule` — how the nodes of one kind are rendered, given how the parts of the node are.
-/

namespace EstreePrinter

/-- What rendering depends on and does not change. -/
structure Setting where
  /-- The delimiter of string literals. -/
  quote : Char := '\''
  /-- How wide a list may be before it is broken over several lines. -/
  width : Int := 80
  /-- Whether a bare `in` would be misread, as in the head of a loop. -/
  noIn : Bool := false
  deriving Repr, DecidableEq

/-- The outcome of a rendering step. -/
structure Emission (α : Type) where
  /-- What the step found out. -/
  value : α
  /-- The commands it emitted. -/
  commands : List Command
  /-- Whether they need several lines. -/
  multiline : Bool
  /-- The comments that wait for their place afterwards. -/
  queue : List Json

/-- A rendering step, from a setting and the comments that wait for their place. -/
def Render (α : Type) : Type := Setting → List Json → Except Fault (Emission α)

namespace Render

/-- Emit nothing. -/
protected def pure {α : Type} (a : α) : Render α := fun _ queue => .ok ⟨a, [], false, queue⟩

/-- One step after the other: the commands follow one another, and several lines are needed if one
of the two needs them. -/
protected def bind {α β : Type} (x : Render α) (f : α → Render β) : Render β := fun setting queue =>
  match x setting queue with
  | .error e => .error e
  | .ok first =>
    match f first.value setting first.queue with
    | .error e => .error e
    | .ok second =>
      .ok ⟨second.value, first.commands ++ second.commands, first.multiline || second.multiline,
        second.queue⟩

instance : Monad Render where
  pure := Render.pure
  bind := Render.bind

/-- A fault found while reading ends the rendering. -/
def ofExcept {α : Type} (x : Except Fault α) : Render α := fun _ queue =>
  match x with
  | .ok a => .ok ⟨a, [], false, queue⟩
  | .error e => .error e

instance : MonadLift (Except Fault) Render where
  monadLift := Render.ofExcept

/-- Emit commands. -/
def emit (commands : List Command) : Render Unit := fun _ queue =>
  .ok ⟨(), commands, false, queue⟩

/-- Emit a text. -/
def text (s : String) : Render Unit := emit [.text s]

/-- Emit a text that comes from the place of `node`. -/
def chunk (content : Json) (node : Json) : Render Unit := do
  let span ← node.span
  emit [.chunkOf content span]

/-- Note that the output needs several lines. -/
def raise : Render Unit := fun _ queue => .ok ⟨(), [], true, queue⟩

/-- Note that the output needs several lines, if it does. -/
def raiseIf (b : Bool) : Render Unit := fun _ queue => .ok ⟨(), [], b, queue⟩

/-- The setting. -/
def setting : Render Setting := fun s queue => .ok ⟨s, [], false, queue⟩

/-- Run a step with the reading of `in` changed. -/
def withNoIn {α : Type} (noIn : Bool) (x : Render α) : Render α := fun s queue =>
  x { s with noIn := noIn } queue

/-- Let a comment wait for its place. -/
def enqueue (comment : Json) : Render Unit := fun _ queue =>
  .ok ⟨(), [], false, queue ++ [comment]⟩

/-- Take all comments that wait for their place. -/
def takeQueue : Render (List Json) := fun _ queue => .ok ⟨queue, [], false, []⟩

/-- Whether comments wait for their place. -/
def hasQueue : Render Bool := fun _ queue => .ok ⟨!queue.isEmpty, [], false, queue⟩

/-- What a step that was held back emitted. -/
structure Held where
  commands : List Command
  multiline : Bool

/-- Run a step and hold back what it emits. -/
def fork (x : Render Unit) : Render Held := fun s queue =>
  match x s queue with
  | .ok e => .ok ⟨⟨e.commands, e.multiline⟩, [], false, e.queue⟩
  | .error e => .error e

/-- Emit a word if the field `key` of a node counts as given. -/
def textIf (node : Json) (key word : String) : Render Unit := do
  if ← node.flag key then text word

end Render

open Json (Part)

/-- How the parts of a node are rendered. -/
structure Inner (node : Json) where
  /-- Render a part with its comments. -/
  value : Part node → Render Unit
  /-- Render a part whose leading comments have been emitted already. -/
  bare : Part node → Render Unit
  /-- Render a part that is a type. -/
  type : Part node → Render Unit
  /-- Render a part that may be a type or not. -/
  either : Part node → Render Unit

namespace Inner

variable {node : Json}

/-- How the parts of a part are rendered. -/
def under (inner : Inner node) (part : Part node) : Inner part.1 where
  value p := inner.value (part.within p)
  bare p := inner.bare (part.within p)
  type p := inner.type (part.within p)
  either p := inner.either (part.within p)

/-- Render a part in parentheses if `wrap` says so. -/
def wrapped (inner : Inner node) (part : Part node) (wrap : Bool) : Render Unit := do
  if wrap then
    Render.text "("
    inner.value part
    Render.text ")"
  else inner.value part

/-- Render a type in parentheses if `wrap` says so. -/
def wrappedType (inner : Inner node) (part : Part node) (wrap : Bool) : Render Unit := do
  if wrap then
    Render.text "("
    inner.type part
    Render.text ")"
  else inner.type part

/-- Render a part, if it is there, after a text. -/
def valueAfter (inner : Inner node) (lead : String) (part : Option (Part node)) : Render Unit :=
  match part with
  | some part => do
    Render.text lead
    inner.value part
  | none => pure ()

/-- Render a type, if it is there, after a text. -/
def typeAfter (inner : Inner node) (lead : String) (part : Option (Part node)) : Render Unit :=
  match part with
  | some part => do
    Render.text lead
    inner.type part
  | none => pure ()

/-- Render a type, if it is there. -/
def typeIf (inner : Inner node) (part : Option (Part node)) : Render Unit :=
  match part with
  | some part => inner.type part
  | none => pure ()

/-- Render the field `key`, which has to be there. -/
def field (inner : Inner node) (key : String) : Render Unit := do
  inner.value (← node.require key)

/-- Render the field `key`, which has to be there, as a type. -/
def typeField (inner : Inner node) (key : String) : Render Unit := do
  inner.type (← node.require key)

end Inner

/-- How the nodes of a kind are rendered, given how their parts are. -/
abbrev Rule := (node : Json) → Inner node → Render Unit

end EstreePrinter
