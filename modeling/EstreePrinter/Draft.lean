import EstreePrinter.Error
import EstreePrinter.Render.Tree

/-!
# Commands under construction

A `Draft` is a sequence of commands that is still being built, together with the comments that wait
for their place.  It may hold open slots: places whose contents are given later, once, and which may
occur several times in the sequence.

* `Draft.defer`, `Draft.resolve` — make a slot, and give it its contents;
* `Draft.render` — let a rendering step add its commands;
* `Draft.commands` — the commands so far, each slot a placeholder;
* `Rendering` — a draft with what its rendering depends on.
-/

namespace EstreePrinter

/-- A command, or a slot by its number. -/
inductive Piece where
  | command (c : Command)
  | slot (number : Nat)

/-- A place whose contents are given later. -/
structure OpenSlot where
  /-- The name under which it is reported. -/
  name : String
  /-- Its contents, once they have been given. -/
  contents : Option (List Piece) := none

/-- Commands under construction. -/
structure Draft where
  /-- The sequence so far. -/
  pieces : List Piece := []
  /-- The slots made so far, by their numbers. -/
  slots : List OpenSlot := []
  /-- The comments that wait for their place. -/
  queue : List Json := []

namespace Draft

/-- Add to the sequence. -/
def push (d : Draft) (pieces : List Piece) : Draft := { d with pieces := d.pieces ++ pieces }

/-- Let comments wait for their place. -/
def enqueue (d : Draft) (comments : List Json) : Draft := { d with queue := d.queue ++ comments }

/-- Make a slot; it is not put into the sequence. -/
def defer (d : Draft) (name : String) : Nat × Draft :=
  (d.slots.length, { d with slots := d.slots ++ [{ name }] })

/-- Give a slot its contents, which can be done only once. -/
def resolve (d : Draft) (number : Nat) (contents : List Piece) : Except LayoutError Draft :=
  match d.slots[number]? with
  | none => .ok d
  | some slot =>
    match slot.contents with
    | some _ => .error (.resolvedTwice slot.name)
    | none => .ok { d with slots := d.slots.set number { slot with contents := some contents } }

/-- A piece as commands, given how the contents of a slot are. -/
def place (slots : List OpenSlot) (inside : List Piece → List Command) : Piece → List Command
  | .command c => [c]
  | .slot number =>
    match slots[number]? with
    | none => []
    | some slot =>
      match slot.contents with
      | some contents => [.deferred slot.name (inside contents)]
      | none => [.pending slot.name]

/-- Pieces as commands, with slots inside of slots followed to some depth. -/
def expand (slots : List OpenSlot) : Nat → List Piece → List Command
  | 0, _ => []
  | depth + 1, pieces => pieces.flatMap (place slots (expand slots depth))

/-- The commands so far.  Slots that do not contain themselves nest no deeper than there are
slots. -/
def commands (d : Draft) : List Command := expand d.slots (d.slots.length + 1) d.pieces

/-- Let a rendering step add its commands; also tells whether they need several lines. -/
def render {α : Type} (d : Draft) (setting : Setting) (x : Render α) :
    Except Fault (α × Bool × Draft) :=
  match x setting d.queue with
  | .error fault => .error fault
  | .ok e =>
    .ok (e.value, e.multiline,
      { d with pieces := d.pieces ++ e.commands.map .command, queue := e.queue })

/-- The command at an index; a negative index counts from the end. -/
def commandAt? (commands : List Command) (i : Int) : Option Command :=
  if 0 ≤ i then commands[i.toNat]?
  else if 0 ≤ i + commands.length then commands[(i + commands.length).toNat]?
  else none

/-- The estimated width of `count` commands from an index on. -/
def measureFrom (commands : List Command) (start : Int) : Nat → Except Fault Nat
  | 0 => pure 0
  | count + 1 => do
    let n ← (← orMalformed (commandAt? commands start)).width
    let m ← measureFrom commands (start + 1) count
    pure (n + m)

/-- The estimated width of the commands between two indices; without a second one, to the end. -/
def measure (d : Draft) (start : Int) (stop : Option Int) : Except Fault Nat :=
  let commands := d.commands
  measureFrom commands start (stop.getD commands.length - start).toNat

end Draft

/-- A rendering under way. -/
structure Rendering where
  /-- What it depends on. -/
  setting : Setting
  /-- Whether the output so far needs several lines. -/
  multiline : Bool := false
  /-- The commands so far. -/
  draft : Draft := {}

namespace Rendering

/-- Let a rendering step add its commands.  If several lines were needed before, they still are. -/
def run {α : Type} (r : Rendering) (x : Render α) : Except Fault (α × Rendering) := do
  let (value, multiline, draft) ← r.draft.render r.setting x
  pure (value, { r with multiline := r.multiline || multiline, draft })

/-- Render a node. -/
def handle (r : Rendering) (role : Role) (node : Json) : Except Fault Rendering := do
  let (_, r) ← r.run (Render.tree role node)
  pure r

end Rendering

end EstreePrinter
