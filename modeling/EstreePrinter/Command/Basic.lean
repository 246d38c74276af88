import EstreePrinter.Node

/-!
# Layout commands

Printing goes through a sequence of layout commands: pieces of text, line breaks, changes of the
indentation, comments, and placeholders whose contents were chosen after their surroundings had been
measured.  This file has the commands and the estimate of their width on which those choices rest.

* `Command.text`, `Command.chunk` — text, the second kind with the place it comes from;
* `Command.newline`, `Command.indent`, `Command.dedent` — the markers;
* `Command.comment` — a comment and what follows it;
* `Command.deferred` — a placeholder with its contents, `Command.pending` one still without;
* `Command.foreign`, `Command.foreignChunk` — a value that is no text where text was expected.
-/

namespace EstreePrinter

/-- What follows a comment. -/
inductive Break where
  | none
  | space
  | newline
  deriving Repr, DecidableEq

/-- A layout command. -/
inductive Command where
  /-- Plain text. -/
  | text (content : String)
  /-- Text that comes from a place of the source. -/
  | chunk (content : String) (span : Option Span)
  /-- A line break, followed by the current indentation. -/
  | newline
  /-- The lines that follow are one level deeper. -/
  | indent
  /-- The lines that follow are one level shallower. -/
  | dedent
  /-- A comment of the tree. -/
  | comment (comment : Json) (after : Break)
  /-- A placeholder with its contents. -/
  | deferred (name : String) (contents : List Command)
  /-- A placeholder without contents. -/
  | pending (name : String)
  /-- A value that is no text, carried along and never printed. -/
  | foreign (value : Json)
  /-- A value that is no text, with the place it comes from. -/
  | foreignChunk (value : Json) (span : Option Span)

namespace Command

/-- The command that prints a value of the tree as it is. -/
def ofValue : Json → Command
  | .str s => .text s
  | v => .foreign v

/-- The command that prints a value of the tree with the place it comes from. -/
def chunkOf (value : Json) (span : Option Span) : Command :=
  match value with
  | .str s => .chunk s span
  | v => .foreignChunk v span

/-! ## Width -/

/-- The estimated width of a command.  A placeholder counts as a separator and a blank, whatever
its contents turn out to be; markers count nothing. -/
def width : Command → Except Fault Nat
  | .text s => .ok s.length
  | .chunk s _ => .ok s.length
  | .foreignChunk v _ => orMalformed v.length?
  | .deferred _ _ => .ok 2
  | .pending _ => .ok 2
  | .comment c _ => do
    let n ← orMalformed (← c.commentText).length?
    pure (n + 4)
  | _ => .ok 0

/-- The estimated width of a sequence of commands. -/
def totalWidth : List Command → Except Fault Nat
  | [] => .ok 0
  | c :: rest => do
    let n ← c.width
    let m ← totalWidth rest
    pure (n + m)

end Command

end EstreePrinter
