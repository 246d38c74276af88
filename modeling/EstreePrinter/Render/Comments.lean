import EstreePrinter.Render.Basic

/-!
# Comments in the output

A node may have comments before it and one behind it.  The ones before it are emitted with it; the
one behind it joins the queue, and whoever emits the end of a statement or the separator of a list
next decides where it goes.
-/

namespace EstreePrinter

namespace Render

/-- Whether a comment before `node` ends its line: because it is a line comment, because it spans
lines, or because the source has a line break between it and the node. -/
def endsLine (comment node : Json) : Except Fault Bool := do
  if ← comment.spansLines then pure true
  else
    let commentSpan ← comment.span
    let nodeSpan ← node.spanOrNull
    match commentSpan, nodeSpan with
    | some c, some n => orMalformed (c.stop.line.before? n.start.line)
    | _, _ => pure false

/-- The commands for the comments before a node.  Each is followed by a line break if `newlines`
asks for it or if it ends its line, and by a blank otherwise. -/
def leading (newlines : Bool) (node : Json) : List Json → Except Fault (List Command)
  | [] => .ok []
  | comment :: rest => do
    let breaks ← if newlines then pure true else endsLine comment node
    let others ← leading newlines node rest
    pure (.comment comment (if breaks then .newline else .space) :: others)

/-- Emit the comments before a node. -/
def leadingComments (newlines : Bool) (node : Json) (comments : List Json) : Render Unit := do
  emit (← leading newlines node comments)

/-- Let the comment behind a node wait for its place.  Only the first one is ever attached. -/
def queueTrailing (node : Json) : Render Unit := do
  match ← node.given "trailingComments" with
  | some list => enqueue (← list.1.first)
  | none => pure ()

/-- The commands for comments behind a statement: each after a blank, or on a line of its own if
the one before it was a line comment. -/
def afterStatement (newline : Bool) : List Json → Except Fault (List Command)
  | [] => .ok []
  | comment :: rest => do
    let line ← comment.isLineComment
    let others ← afterStatement line rest
    pure ((if newline then .newline else .text " ") :: .comment comment .none :: others)

/-- Emit the waiting comments behind a statement. -/
def drainAfterStatement : Render Unit := do
  let queue ← takeQueue
  emit (← afterStatement false queue)

/-- The commands for comments between two arguments, and whether one of them is a line comment. -/
def betweenArguments : List Json → Except Fault (List Command × Bool)
  | [] => .ok ([], false)
  | comment :: rest => do
    let line ← comment.isLineComment
    let (others, lines) ← betweenArguments rest
    pure (.comment comment (if line then .newline else .space) :: others, line || lines)

/-- Emit the waiting comments between two arguments, and tell whether one was a line comment. -/
def drainInline : Render Bool := do
  let queue ← takeQueue
  let (commands, line) ← betweenArguments queue
  emit commands
  pure line

end Render

end EstreePrinter
