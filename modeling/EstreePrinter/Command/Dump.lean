import EstreePrinter.Command.Basic
import EstreePrinter.Json.Display

/-!
# Showing commands

A sequence of commands can be shown for inspection, one command to a line, with the contents of a
placeholder indented below it.
-/

namespace EstreePrinter

namespace Command

/-- The name under which a break is shown. -/
def breakName : Break → String
  | .none => "NONE"
  | .space => "SPACE"
  | .newline => "NEWLINE"

/-- The indentation of a line at some depth. -/
def dumpIndent (depth : Nat) : String := String.ofList (List.replicate (2 * depth) ' ')

/-- How the place of a chunk is shown. -/
def dumpSpan : Option Span → String
  | none => ""
  | some s =>
    " @ " ++ s.start.line.display ++ ":" ++ s.start.column.display ++ "-" ++
      s.stop.line.display ++ ":" ++ s.stop.column.display

/-- How a comment is shown. -/
def dumpComment (comment : Json) (after : Break) : Except Fault String := do
  let kind := match ← comment.get "type" with
    | some part => part.1.display
    | none => "Block"
  let value ← comment.commentText
  pure ("Comment " ++ kind ++ " " ++ value.shown ++ " then " ++ breakName after)

mutual

/-- The lines that show a command. -/
def dumpOne (depth : Nat) : Command → Except Fault (List String)
  | .text s => .ok [dumpIndent depth ++ "Text(" ++ Json.shownText s ++ ")"]
  | .chunk s span =>
    .ok [dumpIndent depth ++ "Chunk(" ++ Json.shownText s ++ ")" ++ dumpSpan span]
  | .foreignChunk v span =>
    .ok [dumpIndent depth ++ "Chunk(" ++ v.shown ++ ")" ++ dumpSpan span]
  | .newline => .ok [dumpIndent depth ++ "NEWLINE"]
  | .indent => .ok [dumpIndent depth ++ "INDENT"]
  | .dedent => .ok [dumpIndent depth ++ "DEDENT"]
  | .comment c after => do
    pure [dumpIndent depth ++ (← dumpComment c after)]
  | .deferred name contents => do
    let inner ← dumpAll (depth + 1) contents
    pure ((dumpIndent depth ++ "Deferred " ++ name) :: inner)
  | .pending name => .ok [dumpIndent depth ++ "Deferred " ++ name ++ " (unresolved)"]
  | .foreign _ => .ok []

/-- The lines that show a sequence of commands. -/
def dumpAll (depth : Nat) : List Command → Except Fault (List String)
  | [] => .ok []
  | c :: rest => do
    let here ← dumpOne depth c
    let there ← dumpAll depth rest
    pure (here ++ there)

end

/-- The lines that show a sequence of commands, under a heading with their number. -/
def dump (commands : List Command) : Except Fault (List String) := do
  let lines ← dumpAll 1 commands
  pure (("Commands (" ++ toString commands.length ++ ")") :: lines)

end Command

end EstreePrinter
