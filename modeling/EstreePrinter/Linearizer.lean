import EstreePrinter.Command.Walk
import EstreePrinter.SourceMap

/-!
# From commands to text

The last step goes through the commands once and writes them down: text as it is, a marker for a
line break as a line feed and the indentation of the moment, a comment between its marks.  On the
way it counts the column of the line being written, in UTF-16 code units, and notes for every chunk
with a place in the source where its text starts and where it ends.

* `Linearizer` — the text written so far, and where the writing stands.
* `Linearizer.run` — write a sequence of commands; `Linearizer.finish` — close the last line.
* `linearize` — both, from the start.
-/

namespace EstreePrinter

/-- A column of the printed code and the place of the source it is mapped to, with lines counted
from zero. -/
structure Mark where
  column : Nat
  line : Json
  sourceColumn : Json

/-- A mark as a list of numbers; there is one source, which has the number zero. -/
def Mark.toJson (m : Mark) : Json := .arr [.int m.column, .int 0, m.line, m.sourceColumn]

/-- What has been written so far. -/
structure Linearizer where
  /-- The text of one indentation level. -/
  indent : String := "\t"
  /-- How many levels are open. -/
  depth : Nat := 0
  /-- The column the next character is written to. -/
  column : Nat := 0
  /-- The marks of the lines that are complete. -/
  lines : Array (List Mark) := #[]
  /-- The marks of the line being written, the last one first. -/
  marks : List Mark := []
  /-- The text. -/
  output : String := ""

namespace Linearizer

/-- A line break and the indentation of the moment. -/
def lineBreak (l : Linearizer) : String :=
  "\n" ++ String.join (List.replicate l.depth l.indent)

/-- Close the line being written. -/
def closeLine (l : Linearizer) : Linearizer :=
  { l with lines := l.lines.push l.marks.reverse, marks := [] }

/-- Count one character. -/
def count (l : Linearizer) (c : Char) : Linearizer :=
  if c = '\n' then { l.closeLine with column := 0 }
  else if 0xFFFF < c.toNat then { l with column := l.column + 2 }
  else { l with column := l.column + 1 }

/-- Write a text. -/
def append (l : Linearizer) (text : String) : Linearizer :=
  text.toList.foldl count { l with output := l.output ++ text }

/-- Map the current column to a place of the source. -/
def mark (l : Linearizer) (p : Position) : Except Fault Linearizer := do
  let line ← orMalformed (p.line.plus? (-1))
  pure { l with marks := ⟨l.column, line, p.column⟩ :: l.marks }

/-- Write a text and mark its two ends. -/
def chunk (l : Linearizer) (text : String) : Option Span → Except Fault Linearizer
  | none => .ok (l.append text)
  | some span => do
    let l ← l.mark span.start
    (l.append text).mark span.stop

/-- A comment between its marks; the lines of a block comment follow the indentation. -/
def commentBody (l : Linearizer) (comment : Json) : Except Fault String := do
  let value ← comment.commentText
  if ← comment.isLineComment then pure ("//" ++ value.display)
  else
    let text ← value.text
    let body := text.toList.flatMap fun c => if c = '\n' then l.lineBreak.toList else [c]
    pure ("/*" ++ String.ofList body ++ "*/")

/-- Write a comment and what follows it. -/
def comment (l : Linearizer) (comment : Json) (after : Break) : Except Fault Linearizer := do
  let body ← l.commentBody comment
  pure <| match after with
    | .none => l.append body
    | .space => (l.append body).append " "
    | .newline => (l.append body).append l.lineBreak

/-- Whether no indentation is being written. -/
def atMargin (l : Linearizer) : Bool := l.depth == 0 || l.indent == ""

/-- Carry out one command.  Placeholders have no text of their own, and a value that is no text
has none either. -/
def step (l : Linearizer) : Command → Except Error Linearizer
  | .text s => .ok (l.append s)
  | .chunk s span => Error.ofFault (l.chunk s span)
  | .newline => .ok (l.append l.lineBreak)
  | .indent => .ok { l with depth := l.depth + 1 }
  | .dedent =>
    if l.atMargin then .error (.layout .dedentBelowZero)
    else .ok { l with depth := l.depth - 1 }
  | .comment c after => Error.ofFault (l.comment c after)
  | .foreignChunk _ _ => .error (.fault .malformed)
  | .deferred _ _ => .ok l
  | .pending _ => .ok l
  | .foreign _ => .ok l

/-- Carry out commands one after the other.  The first error ends it; what was written before it
stays written. -/
def runLeaves (l : Linearizer) : List Command → Linearizer × Option Error
  | [] => (l, none)
  | c :: rest =>
    match l.step c with
    | .ok l => l.runLeaves rest
    | .error e => (l, some e)

/-- Carry out a sequence of commands with the contents of its placeholders. -/
def run (l : Linearizer) (commands : List Command) : Linearizer × Option Error :=
  l.runLeaves (Command.walk [commands])

/-- Close the last line, with all levels closed before. -/
def finish (l : Linearizer) : Except LayoutError Linearizer :=
  if l.atMargin then .ok l.closeLine else .error .levelLeftOpen

/-- The marks of all complete lines. -/
def mappings (l : Linearizer) : List (List Mark) := l.lines.toList

end Linearizer

/-- The text of a sequence of commands and the marks of its lines. -/
def linearize (commands : List Command) (indent : String) :
    Except Error (String × List (List Mark)) :=
  match ({ indent := indent } : Linearizer).run commands with
  | (_, some e) => .error e
  | (l, none) =>
    match l.finish with
    | .ok l => .ok (l.output, l.mappings)
    | .error e => .error (.layout e)

/-- Marks as lists of numbers, line by line. -/
def marksToJson (lines : List (List Mark)) : Json :=
  .arr (lines.map fun line => .arr (line.map Mark.toJson))

end EstreePrinter
