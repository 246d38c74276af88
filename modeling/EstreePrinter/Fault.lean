import EstreePrinter.Json.Compare
import EstreePrinter.Json.Display

/-!
# Positions, and what can be wrong with a tree

A syntax tree comes from outside, and any part of it may be missing or of the wrong kind.  A `Fault`
says what was found wrong first:

* `Fault.missing` — a field that has to be there is not;
* `Fault.malformed` — a value is of a kind that cannot stand where it stands;
* `Fault.unhandled` — a node is of a kind for which there is no rule.

The last one is reported with the place of the node and, when the source text is at hand, with the
line it stands on (`Unhandled.report`).

**Lines.**  A line of a source text ends at a line feed, a carriage return (with a line feed after
it, if there is one), or at one of the further separators that `Text.endsLine` lists.  What follows
the last separator is a line only if it is not empty.
-/

namespace EstreePrinter

namespace Text

/-- Whether a character ends a line. -/
def endsLine (c : Char) : Bool :=
  [0x0a, 0x0b, 0x0c, 0x0d, 0x1c, 0x1d, 0x1e, 0x85, 0x2028, 0x2029].contains c.toNat

/-- The lines of a text, where `line` holds the characters of the line being read in reverse. -/
def linesFrom (line : List Char) : List Char → List (List Char)
  | [] => if line.isEmpty then [] else [line.reverse]
  | '\r' :: '\n' :: rest => line.reverse :: linesFrom [] rest
  | c :: rest => if endsLine c then line.reverse :: linesFrom [] rest else linesFrom (c :: line) rest

/-- The lines of a text, without their ends. -/
def lines (text : List Char) : List (List Char) := linesFrom [] text

/-- Write every line end as a line feed. -/
def plainLineEnds : List Char → List Char
  | [] => []
  | '\r' :: '\n' :: rest => '\n' :: plainLineEnds rest
  | '\r' :: rest => '\n' :: plainLineEnds rest
  | c :: rest => c :: plainLineEnds rest

end Text

/-- A place in a source text: a line counted from one and a column counted from zero.  The numbers
are kept as the tree gives them. -/
structure Position where
  line : Json
  column : Json

/-- A range of a source text. -/
structure Span where
  start : Position
  stop : Position

/-- A node that no rule covers. -/
structure Unhandled where
  /-- The kind that has no rule. -/
  kind : Json
  /-- Where the node stands. -/
  span : Option Span := none
  /-- The source text, where one is known. -/
  source : Json := .str ""
  /-- Which set of rules was asked. -/
  category : String := "node"

/-- What is wrong with a tree. -/
inductive Fault where
  | missing (key : String)
  | malformed
  | unhandled (what : Unhandled)

/-- A value that may be absent for one reason only. -/
def orMalformed {α : Type} : Option α → Except Fault α
  | some a => .ok a
  | none => .error .malformed

namespace Unhandled

/-- What is wrong, in words. -/
def message (u : Unhandled) : String :=
  "not implemented: " ++ u.category ++ " kind '" ++ u.kind.display ++ "'"

/-- How many characters to underline when the range ends on the line it starts on: the columns
between its ends, and at least one. -/
def underlined (start : Int) (stop : Json) : Except Fault Nat :=
  match stop with
  | .float x => if x - Float.ofInt start > 1 then .error .malformed else .ok 1
  | stop => do
    let stop ← orMalformed stop.toInt?
    pure (max 1 (stop - start)).toNat

/-- The line a number points at, if it points at one of `lines`. -/
def lineAt (line : Json) (lines : List (List Char)) : Except Fault (Option (List Char)) := do
  match ← orMalformed (line.plus? (-1)) with
  | .int n => pure (if 0 ≤ n then lines[n.toNat]? else none)
  | .float x =>
    if 0 ≤ x ∧ x < Float.ofNat lines.length then .error .malformed else pure none
  | _ => .error .malformed

/-- The report on a node without a rule: what is wrong, where, and the line with the node
underlined. -/
def report (u : Unhandled) (filename : String) : Except Fault String := do
  let heading := "error: " ++ u.message
  match u.span with
  | none => pure heading
  | some span =>
    let column ← orMalformed (span.start.column.plus? 1)
    let place := filename ++ ":" ++ span.start.line.display ++ ":" ++ column.display
    let source ← match u.source with
      | .str s => pure s
      | _ => .error .malformed
    match ← lineAt span.start.line (Text.lines source.toList) with
    | none => pure (heading ++ "\n  --> " ++ place)
    | some line =>
      let column ← orMalformed column.toInt?
      let start := column - 1
      let carets ←
        if span.stop.line.same span.start.line then underlined start span.stop.column
        else pure (max 1 ((line.length : Int) - column + 1)).toNat
      let number := span.start.line.display
      let gutter := String.ofList (List.replicate (number.length + 1) ' ')
      let pad := String.ofList (List.replicate start.toNat ' ')
      let underline := String.ofList (List.replicate carets '^')
      pure (heading ++ "\n" ++ gutter ++ "--> " ++ place ++ "\n"
        ++ gutter ++ "|\n"
        ++ number ++ " | " ++ String.ofList line ++ "\n"
        ++ gutter ++ "| " ++ pad ++ underline)

/-- The name a report gives to a source text that has none. -/
def defaultName : String := "input.js"

/-- Stop at a node without a rule.  A place that cannot be reported is itself a fault. -/
def throw {α : Type} (u : Unhandled) : Except Fault α := do
  let _ ← u.report defaultName
  .error (.unhandled u)

end Unhandled

end EstreePrinter
