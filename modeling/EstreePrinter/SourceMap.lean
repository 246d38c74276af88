import EstreePrinter.Json.Writer
import EstreePrinter.Node

/-!
# Source maps

A source map, version 3, says which places of the sources the printed code comes from.  Its document
is a JSON object; inside the printed code it can stand as a `data:` address, in Base64.

**Segments.**  A map has a list of segments for every line of the printed code.  A segment says from
which column on its claim holds and, unless it is blank, which place of which source the text comes
from.

**The compact form.**  Every number is written as the difference to the one before it: the column of
the printed code starts anew on each line, while source, line and column of the source go on through
the whole map.  Segments are separated by commas and lines by semicolons.  A number is written as
Base64 digits of five bits each, the least significant first.  The sixth bit of a digit tells that
more digits follow, and the lowest bit of the whole number is its sign.
-/

namespace EstreePrinter

/-! ## Base64

Sixty-four digits, each standing for six bits.  Bytes are written with them three bytes to four
digits, the last group filled up with `=`. -/

namespace Base64

/-- The digit that stands for a number below sixty-four. -/
def digit (n : Nat) : Char :=
  if n < 26 then Char.ofNat (65 + n)
  else if n < 52 then Char.ofNat (71 + n)
  else if n < 62 then Char.ofNat (n - 4)
  else if n = 62 then '+'
  else '/'

/-- The digits of a sequence of bytes. -/
def encode : List UInt8 → List Char
  | a :: b :: c :: rest =>
    let a := a.toNat
    let b := b.toNat
    let c := c.toNat
    digit (a / 4) :: digit (a % 4 * 16 + b / 16) :: digit (b % 16 * 4 + c / 64) ::
      digit (c % 64) :: encode rest
  | [a, b] =>
    let a := a.toNat
    let b := b.toNat
    [digit (a / 4), digit (a % 4 * 16 + b / 16), digit (b % 16 * 4), '=']
  | [a] =>
    let a := a.toNat
    [digit (a / 4), digit (a % 4 * 16), '=', '=']
  | [] => []

end Base64

/-! ## Numbers of variable length -/

namespace Vlq

/-- The sign in the lowest bit, the magnitude above it. -/
def fold (v : Int) : Nat := if v < 0 then 2 * v.natAbs + 1 else 2 * v.natAbs

/-- The groups of five bits of a number, the least significant first, each but the last one marked
as being followed. -/
def groups (n : Nat) : List Nat :=
  if n < 32 then [n] else (n % 32 + 32) :: groups (n / 32)
termination_by n
decreasing_by omega

/-- The digits of a whole number. -/
def encode (v : Int) : List Char := (groups (fold v)).map Base64.digit

end Vlq

/-! ## Segments and their compact form -/

/-- One entry of a map. -/
inductive Segment where
  /-- From this column on nothing is known. -/
  | blank (column : Int)
  /-- From this column on the text comes from a place of a source. -/
  | mapped (column source line sourceColumn : Int)
  deriving Repr, DecidableEq

namespace Segment

/-- The column of the printed code a segment starts at. -/
def column : Segment → Int
  | .blank c => c
  | .mapped c _ _ _ => c

/-- The place of the last mapped segment, from which the next differences are taken. -/
structure Anchor where
  source : Int := 0
  line : Int := 0
  column : Int := 0
  deriving Repr, DecidableEq

/-- The anchor behind a segment. -/
def anchorAfter (anchor : Anchor) : Segment → Anchor
  | .blank _ => anchor
  | .mapped _ source line column => ⟨source, line, column⟩

/-- One segment in compact form, after a segment that starts at column `last`. -/
def encode (last : Int) (anchor : Anchor) : Segment → List Char
  | .blank c => Vlq.encode (c - last)
  | .mapped c source line column =>
    Vlq.encode (c - last) ++ Vlq.encode (source - anchor.source) ++
      Vlq.encode (line - anchor.line) ++ Vlq.encode (column - anchor.column)

/-- The segments of a line in compact form. -/
def encodeLine (last : Int) (anchor : Anchor) : List Segment → List (List Char)
  | [] => []
  | s :: rest => encode last anchor s :: encodeLine s.column (anchorAfter anchor s) rest

/-- The lines of a map in compact form. -/
def encodeLines (anchor : Anchor) : List (List Segment) → List (List Char)
  | [] => []
  | line :: rest =>
    List.intercalate [','] (encodeLine 0 anchor line) ::
      encodeLines (line.foldl anchorAfter anchor) rest

/-- A map in compact form. -/
def encodeAll (lines : List (List Segment)) : String :=
  String.ofList (List.intercalate [';'] (encodeLines {} lines))

/-! ### Segments given as lists of numbers -/

/-- The number at an index of a segment. -/
def numberAt (segment : Json) (i : Nat) : Except Fault Int :=
  match segment with
  | .obj _ => .error (.missing (toString i))
  | .arr items => orMalformed (items[i]?.bind Json.toInt?)
  | _ => .error .malformed

/-- The segment a list of numbers stands for: with four or more numbers the first four, otherwise
the first one alone. -/
def ofJson (segment : Json) : Except Fault Segment := do
  let column ← numberAt segment 0
  let length ← orMalformed segment.length?
  if 4 ≤ length then
    let source ← numberAt segment 1
    let line ← numberAt segment 2
    let sourceColumn ← numberAt segment 3
    pure (.mapped column source line sourceColumn)
  else pure (.blank column)

/-- The segments of each line of a map given as lists of lists of numbers. -/
def linesOfJson (lines : Json) : Except Fault (List (List Segment)) := do
  (← orMalformed lines.elements?).mapM fun line => do
    (← orMalformed line.elements?).mapM ofJson

end Segment

/-! ## Maps -/

/-- A source map.  The mappings are either in compact form or lists of segments. -/
structure SourceMap where
  mappings : Json
  sources : Json := .arr [.null]
  sourcesContent : Json := .arr [.null]
  names : Json := .arr []
  version : Json := .int 3

namespace SourceMap

/-- The document of a map. -/
def toJson (m : SourceMap) : Json :=
  .obj [("version", m.version), ("names", m.names), ("sources", m.sources),
    ("sourcesContent", m.sourcesContent), ("mappings", m.mappings)]

/-- The text of the document. -/
def text (m : SourceMap) : String := m.toJson.write

/-- What a map's address starts with. -/
def addressStart : String := "data:application/json;charset=utf-8;base64,"

/-- The map as an address: its text in UTF-8, in Base64. -/
def address (m : SourceMap) : String :=
  addressStart ++ String.ofList (Base64.encode m.text.toUTF8.toList)

end SourceMap

end EstreePrinter
