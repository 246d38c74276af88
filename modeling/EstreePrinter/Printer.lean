import EstreePrinter.Linearizer
import EstreePrinter.Options
import EstreePrinter.Render.Tree
import EstreePrinter.SourceMap

/-!
# Printing

Printing turns a tree into layout commands (`commandsOf`), the commands into text with its marks,
and the marks into a source map (`printTree`).
-/

namespace EstreePrinter

/-- Printed code and its map. -/
structure Output where
  code : String
  map : SourceMap

/-- The tree to print: an object is one already, a list is the statements of a program. -/
def asProgram : Json → Except Fault Json
  | .obj fields => .ok (.obj fields)
  | list => do
    let statements ← orMalformed list.elements?
    pure (.obj [("type", .str "Program"), ("body", .arr statements), ("sourceType", .str "module")])

/-- What rendering depends on, as options ask for it. -/
def Options.setting (o : Options) : Setting := { quote := o.quotes.char, width := o.width }

/-- Put the source text into the report on a node without a rule, if there is a text. -/
def Fault.withSource (content : Json) : Fault → Fault
  | .unhandled u =>
    if content.isGiven then
      match (Unhandled.throw { u with source := content } : Except Fault Empty) with
      | .error fault => fault
    else .unhandled u
  | fault => fault

/-- The commands that print a tree.  Comments that still wait behind the root follow it. -/
def commandsOf (options : Options) (root : Json) : Except Error (List Command) := do
  let whole : Render Unit := do
    Render.tree .value root
    Render.drainAfterStatement
  match whole options.setting [] with
  | .error fault => .error (.fault (fault.withSource options.content))
  | .ok emission =>
    match Command.checkResolved emission.commands with
    | .error e => .error (.layout e)
    | .ok () => pure emission.commands

/-- The map of printed code, in compact form if the options ask for it. -/
def mapOf (options : Options) (marks : List (List Mark)) : Except Error SourceMap := do
  let raw := marksToJson marks
  let mappings ←
    if options.encode then do
      let lines ← Segment.linesOfJson raw
      pure (.str (Segment.encodeAll lines))
    else pure raw
  pure { mappings, sources := .arr [options.source], sourcesContent := .arr [options.content] }

/-- Print a tree. -/
def printTree (options : Options) (tree : Json) : Except Error Output := do
  let root ← asProgram tree
  let commands ← commandsOf options root
  let (code, marks) ← linearize commands options.indent
  let map ← mapOf options marks
  pure { code, map }

/-- Print a tree under settings as they arrive, beside the arguments for the tree and for the
settings below them. -/
def printWith (base : Option (List (String × Json))) (overrides : List (String × Json))
    (tree : Json) : Except Error Output := do
  let options ← Options.resolveBeside ["node", "options"] base overrides
  printTree options tree

end EstreePrinter
