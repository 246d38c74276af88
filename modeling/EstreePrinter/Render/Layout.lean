import EstreePrinter.Render.Comments

/-!
# Lists that may break

Statement lists, separated lists and declarator lists decide about their line breaks only after
their items have been rendered, when their width and the items' own need for lines are known.  Until
then the places between the items are open: a `Slot` is a command, or such an open place.  Once the
decision is taken, `Slot.fill` puts a placeholder with the chosen contents into every open place.

* `Render.sequence` — a separated list, on one line if it fits, else one item to a line;
* `Render.body` — statements, one to a line, with blank lines between groups;
* `Render.declarations` — the declarators of a variable declaration.
-/

namespace EstreePrinter

open Json (Part)

/-- A command, or a place between two items that is still open. -/
inductive Slot where
  | own (c : Command)
  | join

namespace Slot

/-- The commands themselves, with no open place among them. -/
def ofCommands (commands : List Command) : List Slot := commands.map .own

/-- Fill the open places. -/
def fill (name : String) (contents : List Command) : List Slot → List Command
  | [] => []
  | .own c :: rest => c :: fill name contents rest
  | .join :: rest => .deferred name contents :: fill name contents rest

end Slot

namespace Render

/-! ## Separated lists -/

/-- The slots of comments behind an item, with an open place behind each unless the item is the
last one. -/
def itemComments (isLast : Bool) : List Json → List Slot
  | [] => []
  | comment :: rest =>
    .own (.comment comment .none) :: ((if isLast then [] else [.join]) ++ itemComments isLast rest)

/-- Render the items of a separated list, and tell whether they need several lines.  Nothing stands
for a hole, which contributes its separator only; `afterHole` tells whether the item before was one.
Comments behind an item follow its separator. -/
def items {α : Type} (separator : String) (item : α → Render Unit) (afterHole : Bool) :
    List (Option α) → Render (List Slot × Bool)
  | [] => pure ([], false)
  | none :: rest => do
    let (slots, broken) ← items separator item true rest
    pure (.own (.text separator) :: slots, broken)
  | some a :: rest => do
    let isLast := rest.isEmpty
    let held ← fork (item a)
    let comments ← takeQueue
    let gap : List Slot :=
      if comments.isEmpty then (if isLast then [] else [.join])
      else .own (.text " ") :: itemComments isLast comments
    let (slots, broken) ← items separator item false rest
    pure ((if afterHole then [.join] else []) ++ Slot.ofCommands held.commands ++
        (if isLast then [] else [.own (.text separator)]) ++ gap ++ slots,
      held.multiline || !comments.isEmpty || broken)

/-- The commands of a list, with the contents of its three kinds of placeholders. -/
def assemble (start join stop : List Command) (slots : List Slot) : List Command :=
  .deferred "sequence-open" start ::
    (Slot.fill "sequence-join" join slots ++ [.deferred "sequence-close" stop])

/-- Whether commands are too wide; not asked if several lines are needed anyway. -/
def breaks (needed : Bool) (commands : List Command) (width : Int) : Except Fault Bool := do
  if needed then pure true
  else
    let n ← Command.totalWidth commands
    pure (decide (width < n))

/-- Render a separated list: on one line if it fits, with blanks inside its delimiters if `spaces`
asks for them, and one item to a line otherwise. -/
def sequence {α : Type} (spaces : Bool) (separator : String) (item : α → Render Unit)
    (list : List (Option α)) : Render Unit := do
  if list.isEmpty then pure ()
  else
    let (slots, broken) ← items separator item false list
    let s ← setting
    -- a placeholder has the same width whatever its contents
    if ← breaks broken (assemble [] [] [] slots) s.width then
      raise
      emit (assemble [.indent, .newline] [.newline] [.dedent, .newline] slots)
    else
      let pad : List Command := if spaces then [.text " "] else []
      emit (assemble pad [.text " "] pad slots)

/-! ## Statements -/

/-- The kinds of statements that stand together in groups, with a blank line where a group starts
or ends. -/
def groupedKinds : List String :=
  ["ImportDeclaration", "VariableDeclaration", "ExportDefaultDeclaration", "ExportNamedDeclaration"]

/-- What the space before a statement depends on: its kind and whether it needs several lines. -/
structure Printed where
  kind : String
  multiline : Bool

/-- Whether a blank line goes between two statements. -/
def separates (before after : Printed) : Bool :=
  after.multiline || before.multiline ||
    ((groupedKinds.contains after.kind || groupedKinds.contains before.kind) &&
      before.kind != after.kind)

/-- The commands between a statement and the one before it. -/
def margin (before : Option Printed) (after : Printed) : List Command :=
  match before with
  | none => []
  | some before => [.deferred "margin" (if separates before after then [.text "\n"] else []), .newline]

/-- Render statements one to a line, after the statement `before`; empty ones are left out. -/
def bodyAfter {node : Json} (inner : Inner node) (before : Option Printed) :
    List (Part node) → Render Unit
  | [] => pure ()
  | statement :: rest => do
    let kind ← statement.1.requireKind
    if kind.isText "EmptyStatement" then bodyAfter inner before rest
    else
      let comments ← leading true .null (← statement.1.comments "leadingComments")
      let held ← fork (inner.bare statement)
      let here : Printed := ⟨kind.display, held.multiline⟩
      emit (margin before here ++ comments ++ held.commands)
      drainAfterStatement
      bodyAfter inner (some here) rest

/-- Render statements one to a line. -/
def body {node : Json} (inner : Inner node) (statements : List (Part node)) : Render Unit :=
  bodyAfter inner none statements

/-! ## Declarators -/

/-- Render items with open places between them, and tell whether they need several lines. -/
def joined {α : Type} (item : α → Render Unit) : List α → Render (List Slot × Bool)
  | [] => pure ([], false)
  | a :: rest => do
    let held ← fork (item a)
    let (slots, broken) ← joined item rest
    pure (Slot.ofCommands held.commands ++ (if rest.isEmpty then [] else [.join]) ++ slots,
      held.multiline || broken)

/-- The commands of a declaration, with the contents of its two kinds of placeholders. -/
def assembleDeclarations (keyword : String) (start join : List Command) (slots : List Slot) :
    List Command :=
  .text keyword :: .deferred "declarations-open" start ::
    Slot.fill "declarations-join" join slots

/-- Render a variable declaration without its semicolon.  Several declarators that do not fit go on
a line each, indented below the keyword. -/
def declarations (node : Json) (inner : Inner node) : Render Unit := do
  let list ← node.require "declarations"
  let declarators ← Json.parts list
  textIf node "declare" "declare "
  let keyword := (← node.require "kind").1.display ++ " "
  let several := 1 < declarators.length
  let (slots, broken) ← joined inner.value declarators
  let s ← setting
  let wide ←
    if several then breaks broken (assembleDeclarations keyword [] [] slots) s.width
    else pure broken
  if wide then
    raise
    emit (assembleDeclarations keyword (if several then [.indent] else [])
        [.text ",", .newline] slots ++
      (if several then [.dedent] else []))
  else emit (assembleDeclarations keyword [] [.text ", "] slots)

end Render

end EstreePrinter
