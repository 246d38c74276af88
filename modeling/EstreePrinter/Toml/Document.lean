import EstreePrinter.Toml.Value

/-!
# Tables under construction

A configuration text is a sequence of assignments, some of them under a header that opens a table or
puts one more table behind those of a list.  A `Document` is what has been read so far.  It refuses
three things: a key that is assigned twice, a table that is opened twice, and a change to a list or
a table that was written as a value.
-/

namespace EstreePrinter

namespace Toml

/-- The keys that lead to a value. -/
abbrev KeyPath := List String

/-- The fields of a table. -/
abbrev Table := List (String × Value)

/-- Change the table at the end of a path; tables on the way are made where there are none, and a
list of tables stands for its last one.  Nothing if something on the way is not a table, or if the
change is refused. -/
def descend (change : Table → Option Table) : KeyPath → Table → Option Table
  | [], table => change table
  | key :: path, table =>
    match table.lookup key with
    | none => (descend change path []).map fun inner => table ++ [(key, .table inner)]
    | some (.table inner) =>
      (descend change path inner).map fun inner => Json.insertField key (.table inner) table
    | some (.list items) =>
      match items.getLast? with
      | some (.table inner) =>
        (descend change path inner).map fun inner =>
          Json.insertField key (.list (items.dropLast ++ [.table inner])) table
      | _ => none
    | some _ => none

/-- Add a key to a table that does not have it yet. -/
def addNew (key : String) (value : Value) (table : Table) : Option Table :=
  if (table.lookup key).isSome then none else some (table ++ [(key, value)])

/-- Add an empty table to a list of tables, which is made if there is none. -/
def addItem (key : String) (table : Table) : Option Table :=
  match table.lookup key with
  | none => some (table ++ [(key, .list [.table []])])
  | some (.list items) => some (Json.insertField key (.list (items ++ [.table []])) table)
  | some _ => none

/-- Whether a value is a list or a table. -/
def isContainer : Value → Bool
  | .list _ => true
  | .table _ => true
  | _ => false

/-- The beginnings of a path, from one key up to all but the last. -/
def properStarts (path : KeyPath) : List KeyPath :=
  (List.range (path.length - 1)).map fun i => path.take (i + 1)

/-- Whether a path leads to or into one of some closed tables. -/
def isClosed (closed : List KeyPath) (path : KeyPath) : Bool :=
  closed.any fun start => start.isPrefixOf path

/-- What has been read so far. -/
structure Document where
  /-- The tables and values. -/
  table : Table := []
  /-- The table that assignments go to. -/
  header : KeyPath := []
  /-- The tables that cannot be opened by a header any more. -/
  opened : List KeyPath := []
  /-- The tables made by dotted keys since the last header; they join `opened` at the next one. -/
  dotted : List KeyPath := []
  /-- The tables and lists written as values, which cannot be changed. -/
  closed : List KeyPath := []

namespace Document

/-- Assign a value to a key path below the current header. -/
def assign (d : Document) (path : KeyPath) (value : Value) : Option Document :=
  let starts := (properStarts path).map (d.header ++ ·)
  let parent := d.header ++ path.dropLast
  match path.getLast? with
  | none => none
  | some key =>
    if starts.any d.opened.contains || isClosed d.closed parent then none
    else
      (descend (addNew key value) parent d.table).map fun table =>
        { d with
          table
          dotted := d.dotted ++ starts
          closed := if isContainer value then (d.header ++ path) :: d.closed else d.closed }

/-- Open a table by a header. -/
def openTable (d : Document) (path : KeyPath) : Option Document :=
  let opened := d.dotted ++ d.opened
  if opened.contains path || isClosed d.closed path then none
  else
    (descend some path d.table).map fun table =>
      { d with table, header := path, opened := path :: opened, dotted := [] }

/-- Open one more table of a list by a header.  What was said about the table before it, and about
everything in that one, does not hold for the new one. -/
def openItem (d : Document) (path : KeyPath) : Option Document :=
  let outside (other : KeyPath) : Bool := !path.isPrefixOf other
  match path.getLast? with
  | none => none
  | some key =>
    if isClosed d.closed path then none
    else
      (descend (addItem key) path.dropLast d.table).map fun table =>
        { d with
          table
          header := path
          opened := path :: (d.dotted ++ d.opened).filter outside
          dotted := []
          closed := d.closed.filter outside }

end Document

/-- A table on one line that is being read: its fields, and the lists and tables among them. -/
structure InlineTable where
  table : Table := []
  closed : List KeyPath := []

/-- Assign a value to a key path of a table on one line. -/
def InlineTable.assign (t : InlineTable) (path : KeyPath) (value : Value) : Option InlineTable :=
  match path.getLast? with
  | none => none
  | some key =>
    if isClosed t.closed path then none
    else
      (descend (addNew key value) path.dropLast t.table).map fun table =>
        { table, closed := if isContainer value then path :: t.closed else t.closed }

end Toml

end EstreePrinter
