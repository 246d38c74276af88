import EstreePrinter.Command.Basic
import EstreePrinter.Error

/-!
# Going through commands

Two ways to list what a sequence of commands holds.

* `leavesAll` and `placeholdersAll` recurse into placeholders and are what one reasons about: the
  commands that print something, in order, and the placeholders, outer ones before inner ones.
* `walk` and `visit` do the same work with the sequences still to be gone through kept on a stack.

`checkResolved` looks for a placeholder without contents.
-/

namespace EstreePrinter

namespace Command

/-! ## By recursion -/

mutual

/-- The commands other than placeholders that a command holds, in order. -/
def leaves : Command → List Command
  | .deferred _ contents => leavesAll contents
  | .pending _ => []
  | c => [c]

/-- The commands other than placeholders that a sequence holds, in order. -/
def leavesAll : List Command → List Command
  | [] => []
  | c :: rest => leaves c ++ leavesAll rest

end

mutual

/-- The placeholders of a command, outer ones first. -/
def placeholders : Command → List Command
  | .deferred name contents => .deferred name contents :: placeholdersAll contents
  | .pending name => [.pending name]
  | _ => []

/-- The placeholders of a sequence, outer ones first. -/
def placeholdersAll : List Command → List Command
  | [] => []
  | c :: rest => placeholders c ++ placeholdersAll rest

end

/-! ## With a stack -/

/-- The commands other than placeholders, where `stack` holds the sequences still to be gone
through, the innermost first. -/
def walk (stack : List (List Command)) : List Command :=
  match stack with
  | [] => []
  | [] :: outer => walk outer
  | (c :: rest) :: outer =>
    match c with
    | .deferred _ contents => walk (contents :: rest :: outer)
    | .pending _ => walk (rest :: outer)
    | c => c :: walk (rest :: outer)
termination_by sizeOf stack
decreasing_by
  all_goals
    simp only [List.cons.sizeOf_spec, List.nil.sizeOf_spec, Command.deferred.sizeOf_spec,
      Command.pending.sizeOf_spec]
    omega

/-- The placeholders, outer ones first, where `stack` holds the sequences still to be gone
through, the innermost first. -/
def visit (stack : List (List Command)) : List Command :=
  match stack with
  | [] => []
  | [] :: outer => visit outer
  | (c :: rest) :: outer =>
    match c with
    | .deferred name contents => .deferred name contents :: visit (contents :: rest :: outer)
    | .pending name => .pending name :: visit (rest :: outer)
    | _ => visit (rest :: outer)
termination_by sizeOf stack
decreasing_by
  all_goals
    simp only [List.cons.sizeOf_spec, List.nil.sizeOf_spec, Command.deferred.sizeOf_spec,
      Command.pending.sizeOf_spec]
    omega

/-! ## Placeholders without contents -/

/-- The name of a placeholder. -/
def placeholderName? : Command → Option String
  | .deferred name _ => some name
  | .pending name => some name
  | _ => none

/-- The name of a placeholder without contents. -/
def pendingName? : Command → Option String
  | .pending name => some name
  | _ => none

/-- The names of the placeholders of a sequence, outer ones first. -/
def placeholderNames (commands : List Command) : List String :=
  (visit [commands]).filterMap placeholderName?

/-- Stop at the first placeholder without contents. -/
def checkResolved (commands : List Command) : Except LayoutError Unit :=
  match (visit [commands]).findSome? pendingName? with
  | some name => .error (.neverResolved name)
  | none => .ok ()

end Command

end EstreePrinter
