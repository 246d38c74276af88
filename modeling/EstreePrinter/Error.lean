import EstreePrinter.Fault

/-!
# Errors

Printing can fail in three ways: the tree has a fault, an option is out of its range, or a sequence
of layout commands breaks one of the rules that every such sequence keeps.  The wording of each is
here, in one place.
-/

namespace EstreePrinter

/-- A rule of layout commands that a sequence breaks. -/
inductive LayoutError where
  /-- A placeholder was given its contents a second time. -/
  | resolvedTwice (name : String)
  /-- A placeholder was never given its contents. -/
  | neverResolved (name : String)
  /-- An indentation level was closed that had not been opened. -/
  | dedentBelowZero
  /-- An indentation level was left open. -/
  | levelLeftOpen
  deriving Repr, DecidableEq

/-- The wording of a broken rule. -/
def LayoutError.message : LayoutError → String
  | .resolvedTwice name => "deferred '" ++ name ++ "' resolved twice"
  | .neverResolved name => "deferred '" ++ name ++ "' was never resolved"
  | .dedentBelowZero => "dedent below indentation level zero"
  | .levelLeftOpen => "indentation not back at level zero after render"

/-- Why something could not be printed. -/
inductive Error where
  | fault (what : Fault)
  | option (name reason : String)
  | layout (what : LayoutError)

/-- The wording of an option that is out of its range. -/
def optionMessage (name reason : String) : String :=
  "error: invalid option '" ++ name ++ "': " ++ reason

/-- A faulty tree cannot be printed. -/
def Error.ofFault {α : Type} : Except Fault α → Except Error α
  | .ok a => .ok a
  | .error f => .error (.fault f)

instance : MonadLift (Except Fault) (Except Error) where
  monadLift := Error.ofFault

end EstreePrinter
