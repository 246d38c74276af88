/-!
# Paths

A path is absolute or relative to the working directory, and consists of components.  Writing a path
down leaves out empty components and those that stand for the directory they are in.
-/

namespace EstreePrinter

/-- A path of a file. -/
structure Path where
  /-- What an absolute path starts with; empty for a relative one. -/
  root : String := ""
  /-- The components. -/
  parts : List String := []
  deriving Repr, DecidableEq

namespace Path

/-- Split a text at its slashes. -/
def splitSlashes (text : List Char) : List (List Char) :=
  text.foldr (fun c pieces =>
    if c = '/' then [] :: pieces
    else
      match pieces with
      | piece :: rest => (c :: piece) :: rest
      | [] => [[c]]) [[]]

/-- The root of a path that starts with some number of slashes: exactly two are kept. -/
def rootOf (slashes : Nat) : String :=
  if slashes = 0 then "" else if slashes = 2 then "//" else "/"

/-- The path that a text names. -/
def ofText (text : String) : Path :=
  { root := rootOf (text.toList.takeWhile (· == '/')).length
    parts := ((splitSlashes text.toList).filter fun p => p ≠ [] ∧ p ≠ ['.']).map String.ofList }

/-- A path as text. -/
def text (p : Path) : String :=
  if p.root = "" ∧ p.parts = [] then "." else p.root ++ String.intercalate "/" p.parts

/-- The directory a path lies in. -/
def parent (p : Path) : Path := { p with parts := p.parts.dropLast }

/-- The last component of a path. -/
def name (p : Path) : String := p.parts.getLast?.getD ""

/-- A path inside a directory. -/
def child (p : Path) (name : String) : Path := { p with parts := p.parts ++ [name] }

end Path

end EstreePrinter
