import EstreePrinter.CommandLine.Path
import EstreePrinter.Json.Display

/-!
# Files

The part of a file system that one run of the program sees: some files with their contents and some
directories.  A directory is there if it is listed or if something lies in it.  A file can be read
as a text only if its bytes are the form of one in UTF-8.
-/

namespace EstreePrinter

/-- Why a file cannot be read or written. -/
inductive FileError where
  /-- There is no such file, or no directory to put it in. -/
  | notFound (path : Path)
  /-- There is a directory of that name. -/
  | isDirectory (path : Path)
  /-- Something on the way is a file. -/
  | notDirectory (path : Path)
  /-- The path or a component of it is longer than it may be. -/
  | nameTooLong (path : Path)
  /-- The name cannot be one of a file. -/
  | invalidName
  /-- What is in the file is no text. -/
  | notText (path : Path)
  deriving Repr, DecidableEq

/-- The wording of a failed access. -/
def FileError.message : FileError → String
  | .notFound p => "[Errno 2] No such file or directory: " ++ Json.shownText p.text
  | .isDirectory p => "[Errno 21] Is a directory: " ++ Json.shownText p.text
  | .notDirectory p => "[Errno 20] Not a directory: " ++ Json.shownText p.text
  | .nameTooLong p => "[Errno 36] File name too long: " ++ Json.shownText p.text
  | .invalidName => "embedded null byte"
  | .notText p => "no text in UTF-8: " ++ Json.shownText p.text

/-- Whether a failed access is one that a run reports.  An impossible name and a file that holds no
text are not looked for. -/
def FileError.isReported : FileError → Bool
  | .invalidName => false
  | .notText _ => false
  | _ => true

/-- What is in a file. -/
inductive Content where
  /-- A text, in UTF-8. -/
  | text (s : String)
  /-- Bytes that are no text in UTF-8. -/
  | bytes (data : ByteArray) (not_utf8 : ¬data.IsValidUTF8)

instance : DecidableEq Content
  | .text s, .text t => decidable_of_iff (s = t) (by simp)
  | .bytes data _, .bytes other _ =>
    decidable_of_iff (data.data = other.data) (by cases data; cases other; simp)
  | .text _, .bytes .. => isFalse (by simp)
  | .bytes .., .text _ => isFalse (by simp)

/-- What the bytes of a file are the form of. -/
def Content.ofBytes (data : ByteArray) : Content :=
  if h : data.IsValidUTF8 then .text (String.fromUTF8 data h) else .bytes data h

/-- Files and directories. -/
structure Files where
  /-- The files with their contents. -/
  files : List (Path × Content) := []
  /-- Directories, whether there is something in them or not. -/
  directories : List Path := []

namespace Files

/-- What is in a file that is there. -/
def content? (fs : Files) (p : Path) : Option Content := fs.files.lookup p

/-- Whether a directory is there: the root, the one a path is relative to and those above it always
are. -/
def hasDirectory (fs : Files) (p : Path) : Bool :=
  p.parts.all (· == "..") || fs.directories.contains p ||
    fs.files.any fun f => f.1.root == p.root && p.parts.isPrefixOf f.1.parts.dropLast

/-- One step down a path, or up if the component says so. -/
def enter (base : Path) (component : String) : Path :=
  if component = ".." then
    match base.parts.getLast? with
    | none => if base.root = "" then base.child component else base
    | some last => if last = ".." then base.child component else base.parent
  else base.child component

/-- How many bytes a component of a path may have. -/
def maxComponent : Nat := 255

/-- How many bytes a path may have. -/
def maxPath : Nat := 4095

/-- Follow a path component by component; everything but the last has to be a directory. -/
def follow (fs : Files) (whole base : Path) : List String → Except FileError Path
  | [] => .ok base
  | component :: rest =>
    let here := enter base component
    if maxComponent < component.utf8ByteSize then .error (.nameTooLong whole)
    else if rest.isEmpty then .ok here
    else if fs.hasDirectory here then fs.follow whole here rest
    else if (fs.content? here).isSome then .error (.notDirectory whole)
    else .error (.notFound whole)

/-- Where a path leads to. -/
def locate (fs : Files) (p : Path) : Except FileError Path :=
  if p.parts.any fun part => part.toList.contains (Char.ofNat 0) then .error .invalidName
  else if maxPath < p.text.utf8ByteSize then .error (.nameTooLong p)
  else fs.follow p { p with parts := [] } p.parts

/-- Read a file as a text. -/
def read (fs : Files) (p : Path) : Except FileError String := do
  let place ← fs.locate p
  match fs.content? place with
  | some (.text text) => pure text
  | some (.bytes ..) => .error (.notText p)
  | none => if fs.hasDirectory place then .error (.isDirectory p) else .error (.notFound p)

/-- Write a file into a directory that is there. -/
def write (fs : Files) (p : Path) (text : String) : Except FileError Files := do
  let place ← fs.locate p
  if fs.hasDirectory place then .error (.isDirectory p)
  else
    pure { fs with files := (place, .text text) :: fs.files.filter fun f => f.1 != place }

/-- The files whose contents differ from what they were before, or that were not there. -/
def changedSince (fs before : Files) : List (Path × Content) :=
  fs.files.filter fun f => before.content? f.1 != some f.2

end Files

end EstreePrinter
