import EstreePrinter.CommandLine.Run

/-!
# The program

Reads the files that a call may need, runs the program on them, and puts its results where they
belong.
-/

namespace EstreePrinter

namespace CommandLine

/-- The directories on the way to a path. -/
def onTheWay (path : Path) : List Path :=
  (List.range path.parts.length).map fun i => { path with parts := path.parts.take i }

/-- Where a path leads to if everything on the way is a directory. -/
def settled (path : Path) : Path := path.parts.foldl Files.enter { path with parts := [] }

/-- Add what lies at a path to some files. -/
def gather (fs : Files) (path : Path) : IO Files := do
  let around := (onTheWay path).map settled
  match ← (IO.FS.readBinFile path.text).toBaseIO with
  | .ok data =>
    pure { fs with
      files := (settled path, .ofBytes data) :: fs.files
      directories := around ++ fs.directories }
  | .error (.inappropriateType _ 21 _) =>
    pure { fs with directories := settled path :: around ++ fs.directories }
  | .error _ => pure fs

/-- The files that a call sees; the directories it writes to are taken to be there. -/
def gatherAll (call : Invocation) : IO Files := do
  let fs ← call.reads.foldlM gather {}
  let targets := call.writes.flatMap fun path => (onTheWay path).map settled
  pure { fs with directories := targets ++ fs.directories }

/-- How a run that was given up is reported. -/
def Abort.report : Abort → String
  | .error (.fault (.missing key)) => "error: missing field or unknown operator: " ++ key
  | .error (.fault .malformed) => "error: malformed tree or setting"
  | .error (.fault (.unhandled u)) => "error: " ++ u.message
  | .error (.option name reason) => optionMessage name reason
  | .error (.layout e) => "error: " ++ e.message
  | .file e => "error: " ++ e.message
  | .half => "error: half of a surrogate pair cannot be written"
  | .digits => "error: digits that are not a number, or too many of them"
  | .tooWide => "error: the indentation is wider than a text can be"
  | .noRoom => "error: there is no room for the indentation"

/-- How a message is written. -/
def Message.text : Message → String
  | .log text => "DEBUG: " ++ text
  | .line text => text

/-- How the program is called. -/
def synopsis : String :=
  "usage: " ++ UsageError.program ++ " [" ++
    String.intercalate "] [" (Switch.table.map Prod.fst) ++ "] input"

/-- Carry out a call, and give the exit code. -/
def carryOut (call : Invocation) : IO UInt32 := do
  let before ← gatherAll call
  let done := run before call
  for message in done.messages do
    IO.eprintln message.text
  for (path, content) in done.files.changedSince before do
    match content with
    | .text text => IO.FS.writeFile path.text text
    | .bytes data _ => IO.FS.writeBinFile path.text data
  IO.print done.output
  match done.verdict with
  | .exit code => pure code.toUInt32
  | .abort why =>
    IO.eprintln why.report
    pure 1

end CommandLine

end EstreePrinter

open EstreePrinter CommandLine in
/-- Print the tree in a file. -/
def main (arguments : List String) : IO UInt32 := do
  match parse arguments with
  | .error .help =>
    IO.println synopsis
    pure 0
  | .error (.usage e) =>
    IO.eprintln synopsis
    IO.eprintln e.line
    pure 2
  | .ok call => carryOut call
