import EstreePrinter.Command.Dump
import EstreePrinter.CommandLine.Configuration
import EstreePrinter.Json.Reader
import EstreePrinter.Printer

/-!
# A run of the program

A run reads a tree from its input file, prints it, and writes the code and possibly its source map.
What can go wrong in the ordinary course is reported and ends the run with an exit code; anything
else aborts it.

A text of the tree may have half of a surrogate pair in it, by an escape without its other half.
That is no character, and code or a map that it gets into can be written nowhere.  A run therefore
reads the tree twice, with two different characters in place of such halves, and where the two
prints are not the same there is a half in them (`firstHalved`).  In what is only reported or logged
the first of the two characters stands for a half.
-/

namespace EstreePrinter

namespace CommandLine

/-- A message of a run. -/
inductive Message where
  /-- What is logged on demand. -/
  | log (text : String)
  /-- A line of the report. -/
  | line (text : String)
  deriving Repr, DecidableEq

/-- How a run ends. -/
inductive Verdict where
  /-- With an exit code. -/
  | exit (code : Nat)
  /-- Without a report. -/
  | abort (why : Abort)

/-- What a run leaves behind. -/
structure Outcome where
  /-- How it ended. -/
  verdict : Verdict
  /-- What goes to the standard output. -/
  output : String := ""
  /-- What is said on the way. -/
  messages : List Message := []
  /-- The files afterwards. -/
  files : Files

/-- The first text that a run would write with half of a surrogate pair in it. -/
inductive Halved where
  /-- The address of the map behind the code. -/
  | address
  | code
  | map
  deriving Repr, DecidableEq

/-- What printing the input comes to. -/
inductive Product where
  /-- Code and its map. -/
  | code (text : String) (map : SourceMap)
  /-- Code and its map, one of which has half of a surrogate pair in it. -/
  | half (what : Halved) (text : String) (map : SourceMap)
  /-- A report on why there is none. -/
  | report (text : String)

/-- Messages that are logged if the call asks for it. -/
def logged (call : Invocation) (texts : List String) : List Message :=
  if call.verbose then texts.map .log else []

/-- An error while printing ends a run without a report. -/
def orAbort {α : Type} : Except Error α → Except Abort α
  | .ok a => .ok a
  | .error e => .error (.error e)

/-! ## Printing -/

/-- The name of the source in a report: the one the options give, or the input file. -/
def sourceName (call : Invocation) (options : Options) : String :=
  match options.source with
  | .str name => if name = "" then call.inputPath.text else name
  | _ => call.inputPath.text

/-- Turn commands into code and a map, and show the commands if the call asks for it.  A map that
the call asks for must have no number that cannot be shown. -/
def produce (call : Invocation) (options : Options) (commands : List Command) :
    Except Abort (List Message × Product) := do
  let shown ←
    if call.debug then orAbort (Error.ofFault (Command.dump commands)) else pure []
  let (code, marks) ← orAbort (linearize commands options.indent)
  let map ← orAbort (mapOf options marks)
  if call.wantsMap && !map.toJson.isShowable then .error .digits
  else pure (shown.map .line, .code code map)

/-- Print a tree. -/
def printRoot (call : Invocation) (options : Options) (tree : Json) :
    Except Abort (List Message × Product) := do
  let root ← orAbort (Error.ofFault (asProgram tree))
  match commandsOf options root with
  | .ok commands =>
    let kind ← orAbort (Error.ofFault root.kind)
    let log := logged call
      ["rendered " ++ kind.display ++ " into " ++ toString commands.length ++ " commands"]
    let (messages, product) ← produce call options commands
    pure (log ++ messages, product)
  | .error (.fault (.unhandled u)) =>
    pure ([], .report (← orAbort (Error.ofFault (u.report (sourceName call options)))))
  | .error e => .error (.error e)

/-- What is read in place of half of a surrogate pair: one of two characters for private use. -/
def standIn (second : Bool) (half : Nat) : Char :=
  Char.ofNat (half + if second then 0x1000 else 0x800)

/-- Read the tree in a text, with one of the two characters in place of halves. -/
def readTree (second : Bool) (text : String) : Except ReadError Json :=
  Json.readAs { half := standIn second } text.toList

/-- What the tree in a text is printed as with the second character in place of halves. -/
def printedAgain (call : Invocation) (options : Options) (text : String) : Option Output :=
  match readTree true text with
  | .ok tree =>
    match printRoot call options tree with
    | .ok (_, .code code map) => some { code, map }
    | _ => none
  | .error _ => none

/-- The first text with half of a surrogate pair in it that a call asks for: printed again with the
second character in place of halves, it is another one. -/
def firstHalved (call : Invocation) (code : String) (map : SourceMap) (again : Option Output) :
    Option Halved :=
  let inCode := again.map Output.code != some code
  let inMap := (again.map fun printed => printed.map.text) != some map.text
  if call.inlineMap && inMap then some .address
  else if inCode then some .code
  else if call.wantsMap && inMap then some .map
  else none

/-- Read the input file and print the tree in it. -/
def printInput (fs : Files) (call : Invocation) (options : Options) :
    Except Abort (List Message × Product) :=
  let name := call.inputPath.text
  match fs.read call.inputPath with
  | .error e =>
    if e.isReported then pure ([], .report ("error: " ++ e.message)) else .error (.file e)
  | .ok text =>
    match readTree false text with
    | .error .malformed => pure ([], .report ("error: invalid JSON in " ++ name))
    | .error .longNumber => .error .digits
    | .ok tree => do
      let (messages, product) ← printRoot call options tree
      let messages := logged call ["loaded " ++ name] ++ messages
      match product with
      | .code code map =>
        match firstHalved call code map (printedAgain call options text) with
        | some what => pure (messages, .half what code map)
        | none => pure (messages, product)
      | _ => pure (messages, product)

/-! ## Delivering -/

/-- Printed code with the line that says where its map is, and the map if it has a file. -/
def withMap (call : Invocation) (code : String) (map : SourceMap) :
    String × Option (Path × String) :=
  let pointer (address : String) : String := code ++ "\n//# sourceMappingURL=" ++ address ++ "\n"
  if call.inlineMap then (pointer map.address, none)
  else
    match Invocation.path? call.map with
    | some path => (pointer path.name, some (path, map.text))
    | none => (code ++ "\n", none)

/-- Write files one after the other.  What was written before a failure stays written. -/
def writeAll (fs : Files) : List (Path × String) → Files × Verdict
  | [] => (fs, .exit 0)
  | (path, text) :: rest =>
    match fs.write path text with
    | .ok fs => writeAll fs rest
    | .error e => (fs, .abort (.file e))

/-- End a run with printed code: in a file or on the standard output, the map behind it. -/
def deliver (fs : Files) (call : Invocation) (messages : List Message) (code : String)
    (map : SourceMap) : Outcome :=
  let (text, mapFile) := withMap call code map
  match Invocation.path? call.output with
  | some path =>
    let (files, verdict) := writeAll fs ((path, text) :: mapFile.toList)
    { verdict, messages, files }
  | none =>
    let (files, verdict) := writeAll fs mapFile.toList
    { verdict, output := text, messages, files }

/-- The files that a run gets to when half of a surrogate pair is in its way: those before it, and
the one that it keeps from being written. -/
def attempts (call : Invocation) (code : String) (map : SourceMap) : Halved → List (Path × String)
  | .address => []
  | .code => (Invocation.path? call.output).toList.map fun path => (path, "")
  | .map =>
    (Invocation.path? call.output).toList.map (fun path => (path, (withMap call code map).1)) ++
      (withMap call code map).2.toList.map fun file => (file.1, "")

/-- End a run with a text that cannot be written: the file for it is made, and stays empty. -/
def deliverHalf (fs : Files) (call : Invocation) (messages : List Message) (what : Halved)
    (code : String) (map : SourceMap) : Outcome :=
  let (files, verdict) := writeAll fs (attempts call code map what)
  { verdict :=
      match verdict with
      | .exit _ => .abort .half
      | .abort why => .abort why
    output :=
      if what = .map ∧ (Invocation.path? call.output).isNone then (withMap call code map).1 else ""
    messages
    files }

/-- Run the program on some files. -/
def run (fs : Files) (call : Invocation) : Outcome :=
  match configure fs call with
  | .error why => { verdict := .abort why, files := fs }
  | .ok ⟨log, .error refusal⟩ =>
    { verdict := .exit 2, messages := logged call log ++ [.line refusal.report], files := fs }
  | .ok ⟨log, .ok options⟩ =>
    match printInput fs call options with
    | .error why => { verdict := .abort why, files := fs }
    | .ok (messages, .report text) =>
      { verdict := .exit 1, messages := logged call log ++ messages ++ [.line text], files := fs }
    | .ok (messages, .half what text map) =>
      deliverHalf fs call (logged call log ++ messages) what text map
    | .ok (messages, .code text map) => deliver fs call (logged call log ++ messages) text map

end CommandLine

end EstreePrinter
