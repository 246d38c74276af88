import EstreePrinter.CommandLine.Arguments
import EstreePrinter.CommandLine.Files
import EstreePrinter.Options
import EstreePrinter.Fault
import EstreePrinter.Toml.Reader

/-!
# Options of a run

The options of a run come from three places: the defaults, a configuration file, and the call, the
later ones winning.  The configuration file is the one the call names, or else the one next to the
input file, if it is there.
-/

namespace EstreePrinter

namespace CommandLine

/-- Why a run is given up without a report. -/
inductive Abort where
  /-- The tree or an option has something wrong with it. -/
  | error (what : Error)
  /-- A file cannot be written, its name is impossible, or it holds no text. -/
  | file (what : FileError)
  /-- A text with half of a surrogate pair in it cannot be written. -/
  | half
  /-- Digits are not a number, or there are too many of them. -/
  | digits
  /-- An indentation is wider than a text can be. -/
  | tooWide
  /-- An indentation is wider than what there is room for. -/
  | noRoom

/-- Why the options of a run cannot be used. -/
inductive Refusal where
  /-- The configuration file cannot be read as one. -/
  | configuration
  /-- A file cannot be read. -/
  | file (what : FileError)
  /-- An option is out of its range. -/
  | option (name reason : String)

/-- The report on options that cannot be used. -/
def Refusal.report : Refusal → String
  | .configuration => "error: TOML"
  | .file e => "error: " ++ e.message
  | .option name reason => optionMessage name reason

/-- The bound of sizes, which have 64 bits, one of them for the sign. -/
def maxSize : Int := Int.pow 2 63

/-- The size from which on there is no room for a text. -/
def maxRoom : Int := Int.pow 2 40

/-- A number of blanks; none if it is negative. -/
def blanks (n : Int) : Except Abort String :=
  if n < -maxSize ∨ maxSize ≤ n then .error .tooWide
  else if maxRoom ≤ n then .error .noRoom
  else pure (String.ofList (List.replicate n.toNat ' '))

/-- The indentation that a setting asks for: a number of blanks, a tab, or the text itself. -/
def indentation (value : Toml.Value) : Except Abort String :=
  match value.seen with
  | .int n => blanks n
  | .bool b => blanks b.toInt
  | .str s =>
    if s ≠ "" ∧ s.toList.all Text.isDigit then
      match Text.wholeNumber? s.toList with
      | some n => blanks n
      | none => .error .digits
    else pure (if s = "tab" then "\t" else s)
  | _ => .error (.error (.fault .malformed))

/-- The name of a configuration file that is found without being named. -/
def configurationName : String := "jsunparse.toml"

namespace Invocation

/-- The input file of a call. -/
def inputPath (call : Invocation) : Path := .ofText call.input

/-- A path that a call gives, unless it is empty. -/
def path? (name : Given String) : Option Path :=
  match name with
  | .value text => if text = "" then none else some (.ofText text)
  | _ => none

/-- The configuration file of a call. -/
def configurationPath (call : Invocation) : Path :=
  (path? call.config).getD (call.inputPath.parent.child configurationName)

/-- Whether a call asks for a map, in a file or behind the code. -/
def wantsMap (call : Invocation) : Bool := call.inlineMap || (path? call.map).isSome

/-- The files that a call may read. -/
def reads (call : Invocation) : List Path :=
  [call.inputPath, call.configurationPath] ++ (path? call.source).toList

/-- The files that a call may write. -/
def writes (call : Invocation) : List Path :=
  (path? call.output).toList ++ (path? call.map).toList

end Invocation

/-- Settings with one of them changed. -/
def put (name : String) (value : Toml.Value) (settings : Toml.Table) : Toml.Table :=
  Json.insertField name value settings

/-- Settings with one of them changed, if there is a value for it. -/
def putSome (name : String) (value : Option Toml.Value) (settings : Toml.Table) : Toml.Table :=
  match value with
  | some value => put name value settings
  | none => settings

/-- The indentation that a configuration and a call ask for. -/
def indentSetting (table : Toml.Table) (call : Invocation) :
    Except Abort (Option Toml.Value) := do
  let fromTable ← match table.lookup "indent" with
    | some value => do pure (some (← indentation value))
    | none => pure none
  let fromCall ← match call.indent.setting? .str with
    | some value => do pure (some (← indentation value))
    | none => pure none
  pure ((fromCall.or fromTable).map .text)

/-- The form of a setting as a text of its own. -/
def displayed (value : Toml.Value) : Except Abort Toml.Value :=
  if value.isShowable then pure (.text value.display) else .error .digits

/-- The settings about the source map in a configuration. -/
def mapSettings (table : Toml.Table) : Except Abort Toml.Table := do
  match table.lookup "source_map" with
  | some (.table fields) =>
    let source ← match fields.lookup "source" with
      | some value => do pure (some (← displayed value))
      | none => pure none
    pure (putSome "source_map_encode_mappings" (fields.lookup "encode") <|
      putSome "source_map_source" source [])
  | _ => pure []

/-- The settings that the source file of a call adds: its text, and its name if there is none. -/
def sourceSettings (fs : Files) (call : Invocation) (settings : Toml.Table) :
    Except FileError Toml.Table :=
  match Invocation.path? call.source with
  | none => pure settings
  | some path => do
    let text ← fs.read path
    let settings := put "source_map_content" (.text (String.ofList (Text.plainLineEnds text.toList)))
      settings
    pure (if (settings.lookup "source_map_source").isSome then settings
      else put "source_map_source" (.text path.name) settings)

/-- The settings that the call itself gives, on top of others. -/
def callSettings (call : Invocation) (settings : Toml.Table) : Toml.Table :=
  putSome "source_map_source" (call.sourceName.setting? .str) <|
    putSome "source_map_encode_mappings"
      (if call.rawMappings then some (.plain (.bool false)) else none) <|
      putSome "width" (call.width.setting? .int) <|
        putSome "quotes" (call.quotes.setting? .str) settings

/-- The options that settings ask for.  A setting out of its range is reported with its value, if
that can be shown. -/
def optionsOf (settings : Toml.Table) : Except Abort (Except Refusal Options) :=
  match Options.ofSettings settings with
  | .ok options => .ok (.ok options)
  | .error (.option name reason) =>
    if (settings.lookup name).all Toml.Value.isShowable then .ok (.error (.option name reason))
    else .error .digits
  | .error e => .error (.error e)

/-- The options that a configuration and a call ask for. -/
def mergeOptions (fs : Files) (call : Invocation) (table : Toml.Table) :
    Except Abort (Except Refusal Options) := do
  let indent ← indentSetting table call
  let settings := putSome "width" (table.lookup "width") <|
    putSome "quotes" (table.lookup "quotes") <| putSome "indent" indent (← mapSettings table)
  match sourceSettings fs call settings with
  | .ok settings => optionsOf (callSettings call settings)
  | .error e => if e.isReported then .ok (.error (.file e)) else .error (.file e)

/-- What is said about the options of a run before they are there. -/
structure Configured where
  /-- What is logged. -/
  log : List String
  /-- The options, or why there are none. -/
  options : Except Refusal Options

/-- The options of a run.  A configuration file that is not there is left out, unless its name is
too long to look for it; one that is there has to be a text. -/
def configure (fs : Files) (call : Invocation) : Except Abort Configured :=
  let path := call.configurationPath
  match fs.read path with
  | .ok text =>
    let log := ["loading config from " ++ path.text]
    match Toml.read text.toList with
    | .ok table => do pure ⟨log, ← mergeOptions fs call table⟩
    | .error .malformed => .ok ⟨log, .error .configuration⟩
    | .error .longNumber => .error .digits
  | .error (.nameTooLong p) => .ok ⟨[], .error (.file (.nameTooLong p))⟩
  | .error (.notText p) => .error (.file (.notText p))
  | .error _ => do pure ⟨[], ← mergeOptions fs call []⟩

end CommandLine

end EstreePrinter
