import EstreePrinter.Json.Display

/-!
# The options of the command line

The program is called with the name of an input file and with options.  This file lists the options
and says what can be wrong with a call.
-/

namespace EstreePrinter

namespace CommandLine

/-- What an option asks for. -/
inductive Switch where
  | help
  | output
  | map
  | inlineMap
  | indent
  | quotes
  | width
  | sourceName
  | source
  | rawMappings
  | config
  | debug
  | verbose
  deriving Repr, DecidableEq

namespace Switch

/-- The names of the options, in the order in which they are offered. -/
def table : List (String × Switch) :=
  [("-h", .help), ("--help", .help), ("-o", .output), ("--output", .output), ("--map", .map),
    ("--inline-map", .inlineMap), ("--indent", .indent), ("--quotes", .quotes),
    ("--width", .width), ("--source-name", .sourceName), ("--source", .source),
    ("--raw-mappings", .rawMappings), ("--config", .config), ("--debug", .debug),
    ("-v", .verbose), ("--verbose", .verbose)]

/-- Whether an option is followed by a value. -/
def takesValue : Switch → Bool
  | .help | .inlineMap | .rawMappings | .debug | .verbose => false
  | _ => true

/-- All names of an option. -/
def names (s : Switch) : String :=
  String.intercalate "/" ((table.filter fun entry => entry.2 == s).map Prod.fst)

/-- The option that cannot be combined with another one. -/
def conflict? : Switch → Option Switch
  | .map => some .inlineMap
  | .inlineMap => some .map
  | _ => none

end Switch

/-- What is wrong with a call. -/
inductive UsageError where
  /-- A shortened name fits several options. -/
  | ambiguous (argument : String) (options : List String)
  /-- An option lacks its value. -/
  | expectedValue (option : Switch)
  /-- An option has a value and takes none. -/
  | ignoredValue (option : Switch) (value : String)
  /-- A value is no whole number. -/
  | notWhole (option : Switch) (value : String)
  /-- A value is not one of those offered. -/
  | notOffered (option : Switch) (value : String) (offered : List String)
  /-- Two options exclude each other. -/
  | excluded (option other : Switch)
  /-- There is no input file. -/
  | noInput
  /-- There are arguments too many. -/
  | unrecognized (arguments : List String)
  deriving Repr, DecidableEq

namespace UsageError

/-- The wording of what is wrong with the value of an option. -/
def about (option : Switch) (reason : String) : String :=
  "argument " ++ option.names ++ ": " ++ reason

/-- The wording of what is wrong with a call. -/
def message : UsageError → String
  | .ambiguous argument options =>
    "ambiguous option: " ++ argument ++ " could match " ++ String.intercalate ", " options
  | .expectedValue option => about option "expected one argument"
  | .ignoredValue option value =>
    about option ("ignored explicit argument " ++ Json.shownText value)
  | .notWhole option value => about option ("invalid int value: " ++ Json.shownText value)
  | .notOffered option value offered =>
    about option ("invalid choice: " ++ Json.shownText value ++ " (choose from " ++
      String.intercalate ", " (offered.map Json.shownText) ++ ")")
  | .excluded option other => about option ("not allowed with argument " ++ other.names)
  | .noInput => "the following arguments are required: input"
  | .unrecognized arguments => "unrecognized arguments: " ++ String.intercalate " " arguments

/-- The name of the program in its own messages. -/
def program : String := "jsunparse"

/-- The line that reports what is wrong with a call. -/
def line (e : UsageError) : String := program ++ ": error: " ++ e.message

end UsageError

end CommandLine

end EstreePrinter
