import EstreePrinter.CommandLine.Usage
import EstreePrinter.Text.Digit
import EstreePrinter.Toml.Value

/-!
# Reading the arguments of a call

Every argument is first read on its own (`Reading.ofText`): as an option, possibly shortened and
possibly with its value attached, as a plain argument, or as the mark behind which all arguments are
plain.  Then the arguments are taken one after the other (`parse`).

* Long options may be shortened as long as only one fits, and take a value after `=` or as the next
  argument.
* Short options may be bundled, and the last of a bundle may have its value attached.
* What looks like a negative number, or has a blank in it, is plain unless it is an option.
* An option that has the mark as its value is given, but given nothing (`Given.nothing`).
-/

namespace EstreePrinter

namespace CommandLine

/-! ## Single arguments -/

/-- How one argument is read. -/
inductive Reading where
  /-- A plain argument. -/
  | plain
  /-- The mark behind which all arguments are plain. -/
  | mark
  /-- An option, by one of its names, and what is attached to it. -/
  | option (switch : Switch) (name : List Char) (attached : Option (List Char))
  /-- An option that there is not. -/
  | unknown
  deriving Repr, DecidableEq

namespace Reading

/-- The option with a name. -/
def find? (name : List Char) : Option Switch := Switch.table.lookup (String.ofList name)

/-- Whether a text is a run of decimal digits. -/
def areDigits (text : List Char) : Bool := text.all fun c => (Text.digitValue? c).isSome

/-- A text without a line feed at its end. -/
def withoutFinalLineFeed (text : List Char) : List Char :=
  if text.getLast? = some '\n' then text.dropLast else text

/-- Whether an argument looks like a negative number. -/
def isNegativeNumber (argument : List Char) : Bool :=
  match withoutFinalLineFeed argument with
  | '-' :: digits =>
    let fraction := (digits.dropWhile (· != '.')).drop 1
    (digits ≠ [] && areDigits digits) ||
      (areDigits (digits.takeWhile (· != '.')) && fraction ≠ [] && areDigits fraction)
  | _ => false

/-- Split at the first equals sign. -/
def splitEquals (argument : List Char) : List Char × Option (List Char) :=
  match argument.dropWhile (· != '=') with
  | _ :: value => (argument.takeWhile (· != '='), some value)
  | [] => (argument, none)

/-- The options that a shortened long name fits. -/
def longMatches (argument : List Char) : List (String × Reading) :=
  let (start, value) := splitEquals argument
  (Switch.table.filter fun entry => start.isPrefixOf entry.1.toList).map fun entry =>
    (entry.1, .option entry.2 entry.1.toList value)

/-- The options that a short name with something attached fits. -/
def shortMatches (argument : List Char) : List (String × Reading) :=
  Switch.table.filterMap fun entry =>
    let name := entry.1.toList
    if name = argument.take 2 then
      some (entry.1, .option entry.2 name (some (argument.drop 2)))
    else if argument.isPrefixOf name then some (entry.1, .option entry.2 name none)
    else none

/-- The options that an argument fits without naming one. -/
def fits (argument : List Char) : List (String × Reading) :=
  if ['-', '-'].isPrefixOf argument then longMatches argument else shortMatches argument

/-- Read an argument that starts with a dash and is not the name of an option. -/
def guess (argument : List Char) : Except UsageError Reading :=
  match fits argument with
  | [] =>
    if isNegativeNumber argument || argument.contains ' ' then .ok .plain else .ok .unknown
  | [found] => .ok found.2
  | several => .error (.ambiguous (String.ofList argument) (several.map Prod.fst))

/-- Read one argument. -/
def ofText (argument : List Char) : Except UsageError Reading :=
  if argument.head? ≠ some '-' then .ok .plain
  else
    match find? argument with
    | some switch => .ok (.option switch argument none)
    | none =>
      if argument.length = 1 then .ok .plain
      else
        match splitEquals argument with
        | (name, some value) =>
          match find? name with
          | some switch => .ok (.option switch name (some value))
          | none => guess argument
        | (_, none) => guess argument

/-- The mark behind which all arguments are plain, as it is written. -/
def markText : String := "--"

/-- Read the arguments of a call, each on its own. -/
def ofTexts : List String → Except UsageError (List (String × Reading))
  | [] => .ok []
  | argument :: rest =>
    if argument = markText then .ok ((argument, .mark) :: rest.map fun a => (a, .plain))
    else do
      let reading ← ofText argument.toList
      let others ← ofTexts rest
      pure ((argument, reading) :: others)

end Reading

/-! ## Calls -/

/-- What a call gives for an option. -/
inductive Given (α : Type) where
  /-- The option is left out. -/
  | unset
  /-- The option is there and has no value. -/
  | nothing
  /-- The option has a value. -/
  | value (a : α)
  deriving Repr, DecidableEq

namespace Given

/-- Whether an option is there. -/
def isSet {α : Type} : Given α → Bool
  | .unset => false
  | _ => true

/-- The value of an option, if it has one. -/
def value? {α : Type} : Given α → Option α
  | .value a => some a
  | _ => none

/-- What an option sets, if it is there; nothing stands as an empty list. -/
def setting? {α : Type} (form : α → Json) : Given α → Option Toml.Value
  | .unset => none
  | .nothing => some (.list [])
  | .value a => some (.plain (form a))

/-- What a text gives for an option: the mark gives nothing. -/
def ofText (text : String) : Given String :=
  if text = Reading.markText then .nothing else .value text

end Given

/-- What a call asks for. -/
structure Invocation where
  input : String := ""
  output : Given String := .unset
  map : Given String := .unset
  inlineMap : Bool := false
  indent : Given String := .unset
  quotes : Given String := .unset
  width : Given Int := .unset
  sourceName : Given String := .unset
  source : Given String := .unset
  rawMappings : Bool := false
  config : Given String := .unset
  debug : Bool := false
  verbose : Bool := false
  deriving Repr, DecidableEq

/-- Why a call does not lead to a run. -/
inductive Stop where
  | usage (what : UsageError)
  | help
  deriving Repr, DecidableEq

/-- The arguments taken so far. -/
structure Taken where
  /-- The input file, once it has been found. -/
  input : Option String := none
  /-- The options found so far. -/
  call : Invocation := {}
  /-- Arguments that nothing was found for. -/
  extra : List String := []
  deriving Repr, DecidableEq

namespace Taken

/-- Whether an option has been given. -/
def has (t : Taken) : Switch → Bool
  | .map => t.call.map.isSet
  | .inlineMap => t.call.inlineMap
  | _ => false

/-- Fail if an option excludes one that has been given. -/
def checkConflict (t : Taken) (switch : Switch) : Except Stop Unit :=
  match switch.conflict? with
  | some other => if t.has other then .error (.usage (.excluded switch other)) else .ok ()
  | none => .ok ()

/-- Take an option without a value. -/
def takeFlag (t : Taken) (switch : Switch) : Except Stop Taken := do
  t.checkConflict switch
  match switch with
  | .help => .error .help
  | .inlineMap => pure { t with call := { t.call with inlineMap := true } }
  | .rawMappings => pure { t with call := { t.call with rawMappings := true } }
  | .debug => pure { t with call := { t.call with debug := true } }
  | .verbose => pure { t with call := { t.call with verbose := true } }
  | _ => pure t

/-- Take several options without values. -/
def takeFlags (t : Taken) : List Switch → Except Stop Taken
  | [] => pure t
  | switch :: rest => do
    let t ← t.takeFlag switch
    t.takeFlags rest

/-- The quote styles that can be asked for. -/
def quoteStyles : List String := ["single", "double"]

/-- The quote style that a call gives. -/
def quotesOf : Given String → Except Stop (Given String)
  | .value style =>
    if quoteStyles.contains style then pure (.value style)
    else .error (.usage (.notOffered .quotes style quoteStyles))
  | given => pure given

/-- The width that a call gives. -/
def widthOf : Given String → Except Stop (Given Int)
  | .value text =>
    match Text.wholeNumber? text.toList with
    | some n => pure (.value n)
    | none => .error (.usage (.notWhole .width text))
  | .nothing => pure .nothing
  | .unset => pure .unset

/-- Take an option with what is given for it. -/
def takeValue (t : Taken) (switch : Switch) (given : Given String) : Except Stop Taken := do
  match switch with
  | .output => pure { t with call := { t.call with output := given } }
  | .map =>
    t.checkConflict .map
    pure { t with call := { t.call with map := given } }
  | .indent => pure { t with call := { t.call with indent := given } }
  | .quotes => pure { t with call := { t.call with quotes := ← quotesOf given } }
  | .width => pure { t with call := { t.call with width := ← widthOf given } }
  | .sourceName => pure { t with call := { t.call with sourceName := given } }
  | .source => pure { t with call := { t.call with source := given } }
  | .config => pure { t with call := { t.call with config := given } }
  | _ => pure t

/-- Take the input file. -/
def takeInput (t : Taken) (name : String) : Taken :=
  { t with input := some name }

/-- Put an argument aside that nothing was found for. -/
def setAside (t : Taken) (argument : String) : Taken := { t with extra := t.extra ++ [argument] }

end Taken

/-- What the last option of a bundle still asks for. -/
inductive Ending where
  /-- Nothing. -/
  | complete
  /-- It has its value. -/
  | given (switch : Switch) (value : List Char)
  /-- Its value is the next argument. -/
  | wanted (switch : Switch)

/-- An option with nothing attached to it. -/
def alone (switch : Switch) : List Switch × Ending :=
  if switch.takesValue then ([], .wanted switch) else ([switch], .complete)

/-- Take a bundle apart into options without values and its ending.  What is attached to an option
without a value has to begin with the letter of another one. -/
def unbundle (switch : Switch) : List Char → Except UsageError (List Switch × Ending)
  | [] => .ok (alone switch)
  | c :: rest =>
    if switch.takesValue then .ok ([], .given switch (c :: rest))
    else
      match Reading.find? ['-', c] with
      | none => .error (.ignoredValue switch (String.ofList (c :: rest)))
      | some next => (unbundle next rest).map fun r => (switch :: r.1, r.2)

/-- Whether the name of an option is a short one. -/
def isShort (name : List Char) : Bool := !(['-', '-'].isPrefixOf name)

/-- Take the option at hand apart. -/
def opening (switch : Switch) (name : List Char) :
    Option (List Char) → Except UsageError (List Switch × Ending)
  | none => .ok (alone switch)
  | some attached =>
    if switch.takesValue then .ok ([], .given switch attached)
    else if isShort name ∧ attached ≠ [] then unbundle switch attached
    else .error (.ignoredValue switch (String.ofList attached))

/-- A failure of the call as a reason to stop. -/
def orStop {α : Type} : Except UsageError α → Except Stop α
  | .ok a => .ok a
  | .error e => .error (.usage e)

/-- Take arguments one after the other. -/
def takeAll (t : Taken) : List (String × Reading) → Except Stop Taken
  | [] => pure t
  | (argument, .unknown) :: rest => takeAll (t.setAside argument) rest
  | (_, .option switch name attached) :: rest => do
    let (flags, ending) ← orStop (opening switch name attached)
    match ending with
    | .complete => takeAll (← t.takeFlags flags) rest
    | .given last value =>
      takeAll (← (← t.takeFlags flags).takeValue last (.ofText (String.ofList value))) rest
    | .wanted last =>
      match rest with
      | (value, .plain) :: rest =>
        takeAll (← (← t.takeFlags flags).takeValue last (.ofText value)) rest
      | _ => .error (.usage (.expectedValue last))
  | (argument, .plain) :: rest =>
    if t.input.isSome then takeAll (t.setAside argument) rest
    else
      match rest with
      | (_, .mark) :: rest => takeAll (t.takeInput argument) rest
      | rest => takeAll (t.takeInput argument) rest
  | (argument, .mark) :: rest =>
    if t.input.isSome then takeAll (t.setAside argument) rest
    else
      match rest with
      | (name, .plain) :: rest => takeAll (t.takeInput name) rest
      | rest => takeAll (t.setAside argument) rest

/-- What a call asks for. -/
def parse (arguments : List String) : Except Stop Invocation := do
  let t ← takeAll {} (← orStop (Reading.ofTexts arguments))
  match t.input with
  | none => .error (.usage .noInput)
  | some input =>
    if t.extra ≠ [] then .error (.usage (.unrecognized t.extra))
    else pure { t.call with input }

end CommandLine

end EstreePrinter
