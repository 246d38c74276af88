import EstreePrinter.Error
import EstreePrinter.Node
import EstreePrinter.Toml.Value

/-!
# Options

`Options` are the choices a caller makes about the printed code and its map; their ranges are part
of the type.  `Settings` are the same choices as they arrive, with values of any kind.
`Settings.check` turns the second into the first and names the first setting that is out of its
range, `Options.resolve` puts one set of settings on top of another.

Settings on top stand beside the arguments of a call and share their names with them: a setting
named like an argument would give that argument twice, and no call can be made with it
(`Options.resolveBeside`).
-/

namespace EstreePrinter

/-- The delimiter of string literals that carry no text of their own. -/
inductive QuoteStyle where
  | single
  | double
  deriving Repr, DecidableEq

namespace QuoteStyle

/-- The quote character. -/
def char : QuoteStyle → Char
  | .single => '\''
  | .double => '"'

/-- The name of a style. -/
def name : QuoteStyle → String
  | .single => "single"
  | .double => "double"

/-- The style with a name. -/
def ofName? (name : String) : Option QuoteStyle :=
  if name = "single" then some .single else if name = "double" then some .double else none

end QuoteStyle

/-- Whether a character may stand in an indentation. -/
def isIndentation (c : Char) : Bool := c == ' ' || c == '\t'

/-- The choices about printed code and its map. -/
structure Options where
  /-- The text of one indentation level. -/
  indent : String := "\t"
  /-- The delimiter of string literals. -/
  quotes : QuoteStyle := .single
  /-- How wide a list may be before it is broken over several lines. -/
  width : Nat := 80
  /-- The name of the source that the map records. -/
  source : Json := .null
  /-- The text of the source that the map records. -/
  content : Json := .null
  /-- Whether the map is written in its compact form. -/
  encode : Bool := true
  indent_ne_nil : indent.toList ≠ [] := by decide
  indent_blank : indent.toList.all isIndentation = true := by decide
  width_pos : 0 < width := by decide

/-- The choices as they arrive. -/
structure Settings where
  indent : Toml.Value := .text "\t"
  quotes : Toml.Value := .text "single"
  width : Toml.Value := .plain (.int 80)
  source : Json := .null
  content : Json := .null
  encode : Toml.Value := .plain (.bool true)

namespace Settings

/-- Change one setting; nothing if there is no setting of that name. -/
def set (s : Settings) (name : String) (value : Toml.Value) : Option Settings :=
  if name = "indent" then some { s with indent := value }
  else if name = "quotes" then some { s with quotes := value }
  else if name = "width" then some { s with width := value }
  else if name = "source_map_source" then some { s with source := value.seen }
  else if name = "source_map_content" then some { s with content := value.seen }
  else if name = "source_map_encode_mappings" then some { s with encode := value }
  else none

/-- Whether there is a setting of that name. -/
def isName (name : String) : Bool := (({} : Settings).set name (.plain .null)).isSome

/-- Change several settings, in order. -/
def setAll (s : Settings) : List (String × Toml.Value) → Option Settings
  | [] => some s
  | (name, value) :: rest =>
    match s.set name value with
    | some s => s.setAll rest
    | none => none

/-- The quote style a setting asks for. -/
def checkQuotes (value : Toml.Value) : Except Error QuoteStyle :=
  match value.seen with
  | .arr _ | .obj _ => .error (.fault .malformed)
  | .str name =>
    match QuoteStyle.ofName? name with
    | some style => .ok style
    | none => .error (.option "quotes" ("expected 'single' or 'double', got " ++ value.shown))
  | _ => .error (.option "quotes" ("expected 'single' or 'double', got " ++ value.shown))

/-- The width a setting asks for. -/
def checkWidth (value : Toml.Value) : Except Error { n : Nat // 0 < n } :=
  match value.seen with
  | .int n =>
    if h : 0 < n.toNat then .ok ⟨n.toNat, h⟩
    else .error (.option "width" ("must be a positive integer, got " ++ value.shown))
  | _ => .error (.option "width" ("must be a positive integer, got " ++ value.shown))

/-- The indentation a setting asks for. -/
def checkIndent (value : Toml.Value) :
    Except Error { s : String // s.toList ≠ [] ∧ s.toList.all isIndentation = true } :=
  match value.seen with
  | .str s =>
    if h : s.toList ≠ [] then
      if h' : s.toList.all isIndentation = true then .ok ⟨s, h, h'⟩
      else
        .error (.option "indent" ("may only contain spaces and tabs, got " ++ value.shown))
    else .error (.option "indent" "must be a non-empty string")
  | _ => .error (.option "indent" "must be a non-empty string")

/-- The options that settings ask for; the first setting out of its range is the error. -/
def check (s : Settings) : Except Error Options := do
  let indent ← checkIndent s.indent
  let quotes ← checkQuotes s.quotes
  let width ← checkWidth s.width
  match s.encode.seen with
  | .bool encode =>
    pure { indent := indent.1, quotes, width := width.1, source := s.source, content := s.content,
           encode, indent_ne_nil := indent.2.1, indent_blank := indent.2.2, width_pos := width.2 }
  | _ =>
    .error (.option "source_map_encode_mappings" ("must be true or false, got " ++ s.encode.shown))

end Settings

namespace Options

/-- The settings that give these options. -/
def toSettings (o : Options) : Settings :=
  { indent := .text o.indent, quotes := .text o.quotes.name, width := .plain (.int o.width),
    source := o.source, content := o.content, encode := .plain (.bool o.encode) }

/-- Settings that a caller gives. -/
def givenBy (settings : List (String × Json)) : List (String × Toml.Value) :=
  settings.map fun setting => (setting.1, .plain setting.2)

/-- The options made of settings for some of them, the others keeping their defaults. -/
def ofSettings (settings : List (String × Toml.Value)) : Except Error Options :=
  match ({} : Settings).setAll settings with
  | some s => s.check
  | none => .error (.fault .malformed)

/-- The first of some names in alphabetical order. -/
def firstName : List String → Option String
  | [] => none
  | name :: rest =>
    match firstName rest with
    | some other => some (if name < other then name else other)
    | none => some name

/-- Put settings on top of options.  A name that is no setting is an error of its own. -/
def override (base : Options) (overrides : List (String × Json)) : Except Error Options :=
  match firstName ((overrides.map Prod.fst).filter fun name => !Settings.isName name) with
  | some name => .error (.option name "unknown option")
  | none =>
    if overrides.isEmpty then .ok base
    else
      match base.toSettings.setAll (givenBy overrides) with
      | some s => s.check
      | none => .error (.fault .malformed)

/-- The options given by settings and overrides on top of them, in a call with arguments of the
given names. -/
def resolveBeside (arguments : List String) (base : Option (List (String × Json)))
    (overrides : List (String × Json)) : Except Error Options := do
  let base ← match base with
    | some settings => ofSettings (givenBy settings)
    | none => pure {}
  if overrides.any fun setting => arguments.contains setting.1 then .error (.fault .malformed)
  else base.override overrides

/-- The options given by settings and overrides on top of them. -/
def resolve (base : Option (List (String × Json))) (overrides : List (String × Json)) :
    Except Error Options :=
  resolveBeside ["options"] base overrides

end Options

end EstreePrinter
