import Mathlib
import EstreePrinter.CommandLine.Configuration
import EstreePrinter.Proofs.Outcome

/-!
# What the options of a run are made of

A run's options are put together from a configuration and a call, setting by setting, and checked
in the end.  Here this is said in one equation (`mergeOptions_eq`): first the values that need it
are converted, then the source file is read, and then the options are those of one record of
settings (`effective`), in which the call comes before the configuration and the configuration
before the defaults.

**Settings by name.**  Settings are collected in a list, and each is put into it at most once
(`Proper`); such a list says no more than what it has under each name (`ofSettings_eq`).

**Verdicts.**  A setting that is out of its range is reported, if its value can be shown
(`judged`).
-/

namespace EstreePrinter

namespace CommandLine

open Options (ofSettings)

/-! ## Settings by name -/

lemma lookup_cons_ite (name other : String) (value : Toml.Value) (settings : Toml.Table) :
    ((name, value) :: settings).lookup other =
      if other = name then some value else settings.lookup other := by
  by_cases h : other = name
  · subst h
    simp [List.lookup]
  · rw [if_neg h, List.lookup, beq_false_of_ne h]

@[simp] lemma lookup_put (name other : String) (value : Toml.Value) (settings : Toml.Table) :
    (put name value settings).lookup other =
      if other = name then some value else settings.lookup other := by
  unfold put
  induction settings with
  | nil => exact lookup_cons_ite name other value []
  | cons field rest ih =>
    obtain ⟨key, old⟩ := field
    rw [Json.insertField]
    by_cases hkey : key = name
    · subst hkey
      rw [if_pos rfl, lookup_cons_ite, lookup_cons_ite]
      split_ifs <;> rfl
    · rw [if_neg hkey, lookup_cons_ite, lookup_cons_ite, ih]
      by_cases hother : other = key
      · subst hother
        rw [if_pos rfl, if_neg hkey, if_pos rfl]
      · rw [if_neg hother, if_neg hother]

@[simp] lemma lookup_putSome (name other : String) (value : Option Toml.Value)
    (settings : Toml.Table) :
    (putSome name value settings).lookup other =
      if other = name then value.or (settings.lookup name) else settings.lookup other := by
  cases value with
  | none =>
    rw [putSome, Option.none_or]
    split_ifs with h
    · rw [h]
    · rfl
  | some value => rw [putSome, lookup_put, Option.some_or]

/-- Settings of which each is there at most once, under a name there is. -/
structure Proper (settings : Toml.Table) : Prop where
  nodup : (settings.map Prod.fst).Nodup
  named : ∀ name ∈ settings.map Prod.fst, Settings.isName name = true

lemma proper_nil : Proper [] := ⟨List.nodup_nil, fun _ h => by cases h⟩

lemma mem_map_put {name other : String} {value : Toml.Value} {settings : Toml.Table} :
    other ∈ (put name value settings).map Prod.fst ↔
      other = name ∨ other ∈ settings.map Prod.fst := by
  unfold put
  induction settings with
  | nil => simp [Json.insertField]
  | cons field rest ih =>
    obtain ⟨key, old⟩ := field
    rw [Json.insertField]
    by_cases hkey : key = name
    · simp [hkey]
    · rw [if_neg hkey, List.map_cons, List.mem_cons, ih, List.map_cons, List.mem_cons]
      tauto

lemma Proper.put {name : String} {settings : Toml.Table} (h : Proper settings)
    (hname : Settings.isName name = true) (value : Toml.Value) :
    Proper (put name value settings) := by
  refine ⟨?_, fun other hother => ?_⟩
  · have hnodup := h.nodup
    clear h
    induction settings with
    | nil => simp [CommandLine.put, Json.insertField]
    | cons field rest ih =>
      obtain ⟨key, old⟩ := field
      rw [CommandLine.put, Json.insertField]
      rw [List.map_cons, List.nodup_cons] at hnodup
      by_cases hkey : key = name
      · rw [if_pos hkey, List.map_cons, List.nodup_cons]
        exact hnodup
      · rw [if_neg hkey, List.map_cons, List.nodup_cons, ← CommandLine.put, mem_map_put, not_or]
        exact ⟨⟨hkey, hnodup.1⟩, ih hnodup.2⟩
  · rcases mem_map_put.mp hother with rfl | hother
    · exact hname
    · exact h.named other hother

lemma Proper.putSome {name : String} {settings : Toml.Table} (h : Proper settings)
    (hname : Settings.isName name = true) (value : Option Toml.Value) :
    Proper (putSome name value settings) := by
  cases value with
  | none => exact h
  | some value => exact h.put hname value

/-- Settings put on top of others, by name. -/
def onTop (s : Settings) (find : String → Option Toml.Value) : Settings where
  indent := (find "indent").getD s.indent
  quotes := (find "quotes").getD s.quotes
  width := (find "width").getD s.width
  source := ((find "source_map_source").map Toml.Value.seen).getD s.source
  content := ((find "source_map_content").map Toml.Value.seen).getD s.content
  encode := (find "source_map_encode_mappings").getD s.encode

lemma isName_iff {name : String} :
    Settings.isName name = true ↔ name = "indent" ∨ name = "quotes" ∨ name = "width" ∨
      name = "source_map_source" ∨ name = "source_map_content" ∨
        name = "source_map_encode_mappings" := by
  simp only [Settings.isName, Settings.set]
  split_ifs <;> simp_all

lemma lookup_eq_none {name : String} {settings : Toml.Table}
    (h : name ∉ settings.map Prod.fst) : settings.lookup name = none := by
  rw [List.lookup_eq_none_iff]
  intro field hfield
  exact bne_iff_ne.mpr fun heq => h (List.mem_map.mpr ⟨field, hfield, heq.symm⟩)

/-- **Settings in a list say what they have under each name**, and nothing else. -/
lemma setAll_eq {settings : Toml.Table} (h : Proper settings) (s : Settings) :
    s.setAll settings = some (onTop s fun name => settings.lookup name) := by
  obtain ⟨hnodup, hnamed⟩ := h
  induction settings generalizing s with
  | nil => rfl
  | cons setting rest ih =>
    obtain ⟨name, value⟩ := setting
    rw [List.map_cons, List.nodup_cons] at hnodup
    have hrest (t : Settings) := ih t hnodup.2 fun other hother =>
      hnamed other (List.mem_cons_of_mem _ hother)
    have hnone := lookup_eq_none hnodup.1
    rcases isName_iff.mp (hnamed name List.mem_cons_self) with rfl | rfl | rfl | rfl | rfl | rfl
    all_goals simp [Settings.setAll, Settings.set, hrest, onTop, lookup_cons_ite, hnone]

lemma ofSettings_eq {settings : Toml.Table} (h : Proper settings) :
    ofSettings settings = (onTop {} fun name => settings.lookup name).check := by
  rw [ofSettings, setAll_eq h]

/-! ## Verdicts on settings -/

/-- The value of the setting with a name. -/
def settingOf (s : Settings) (name : String) : Toml.Value :=
  if name = "indent" then s.indent
  else if name = "quotes" then s.quotes
  else if name = "width" then s.width
  else if name = "source_map_encode_mappings" then s.encode
  else .plain .null

/-- The options that settings ask for, or why there are none: the first setting that is out of its
range is reported with its value, if that can be shown. -/
def judged (s : Settings) : Except Abort (Except Refusal Options) :=
  match s.check with
  | .ok options => .ok (.ok options)
  | .error (.option name reason) =>
    if (settingOf s name).isShowable then .ok (.error (.option name reason)) else .error .digits
  | .error e => .error (.error e)

/-- The settings that can be found out of their range. -/
def checkedNames : List String := ["indent", "quotes", "width", "source_map_encode_mappings"]

section

variable {value : Toml.Value} {name reason : String}

lemma name_of_checkIndent (h : Settings.checkIndent value = .error (.option name reason)) :
    name = "indent" := by
  unfold Settings.checkIndent at h
  split at h
  · split_ifs at h <;> cases h <;> rfl
  · cases h
    rfl

lemma name_of_checkQuotes (h : Settings.checkQuotes value = .error (.option name reason)) :
    name = "quotes" := by
  unfold Settings.checkQuotes at h
  split at h
  · cases h
  · cases h
  · split at h <;> cases h
    rfl
  · cases h
    rfl

lemma name_of_checkWidth (h : Settings.checkWidth value = .error (.option name reason)) :
    name = "width" := by
  unfold Settings.checkWidth at h
  split at h
  · split_ifs at h
    cases h
    rfl
  · cases h
    rfl

/-- A check finds fault with these settings only. -/
lemma mem_checkedNames {s : Settings} (h : s.check = .error (.option name reason)) :
    name ∈ checkedNames := by
  unfold Settings.check at h
  cases hindent : Settings.checkIndent s.indent with
  | error e =>
    rw [hindent] at h
    cases h
    rw [name_of_checkIndent hindent]
    decide
  | ok indent =>
    rw [hindent, ok_bind] at h
    cases hquotes : Settings.checkQuotes s.quotes with
    | error e =>
      rw [hquotes] at h
      cases h
      rw [name_of_checkQuotes hquotes]
      decide
    | ok quotes =>
      rw [hquotes, ok_bind] at h
      cases hwidth : Settings.checkWidth s.width with
      | error e =>
        rw [hwidth] at h
        cases h
        rw [name_of_checkWidth hwidth]
        decide
      | ok width =>
        rw [hwidth, ok_bind] at h
        split at h
        · cases h
        · cases h
          decide

end

/-- All defaults can be shown, so that a setting can be if what is given for it can. -/
lemma isShowable_settingOf {settings : Toml.Table} {name : String} (h : name ∈ checkedNames) :
    (settingOf (onTop {} fun name => settings.lookup name) name).isShowable =
      (settings.lookup name).all Toml.Value.isShowable := by
  have hdefault (found : Option Toml.Value) (default : Toml.Value)
      (hshowable : default.isShowable = true) :
      (found.getD default).isShowable = found.all Toml.Value.isShowable := by
    cases found with
    | none => exact hshowable
    | some value => rfl
  simp only [checkedNames, List.mem_cons, List.not_mem_nil, or_false] at h
  rcases h with rfl | rfl | rfl | rfl
  all_goals exact hdefault _ _ (by decide)

lemma optionsOf_eq {settings : Toml.Table} (h : Proper settings) :
    optionsOf settings = judged (onTop {} fun name => settings.lookup name) := by
  rw [optionsOf, judged, ofSettings_eq h]
  cases hcheck : (onTop {} fun name => settings.lookup name).check with
  | ok options => rfl
  | error e =>
    cases e with
    | option name reason =>
      change (if (settings.lookup name).all Toml.Value.isShowable = true then _ else _) =
        if (settingOf _ name).isShowable = true then _ else _
      rw [isShowable_settingOf (mem_checkedNames hcheck)]
    | _ => rfl

/-! ## Keys of a configuration -/

/-- The keys of a configuration. -/
inductive Key where
  | indent
  | quotes
  | width
  | source
  | encode
  deriving Repr, DecidableEq

/-- The table about the source map in a configuration. -/
def mapTable (table : Toml.Table) : Toml.Table :=
  match table.lookup "source_map" with
  | some (.table fields) => fields
  | _ => []

namespace Key

/-- What a configuration has under a key. -/
def inTable (table : Toml.Table) : Key → Option Toml.Value
  | .indent => table.lookup "indent"
  | .quotes => table.lookup "quotes"
  | .width => table.lookup "width"
  | .source => (mapTable table).lookup "source"
  | .encode => (mapTable table).lookup "encode"

/-- What a call sets in place of a key. -/
def inCall (call : Invocation) : Key → Option Toml.Value
  | .indent => call.indent.setting? .str
  | .quotes => call.quotes.setting? .str
  | .width => call.width.setting? .int
  | .source => call.sourceName.setting? .str
  | .encode => if call.rawMappings then some (.plain (.bool false)) else none

/-- What is taken for a key: what the call sets comes before what the configuration has. -/
def taken (table : Toml.Table) (call : Invocation) (key : Key) : Option Toml.Value :=
  (key.inCall call).or (key.inTable table)

end Key

/-! ## Putting the options together -/

/-- The source file of a call with its text, if the call gives one. -/
def readSource (fs : Files) (call : Invocation) : Except FileError (Option (Path × String)) :=
  match Invocation.path? call.source with
  | none => .ok none
  | some path => (fs.read path).map fun text =>
    some (path, String.ofList (Text.plainLineEnds text.toList))

/-- A value converted, if there is one. -/
def converted {α : Type} (convert : Toml.Value → Except Abort α) :
    Option Toml.Value → Except Abort (Option α)
  | some value => (convert value).map some
  | none => .ok none

lemma converted_isOk_iff {α : Type} {convert : Toml.Value → Except Abort α}
    {value : Option Toml.Value} :
    (∃ result, converted convert value = .ok result) ↔
      ∀ v, value = some v → ∃ a, convert v = .ok a := by
  cases value with
  | none => simp [converted]
  | some v => cases hconvert : convert v <;> simp [converted, hconvert, Except.map]

/-- The settings that options are made of: those of the call come before those of the configuration,
and the name of the source file is used if there is no other. -/
def effective (table : Toml.Table) (call : Invocation) (indent source : Option Toml.Value)
    (content : Option (Path × String)) : Settings :=
  let defaults : Settings := {}
  { indent := indent.getD defaults.indent
    quotes := (Key.quotes.taken table call).getD defaults.quotes
    width := (Key.width.taken table call).getD defaults.width
    source := (((Key.source.inCall call).or
      (source.or (content.map fun file => .text file.1.name))).map Toml.Value.seen).getD
        defaults.source
    content := (content.map fun file => .str file.2).getD defaults.content
    encode := (Key.encode.taken table call).getD defaults.encode }

/-- Both indentations are converted, and the one of the call is taken. -/
lemma indentSetting_eq (table : Toml.Table) (call : Invocation) :
    indentSetting table call = (do
      let fromTable ← converted indentation (Key.indent.inTable table)
      let fromCall ← converted indentation (Key.indent.inCall call)
      pure ((fromCall.or fromTable).map .text)) := by
  rw [indentSetting, Key.inTable, Key.inCall]
  cases table.lookup "indent" with
  | none =>
    cases call.indent.setting? .str with
    | none => rfl
    | some given => cases hgiven : indentation given <;> simp [converted, hgiven, Except.map]
  | some value =>
    cases hvalue : indentation value with
    | error why => simp [converted, hvalue, Except.map]
    | ok blanks =>
      cases call.indent.setting? .str with
      | none => simp [converted, hvalue, Except.map]
      | some given =>
        cases hgiven : indentation given <;> simp [converted, hvalue, hgiven, Except.map]

lemma mapSettings_eq (table : Toml.Table) :
    mapSettings table =
      (converted displayed (Key.source.inTable table)).map fun source =>
      putSome "source_map_encode_mappings" (Key.encode.inTable table) <|
        putSome "source_map_source" source [] := by
  rw [mapSettings, Key.inTable, Key.inTable]
  split
  · next fields hfields =>
    have htable : mapTable table = fields := by rw [mapTable, hfields]
    rw [htable]
    cases fields.lookup "source" with
    | none => rfl
    | some value => cases hshown : displayed value <;> simp [converted, hshown, Except.map]
  · next hnone =>
    have htable : mapTable table = [] := by
      rw [mapTable]
      split
      · next fields hfields => exact absurd hfields (hnone fields)
      · rfl
    rw [htable]
    rfl

lemma sourceSettings_eq (fs : Files) (call : Invocation) (settings : Toml.Table) :
    sourceSettings fs call settings = (readSource fs call).map fun content =>
      putSome "source_map_source" (if (settings.lookup "source_map_source").isSome then none
        else content.map fun file => .text file.1.name) <|
        putSome "source_map_content" (content.map fun file => .text file.2) settings := by
  rw [sourceSettings, readSource]
  cases Invocation.path? call.source with
  | none => simp [Except.map, putSome]
  | some path =>
    cases hread : fs.read path with
    | error e => simp [hread, Except.map]
    | ok text =>
      have hother : "source_map_source" ≠ "source_map_content" := by decide
      cases hname : (settings.lookup "source_map_source").isSome with
      | true => simp [hread, Except.map, putSome, hname, hother]
      | false => simp [hread, Except.map, putSome, hname, hother]

section

variable (table : Toml.Table) (call : Invocation) (indent source : Option Toml.Value)
variable (content : Option (Path × String))

/-- Everything that is collected for the options of a run. -/
def collected : Toml.Table :=
  let fromTable := putSome "width" (Key.width.inTable table) <|
    putSome "quotes" (Key.quotes.inTable table) <| putSome "indent" indent <|
      putSome "source_map_encode_mappings" (Key.encode.inTable table) <|
        putSome "source_map_source" source []
  callSettings call <|
    putSome "source_map_source" (if (fromTable.lookup "source_map_source").isSome then none
      else content.map fun file => .text file.1.name) <|
      putSome "source_map_content" (content.map fun file => .text file.2) fromTable

lemma proper_collected : Proper (collected table call indent source content) := by
  have hnamed : ∀ name ∈ ["indent", "quotes", "width", "source_map_source", "source_map_content",
      "source_map_encode_mappings"], Settings.isName name = true := by decide
  unfold collected callSettings
  repeat' first
    | exact proper_nil
    | refine Proper.putSome ?_ (hnamed _ (by simp)) _

lemma onTop_collected :
    (onTop {} fun name => (collected table call indent source content).lookup name) =
      effective table call indent source content := by
  have hcontent : (content.map (Toml.Value.seen ∘ fun file => Toml.Value.text file.2)).getD .null =
      (content.map fun file => Json.str file.2).getD .null := rfl
  cases source <;> simp [onTop, effective, collected, callSettings, Key.taken, Key.inCall,
    Key.inTable, hcontent]

end

/-- **What the options of a run are made of.** -/
theorem mergeOptions_eq (fs : Files) (call : Invocation) (table : Toml.Table) :
    mergeOptions fs call table = (do
      let indent ← indentSetting table call
      let source ← converted displayed (Key.source.inTable table)
      match readSource fs call with
      | .ok content => judged (effective table call indent source content)
      | .error e => if e.isReported then .ok (.error (.file e)) else .error (.file e)) := by
  rw [mergeOptions]
  cases hindent : indentSetting table call with
  | error why => rfl
  | ok indent =>
    rw [ok_bind, ok_bind, mapSettings_eq]
    cases hsource : converted displayed (Key.source.inTable table) with
    | error why => rfl
    | ok source =>
      simp only [Except.map, ok_bind, sourceSettings_eq]
      cases readSource fs call with
      | error e => cases e <;> rfl
      | ok content =>
        refine Eq.trans ?_ (congrArg judged (onTop_collected table call indent source content))
        exact optionsOf_eq (proper_collected table call indent source content)

end CommandLine

end EstreePrinter
