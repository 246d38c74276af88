import Mathlib
import EstreePrinter.CommandLine.Run
import EstreePrinter.Proofs.CommandLine.Settings

/-!
# Options, or a report

What a configuration and a call give for the options of a run may be out of range, and then the run
reports that and ends with exit code 2.  This is so as long as every value is of a kind that can be
looked at (`run_resolves`): an indentation that is a number in range, a flag or a text; a name of
the source, and values that have to be reported, that can be shown; a quote style that is no list
and no table; and a source file with a possible name and a text in it, or none that can be read
(`Usable`).  The values are those of any text of settings: numbers, flags, texts, dates and times,
lists and tables.

**Where it is not so.**  An indentation is converted before anything is checked, wherever it comes
from: a configuration with an indentation of another kind, or with digits that are no number,
aborts every run without a report (`run_aborts_of_indent`), and so does a list for the quote style
once everything before it has come through (`run_aborts_of_quotes`), and a source file that holds no
text once the values before it have been converted (`run_aborts_of_source`).
-/

namespace EstreePrinter

namespace CommandLine

/-! ## Conversions -/

/-- A value that an indentation can be made of: a number of blanks that there is room for, a flag,
or a text, which has to be such a number if it consists of digits. -/
def IsIndent (value : Toml.Value) : Prop :=
  match value.seen with
  | .int n => -maxSize ≤ n ∧ n < maxRoom
  | .bool _ => True
  | .str s => s ≠ "" → (∀ c ∈ s.toList, Text.isDigit c = true) →
      ∃ n, Text.wholeNumber? s.toList = some n ∧ -maxSize ≤ n ∧ n < maxRoom
  | _ => False

lemma blanks_isOk_iff {n : Int} :
    (∃ s, blanks n = .ok s) ↔ -maxSize ≤ n ∧ n < maxRoom := by
  have hroom : maxRoom < maxSize := by decide
  rw [blanks]
  by_cases hsize : n < -maxSize ∨ maxSize ≤ n
  · simp [hsize]
    omega
  · by_cases hn : maxRoom ≤ n
    · simp [hsize, hn]
    · simp [hsize, hn]
      omega

/-- Exactly these values are converted. -/
lemma indentation_isOk_iff {value : Toml.Value} :
    (∃ s, indentation value = .ok s) ↔ IsIndent value := by
  unfold indentation IsIndent
  cases value.seen with
  | int n => exact blanks_isOk_iff
  | bool b =>
    refine iff_of_true (blanks_isOk_iff.mpr ?_) trivial
    cases b <;> decide
  | str s =>
    dsimp only
    by_cases hdigits : s ≠ "" ∧ s.toList.all Text.isDigit = true
    · rw [if_pos hdigits]
      have hall : ∀ c ∈ s.toList, Text.isDigit c = true := List.all_eq_true.mp hdigits.2
      cases hnumber : Text.wholeNumber? s.toList with
      | none =>
        refine iff_of_false (by simp) fun h => ?_
        obtain ⟨n, hn, -⟩ := h hdigits.1 hall
        cases hn
      | some n =>
        refine blanks_isOk_iff.trans ⟨fun h _ _ => ⟨n, rfl, h⟩, fun h => ?_⟩
        obtain ⟨m, hm, hrange⟩ := h hdigits.1 hall
        cases hm
        exact hrange
    · rw [if_neg hdigits]
      refine iff_of_true ⟨_, rfl⟩ fun hne hall => absurd ⟨hne, ?_⟩ hdigits
      exact List.all_eq_true.mpr hall
  | null => simp
  | float x => simp
  | arr items => simp
  | obj fields => simp

/-- Indentations are converted exactly if that can be done wherever they come from. -/
lemma indentSetting_isOk_iff {table : Toml.Table} {call : Invocation} :
    (∃ indent, indentSetting table call = .ok indent) ↔
      (∀ value, Key.indent.inTable table = some value → IsIndent value) ∧
        ∀ value, Key.indent.inCall call = some value → IsIndent value := by
  simp only [← indentation_isOk_iff, ← converted_isOk_iff, indentSetting_eq]
  cases converted indentation (Key.indent.inTable table) with
  | error why => simp
  | ok fromTable => cases converted indentation (Key.indent.inCall call) <;> simp

lemma displayed_isOk_iff {value : Toml.Value} :
    (∃ text, displayed value = .ok text) ↔ value.isShowable = true := by
  cases hshowable : value.isShowable <;> simp [displayed, hshowable]

/-! ## The check -/

/-- Whether a value is a list or a table. -/
def IsContainer (value : Toml.Value) : Prop :=
  match value.seen with
  | .arr _ | .obj _ => True
  | _ => False

/-- A value that is seen as a number, a flag or a text is that. -/
lemma eq_plain_of_seen {value : Toml.Value} {v : Json} (h : value.seen = v)
    (hkind : v ≠ .null ∧ v ≠ .arr [] ∧ v ≠ .obj []) : value = .plain v := by
  cases value with
  | plain found => rw [← h, Toml.Value.seen]
  | moment m => exact absurd h.symm hkind.1
  | list items => exact absurd h.symm hkind.2.1
  | table fields => exact absurd h.symm hkind.2.2

/-- What comes of a check: a result, or a report on a setting with a certain property. -/
def Reports {α : Type} (P : String → Prop) (x : Except Error α) : Prop :=
  (∃ a, x = .ok a) ∨ ∃ name reason, P name ∧ x = .error (.option name reason)

section

variable {P : String → Prop}

lemma Reports.bind {α β : Type} {x : Except Error α} {f : α → Except Error β} (hx : Reports P x)
    (hf : ∀ a, x = .ok a → Reports P (f a)) : Reports P (x >>= f) := by
  obtain ⟨a, rfl⟩ | ⟨name, reason, hname, rfl⟩ := hx
  · exact hf a rfl
  · exact .inr ⟨name, reason, hname, rfl⟩

lemma reports_ok {α : Type} (a : α) : Reports P (.ok a) := .inl ⟨a, rfl⟩

lemma reports_option {α : Type} {name : String} (hname : P name) (reason : String) :
    Reports P (.error (.option name reason) : Except Error α) := .inr ⟨name, reason, hname, rfl⟩

lemma reports_checkIndent (h : P "indent") (value : Toml.Value) :
    Reports P (Settings.checkIndent value) := by
  unfold Settings.checkIndent
  split
  · split_ifs
    · exact reports_ok _
    · exact reports_option h _
    · exact reports_option h _
  · exact reports_option h _

lemma reports_checkQuotes (h : P "quotes") {value : Toml.Value} (hvalue : ¬IsContainer value) :
    Reports P (Settings.checkQuotes value) := by
  unfold IsContainer at hvalue
  unfold Settings.checkQuotes
  split
  · next hseen => simp [hseen] at hvalue
  · next hseen => simp [hseen] at hvalue
  · split
    · exact reports_ok _
    · exact reports_option h _
  · exact reports_option h _

lemma reports_checkWidth {value : Toml.Value}
    (h : P "width" ∨ ∃ n, 0 < n ∧ value = .plain (.int n)) :
    Reports P (Settings.checkWidth value) := by
  unfold Settings.checkWidth
  split
  · next n hseen =>
    split_ifs with hpos
    · exact reports_ok _
    · obtain h | ⟨m, hm, rfl⟩ := h
      · exact reports_option h _
      · cases hseen
        omega
  · next hint =>
    obtain h | ⟨n, -, rfl⟩ := h
    · exact reports_option h _
    · exact absurd rfl (hint n)

/-- **The check finds options or a setting that is out of its range**, if the quote style is no list
and no table. -/
lemma reports_check {s : Settings} (hindent : P "indent") (hquotes : P "quotes")
    (hstyle : ¬IsContainer s.quotes) (hwidth : P "width" ∨ ∃ n, 0 < n ∧ s.width = .plain (.int n))
    (hencode : P "source_map_encode_mappings") : Reports P s.check := by
  unfold Settings.check
  refine (reports_checkIndent hindent _).bind fun indent _ => ?_
  refine (reports_checkQuotes hquotes hstyle).bind fun quotes _ => ?_
  refine (reports_checkWidth hwidth).bind fun width _ => ?_
  split
  · exact reports_ok _
  · exact reports_option hencode _

end

lemma eq_of_checkIndent {value : Toml.Value}
    {indent : { s : String // s.toList ≠ [] ∧ s.toList.all isIndentation = true }}
    (h : Settings.checkIndent value = .ok indent) : Toml.Value.text indent.1 = value := by
  unfold Settings.checkIndent at h
  split at h
  · next hseen =>
    split_ifs at h
    cases h
    exact (eq_plain_of_seen hseen (by simp)).symm
  · cases h

lemma eq_of_checkQuotes {value : Toml.Value} {style : QuoteStyle}
    (h : Settings.checkQuotes value = .ok style) : Toml.Value.text style.name = value := by
  unfold Settings.checkQuotes at h
  split at h
  · cases h
  · cases h
  · next name hseen =>
    have hvalue : value = .text name := eq_plain_of_seen hseen (by simp)
    split at h
    · next found hfound =>
      cases h
      unfold QuoteStyle.ofName? at hfound
      split_ifs at hfound with hsingle hdouble
      · cases hfound
        rw [hvalue, hsingle]
        rfl
      · cases hfound
        rw [hvalue, hdouble]
        rfl
    · cases h
  · cases h

lemma eq_of_checkWidth {value : Toml.Value} {width : { n : Nat // 0 < n }}
    (h : Settings.checkWidth value = .ok width) : Toml.Value.plain (.int width.1) = value := by
  unfold Settings.checkWidth at h
  split at h
  · next n hseen =>
    split_ifs at h with hpos
    cases h
    have hnumber : ((n.toNat : Nat) : Int) = n := Int.toNat_of_nonneg (by omega)
    rw [eq_plain_of_seen hseen (by simp), hnumber]
  · cases h

/-- **Settings that pass the check are the options.** -/
lemma toSettings_of_check {s : Settings} {options : Options} (h : s.check = .ok options) :
    options.toSettings = s := by
  obtain ⟨indent, hindent, h⟩ := bind_eq_ok_iff.mp h
  obtain ⟨quotes, hquotes, h⟩ := bind_eq_ok_iff.mp h
  obtain ⟨width, hwidth, h⟩ := bind_eq_ok_iff.mp h
  split at h
  · next encode hencode =>
    cases h
    rw [Options.toSettings, eq_of_checkIndent hindent, eq_of_checkQuotes hquotes,
      eq_of_checkWidth hwidth, ← eq_plain_of_seen hencode (by simp)]
  · cases h

/-- Settings are judged if those that are reported can be shown. -/
lemma judged_isOk {s : Settings}
    (h : Reports (fun name => (settingOf s name).isShowable = true) s.check) :
    (∃ options, judged s = .ok (.ok options) ∧ options.toSettings = s) ∨
      ∃ name reason, judged s = .ok (.error (.option name reason)) := by
  obtain ⟨options, hcheck⟩ | ⟨name, reason, hshowable, hcheck⟩ := h
  · exact .inl ⟨options, by rw [judged, hcheck], toSettings_of_check hcheck⟩
  · refine .inr ⟨name, reason, ?_⟩
    rw [judged, hcheck]
    exact if_pos hshowable

/-! ## Configurations that can be compared -/

/-- Whether two values are the same whole number, flag, text or moment. -/
def sameScalar : Toml.Value → Toml.Value → Bool
  | .plain (.int m), .plain (.int n) => m == n
  | .plain (.bool a), .plain (.bool b) => a == b
  | .plain (.str s), .plain (.str t) => s == t
  | .moment m, .moment n => m == n
  | _, _ => false

/-- Whether two tables have the same such values under the same keys in the same order. -/
def sameTable : Toml.Table → Toml.Table → Bool
  | [], [] => true
  | (key, value) :: rest, (key', value') :: rest' =>
    key == key' && sameScalar value value' && sameTable rest rest'
  | _, _ => false

lemma eq_of_sameScalar {value value' : Toml.Value} (h : sameScalar value value' = true) :
    value = value' := by
  unfold sameScalar at h
  split at h
  · rw [eq_of_beq h]
  · rw [eq_of_beq h]
  · rw [eq_of_beq h]
  · rw [eq_of_beq h]
  · cases h

lemma eq_of_sameTable {table table' : Toml.Table} (h : sameTable table table' = true) :
    table = table' := by
  induction table, table' using sameTable.induct with
  | case1 => rfl
  | case2 key value rest key' value' rest' ih =>
    simp only [sameTable, Bool.and_eq_true, beq_iff_eq] at h
    rw [h.1.1, eq_of_sameScalar h.1.2, ih h.2]
  | case3 table table' hnil hcons =>
    rw [sameTable] at h
    · cases h
    · exact hnil
    · exact hcons

/-- A text that is read as a table like another is read as that one. -/
lemma read_eq_of_sameTable {text : List Char} {table : Toml.Table}
    (h : ((Toml.read text).toOption.any fun found => sameTable found table) = true) :
    Toml.read text = .ok table := by
  cases hread : Toml.read text with
  | error e =>
    rw [hread] at h
    cases h
  | ok found =>
    rw [hread] at h
    exact congrArg Except.ok (eq_of_sameTable h)

/-! ## Runs -/

/-- What a configuration and a call give can be looked at: every indentation can be converted, the
source file has a possible name and holds a text if it is there, the quote style is no list and no
table, and the name of the source and the values that may have to be reported can be shown. -/
structure Usable (fs : Files) (call : Invocation) (table : Toml.Table) : Prop where
  indentInTable : ∀ value, Key.indent.inTable table = some value → IsIndent value
  indentInCall : ∀ value, Key.indent.inCall call = some value → IsIndent value
  source : ∀ value, Key.source.inTable table = some value → value.isShowable = true
  file : ∀ path e, Invocation.path? call.source = some path → fs.read path = .error e →
    e.isReported = true
  style : ∀ value, Key.quotes.taken table call = some value → ¬IsContainer value
  quotes : ∀ value, Key.quotes.taken table call = some value → value.isShowable = true
  width : ∀ value, Key.width.taken table call = some value →
    value.isShowable = true ∨ ∃ n, 0 < n ∧ value = .plain (.int n)
  encode : ∀ value, Key.encode.taken table call = some value → value.isShowable = true

/-- Options are those that a call, a configuration and the defaults give, in this order. -/
def Merged (fs : Files) (call : Invocation) (table : Toml.Table) (options : Options) : Prop :=
  ∃ indent source content, indentSetting table call = .ok indent ∧
    converted displayed (Key.source.inTable table) = .ok source ∧
      readSource fs call = .ok content ∧
        options.toSettings = effective table call indent source content

variable {fs : Files} {call : Invocation} {text : String} {table : Toml.Table}

lemma configure_eq (hread : fs.read call.configurationPath = .ok text)
    (htable : Toml.read text.toList = .ok table) :
    configure fs call = (mergeOptions fs call table).map fun options =>
      ⟨["loading config from " ++ call.configurationPath.text], options⟩ := by
  rw [configure]
  simp only [hread, htable]
  cases mergeOptions fs call table <;> rfl

/-- If the source file of a usable call cannot be read, that is reported. -/
lemma isReported_of_readSource (h : Usable fs call table) {e : FileError}
    (hread : readSource fs call = .error e) : e.isReported = true := by
  rw [readSource] at hread
  split at hread
  · cases hread
  · next path hpath =>
    cases hfile : fs.read path with
    | ok text =>
      rw [hfile] at hread
      cases hread
    | error found =>
      rw [hfile] at hread
      cases hread
      exact h.file path _ hpath hfile

lemma isShowable_getD {value : Option Toml.Value} {default : Toml.Value}
    (hvalue : ∀ v, value = some v → v.isShowable = true) (hdefault : default.isShowable = true) :
    (value.getD default).isShowable = true := by
  cases value with
  | none => exact hdefault
  | some v => exact hvalue v rfl

/-- What is reported of usable settings can be shown. -/
lemma reports_effective (h : Usable fs call table) {indent source : Option Toml.Value}
    {content : Option (Path × String)} (hindent : indentSetting table call = .ok indent) :
    Reports (fun name => (settingOf (effective table call indent source content) name).isShowable =
      true) (effective table call indent source content).check := by
  refine reports_check ?_ (isShowable_getD h.quotes (by decide)) ?_ ?_
    (isShowable_getD h.encode (by decide))
  · -- an indentation has been converted to a text
    refine isShowable_getD (fun v hv => ?_) (by decide)
    rw [indentSetting_eq] at hindent
    obtain ⟨fromTable, -, hindent⟩ := bind_eq_ok_iff.mp hindent
    obtain ⟨fromCall, -, hindent⟩ := bind_eq_ok_iff.mp hindent
    cases hindent
    obtain ⟨text, -, rfl⟩ := Option.map_eq_some_iff.mp hv
    rfl
  · change ¬IsContainer ((Key.quotes.taken table call).getD _)
    cases htaken : Key.quotes.taken table call with
    | none => exact fun hdefault => hdefault
    | some value => exact h.style value htaken
  · change ((Key.width.taken table call).getD _).isShowable = true ∨
      ∃ n, 0 < n ∧ (Key.width.taken table call).getD _ = .plain (.int n)
    cases htaken : Key.width.taken table call with
    | none => exact .inl (by decide)
    | some value => exact h.width value htaken

/-- Usable settings make options, or are refused. -/
lemma mergeOptions_of_usable (h : Usable fs call table) :
    (∃ options, mergeOptions fs call table = .ok (.ok options) ∧ Merged fs call table options) ∨
      ∃ refusal, mergeOptions fs call table = .ok (.error refusal) := by
  obtain ⟨indent, hindent⟩ := indentSetting_isOk_iff.mpr ⟨h.indentInTable, h.indentInCall⟩
  obtain ⟨source, hsource⟩ := converted_isOk_iff.mpr fun value hvalue =>
    displayed_isOk_iff.mpr (h.source value hvalue)
  rw [mergeOptions_eq, hindent, ok_bind, hsource, ok_bind]
  cases hread : readSource fs call with
  | error e => exact .inr ⟨.file e, if_pos (isReported_of_readSource h hread)⟩
  | ok content =>
    obtain ⟨options, hjudged, hsettings⟩ | ⟨name, reason, hjudged⟩ :=
      judged_isOk (reports_effective h hindent)
    · exact .inl ⟨options, hjudged, indent, source, content, hindent, hsource, hread, hsettings⟩
    · exact .inr ⟨_, hjudged⟩

/-- A refusal is reported as an error. -/
lemma exists_report (refusal : Refusal) : ∃ what, refusal.report = "error: " ++ what := by
  cases refusal with
  | configuration => exact ⟨"TOML", rfl⟩
  | file e => exact ⟨e.message, rfl⟩
  | option name reason =>
    refine ⟨"invalid option '" ++ (name ++ ("': " ++ reason)), ?_⟩
    have hstart : "error: invalid option '" = "error: " ++ "invalid option '" := rfl
    rw [Refusal.report]
    unfold optionMessage
    rw [hstart, String.append_assoc, String.append_assoc, String.append_assoc]

/-- A run whose options are refused reports that and ends. -/
lemma run_of_refusal {log : List String} {refusal : Refusal}
    (h : configure fs call = .ok ⟨log, .error refusal⟩) :
    run fs call =
      { verdict := .exit 2
        messages := logged call log ++ [.line refusal.report]
        files := fs } := by
  rw [run, h]

/-- **Options, or a report.**  A configuration file that can be read as one, and a call, make
options of a run, or the run reports an error in a line and ends with exit code 2 and without a
change to any file.  The options are those that the call, the configuration and the defaults give,
in this order.  What is given has to be usable. -/
theorem run_resolves (hread : fs.read call.configurationPath = .ok text)
    (htable : Toml.read text.toList = .ok table) (husable : Usable fs call table) :
    (∃ log options, configure fs call = .ok ⟨log, .ok options⟩ ∧ Merged fs call table options) ∨
      ∃ log refusal what, configure fs call = .ok ⟨log, .error refusal⟩ ∧
        (run fs call).verdict = .exit 2 ∧ (run fs call).files = fs ∧
          (run fs call).messages = logged call log ++ [.line ("error: " ++ what)] := by
  obtain ⟨options, hmerge, hoptions⟩ | ⟨refusal, hmerge⟩ := mergeOptions_of_usable husable
  · have hconfigure : configure fs call =
        .ok ⟨["loading config from " ++ call.configurationPath.text], .ok options⟩ := by
      rw [configure_eq hread htable, hmerge]
      rfl
    exact .inl ⟨_, options, hconfigure, hoptions⟩
  · have hconfigure : configure fs call =
        .ok ⟨["loading config from " ++ call.configurationPath.text], .error refusal⟩ := by
      rw [configure_eq hread htable, hmerge]
      rfl
    obtain ⟨what, hwhat⟩ := exists_report refusal
    refine .inr ⟨_, refusal, what, hconfigure, ?_⟩
    rw [run_of_refusal hconfigure, hwhat]
    exact ⟨rfl, rfl, rfl⟩

/-- A directory with a tree and a configuration for it, whose width is a day. -/
def configuredTree : Files where
  files := [(.ofText "tree.json", .text "[]"),
    (.ofText "jsunparse.toml", .text "indent = 2\nquotes = \"single\"\nwidth = 2026-11-19\n")]

/-- A call that names nothing but its input. -/
def plainCall : Invocation := { input := "tree.json" }

theorem run_resolves_configuredTree :
    ∃ text table, configuredTree.read plainCall.configurationPath = .ok text ∧
      Toml.read text.toList = .ok table ∧ Usable configuredTree plainCall table ∧
      ((∃ log options, configure configuredTree plainCall = .ok ⟨log, .ok options⟩ ∧
        Merged configuredTree plainCall table options) ∨
      ∃ log refusal what, configure configuredTree plainCall = .ok ⟨log, .error refusal⟩ ∧
        (run configuredTree plainCall).verdict = .exit 2 ∧
          (run configuredTree plainCall).files = configuredTree ∧
          (run configuredTree plainCall).messages =
            logged plainCall log ++ [.line ("error: " ++ what)]) ∧
      (run configuredTree plainCall).messages =
        [.line ("error: invalid option 'width': must be a positive integer, " ++
          "got datetime.date(2026, 11, 19)")] := by
  have hread : configuredTree.read plainCall.configurationPath =
      .ok "indent = 2\nquotes = \"single\"\nwidth = 2026-11-19\n" := by decide +kernel
  have htable : Toml.read "indent = 2\nquotes = \"single\"\nwidth = 2026-11-19\n".toList =
      .ok [("indent", .plain (.int 2)), ("quotes", .text "single"),
        ("width", .moment (.day ⟨2026, 11, 19, by decide, by decide, by decide⟩))] :=
    read_eq_of_sameTable (by decide +kernel)
  have husable : Usable configuredTree plainCall
      [("indent", .plain (.int 2)), ("quotes", .text "single"),
        ("width", .moment (.day ⟨2026, 11, 19, by decide, by decide, by decide⟩))] := by
    constructor
    · rintro value ⟨⟩
      exact ⟨by decide, by decide⟩
    · rintro value ⟨⟩
    · rintro value ⟨⟩
    · intro path e hpath
      cases hpath
    · rintro value ⟨⟩ h
      exact h
    · rintro value ⟨⟩
      rfl
    · rintro value ⟨⟩
      exact .inl rfl
    · rintro value ⟨⟩
  exact ⟨_, _, hread, htable, husable, run_resolves hread htable husable, by decide +kernel⟩

/-! ## Values of no use -/

/-- A run that is given up while its options are put together leaves the files as they are. -/
lemma run_of_abort {why : Abort} (h : configure fs call = .error why) :
    run fs call = { verdict := .abort why, files := fs } := by
  rw [run, h]

/-- **An indentation of another kind aborts every run** without a report, whether it is in the
configuration or in the call, and whether it would be taken or not. -/
theorem run_aborts_of_indent (hread : fs.read call.configurationPath = .ok text)
    (htable : Toml.read text.toList = .ok table) {value : Toml.Value}
    (hvalue : Key.indent.inTable table = some value ∨ Key.indent.inCall call = some value)
    (hindent : ¬IsIndent value) : ∃ why, run fs call = { verdict := .abort why, files := fs } := by
  cases hsetting : indentSetting table call with
  | ok indent =>
    obtain ⟨hinTable, hinCall⟩ := indentSetting_isOk_iff.mp ⟨indent, hsetting⟩
    exact absurd (hvalue.elim (hinTable value) (hinCall value)) hindent
  | error why =>
    refine ⟨why, run_of_abort ?_⟩
    rw [configure_eq hread htable, mergeOptions_eq, hsetting]
    rfl

/-- **A list or a table for the quote style aborts a run** whose other settings come through up to
there. -/
theorem run_aborts_of_quotes (hread : fs.read call.configurationPath = .ok text)
    (htable : Toml.read text.toList = .ok table) {value : Toml.Value}
    {indent source : Option Toml.Value} {content : Option (Path × String)}
    (hindent : indentSetting table call = .ok indent)
    (hsource : converted displayed (Key.source.inTable table) = .ok source)
    (hcontent : readSource fs call = .ok content)
    (hblank : ∃ blank,
      Settings.checkIndent (effective table call indent source content).indent = .ok blank)
    (hquotes : Key.quotes.taken table call = some value) (hvalue : IsContainer value) :
    ∃ why, run fs call = { verdict := .abort why, files := fs } := by
  obtain ⟨blank, hblank⟩ := hblank
  have hstyle : (effective table call indent source content).quotes = value := by
    rw [effective, hquotes, Option.getD_some]
  have hcheck :
      (effective table call indent source content).check = .error (.fault .malformed) := by
    have hfault : Settings.checkQuotes value = .error (.fault .malformed) := by
      unfold IsContainer at hvalue
      unfold Settings.checkQuotes
      split at hvalue
      · next hseen => rw [hseen]
      · next hseen => rw [hseen]
      · cases hvalue
    rw [Settings.check, hblank, ok_bind, hstyle, hfault]
    rfl
  refine ⟨.error (.fault .malformed), run_of_abort ?_⟩
  rw [configure_eq hread htable, mergeOptions_eq, hindent, ok_bind, hsource, ok_bind, hcontent]
  simp only [judged, hcheck]
  rfl

/-- **A source file that holds no text aborts a run** whose values before it come through. -/
theorem run_aborts_of_source (hread : fs.read call.configurationPath = .ok text)
    (htable : Toml.read text.toList = .ok table) {indent source : Option Toml.Value} {path : Path}
    (hindent : indentSetting table call = .ok indent)
    (hsource : converted displayed (Key.source.inTable table) = .ok source)
    (hpath : Invocation.path? call.source = some path)
    (hfile : fs.read path = .error (.notText path)) :
    run fs call = { verdict := .abort (.file (.notText path)), files := fs } := by
  refine run_of_abort ?_
  have hcontent : readSource fs call = .error (.notText path) := by
    simp only [readSource, hpath, hfile]
    rfl
  rw [configure_eq hread htable, mergeOptions_eq, hindent, ok_bind, hsource, ok_bind, hcontent]
  rfl

end CommandLine

end EstreePrinter
