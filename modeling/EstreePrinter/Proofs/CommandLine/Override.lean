import Mathlib
import EstreePrinter.Proofs.CommandLine.Files
import EstreePrinter.Proofs.CommandLine.Resolution

/-!
# A call overrides its configuration

Two configurations that have the same under every key that a call does not set lead to the same run:
the same end, output and messages, and the same files written (`run_overrides`).

The values that the call sets anew still have to be converted alike.  An indentation and a name of
the source are converted before it is looked at what the call sets, and if that fails
(`Key.failure`) the run is given up, even though nothing would have come of the value
(`run_aborts_of_indent`).

The proof compares the two runs step by step.  The options are put together alike
(`mergeOptions_eq_of_overridden`).  The files differ in nothing but the text of the configuration,
so that they look alike (`Files.Alike`), and stay so from write to write (`writeAll_alike`).
-/

namespace EstreePrinter

namespace CommandLine

/-! ## Conversions that fail alike -/

/-- Why there is no result, if there is none. -/
def failureOf {α : Type} : Except Abort α → Option Abort
  | .ok _ => none
  | .error why => some why

/-- Computations go on alike from results, if they fail alike. -/
lemma bind_eq_of_failureOf {α β : Type} {x y : Except Abort α} {f g : α → Except Abort β}
    (h : failureOf x = failureOf y) (hfg : ∀ a b, x = .ok a → y = .ok b → f a = g b) :
    x >>= f = y >>= g := by
  cases x with
  | ok a =>
    cases y with
    | ok b => exact hfg a b rfl rfl
    | error why => cases h
  | error why =>
    cases y with
    | ok b => cases h
    | error why' =>
      cases h
      rfl

/-- Why the value under a key of a configuration cannot be converted, if it cannot.  The other keys
have values that are taken as they are. -/
def Key.failure (table : Toml.Table) : Key → Option Abort
  | .indent => failureOf (converted indentation (Key.indent.inTable table))
  | .source => failureOf (converted displayed (Key.source.inTable table))
  | _ => none

/-! ## The options -/

section

variable {call : Invocation} {table table' : Toml.Table}

lemma inTable_eq {key : Key}
    (hset : (key.inCall call).isSome = true ∨ key.inTable table = key.inTable table')
    (hnone : key.inCall call = none) : key.inTable table = key.inTable table' := by
  rcases hset with hsome | heq
  · rw [hnone] at hsome
    cases hsome
  · exact heq

lemma taken_eq {key : Key}
    (hset : (key.inCall call).isSome = true ∨ key.inTable table = key.inTable table') :
    key.taken table call = key.taken table' call := by
  rw [Key.taken, Key.taken]
  cases hcall : key.inCall call with
  | none => rw [Option.none_or, Option.none_or, inTable_eq hset hcall]
  | some value => rw [Option.some_or, Option.some_or]

/-- An indentation of the call is taken, whatever has been made of that of the configuration. -/
lemma indentSetting_eq_of_overridden
    (hset : (Key.indent.inCall call).isSome = true ∨
      Key.indent.inTable table = Key.indent.inTable table')
    (hfailure : Key.indent.failure table = Key.indent.failure table') :
    indentSetting table call = indentSetting table' call := by
  rw [indentSetting_eq, indentSetting_eq]
  refine bind_eq_of_failureOf hfailure fun blank blank' hblank hblank' => ?_
  cases hcall : Key.indent.inCall call with
  | none =>
    rw [inTable_eq hset hcall, hblank'] at hblank
    cases hblank
    rfl
  | some value => cases hvalue : indentation value <;> simp [converted, hvalue, Except.map]

/-- **The options are the same** if the configurations agree under the keys that the call does not
set, and the values under the others can be converted alike. -/
lemma mergeOptions_eq_of_overridden {fs fs' : Files}
    (hset : ∀ key : Key, (key.inCall call).isSome = true ∨ key.inTable table = key.inTable table')
    (hfailure : ∀ key : Key, key.failure table = key.failure table')
    (hsource : readSource fs call = readSource fs' call) :
    mergeOptions fs call table = mergeOptions fs' call table' := by
  rw [mergeOptions_eq, mergeOptions_eq, hsource,
    indentSetting_eq_of_overridden (hset .indent) (hfailure .indent)]
  refine congrArg _ (funext fun indent => ?_)
  refine bind_eq_of_failureOf (hfailure .source) fun source source' hshown hshown' => ?_
  have heffective (content : Option (Path × String)) :
      effective table call indent source content =
        effective table' call indent source' content := by
    rw [effective, effective, taken_eq (hset .quotes), taken_eq (hset .width),
      taken_eq (hset .encode)]
    cases hcall : Key.source.inCall call with
    | none =>
      rw [inTable_eq (hset .source) hcall, hshown'] at hshown
      cases hshown
      rfl
    | some name => rw [Option.some_or, Option.some_or]
  simp only [heffective]

end

/-! ## Runs on files that look alike -/

section

variable {fs fs' : Files}

/-- **The same writes go the same way** in files that look alike. -/
lemma writeAll_alike (h : fs.Alike fs') (requests : List (Path × String)) :
    ∃ writes verdict, writeAll fs requests = (fs.putAll writes, verdict) ∧
      writeAll fs' requests = (fs'.putAll writes, verdict) := by
  induction requests generalizing fs fs' with
  | nil => exact ⟨[], .exit 0, rfl, rfl⟩
  | cons request rest ih =>
    obtain ⟨path, text⟩ := request
    have hwrite (fs : Files) : fs.write path text = (do
        let place ← fs.locate path
        if fs.hasDirectory place then .error (.isDirectory path)
        else pure (fs.put place text)) := rfl
    simp only [writeAll, hwrite, h.locate, h.directory]
    cases hlocate : fs'.locate path with
    | error why => exact ⟨[], .abort (.file why), rfl, rfl⟩
    | ok place =>
      have hplace : fs.Reached place := Files.reached_of_locate ((h.locate path).trans hlocate)
      cases hdirectory : fs'.hasDirectory place with
      | true => exact ⟨[], .abort (.file (.isDirectory path)), by simp [Files.putAll, hdirectory],
          by simp [Files.putAll, hdirectory]⟩
      | false =>
        obtain ⟨writes, verdict, hfirst, hsecond⟩ := ih (h.put hplace text text)
        exact ⟨(place, text) :: writes, verdict,
          by simpa [hdirectory, Files.putAll_cons] using hfirst,
          by simpa [hdirectory, Files.putAll_cons] using hsecond⟩

/-- Two runs end the same way, say the same and write the same. -/
structure Same (fs fs' : Files) (done done' : Outcome) : Prop where
  verdict : done.verdict = done'.verdict
  output : done.output = done'.output
  messages : done.messages = done'.messages
  writes : ∃ writes, done.files = fs.putAll writes ∧ done'.files = fs'.putAll writes

/-- Runs that end alike without a write are the same. -/
lemma same_of_untouched (fs fs' : Files) (verdict : Verdict) (messages : List Message) :
    Same fs fs' { verdict, messages, files := fs } { verdict, messages, files := fs' } :=
  ⟨rfl, rfl, rfl, [], rfl, rfl⟩

lemma same_deliver (h : fs.Alike fs') (call : Invocation) (messages : List Message) (code : String)
    (map : SourceMap) :
    Same fs fs' (deliver fs call messages code map) (deliver fs' call messages code map) := by
  rw [deliver, deliver]
  cases Invocation.path? call.output with
  | none =>
    obtain ⟨writes, verdict, hfirst, hsecond⟩ :=
      writeAll_alike h (withMap call code map).2.toList
    simp only [hfirst, hsecond]
    exact ⟨rfl, rfl, rfl, writes, rfl, rfl⟩
  | some path =>
    obtain ⟨writes, verdict, hfirst, hsecond⟩ :=
      writeAll_alike h ((path, (withMap call code map).1) :: (withMap call code map).2.toList)
    simp only [hfirst, hsecond]
    exact ⟨rfl, rfl, rfl, writes, rfl, rfl⟩

lemma same_deliverHalf (h : fs.Alike fs') (call : Invocation) (messages : List Message)
    (what : Halved) (code : String) (map : SourceMap) :
    Same fs fs' (deliverHalf fs call messages what code map)
      (deliverHalf fs' call messages what code map) := by
  obtain ⟨writes, verdict, hfirst, hsecond⟩ := writeAll_alike h (attempts call code map what)
  rw [deliverHalf, deliverHalf, hfirst, hsecond]
  exact ⟨rfl, rfl, rfl, writes, rfl, rfl⟩

/-- **Runs with the same options and the same input are the same**, on files that look alike. -/
lemma same_run {call : Invocation} (h : fs.Alike fs')
    (hconfigure : configure fs call = configure fs' call)
    (hinput : fs.read call.inputPath = fs'.read call.inputPath) :
    Same fs fs' (run fs call) (run fs' call) := by
  have hprint (options : Options) : printInput fs call options = printInput fs' call options := by
    rw [printInput, printInput, hinput]
  rw [run, run, hconfigure]
  cases configure fs' call with
  | error why => exact same_of_untouched ..
  | ok configured =>
    obtain ⟨log, refusal | options⟩ := configured
    · exact same_of_untouched ..
    simp only [hprint]
    cases printInput fs' call options with
    | error why => exact same_of_untouched ..
    | ok printed =>
      obtain ⟨messages, ⟨code, map⟩ | ⟨what, code, map⟩ | text⟩ := printed
      · exact same_deliver h ..
      · exact same_deliverHalf h ..
      · exact same_of_untouched ..

end

/-! ## Two configurations -/

/-- **A call overrides its configuration.**  Runs from the same files but for the configuration are
the same, if the configurations agree under every key that the call does not set.  The
configuration is read as nothing else, and the values that the call overrides can be converted
alike. -/
theorem run_overrides {fs : Files} {call : Invocation} {place : Path} {text text' : String}
    {table table' : Toml.Table} (hplace : fs.Writable call.configurationPath place)
    (hinput : fs.locate call.inputPath ≠ .ok place)
    (hsource : ∀ path, Invocation.path? call.source = some path → fs.locate path ≠ .ok place)
    (htable : Toml.read text.toList = .ok table) (htable' : Toml.read text'.toList = .ok table')
    (hset : ∀ key : Key, (key.inCall call).isSome = true ∨ key.inTable table = key.inTable table')
    (hfailure : ∀ key : Key, key.failure table = key.failure table') :
    Same (fs.put place text) (fs.put place text') (run (fs.put place text) call)
      (run (fs.put place text') call) := by
  have hreached : fs.Reached place := Files.reached_of_locate hplace.1
  have hread : readSource (fs.put place text) call = readSource (fs.put place text') call := by
    rw [readSource, readSource]
    cases hpath : Invocation.path? call.source with
    | none => rfl
    | some path => simp only [Files.read_put_of_ne hreached text text' (hsource path hpath)]
  refine same_run ((Files.Alike.refl fs).put hreached text text') ?_
    (Files.read_put_of_ne hreached text text' hinput)
  rw [configure_eq (Files.read_put_self hplace text) htable,
    configure_eq (Files.read_put_self hplace text') htable',
    mergeOptions_eq_of_overridden hset hfailure hread]

/-- A call that sets the indentation and the width. -/
def indentedCall : Invocation := { input := "tree.json", indent := .value "4", width := .value 60 }

theorem run_overrides_indentedCall :
    ∃ place table table', configuredTree.Writable indentedCall.configurationPath place ∧
      configuredTree.locate indentedCall.inputPath ≠ .ok place ∧
      (∀ path, Invocation.path? indentedCall.source = some path →
        configuredTree.locate path ≠ .ok place) ∧
      Toml.read "indent = 2\nwidth = 12:30:00\n".toList = .ok table ∧
      Toml.read "width = 70\n".toList = .ok table' ∧
      (∀ key : Key, (key.inCall indentedCall).isSome = true ∨
        key.inTable table = key.inTable table') ∧
      (∀ key : Key, key.failure table = key.failure table') ∧
      Same (configuredTree.put place "indent = 2\nwidth = 12:30:00\n")
        (configuredTree.put place "width = 70\n")
        (run (configuredTree.put place "indent = 2\nwidth = 12:30:00\n") indentedCall)
        (run (configuredTree.put place "width = 70\n") indentedCall) := by
  have hplace : configuredTree.Writable indentedCall.configurationPath
      (.ofText "jsunparse.toml") := ⟨by decide +kernel, by decide +kernel⟩
  have hinput : configuredTree.locate indentedCall.inputPath ≠ .ok (.ofText "jsunparse.toml") := by
    decide +kernel
  have hsource : ∀ path, Invocation.path? indentedCall.source = some path →
      configuredTree.locate path ≠ .ok (.ofText "jsunparse.toml") := by
    rintro path ⟨⟩
  let halfPastTwelve : Toml.Value :=
    .moment (.clock ⟨12, 30, 0, 0, by decide, by decide, by decide, by decide⟩)
  have htable : Toml.read "indent = 2\nwidth = 12:30:00\n".toList =
      .ok [("indent", .plain (.int 2)), ("width", halfPastTwelve)] :=
    read_eq_of_sameTable (by decide +kernel)
  have htable' : Toml.read "width = 70\n".toList = .ok [("width", .plain (.int 70))] :=
    read_eq_of_sameTable (by decide +kernel)
  have hset : ∀ key : Key, (key.inCall indentedCall).isSome = true ∨
      key.inTable [("indent", .plain (.int 2)), ("width", halfPastTwelve)] =
        key.inTable [("width", .plain (.int 70))] := by
    rintro ⟨⟩
    · exact .inl rfl
    · exact .inr rfl
    · exact .inl rfl
    all_goals exact .inr rfl
  have hfailure : ∀ key : Key,
      key.failure [("indent", .plain (.int 2)), ("width", halfPastTwelve)] =
        key.failure [("width", .plain (.int 70))] := by
    rintro ⟨⟩ <;> rfl
  exact ⟨_, _, _, hplace, hinput, hsource, htable, htable', hset, hfailure,
    run_overrides hplace hinput hsource htable htable' hset hfailure⟩

end CommandLine

end EstreePrinter
