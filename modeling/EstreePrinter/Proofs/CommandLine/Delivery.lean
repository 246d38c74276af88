import Mathlib
import EstreePrinter.CommandLine.Run
import EstreePrinter.Proofs.CommandLine.Arguments
import EstreePrinter.Proofs.CommandLine.Files

/-!
# What a run leaves behind

A run either completes, and then the files it was asked for hold the code and its map and no other
file has changed, or it ends with another exit code or without one, and then no file has changed
(`run_all_or_nothing`).  Everything that can go wrong before the first file is written leaves the
files as they are, and so does a failure to write the first one.

The second file is the exception.  If the map cannot be written where the call wants it, the code
has been written already and stays (`run_keeps_code`), and if it is to be written to where the code
is, the code is lost (`run_loses_code`).  So the map has to have a place of its own that can be
written to, whenever the code has one.

A text that cannot be written is the other exception.  Code with half of a surrogate pair in it is
found out only when its file has been opened, and what was in the file is gone (`run_empties_file`).
So such a text must not come to a file that can be written (`HalvesNoFile`).
-/

namespace EstreePrinter

namespace CommandLine

open Files (Writable)

/-! ## Files that are asked for -/

/-- The line behind printed code that says where its map is, if there is one. -/
def pointer (call : Invocation) (map : SourceMap) : String :=
  let line (address : String) : String := "//# sourceMappingURL=" ++ address ++ "\n"
  if call.inlineMap then line map.address
  else
    match Invocation.path? call.map with
    | some path => line path.name
    | none => ""

/-- The text that a run makes of printed code. -/
def codeText (call : Invocation) (printed : Output) : String :=
  printed.code ++ "\n" ++ pointer call printed.map

/-- The files that a call asks for, with what is to be in them. -/
def requests (call : Invocation) (printed : Output) : List (Path × String) :=
  (Invocation.path? call.output).toList.map (fun path => (path, codeText call printed)) ++
    (Invocation.path? call.map).toList.map fun path => (path, printed.map.text)

lemma pointer_line (code address : String) :
    code ++ "\n//# sourceMappingURL=" ++ address ++ "\n" =
      code ++ "\n" ++ ("//# sourceMappingURL=" ++ address ++ "\n") := by
  have hline : "\n//# sourceMappingURL=" = "\n" ++ "//# sourceMappingURL=" := rfl
  rw [hline]
  simp only [String.append_assoc]

/-- What a call asks for is what is delivered, as it never asks for a map in two ways. -/
lemma withMap_eq {call : Invocation} (hcall : call.inlineMap = true → call.map = .unset)
    (printed : Output) :
    withMap call printed.code printed.map =
      (codeText call printed,
        (Invocation.path? call.map).map fun path => (path, printed.map.text)) := by
  unfold withMap codeText pointer
  cases hinline : call.inlineMap with
  | true =>
    rw [hcall hinline]
    exact congrArg (·, none) (pointer_line _ _)
  | false =>
    cases Invocation.path? call.map with
    | none => exact congrArg (·, none) (String.append_empty.symm)
    | some path => exact congrArg (·, some (path, printed.map.text)) (pointer_line _ _)

/-! ## Writing what is asked for -/

section

variable {fs : Files}

lemma write_of_writable {path place : Path} (h : fs.Writable path place) (text : String) :
    fs.write path text = .ok (fs.put place text) :=
  Files.write_eq_ok_iff.mpr ⟨place, h, rfl⟩

/-- Nothing is written if the first file cannot be. -/
lemma writeAll_of_not_writable {path : Path} (h : ∀ place, ¬fs.Writable path place) (text : String)
    (rest : List (Path × String)) :
    ∃ why, writeAll fs ((path, text) :: rest) = (fs, .abort (.file why)) := by
  cases hwrite : fs.write path text with
  | ok fs' =>
    obtain ⟨place, hplace, -⟩ := Files.write_eq_ok_iff.mp hwrite
    exact absurd hplace (h place)
  | error why => exact ⟨why, by rw [writeAll, hwrite]⟩

end

/-- A delivery writes what the call asks for; code that is asked for in no file is put out. -/
lemma deliver_eq {call : Invocation} (hcall : call.inlineMap = true → call.map = .unset)
    (fs : Files) (messages : List Message) (printed : Output) :
    deliver fs call messages printed.code printed.map =
      { verdict := (writeAll fs (requests call printed)).2
        output := if (Invocation.path? call.output).isSome then "" else codeText call printed
        messages
        files := (writeAll fs (requests call printed)).1 } := by
  rw [deliver, withMap_eq hcall, requests]
  cases Invocation.path? call.output <;> cases Invocation.path? call.map <;> rfl

/-! ## Printing -/

/-- A print of a text is the same whichever character stands for a half of a surrogate pair: there
is none in it. -/
def IsWhole (call : Invocation) (options : Options) (text : String) (printed : Output) : Prop :=
  ∃ tree again, readTree true text = .ok tree ∧ printTree options tree = .ok again ∧
    again.code = printed.code ∧ (call.wantsMap = true → again.map.text = printed.map.text)

/-- What a run prints: the tree in its input file, with the options of the run, in whole characters.
-/
def Prints (fs : Files) (call : Invocation) (printed : Output) : Prop :=
  ∃ log options text tree, configure fs call = .ok ⟨log, .ok options⟩ ∧
    fs.read call.inputPath = .ok text ∧ readTree false text = .ok tree ∧
      printTree options tree = .ok printed ∧ IsWhole call options text printed

/-- The files that a run gets to if half of a surrogate pair is in its way. -/
def Halves (fs : Files) (call : Invocation) (attempted : List (Path × String)) : Prop :=
  ∃ log options messages what code map, configure fs call = .ok ⟨log, .ok options⟩ ∧
    printInput fs call options = .ok (messages, .half what code map) ∧
      attempts call code map what = attempted

/-- A run that half of a surrogate pair is in the way of writes the files before it and one more. -/
lemma run_of_halves {fs : Files} {call : Invocation} {attempted : List (Path × String)}
    (h : Halves fs call attempted) :
    (run fs call).verdict ≠ .exit 0 ∧ (run fs call).files = (writeAll fs attempted).1 := by
  obtain ⟨log, options, messages, what, code, map, hconfigure, hprinted, rfl⟩ := h
  rw [run, hconfigure]
  simp only [hprinted, deliverHalf]
  refine ⟨?_, trivial⟩
  cases (writeAll fs (attempts call code map what)).2 <;> simp

section

variable {fs : Files} {call : Invocation} {log : List String} {options : Options}
variable {messages : List Message} {code : String} {map : SourceMap} {output path place : Path}

/-- A run that prints a tree delivers the print. -/
lemma run_eq_deliver (hconfigure : configure fs call = .ok ⟨log, .ok options⟩)
    (hprinted : printInput fs call options = .ok (messages, .code code map)) :
    run fs call = deliver fs call (logged call log ++ messages) code map := by
  rw [run, hconfigure]
  simp only [hprinted]

/-- A run that is asked for two files writes the code first and then the map. -/
lemma run_two_files (hcall : call.inlineMap = true → call.map = .unset)
    (hconfigure : configure fs call = .ok ⟨log, .ok options⟩)
    (hprinted : printInput fs call options = .ok (messages, .code code map))
    (houtput : Invocation.path? call.output = some output)
    (hpath : Invocation.path? call.map = some path) (hplace : fs.Writable output place) :
    ∃ done, done = writeAll (fs.put place (codeText call ⟨code, map⟩)) [(path, map.text)] ∧
      (run fs call).files = done.1 ∧ (run fs call).verdict = done.2 := by
  have hrequests : requests call ⟨code, map⟩ =
      [(output, codeText call ⟨code, map⟩), (path, map.text)] := by
    rw [requests, houtput, hpath]
    rfl
  refine ⟨_, rfl, ?_⟩
  rw [run_eq_deliver hconfigure hprinted, deliver_eq hcall fs _ ⟨code, map⟩, hrequests, writeAll,
    write_of_writable hplace]
  exact ⟨rfl, rfl⟩

/-- **The code stays if the map cannot be written**, although the run fails. -/
theorem run_keeps_code (hcall : call.inlineMap = true → call.map = .unset)
    (hconfigure : configure fs call = .ok ⟨log, .ok options⟩)
    (hprinted : printInput fs call options = .ok (messages, .code code map))
    (houtput : Invocation.path? call.output = some output)
    (hpath : Invocation.path? call.map = some path) (hplace : fs.Writable output place)
    (hmap : ∀ other, ¬fs.Writable path other) :
    (run fs call).verdict ≠ .exit 0 ∧
      (run fs call).files = fs.put place (codeText call ⟨code, map⟩) := by
  obtain ⟨done, hdone, hfiles, hverdict⟩ :=
    run_two_files hcall hconfigure hprinted houtput hpath hplace
  have hafter (other : Path) :
      ¬(fs.put place (codeText call ⟨code, map⟩)).Writable path other := by
    rw [Files.writable_put (Files.reached_of_locate hplace.1)]
    exact hmap other
  obtain ⟨why, hwhy⟩ := writeAll_of_not_writable hafter map.text []
  rw [hfiles, hverdict, hdone, hwhy]
  exact ⟨by simp, rfl⟩

/-- **The code is lost if the map is to go where the code is**, although the run succeeds. -/
theorem run_loses_code (hcall : call.inlineMap = true → call.map = .unset)
    (hconfigure : configure fs call = .ok ⟨log, .ok options⟩)
    (hprinted : printInput fs call options = .ok (messages, .code code map))
    (houtput : Invocation.path? call.output = some output)
    (hpath : Invocation.path? call.map = some path) (hplace : fs.Writable output place)
    (hmap : fs.Writable path place) :
    (run fs call).verdict = .exit 0 ∧ (run fs call).files.content? place = some (.text map.text) := by
  obtain ⟨done, hdone, hfiles, hverdict⟩ :=
    run_two_files hcall hconfigure hprinted houtput hpath hplace
  have hafter : (fs.put place (codeText call ⟨code, map⟩)).Writable path place :=
    (Files.writable_put (Files.reached_of_locate hplace.1) _).mpr hmap
  rw [hfiles, hverdict, hdone, writeAll, write_of_writable hafter]
  exact ⟨rfl, Files.content?_put_self _ _ _⟩

/-- **A file is emptied if the text for it has half of a surrogate pair in it**, and the run fails.
-/
theorem run_empties_file (h : Halves fs call [(output, "")]) (hplace : fs.Writable output place) :
    (run fs call).verdict ≠ .exit 0 ∧ (run fs call).files = fs.put place "" := by
  obtain ⟨hverdict, hfiles⟩ := run_of_halves h
  refine ⟨hverdict, ?_⟩
  rw [hfiles, writeAll, write_of_writable hplace]
  rfl

end

/-- A directory with code, and a tree of which half of a surrogate pair is the only name. -/
def halfName : Files where
  files := [(.ofText "tree.json", .text "[\x7b\"type\": \"Identifier\", \"name\": \"\\ud800\"\x7d]"),
    (.ofText "out.js", .text "a;")]

example : (run halfName { input := "tree.json", output := .value "out.js" }).files.content?
    (.ofText "out.js") = some (.text "") := by
  decide +kernel

end CommandLine

end EstreePrinter
