import Mathlib
import EstreePrinter.Proofs.Linearizer.Continued
import EstreePrinter.Proofs.Printer.Mapped

/-!
# Programs are printed statement by statement

The loop over the statements of a program carries the last statement that was printed and hands the
waiting comments on.  After every statement the comments are drained, so the next one starts with
none waiting, and a statement is printed the same wherever it stands.

**Statements.**  `Render.printed` is what one statement contributes, said without any state;
`Render.laidOut` puts the contributions below each other.  A program is nothing but that
(`renderWhole_programOf`).

**Programs.**  With the line feeds between them, two programs are written one behind the other
(`linearize_lineFeeds`).  **`print_append`** says so of whole prints, and that empty statements do
not count.
-/

namespace EstreePrinter

/-- Whether a statement is an empty one. -/
def Json.isEmptyStatement (v : Json) : Bool :=
  match v.requireKind with
  | .ok kind => kind.isText "EmptyStatement"
  | .error _ => false

namespace Render

variable {α β : Type} {s : Setting} {q : List Json}

lemma drainAfterStatement_bind_run (f : Unit → Render β) :
    (drainAfterStatement >>= f) s q = afterStatement false q >>= fun commands =>
      (f () s []).map fun e => { e with commands := commands ++ e.commands } := by
  simp only [drainAfterStatement, bind_assoc, takeQueue_bind_run, read_bind_run, emit_bind_run]

/-! ## One statement -/

/-- What a statement contributes to a program: what the space around it depends on, and its commands
with the comments before and behind it. -/
def printed (s : Setting) (v : Json) : Except Fault (Printed × List Command) := do
  let kind ← v.requireKind
  let comments ← leading true .null (← v.comments "leadingComments")
  let held ← tree .bare v s []
  let drained ← afterStatement false held.queue
  pure (⟨kind.display, held.multiline⟩, comments ++ held.commands ++ drained)

/-- What statements contribute, empty ones left out. -/
def printedAll (s : Setting) (vs : List Json) : Except Fault (List (Printed × List Command)) :=
  (vs.filter fun v => !v.isEmptyStatement).mapM (printed s)

/-- Contributions below each other, after the statement `before`. -/
def laidOut (before : Option Printed) : List (Printed × List Command) → List Command
  | [] => []
  | (here, commands) :: rest => margin before here ++ commands ++ laidOut (some here) rest

lemma laidOut_append (before : Option Printed) (units more : List (Printed × List Command)) :
    laidOut before (units ++ more) =
      laidOut before units ++ laidOut ((units.getLast?.map Prod.fst).or before) more := by
  induction units generalizing before with
  | nil => rfl
  | cons unit rest ih =>
      have hlast : ((unit :: rest).getLast?.map Prod.fst).or before =
          (rest.getLast?.map Prod.fst).or (some unit.1) := by
        cases hrest : rest.getLast? with
        | none => simp [List.getLast?_eq_none_iff.mp hrest]
        | some last => simp [List.getLast?_cons, hrest]
      rw [hlast]
      simp [laidOut, ih]

/-- **One round of the loop**: a statement that is not empty contributes what is printed of it, with
its margin in front, and leaves no comment waiting. -/
lemma bodyAfter_cons_run {node : Json} (before : Option Printed) {part : Json.Part node}
    (rest : List (Json.Part node)) (hempty : part.1.isEmptyStatement = false) :
    bodyAfter (partsOf node) before (part :: rest) s [] = printed s part.1 >>= fun unit =>
      (bodyAfter (partsOf node) (some unit.1) rest s []).map fun e =>
        { e with commands := margin before unit.1 ++ unit.2 ++ e.commands } := by
  rw [bodyAfter, read_bind_run]
  simp only [printed, bind_assoc]
  cases hkind : part.1.requireKind with
  | error fault => rfl
  | ok kind =>
      have htext : kind.isText "EmptyStatement" = false := by
        simpa [Json.isEmptyStatement, hkind] using hempty
      simp only [ok_bind, htext, Bool.false_eq_true, if_false, read_bind_run, fork_bind_run,
        emit_bind_run, drainAfterStatement_bind_run]
      refine bind_congr fun list => bind_congr fun comments => bind_congr fun held => ?_
      cases afterStatement false held.queue with
      | error fault => rfl
      | ok drained =>
          simp only [ok_bind, pure_bind]
          cases bodyAfter (partsOf node) (some ⟨kind.display, held.multiline⟩) rest s [] with
          | error fault => rfl
          | ok e => simp [Except.map]

/-- **The loop over statements**, seen without its state: every statement starts with no comment
waiting, and the last one before it decides about the space. -/
lemma bodyAfter_run {node : Json} (before : Option Printed) (parts : List (Json.Part node)) :
    bodyAfter (partsOf node) before parts s [] =
      (printedAll s (parts.map Subtype.val)).map fun units =>
        ⟨(), laidOut before units, false, []⟩ := by
  induction parts generalizing before with
  | nil => rfl
  | cons part rest ih =>
      cases hempty : part.1.isEmptyStatement with
      | true =>
          obtain ⟨kind, hkind, htext⟩ : ∃ kind, part.1.requireKind = .ok kind ∧
              kind.isText "EmptyStatement" = true := by
            unfold Json.isEmptyStatement at hempty
            cases hkind : part.1.requireKind with
            | error fault => simp [hkind] at hempty
            | ok kind => exact ⟨kind, rfl, by simpa [hkind] using hempty⟩
          rw [bodyAfter, read_bind hkind, if_pos htext, ih]
          simp [printedAll, hempty]
      | false =>
          rw [bodyAfter_cons_run before rest hempty]
          simp only [ih, printedAll, List.map_cons, List.filter_cons, hempty, Bool.not_false,
            if_true, List.mapM_cons]
          cases printed s part.1 with
          | error fault => rfl
          | ok unit =>
              simp only [ok_bind]
              cases ((rest.map Subtype.val).filter fun v => !v.isEmptyStatement).mapM (printed s) with
              | error fault => rfl
              | ok units => rfl

end Render

/-! ## Programs -/

/-- A program of statements. -/
def programOf (statements : List Json) : Json :=
  .obj [("type", .str "Program"), ("body", .arr statements), ("sourceType", .str "module")]

/-- **A program is its statements below each other.** -/
lemma renderWhole_programOf (s : Setting) (vs : List Json) :
    renderWhole (programOf vs) s [] = (Render.printedAll s vs).map fun units =>
      ⟨(), Render.laidOut none units, false, []⟩ := by
  have htree : Render.tree .value (programOf vs) =
      Rules.program (programOf vs) (Render.partsOf (programOf vs)) :=
    Render.tree_of_isPlain "Program" ⟨rfl, rfl⟩ rfl rfl
  obtain ⟨parts, hparts, hvalues⟩ : ∃ parts : List (Json.Part (programOf vs)),
      (do Json.parts (← (programOf vs).require "body")) = .ok parts ∧
        parts.map Subtype.val = vs := by
    exact ⟨_, rfl, by simp [Function.comp_def]⟩
  have hprogram : Rules.program (programOf vs) (Render.partsOf (programOf vs)) =
      Render.body (Render.partsOf (programOf vs)) parts := by
    obtain ⟨part, hpart, hparts⟩ := bind_eq_ok_iff.mp hparts
    rw [Rules.program, Render.read_bind hpart, Render.read_bind hparts]
  have hbody := Render.bodyAfter_run (s := s) none parts
  rw [hvalues] at hbody
  cases hunits : Render.printedAll s vs with
  | error fault =>
      rw [hunits] at hbody
      have hfault : Render.tree .value (programOf vs) s [] = .error fault := by
        rw [htree, hprogram]
        exact hbody
      exact Render.bind_eq_of_error hfault _
  | ok units =>
      rw [hunits] at hbody
      refine Render.bind_eq_ok_iff.mpr ⟨_, by rw [htree, hprogram]; exact hbody,
        ⟨(), [], false, []⟩, rfl, ?_⟩
      simp [Emission.andThen]

/-- What is printed of a list depends on what its statements contribute. -/
lemma printTree_congr {o : Options} {vs ws : List Json}
    (h : Render.printedAll o.setting vs = Render.printedAll o.setting ws) :
    printTree o (.arr vs) = printTree o (.arr ws) := by
  have hcommands : commandsOf o (programOf vs) = commandsOf o (programOf ws) := by
    rw [commandsOf_eq, commandsOf_eq, renderWhole_programOf, renderWhole_programOf, h]
  have hprint (vs : List Json) : printTree o (.arr vs) = (do
      let commands ← commandsOf o (programOf vs)
      let written ← linearize commands o.indent
      let map ← mapOf o written.2
      pure { code := written.1, map }) := rfl
  rw [hprint, hprint, hcommands]

/-- A list is written down by writing down what its statements contribute. -/
lemma writeTree_eq_ok_iff {o : Options} {vs : List Json} {result : String × List (List Mark)} :
    writeTree o (.arr vs) = .ok result ↔ ∃ units, Render.printedAll o.setting vs = .ok units ∧
      linearize (Render.laidOut none units) o.indent = .ok result := by
  have hwrite : writeTree o (.arr vs) =
      commandsOf o (programOf vs) >>= fun commands => linearize commands o.indent := rfl
  rw [hwrite]
  have hrender := renderWhole_programOf o.setting vs
  cases hunits : Render.printedAll o.setting vs with
  | error fault =>
      rw [commandsOf_eq, hrender, hunits]
      simp [Except.map]
  | ok units =>
      rw [hunits] at hrender
      rw [commandsOf_of_render hrender]
      simp

lemma printTree_eq_ok_iff {o : Options} {tree : Json} {out : Output} :
    printTree o tree = .ok out ↔
      ∃ marks, writeTree o tree = .ok (out.code, marks) ∧ mapOf o marks = .ok out.map := by
  rw [printTree_eq]
  constructor
  · intro h
    obtain ⟨⟨code, marks⟩, hwrite, h⟩ := bind_eq_ok_iff.mp h
    obtain ⟨map, hmap, h⟩ := bind_eq_ok_iff.mp h
    obtain rfl : _ = out := Except.ok.inj h
    exact ⟨marks, hwrite, hmap⟩
  · rintro ⟨marks, hwrite, hmap⟩
    simp [hwrite, hmap]

/-- The stages of a print that succeeds. -/
lemma stages_of_print {o : Options} {tree : Json} {out : Output}
    (h : printTree o tree = .ok out) :
    ∃ root commands marks, asProgram tree = .ok root ∧ commandsOf o root = .ok commands ∧
      linearize commands o.indent = .ok (out.code, marks) := by
  obtain ⟨marks, hwrite, -⟩ := printTree_eq_ok_iff.mp h
  obtain ⟨root, hroot, hwrite⟩ := bind_eq_ok_iff.mp hwrite
  obtain ⟨commands, hcommands, hlinear⟩ := bind_eq_ok_iff.mp hwrite
  exact ⟨root, commands, marks, ofFault_eq_ok_iff.mp hroot, hcommands, hlinear⟩

/-- Maps can be written down one behind the other. -/
lemma mapOf_append {o : Options} {marks more : List (List Mark)} {map map' : SourceMap}
    (h : mapOf o marks = .ok map) (h' : mapOf o more = .ok map') :
    ∃ both, mapOf o (marks ++ more) = .ok both := by
  cases hencode : o.encode with
  | false => exact ⟨_, by simp only [mapOf, hencode, Bool.false_eq_true, if_false]; rfl⟩
  | true =>
      have hlines {marks : List (List Mark)} {map : SourceMap} (h : mapOf o marks = .ok map) :
          ∃ lines, Segment.linesOfJson (marksToJson marks) = .ok lines := by
        simp only [mapOf, hencode, if_true] at h
        obtain ⟨lines, hlines, -⟩ := bind_eq_ok_iff.mp h
        exact ⟨lines, ofFault_eq_ok_iff.mp hlines⟩
      obtain ⟨first, hfirst⟩ := hlines h
      obtain ⟨second, hsecond⟩ := hlines h'
      have hboth : Segment.linesOfJson (marksToJson (marks ++ more)) = .ok (first ++ second) := by
        have hlist (lines : List (List Mark)) : Segment.linesOfJson (marksToJson lines) =
            (lines.map fun line => Json.arr (line.map Mark.toJson)).mapM fun line =>
              (orMalformed line.elements? >>= fun segments => segments.mapM Segment.ofJson) := rfl
        rw [hlist] at hfirst hsecond ⊢
        rw [List.map_append, List.mapM_append, hfirst, hsecond]
        rfl
      exact ⟨_, by simp only [mapOf, hencode, if_true, hboth]; rfl⟩

/-! ## Statements next to each other -/

/-- A node that is rendered has the name of a kind. -/
lemma Render.requireKind_of_tree {role : Role} {node : Json} {s : Setting} {q : List Json}
    {e : Emission Unit} (h : tree role node s q = .ok e) :
    ∃ name, node.requireKind = .ok (.str name) := by
  rw [tree_eq] at h
  obtain ⟨kind, hkind, h⟩ := read_bind_eq_ok_iff.mp h
  obtain ⟨rule, hrule, h⟩ := read_bind_eq_ok_iff.mp h
  cases rule with
  | none =>
      -- a node without a rule is reported, and nothing is rendered
      obtain ⟨span, -, h⟩ := read_bind_eq_ok_iff.mp h
      obtain ⟨_, hthrow, -⟩ := read_eq_ok_iff.mp h
      obtain ⟨report, -, hthrow⟩ := EstreePrinter.bind_eq_ok_iff.mp hthrow
      cases hthrow
  | some rule =>
      obtain ⟨name, rfl, -⟩ := Rules.lookup_of_find hrule
      refine ⟨name, ?_⟩
      unfold Json.kind Json.getValue Json.get at hkind
      unfold Json.requireKind Json.require
      split at hkind
      · rename_i hobject
        rw [if_pos hobject]
        cases hfield : node.field? "type" with
        | none => simp [hfield] at hkind
        | some part => simpa [hfield] using hkind
      · simp at hkind

lemma mapM_getLast? {ε α β : Type} {f : α → Except ε β} {list : List α} {results : List β}
    (h : list.mapM f = .ok results) {a : α} (ha : list.getLast? = some a) :
    ∃ b, f a = .ok b ∧ results.getLast? = some b := by
  obtain ⟨start, rfl⟩ := List.getLast?_eq_some_iff.mp ha
  rw [List.mapM_append] at h
  obtain ⟨first, -, h⟩ := bind_eq_ok_iff.mp h
  obtain ⟨last, hlast, h⟩ := bind_eq_ok_iff.mp h
  obtain rfl : _ = results := Except.ok.inj h
  rw [List.mapM_cons] at hlast
  obtain ⟨b, hb, hlast⟩ := bind_eq_ok_iff.mp hlast
  obtain rfl : [b] = last := Except.ok.inj hlast
  exact ⟨b, hb, by simp⟩

lemma mapM_head? {ε α β : Type} {f : α → Except ε β} {list : List α} {results : List β}
    (h : list.mapM f = .ok results) {a : α} (ha : list.head? = some a) :
    ∃ b, f a = .ok b ∧ results.head? = some b := by
  obtain ⟨rest, rfl⟩ := List.head?_eq_some_iff.mp ha
  rw [List.mapM_cons] at h
  obtain ⟨b, hb, h⟩ := bind_eq_ok_iff.mp h
  obtain ⟨others, -, h⟩ := bind_eq_ok_iff.mp h
  obtain rfl : b :: others = results := Except.ok.inj h
  exact ⟨b, hb, rfl⟩

/-- What goes between two statements. -/
lemma leavesAll_margin (before after : Render.Printed) :
    Command.leavesAll (Render.margin (some before) after) =
      if Render.separates before after then [.text "\n", .newline] else [.newline] := by
  by_cases h : Render.separates before after = true
  · simp [Render.margin, Command.leaves, h]
  · simp [Render.margin, Command.leaves, h]

/-- The statement before a list only shows in front of it. -/
lemma Render.laidOut_some {before : Printed} {units : List (Printed × List Command)}
    {first : Printed × List Command} (h : units.head? = some first) :
    laidOut (some before) units = margin (some before) first.1 ++ laidOut none units := by
  obtain ⟨rest, rfl⟩ := List.head?_eq_some_iff.mp h
  simp [laidOut, margin]

/-- Two statements are kept apart by a blank line if one of them needs several lines, or if they are
of different kinds and one of the kinds stands in groups. -/
lemma Render.separates_iff {before after : Printed} :
    separates before after = true ↔ before.multiline = true ∨ after.multiline = true ∨
      before.kind ≠ after.kind ∧ (before.kind ∈ groupedKinds ∨ after.kind ∈ groupedKinds) := by
  simp only [separates, Bool.or_eq_true, Bool.and_eq_true, bne_iff_ne, List.contains_iff_mem]
  tauto

/-- What a statement contributes is known from its kind and from its rendering. -/
lemma Render.printed_eq_ok {s : Setting} {v : Json} {unit : Printed × List Command}
    (h : printed s v = .ok unit) : ∃ name held, v.requireKind = .ok (.str name) ∧
      tree .bare v s [] = .ok held ∧ unit.1 = ⟨name, held.multiline⟩ := by
  obtain ⟨kind, hkind, h⟩ := EstreePrinter.bind_eq_ok_iff.mp h
  obtain ⟨list, -, h⟩ := EstreePrinter.bind_eq_ok_iff.mp h
  obtain ⟨comments, -, h⟩ := EstreePrinter.bind_eq_ok_iff.mp h
  obtain ⟨held, hheld, h⟩ := EstreePrinter.bind_eq_ok_iff.mp h
  obtain ⟨drained, -, h⟩ := EstreePrinter.bind_eq_ok_iff.mp h
  obtain rfl : _ = unit := Except.ok.inj h
  obtain ⟨name, hname⟩ := requireKind_of_tree hheld
  obtain rfl : Json.str name = kind := Except.ok.inj (hname.symm.trans hkind)
  exact ⟨name, held, hname, hheld, rfl⟩

lemma Render.printedAll_of_empty {s : Setting} {es : List Json}
    (h : ∀ v ∈ es, v.isEmptyStatement = true) (vs : List Json) :
    printedAll s (es ++ vs) = printedAll s vs ∧ printedAll s (vs ++ es) = printedAll s vs := by
  have hfilter : es.filter (fun v => !v.isEmptyStatement) = [] :=
    List.filter_eq_nil_iff.mpr fun v hv => by simp [h v hv]
  simp [printedAll, List.filter_append, hfilter]

/-- No statements print as nothing. -/
lemma printTree_nil (o : Options) : ∃ out, printTree o (.arr []) = .ok out ∧ out.code = "" := by
  have hwrite : writeTree o (.arr []) = .ok ("", [[]]) := by
    have hrun : ({ indent := o.indent } : Linearizer).runLeaves
        (Command.leavesAll (Render.laidOut none [])) = ({ indent := o.indent }, none) := by
      simp [Render.laidOut, Linearizer.runLeaves]
    exact writeTree_eq_ok_iff.mpr ⟨[], rfl, linearize_eq_ok_iff.mpr ⟨_, hrun, rfl, rfl, rfl⟩⟩
  have hblank : ∀ line ∈ ([[]] : List (List Mark)), ∀ m ∈ line, m.IsWhole := by simp
  obtain ⟨map, hmap⟩ := exists_mapOf o hblank
  exact ⟨⟨"", map⟩, printTree_eq_ok_iff.mpr ⟨_, hwrite, hmap⟩, rfl⟩

/-- **Programs are printed statement by statement.**  Two lists of statements that can be printed,
each with a statement that is not empty, can be printed as one list.  The code of both is written
with one line feed between them, or with two: if the last statement of the first list or the first
one of the second needs several lines by itself, or if the two are of different kinds and one of the
kinds stands in groups.  The marks follow each other line by line, with an empty line between them
where there are two line feeds.  Lists of empty statements print as nothing and make no difference
before or behind other statements. -/
theorem print_append :
    (∀ (o : Options) (xs ys : List Json) (outx outy : Output) (p q : Json),
      printTree o (.arr xs) = .ok outx → printTree o (.arr ys) = .ok outy →
      (xs.filter fun v => !v.isEmptyStatement).getLast? = some p →
      (ys.filter fun v => !v.isEmptyStatement).head? = some q →
      ∃ (kindp kindq : String) (heldp heldq : Emission Unit) (blank : Bool),
        p.requireKind = .ok (.str kindp) ∧ q.requireKind = .ok (.str kindq) ∧
        Render.tree .bare p o.setting [] = .ok heldp ∧
        Render.tree .bare q o.setting [] = .ok heldq ∧
        (blank = true ↔ heldp.multiline = true ∨ heldq.multiline = true ∨
          kindp ≠ kindq ∧ (kindp ∈ Render.groupedKinds ∨ kindq ∈ Render.groupedKinds)) ∧
        ∃ out marksx marksy,
          printTree o (.arr (xs ++ ys)) = .ok out ∧
          out.code = outx.code ++ (if blank then "\n\n" else "\n") ++ outy.code ∧
          writeTree o (.arr xs) = .ok (outx.code, marksx) ∧
          writeTree o (.arr ys) = .ok (outy.code, marksy) ∧
          writeTree o (.arr (xs ++ ys)) =
            .ok (out.code, marksx ++ (if blank then [[]] else []) ++ marksy) ∧
          mapOf o marksx = .ok outx.map ∧ mapOf o marksy = .ok outy.map ∧
          mapOf o (marksx ++ (if blank then [[]] else []) ++ marksy) = .ok out.map) ∧
    (∀ (o : Options) (es : List Json), (∀ v ∈ es, v.isEmptyStatement = true) →
      (∃ out, printTree o (.arr es) = .ok out ∧ out.code = "") ∧
      ∀ ys, printTree o (.arr (es ++ ys)) = printTree o (.arr ys) ∧
        printTree o (.arr (ys ++ es)) = printTree o (.arr ys)) := by
  refine ⟨?_, ?_⟩
  · intro o xs ys outx outy p q hx hy hp hq
    obtain ⟨marksx, hwritex, hmapx⟩ := printTree_eq_ok_iff.mp hx
    obtain ⟨marksy, hwritey, hmapy⟩ := printTree_eq_ok_iff.mp hy
    obtain ⟨unitsx, hunitsx, hlinearx⟩ := writeTree_eq_ok_iff.mp hwritex
    obtain ⟨unitsy, hunitsy, hlineary⟩ := writeTree_eq_ok_iff.mp hwritey
    obtain ⟨unitp, hunitp, hlast⟩ := mapM_getLast? hunitsx hp
    obtain ⟨unitq, hunitq, hfirst⟩ := mapM_head? hunitsy hq
    obtain ⟨kindp, heldp, hkindp, hheldp, hp⟩ := Render.printed_eq_ok hunitp
    obtain ⟨kindq, heldq, hkindq, hheldq, hq⟩ := Render.printed_eq_ok hunitq
    -- what the two lists contribute, one behind the other
    have hunits : Render.printedAll o.setting (xs ++ ys) = .ok (unitsx ++ unitsy) := by
      rw [Render.printedAll] at hunitsx hunitsy ⊢
      rw [List.filter_append, List.mapM_append, hunitsx, hunitsy]
      rfl
    have hlaidOut : Render.laidOut none (unitsx ++ unitsy) = Render.laidOut none unitsx ++
        Render.margin (some unitp.1) unitq.1 ++ Render.laidOut none unitsy := by
      rw [Render.laidOut_append, hlast]
      simp [Render.laidOut_some hfirst]
    have hwrite := writeTree_eq_ok_iff.mpr ⟨_, hunits, hlaidOut ▸ linearize_lineFeeds
      o.indent_ne_empty _ (leavesAll_margin unitp.1 unitq.1) hlinearx hlineary⟩
    obtain ⟨gap, hgap⟩ : ∃ map, mapOf o (if Render.separates unitp.1 unitq.1 then [[]] else []) =
        .ok map := exists_mapOf o (by split <;> simp)
    obtain ⟨mapgap, hmapgap⟩ := mapOf_append hmapx hgap
    obtain ⟨map, hmap⟩ := mapOf_append hmapgap hmapy
    refine ⟨kindp, kindq, heldp, heldq, Render.separates unitp.1 unitq.1, hkindp, hkindq, hheldp,
      hheldq, ?_, ⟨_, map⟩, marksx, marksy, printTree_eq_ok_iff.mpr ⟨_, hwrite, hmap⟩, rfl, hwritex,
      hwritey, hwrite, hmapx, hmapy, hmap⟩
    rw [Render.separates_iff, hp, hq]
  · intro o es hes
    have hneutral (ys : List Json) := Render.printedAll_of_empty (s := o.setting) hes ys
    refine ⟨?_, fun ys => ⟨printTree_congr (hneutral ys).1, printTree_congr (hneutral ys).2⟩⟩
    have hnone : printTree o (.arr es) = printTree o (.arr []) :=
      printTree_congr (by simpa using (hneutral []).1)
    rw [hnone]
    exact printTree_nil o

/-- A declaration that declares nothing. -/
def bareDeclaration : Json :=
  .obj [("type", .str "VariableDeclaration"), ("kind", .str "let"), ("declarations", .arr [])]

/-- An empty statement. -/
def emptyStatement : Json := .obj [("type", .str "EmptyStatement")]

/-- A statement with a comment behind it, an empty one, and a declaration of another kind. -/
theorem print_append_noted :
    ∃ outx outy out, printTree {} (.arr [notedStatement, emptyStatement]) = .ok outx ∧
      printTree {} (.arr [bareDeclaration]) = .ok outy ∧
      printTree {} (.arr [notedStatement, emptyStatement, bareDeclaration]) = .ok out ∧
      outx.code = "debugger; //x" ∧ outy.code = "let ;" ∧
      out.code = "debugger; //x\n\nlet ;" ∧
      printTree {} (.arr [emptyStatement, bareDeclaration]) = .ok outy := by
  have hnoted (s : Setting) : Render.printed s notedStatement = .ok (⟨"DebuggerStatement", false⟩,
      [.chunk "debugger" none, .text ";", .text " ",
        .comment (.obj [("type", .str "Line"), ("value", .str "x")]) .none]) := by
    have htree : Render.tree .bare notedStatement s [] =
        .ok ⟨(), [.chunk "debugger" none, .text ";"], false,
          [.obj [("type", .str "Line"), ("value", .str "x")]]⟩ := by
      rw [Render.tree_eq]
      rfl
    rw [Render.printed, htree]
    rfl
  have hbare (s : Setting) : Render.printed s bareDeclaration = .ok (⟨"VariableDeclaration", false⟩,
      [.text "let ", .deferred "declarations-open" [], .text ";"]) := by
    have htree : Render.tree .bare bareDeclaration s [] =
        .ok ⟨(), [.text "let ", .deferred "declarations-open" [], .text ";"], false, []⟩ := by
      rw [Render.tree_eq]
      rfl
    rw [Render.printed, htree]
    rfl
  -- a list with one statement that is not empty is written as that statement
  have hone {v : Json} {vs : List Json} {unit : Render.Printed × List Command} {code : String}
      (hfilter : vs.filter (fun v => !v.isEmptyStatement) = [v])
      (hunit : ∀ s, Render.printed s v = .ok unit)
      (hlinear : linearize unit.2 "\t" = .ok (code, [[]])) :
      writeTree {} (.arr vs) = .ok (code, [[]]) := by
    refine writeTree_eq_ok_iff.mpr ⟨[unit], ?_, ?_⟩
    · simp [Render.printedAll, hfilter, hunit]
    · simpa [Render.laidOut, Render.margin] using hlinear
  have hwritex : writeTree {} (.arr [notedStatement, emptyStatement]) =
      .ok ("debugger; //x", [[]]) := by
    refine hone rfl hnoted ?_
    rw [linearize, Linearizer.run_eq]
    simp only [Command.leavesAll_cons, Command.leavesAll_nil, Command.leaves, List.cons_append,
      List.nil_append]
    rfl
  have hwritey : writeTree {} (.arr [bareDeclaration]) = .ok ("let ;", [[]]) := by
    refine hone rfl hbare ?_
    rw [linearize, Linearizer.run_eq]
    simp only [Command.leavesAll_cons, Command.leavesAll_nil, Command.leaves, List.cons_append,
      List.nil_append]
    rfl
  have hblank : ∀ line ∈ ([[]] : List (List Mark)), ∀ m ∈ line, m.IsWhole := by simp
  obtain ⟨map, hmap⟩ := exists_mapOf {} hblank
  have hx : printTree {} (.arr [notedStatement, emptyStatement]) = .ok ⟨"debugger; //x", map⟩ :=
    printTree_eq_ok_iff.mpr ⟨_, hwritex, hmap⟩
  have hy : printTree {} (.arr [bareDeclaration]) = .ok ⟨"let ;", map⟩ :=
    printTree_eq_ok_iff.mpr ⟨_, hwritey, hmap⟩
  obtain ⟨happend, hneutral⟩ := print_append
  obtain ⟨kindp, kindq, heldp, heldq, blank, hkindp, hkindq, -, -, hiff, out, marksx, marksy, hout,
    hcode, -⟩ := happend {} _ _ _ _ notedStatement bareDeclaration hx hy rfl rfl
  obtain rfl : "DebuggerStatement" = kindp := Json.str.inj (Except.ok.inj hkindp)
  obtain rfl : "VariableDeclaration" = kindq := Json.str.inj (Except.ok.inj hkindq)
  have hapart : blank = true := hiff.mpr (Or.inr (Or.inr ⟨by decide, Or.inr (by decide)⟩))
  have hempty : ∀ v ∈ [emptyStatement], v.isEmptyStatement = true := by
    simp only [List.forall_mem_singleton]
    rfl
  refine ⟨_, _, out, hx, hy, hout, rfl, rfl, ?_, ?_⟩
  · rw [hcode, hapart]
    rfl
  · exact (((hneutral {} [emptyStatement] hempty).2 [bareDeclaration]).1).trans hy

end EstreePrinter
