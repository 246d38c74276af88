import Mathlib
import EstreePrinter.Proofs.Printer.Finished
import EstreePrinter.Proofs.Render.Ink

/-!
# Width and indentation move nothing but blanks

Two prints of a tree under options that differ in width and indentation differ in blanks and line
feeds only, and their maps go through the same places of the source in the same order.  The width
is dealt with by `Render.blind`; the indentation is blank, so it leaves no ink (`inked_written`).

* `writeTree` — a print before its map is written down, with the raw marks of each line;
* **`print_ink`** — the statement for whole prints.
-/

namespace EstreePrinter

/-! ## Ink of written text -/

lemma Options.blankIndent (o : Options) : BlankIndent o.indent := by
  intro c hc
  have h := List.all_eq_true.mp o.indent_blank c hc
  simp only [isIndentation, Bool.or_eq_true, beq_iff_eq] at h
  rcases h with rfl | rfl
  · rfl
  · rfl

lemma inked_lineBreakAt {indent : String} (h : BlankIndent indent) (depth : Nat) :
    inked (lineBreakAt indent depth) = [] :=
  List.filter_eq_nil_iff.mpr fun c hc => by simp [lineBreakAt_blank h depth c hc]

/-- The lines of a comment are indented, which leaves no ink. -/
lemma inked_commentAt {indent : String} (h : BlankIndent indent) (depth : Nat) (comment : Json) :
    inked (commentAt indent depth comment) = inked (commentAt "" 0 comment) := by
  have hbody (text : List Char) (indent : String) (h : BlankIndent indent) (depth : Nat) :
      inked (text.flatMap fun c => if c = '\n' then lineBreakAt indent depth else [c]) =
        inked text := by
    induction text with
    | nil => rfl
    | cons c rest ih =>
        rw [List.flatMap_cons, inked_append, ih]
        by_cases hc : c = '\n'
        · subst hc
          rw [if_pos rfl, inked_lineBreakAt h]
          rfl
        · rw [if_neg hc]
          exact (inked_append [c] rest).symm
  have hnone : BlankIndent "" := by simp [BlankIndent]
  unfold commentAt
  split
  · rfl
  · simp only [inked_append, hbody _ _ h, hbody _ _ hnone]
  · rfl

lemma inked_textAt {indent : String} (h : BlankIndent indent) (depth : Nat) (c : Command) :
    inked (c.textAt indent depth) = c.ink.filterMap Sum.getLeft? := by
  have hletters (text : List Char) :
      (text.map (Sum.inl : Char → Char ⊕ Position)).filterMap Sum.getLeft? = text := by
    rw [List.filterMap_map]
    exact List.filterMap_some
  cases c with
  | text s => simp only [Command.textAt, Command.ink, hletters]
  | chunk s span =>
      cases span with
      | none => simp only [Command.textAt, Command.ink, hletters]
      | some span =>
          simp only [Command.textAt, Command.ink, List.cons_append, List.filterMap_cons,
            Sum.getLeft?_inr, List.filterMap_append, hletters, List.filterMap_nil, List.append_nil]
  | newline => simp [Command.textAt, Command.ink, inked_lineBreakAt h]
  | comment c after =>
      have hafter : inked (breakAt indent depth after) = [] := by
        cases after with
        | none => rfl
        | space => rfl
        | newline => exact inked_lineBreakAt h depth
      simp only [Command.textAt, Command.ink, inked_append, hafter, hletters, List.append_nil,
        inked_commentAt h]
  | _ => rfl

/-- **The ink of a written text** is the ink of what was written. -/
lemma inked_written {indent : String} (h : BlankIndent indent) (depth : Nat)
    (leaves : List Command) :
    inked (written indent depth leaves) =
      (leaves.flatMap Command.ink).filterMap Sum.getLeft? := by
  induction leaves generalizing depth with
  | nil => rfl
  | cons c rest ih => simp [written, ih, inked_textAt h]

/-- **The places of a written text**, in the order of the output. -/
lemma places_endsOf (indent : String) (before : List Char) (depth : Nat) (leaves : List Command) :
    (endsOf indent before depth leaves).map ChunkEnd.place =
      (leaves.flatMap Command.ink).filterMap Sum.getRight? := by
  have hletters (text : List Char) :
      (text.map (Sum.inl : Char → Char ⊕ Position)).filterMap Sum.getRight? = [] := by
    rw [List.filterMap_map]
    exact List.filterMap_eq_nil_iff.mpr fun _ _ => rfl
  have hone (before : List Char) (c : Command) :
      (c.ends before).map ChunkEnd.place = c.ink.filterMap Sum.getRight? := by
    cases c with
    | text s => simp only [Command.ends, Command.ink, hletters, List.map_nil]
    | chunk s span =>
        cases span with
        | none => simp only [Command.ends, Command.ink, hletters, List.map_nil]
        | some span => simp [Command.ends, Command.ink, hletters]
    | comment c after => simp only [Command.ends, Command.ink, hletters, List.map_nil]
    | _ => rfl
  induction leaves generalizing before depth with
  | nil => rfl
  | cons c rest ih => simp [endsOf, ih, hone]

/-! ## Prints -/

/-- A print before its map is written down: the code and the marks of each line. -/
def writeTree (options : Options) (tree : Json) : Except Error (String × List (List Mark)) := do
  let root ← asProgram tree
  let commands ← commandsOf options root
  linearize commands options.indent

lemma printTree_eq (options : Options) (tree : Json) :
    printTree options tree = (do
      let (code, marks) ← writeTree options tree
      let map ← mapOf options marks
      pure { code, map }) := by
  simp only [printTree, writeTree, bind_assoc]

/-- The places of the source that marks map to, in the order of the output over all lines. -/
def sourcePlaces (lines : List (List Mark)) : List (Json × Json) :=
  lines.flatten.map fun m => (m.line, m.sourceColumn)

/-- What is written of commands depends on their ink alone, but for blanks. -/
lemma linearize_ink {commands : List Command} {indent : String} (h : BlankIndent indent)
    {code : String} {marks : List (List Mark)}
    (hwritten : linearize commands indent = .ok (code, marks)) :
    inked code.toList = (trace commands).filterMap Sum.getLeft? ∧
      sourcePlaces marks = ((trace commands).filterMap Sum.getRight?).map fun p =>
        (fromZero p.line, p.column) := by
  obtain ⟨hcode, -, hmarks⟩ := linearize_eq_ok hwritten
  refine ⟨?_, ?_⟩
  · rw [hcode, inked_written h]
    rfl
  · rw [sourcePlaces, ← numbered_map_snd, hmarks, trace, ← places_endsOf indent [] 0, List.map_map,
      List.map_map, List.map_map]
    rfl

/-- Two renderings of a tree under options that agree but for width and indentation. -/
lemma trace_commandsOf {o o' : Options} (hquotes : o.quotes = o'.quotes) {root : Json}
    {commands commands' : List Command} (h : commandsOf o root = .ok commands)
    (h' : commandsOf o' root = .ok commands') : trace commands = trace commands' := by
  obtain ⟨e, he, rfl⟩ := exists_render_of_commandsOf h
  obtain ⟨e', he', rfl⟩ := exists_render_of_commandsOf h'
  have hblind : Render.Blind (renderWhole root) :=
    Render.blind_bind (Render.blind.tree .value root) fun _ => Render.blind_drainAfterStatement
  have hsetting : o.setting.Alike o'.setting := ⟨by simp [Options.setting, hquotes], rfl⟩
  exact (hblind _ _ _ _ _ hsetting he he').ink

/-- **Layout only ever adds or removes blanks.**  If a tree can be printed under two options that
agree on the quotes, whatever their widths and indentations, the two texts are the same without
their blanks, tabs and line feeds, and the raw marks behind the two maps go through the same places
of the source, in order. -/
theorem print_ink (o o' : Options) (hquotes : o.quotes = o'.quotes) (tree : Json)
    (out out' : Output) (h : printTree o tree = .ok out) (h' : printTree o' tree = .ok out') :
    inked out.code.toList = inked out'.code.toList ∧
      ∃ marks marks', writeTree o tree = .ok (out.code, marks) ∧ mapOf o marks = .ok out.map ∧
        writeTree o' tree = .ok (out'.code, marks') ∧ mapOf o' marks' = .ok out'.map ∧
        sourcePlaces marks = sourcePlaces marks' := by
  have hsplit {o : Options} {out : Output} (h : printTree o tree = .ok out) : ∃ root commands marks,
      Error.ofFault (asProgram tree) = .ok root ∧ commandsOf o root = .ok commands ∧
        linearize commands o.indent = .ok (out.code, marks) ∧
        writeTree o tree = .ok (out.code, marks) ∧ mapOf o marks = .ok out.map := by
    rw [printTree_eq] at h
    obtain ⟨⟨code, marks⟩, hwrite, h⟩ := bind_eq_ok_iff.mp h
    obtain ⟨map, hmap, h⟩ := bind_eq_ok_iff.mp h
    obtain rfl : _ = out := Except.ok.inj h
    obtain ⟨root, hroot, hrest⟩ := bind_eq_ok_iff.mp hwrite
    obtain ⟨commands, hcommands, hlinear⟩ := bind_eq_ok_iff.mp hrest
    exact ⟨root, commands, marks, hroot, hcommands, hlinear, hwrite, hmap⟩
  obtain ⟨root, commands, marks, hroot, hcommands, hlinear, hwrite, hmap⟩ := hsplit h
  obtain ⟨root', commands', marks', hroot', hcommands', hlinear', hwrite', hmap'⟩ := hsplit h'
  obtain rfl : root = root' := Except.ok.inj (hroot.symm.trans hroot')
  have htrace := trace_commandsOf hquotes hcommands hcommands'
  obtain ⟨hcode, hplaces⟩ := linearize_ink o.blankIndent hlinear
  obtain ⟨hcode', hplaces'⟩ := linearize_ink o'.blankIndent hlinear'
  rw [← htrace] at hcode' hplaces'
  exact ⟨hcode.trans hcode'.symm, marks, marks', hwrite, hmap, hwrite', hmap',
    hplaces.trans hplaces'.symm⟩

/-! ## An array under two widths -/

/-- The name `a` at the start of the second line. -/
def placedName : Json :=
  .obj [("type", .str "Identifier"), ("name", .str "a"),
    ("loc", .obj [("start", .obj [("line", .int 2), ("column", .int 0)]),
      ("end", .obj [("line", .int 2), ("column", .int 1)])])]

/-- An array of a name behind a hole. -/
def holedArray : Json :=
  .obj [("type", .str "ArrayExpression"), ("elements", .arr [.null, placedName])]

lemma tree_placedName (s : Setting) : Render.tree .value placedName s [] =
    .ok ⟨(), [.chunk "a" (some ⟨⟨.int 2, .int 0⟩, ⟨.int 2, .int 1⟩⟩)], false, []⟩ := by
  rw [Render.tree_of_isPlain "Identifier" ⟨rfl, rfl⟩ rfl rfl]
  rfl

/-- The commands of the array, broken or not. -/
def holedCommands (broken : Bool) : List Command :=
  .text "[" :: Render.decided false broken [.own (.text ","), .join,
    .own (.chunk "a" (some ⟨⟨.int 2, .int 0⟩, ⟨.int 2, .int 1⟩⟩))] ++ [.text "]"]

lemma tree_holedArray (s : Setting) : Render.tree .value holedArray s [] =
    .ok ⟨(), holedCommands (decide (s.width < 8)), decide (s.width < 8), []⟩ := by
  have hinside : (Json.arr [.null, placedName]).Inside holedArray :=
    (Json.Child.field (List.mem_cons_of_mem _ List.mem_cons_self)).inside
  have hname : placedName.Inside holedArray :=
    (Json.Child.element (by simp)).inside.trans hinside
  have hread : holedArray.require "elements" = .ok ⟨.arr [.null, placedName], hinside⟩ := rfl
  have hlist : Json.itemsOf (⟨.arr [.null, placedName], hinside⟩ : Json.Part holedArray) =
      .ok [none, some ⟨placedName, hname⟩] := rfl
  have hplain : holedArray.given "typeAnnotation" = .ok none := rfl
  have hitems : Render.items "," (Render.partsOf holedArray).value false
      [none, some ⟨placedName, hname⟩] s [] = .ok ⟨([.own (.text ","), .join,
        .own (.chunk "a" (some ⟨⟨.int 2, .int 0⟩, ⟨.int 2, .int 1⟩⟩))], false), [], false, []⟩ := by
    refine Render.items_hole_eq_ok_iff.mpr ⟨_, Render.items_some_eq_ok_iff.mpr
      ⟨_, tree_placedName s, ⟨([], false), [], false, []⟩, rfl, rfl⟩, rfl⟩
  have hsequence : Render.sequence false "," (Render.partsOf holedArray).value
      [none, some ⟨placedName, hname⟩] s [] = _ :=
    (Render.sequence_eq_ok_iff (by simp)).mpr ⟨_, hitems, decide (s.width < 8), rfl, rfl⟩
  rw [Render.tree_of_isPlain "ArrayExpression" ⟨rfl, rfl⟩ rfl rfl]
  simp only [Rules.array, Rules.list, Rules.ascription, Render.read_bind hread,
    Render.read_bind hlist, Render.read_bind hplain, Render.bind_eq_ok_iff]
  exact ⟨_, rfl, _, ⟨_, hsequence, _, ⟨_, rfl, _, rfl, rfl⟩, rfl⟩,
    by simp [Emission.andThen, holedCommands]⟩

/-- The array is printed, whatever the width. -/
lemma printTree_holedArray (o : Options) (hencode : o.encode = false) :
    ∃ out, printTree o holedArray = .ok out ∧ out.code.toList =
      written o.indent 0 (Command.leavesAll (holedCommands (decide (o.setting.width < 8)))) := by
  have hcommands : commandsOf o holedArray =
      .ok (holedCommands (decide (o.setting.width < 8))) := by
    have hwhole : renderWhole holedArray o.setting [] = .ok ⟨(), _, _, []⟩ :=
      Render.bind_eq_ok_iff.mpr ⟨_, tree_holedArray o.setting, ⟨(), [], false, []⟩, rfl, rfl⟩
    simpa using commandsOf_of_render hwhole
  have hwritable (broken : Bool) :
      ∀ c ∈ Command.leavesAll (holedCommands broken), c.IsWritable := by
    cases broken <;> simp [holedCommands, Render.decided, Render.assemble, Slot.fill,
      Command.leaves, Command.IsWritable]
  have hbalanced (broken : Bool) :
      Command.Balanced (Command.leavesAll (holedCommands broken)) := by
    rw [Command.balanced_iff_levels]
    cases broken <;> rfl
  obtain ⟨⟨code, marks⟩, hlinear⟩ | ⟨e, he⟩ := linearize_of_isWritable o.indent
    (hwritable (decide (o.setting.width < 8)))
  · have hroot : asProgram holedArray = .ok holedArray := rfl
    have hwrite : writeTree o holedArray = .ok (code, marks) :=
      bind_eq_ok_iff.mpr ⟨holedArray, ofFault_eq_ok_iff.mpr hroot,
        bind_eq_ok_iff.mpr ⟨_, hcommands, hlinear⟩⟩
    have hmap : ∃ map, mapOf o marks = .ok map := by
      simp [mapOf, hencode]
    obtain ⟨map, hmap⟩ := hmap
    refine ⟨⟨code, map⟩, ?_, (linearize_eq_ok hlinear).1⟩
    rw [printTree_eq, hwrite, ok_bind]
    simp [hmap]
  · exact absurd he (linearize_ne_layout o.indent_ne_empty (hbalanced _) e)

/-- The same array on one line, and with every item on a line of its own. -/
theorem print_ink_holedArray :
    ∃ wide narrow, printTree { encode := false } holedArray = .ok wide ∧
      printTree { encode := false, width := 1, indent := "  " } holedArray = .ok narrow ∧
      wide.code = "[, a]" ∧ narrow.code = "[\n  ,\n  a\n]" ∧
      inked wide.code.toList = inked narrow.code.toList := by
  obtain ⟨wide, hwide, hcode⟩ := printTree_holedArray { encode := false } rfl
  obtain ⟨narrow, hnarrow, hcode'⟩ :=
    printTree_holedArray { encode := false, width := 1, indent := "  " } rfl
  have hink := print_ink { encode := false } { encode := false, width := 1, indent := "  " } rfl
    holedArray wide narrow hwide hnarrow
  refine ⟨wide, narrow, hwide, hnarrow, ?_, ?_, hink.1⟩
  · rw [← String.toList_inj, hcode]
    rfl
  · rw [← String.toList_inj, hcode']
    rfl

end EstreePrinter
