import Mathlib
import EstreePrinter.Proofs.Printer.Whitespace
import EstreePrinter.Proofs.SourceMap.Decoder

/-!
# The map of a print can be read back

A tree whose places are whole numbers (`Json.PlacesWhole`) is printed with whole numbers in its map,
because every chunk that is emitted takes its place from a node inside of the tree
(`Render.placed`).  Its map can therefore be written in compact form, and what a reader makes of
that form is the lists of numbers that the print gives otherwise (`decode_mappings`).
-/

namespace EstreePrinter

/-! ## Places that are whole numbers -/

/-- A tree in which every place is given by whole numbers. -/
def Json.PlacesWhole (tree : Json) : Prop :=
  ∀ node, node = tree ∨ node.Inside tree → ∀ span, node.span = .ok (some span) → span.IsWhole

namespace Json

lemma PlacesWhole.inside {tree part : Json} (h : tree.PlacesWhole) (hpart : part.Inside tree) :
    part.PlacesWhole := by
  rintro node (rfl | hnode)
  · exact h node (Or.inr hpart)
  · exact h node (Or.inr (hnode.trans hpart))

/-- What is inside of a value is one of its children or inside of one. -/
lemma inside_iff {v w : Json} :
    v.Inside w ↔ ∃ child, Child child w ∧ (v = child ∨ v.Inside child) := by
  constructor
  · intro h
    cases h with
    | single h => exact ⟨v, h, Or.inl rfl⟩
    | tail h hchild => exact ⟨_, hchild, Or.inr h⟩
  · rintro ⟨child, hchild, rfl | h⟩
    · exact hchild.inside
    · exact h.trans hchild.inside

/-- **Places are whole numbers** if they are in all children, and the value itself has no other. -/
lemma placesWhole_of_children {tree : Json}
    (hself : ∀ span, tree.span = .ok (some span) → span.IsWhole)
    (hchildren : ∀ child, Child child tree → child.PlacesWhole) : tree.PlacesWhole := by
  rintro node (rfl | hnode)
  · exact hself
  · obtain ⟨child, hchild, hnode⟩ := inside_iff.mp hnode
    exact hchildren child hchild node hnode

/-- A value that is no object stands nowhere. -/
lemma span_of_not_isObject {v : Json} (h : v.isObject = false) : v.span = .error .malformed := by
  simp [span, given, get, h]

/-- A value without parts. -/
lemma placesWhole_leaf {v : Json} (hobject : v.isObject = false) (h : ∀ child, ¬ Child child v) :
    v.PlacesWhole :=
  placesWhole_of_children (by simp [span_of_not_isObject hobject])
    fun child hchild => absurd hchild (h child)

lemma placesWhole_str (s : String) : (Json.str s).PlacesWhole :=
  placesWhole_leaf rfl (by rintro child ⟨⟩)

lemma placesWhole_arr {items : List Json} (h : ∀ v ∈ items, v.PlacesWhole) :
    (Json.arr items).PlacesWhole := by
  refine placesWhole_of_children (by simp [span_of_not_isObject (v := .arr items) rfl]) ?_
  rintro child ⟨hchild⟩
  exact h child hchild

lemma placesWhole_obj {fields : List (String × Json)}
    (hself : ∀ span, (Json.obj fields).span = .ok (some span) → span.IsWhole)
    (h : ∀ field ∈ fields, field.2.PlacesWhole) : (Json.obj fields).PlacesWhole := by
  refine placesWhole_of_children hself ?_
  rintro child hchild
  cases hchild with
  | field hfield => exact h _ hfield
  | key => exact placesWhole_str _

/-- A list of statements made into a program has the same places. -/
lemma PlacesWhole.asProgram {tree root : Json} (h : tree.PlacesWhole)
    (hroot : asProgram tree = .ok root) : root.PlacesWhole := by
  have hstatements : ∀ {list : List Json}, tree.isObject = false → tree.elements? = some list →
      ∀ v ∈ list, v.PlacesWhole := by
    intro list hobject hlist v hv
    cases tree with
    | arr items =>
        obtain rfl : items = list := Option.some.inj hlist
        exact h.inside (Child.element hv).inside
    | str s =>
        obtain rfl := Option.some.inj hlist
        obtain ⟨c, -, rfl⟩ := List.mem_map.mp hv
        exact placesWhole_str _
    | obj fields => simp [isObject] at hobject
    | _ => simp [elements?] at hlist
  cases tree with
  | obj fields =>
      obtain rfl : Json.obj fields = root := Except.ok.inj hroot
      exact h
  | _ =>
      obtain ⟨list, hlist, hroot⟩ := bind_eq_ok_iff.mp hroot
      obtain rfl : _ = root := Except.ok.inj hroot
      refine placesWhole_obj ?_ ?_
      · rintro span hspan
        cases hspan
      · simp only [List.forall_mem_cons]
        exact ⟨placesWhole_str _,
          placesWhole_arr (hstatements rfl (orMalformed_eq_ok_iff.mp hlist)),
          placesWhole_str _, List.forall_mem_nil _⟩

end Json

/-! ## Places of what is emitted -/

/-- A chunk whose place, if it has one, is given by whole numbers. -/
def Command.IsPlaced : Command → Prop
  | .chunk _ (some span) => span.IsWhole
  | _ => True

lemma Command.closed_isPlaced : Closed (fun _ => True) (AllLeaves IsPlaced) :=
  closed_allLeaves
    (fun c hflat _ => by
      cases c with
      | chunk s span => exact absurd hflat id
      | _ => trivial)
    trivial trivial

/-- **Every chunk takes its place from a node.** -/
def Render.placed : Render.Invariant :=
  Invariant.ofClosed Command.closed_isPlaced Json.PlacesWhole Json.PlacesWhole.inside
    fun content node span hnode hspan => by
      have hplace : ∀ s : String, (Command.chunk s span).IsPlaced := by
        intro s
        cases span with
        | none => trivial
        | some span => exact hnode node (Or.inl rfl) span hspan
      have hone {c : Command} (hleaves : Command.leaves c = [c]) (hc : c.IsPlaced) :
          Command.AllLeaves Command.IsPlaced [c] := by
        simpa [Command.AllLeaves, hleaves] using hc
      cases content with
      | str s => exact hone (by simp [Command.leaves, Command.chunkOf]) (hplace s)
      | _ => exact hone (by simp [Command.leaves, Command.chunkOf]) trivial

lemma isPlaced_of_renderWhole {root : Json} (h : root.PlacesWhole) {s : Setting}
    {e : Emission Unit} (he : renderWhole root s [] = .ok e) :
    Command.AllLeaves Command.IsPlaced e.commands :=
  Render.emits_bind Command.closed_isPlaced (Render.placed.treeOf .value h)
    (fun _ => Render.emits_drainAfterStatement Command.closed_isPlaced) _ _ _ he

/-- An end of a chunk has its place from the chunk. -/
lemma isWhole_of_mem_endsOf {indent : String} {before : List Char} {depth : Nat}
    {leaves : List Command} (h : ∀ c ∈ leaves, c.IsPlaced) :
    ∀ e ∈ endsOf indent before depth leaves, e.place.IsWhole := by
  induction leaves generalizing before depth with
  | nil => exact List.forall_mem_nil _
  | cons c rest ih =>
      rw [endsOf, List.forall_mem_append]
      refine ⟨?_, ih fun d hd => h d (by simp [hd])⟩
      have hc := h c (by simp)
      cases c with
      | chunk s span =>
          cases span with
          | none => exact List.forall_mem_nil _
          | some span => simpa [Command.ends] using ⟨hc.start, hc.stop⟩
      | _ => exact List.forall_mem_nil _

/-! ## Marks that are whole numbers -/

/-- A mark given by whole numbers. -/
structure Mark.IsWhole (m : Mark) : Prop where
  line : ∃ n, m.line = .int n
  sourceColumn : ∃ n, m.sourceColumn = .int n

/-- The segment of a mark. -/
def Mark.segment (m : Mark) : Segment :=
  .mapped m.column 0 (m.line.toInt?.getD 0) (m.sourceColumn.toInt?.getD 0)

lemma Mark.IsWhole.toJson_eq {m : Mark} (h : m.IsWhole) :
    m.toJson = .arr (m.segment.numbers.map .int) := by
  obtain ⟨⟨line, hline⟩, column, hcolumn⟩ := h
  simp [Mark.toJson, Mark.segment, Segment.numbers, hline, hcolumn, Json.toInt?]

/-- The marks of a print whose places are whole numbers. -/
lemma isWhole_of_linearize {commands : List Command} {indent code : String}
    {lines : List (List Mark)} (hplaced : Command.AllLeaves Command.IsPlaced commands)
    (h : linearize commands indent = .ok (code, lines)) :
    ∀ line ∈ lines, ∀ m ∈ line, m.IsWhole := by
  obtain ⟨-, -, hmarks⟩ := linearize_eq_ok h
  have hflatten : lines.flatten =
      (endsOf indent [] 0 (Command.leavesAll commands)).map fun e => e.mark.2 := by
    rw [← numbered_map_snd, hmarks, List.map_map]
    rfl
  intro line hline m hm
  have hmem : m ∈ lines.flatten := List.mem_flatten.mpr ⟨line, hline, hm⟩
  rw [hflatten] at hmem
  obtain ⟨e, he, rfl⟩ := List.mem_map.mp hmem
  obtain ⟨⟨n, hn⟩, hcolumn⟩ := isWhole_of_mem_endsOf hplaced e he
  exact ⟨⟨n - 1, by simp [ChunkEnd.mark, hn]⟩, hcolumn⟩

lemma marksToJson_eq {lines : List (List Mark)} (h : ∀ line ∈ lines, ∀ m ∈ line, m.IsWhole) :
    marksToJson lines = Segment.mappingsToJson
      ((lines.map (List.map Mark.segment)).map (List.map Segment.numbers)) := by
  simp only [marksToJson, Segment.mappingsToJson, List.map_map, Json.arr.injEq]
  refine List.map_congr_left fun line hline => ?_
  simp only [Function.comp_apply, List.map_map, Json.arr.injEq]
  exact List.map_congr_left fun m hm => (h line hline m hm).toJson_eq

lemma linesOfJson_marksToJson {lines : List (List Mark)}
    (h : ∀ line ∈ lines, ∀ m ∈ line, m.IsWhole) :
    Segment.linesOfJson (marksToJson lines) = .ok (lines.map (List.map Mark.segment)) := by
  rw [marksToJson_eq h]
  exact Segment.linesOfJson_mappingsToJson _

/-- Marks that are whole numbers can be written down in either form. -/
lemma exists_mapOf (o : Options) {lines : List (List Mark)}
    (h : ∀ line ∈ lines, ∀ m ∈ line, m.IsWhole) : ∃ map, mapOf o lines = .ok map := by
  cases hencode : o.encode with
  | false => exact ⟨_, by simp only [mapOf, hencode, Bool.false_eq_true, if_false]; rfl⟩
  | true =>
      exact ⟨_, by simp only [mapOf, hencode, if_true, linesOfJson_marksToJson h]; rfl⟩

/-- What a print with whole numbers in its places gives before its map is written down. -/
lemma marks_of_writeTree {o : Options} {tree : Json} (hplaces : tree.PlacesWhole) {code : String}
    {lines : List (List Mark)} (h : writeTree o tree = .ok (code, lines)) :
    lines ≠ [] ∧ ∀ line ∈ lines, ∀ m ∈ line, m.IsWhole := by
  obtain ⟨root, hroot, h⟩ := bind_eq_ok_iff.mp h
  obtain ⟨commands, hcommands, hlinear⟩ := bind_eq_ok_iff.mp h
  have hroot := hplaces.asProgram (ofFault_eq_ok_iff.mp hroot)
  obtain ⟨-, hlength, -⟩ := linearize_eq_ok hlinear
  refine ⟨List.ne_nil_of_length_pos (by omega), isWhole_of_linearize ?_ hlinear⟩
  cases hwhole : renderWhole root o.setting [] with
  | error fault =>
      rw [commandsOf_eq, hwhole] at hcommands
      simp at hcommands
  | ok e =>
      obtain rfl : e.commands = commands :=
        Except.ok.inj ((commandsOf_of_render hwhole).symm.trans hcommands)
      exact isPlaced_of_renderWhole hroot hwhole

/-- **Compact maps are read back.**  Every map of segments of one or four whole numbers that has a
line can be written in compact form, and a reader of that form gets the map.  And every tree whose
places are whole numbers that is printed at all is printed with either form of its map: the code is
the same, and the reader makes of the compact form the numbers of the other one. -/
theorem decode_mappings :
    (∀ mappings : List (List (List Int)), mappings ≠ [] →
      (∀ line ∈ mappings, ∀ segment ∈ line, segment.length = 1 ∨ segment.length = 4) →
      ∃ lines, Segment.linesOfJson (Segment.mappingsToJson mappings) = .ok lines ∧
        SourceMap.decode? (Segment.encodeAll lines) = some mappings) ∧
    (∀ (o : Options) (tree : Json), tree.PlacesWhole → ∀ out, printTree o tree = .ok out →
      ∃ compact raw text mappings,
        printTree { o with encode := true } tree = .ok compact ∧
        printTree { o with encode := false } tree = .ok raw ∧
        compact.code = out.code ∧ raw.code = out.code ∧
        compact.map.mappings = .str text ∧
        raw.map.mappings = Segment.mappingsToJson mappings ∧
        SourceMap.decode? text = some mappings) := by
  refine ⟨fun mappings hmappings hsegments => ?_, fun o tree hplaces out hout => ?_⟩
  · obtain ⟨lines, rfl⟩ := Segment.exists_map_numbers_eq hsegments
    exact ⟨lines, Segment.linesOfJson_mappingsToJson lines,
      Segment.decode_encodeAll (by simpa using hmappings)⟩
  · rw [printTree_eq] at hout
    obtain ⟨⟨code, marks⟩, hwrite, hout⟩ := bind_eq_ok_iff.mp hout
    obtain ⟨map, -, hout⟩ := bind_eq_ok_iff.mp hout
    obtain rfl : _ = out := Except.ok.inj hout
    obtain ⟨hmarks, hwhole⟩ := marks_of_writeTree hplaces hwrite
    -- whether the map is compact plays no part before it is written down
    have hprint {encode : Bool} {map : SourceMap}
        (hmap : mapOf { o with encode := encode } marks = .ok map) :
        printTree { o with encode := encode } tree = .ok { code, map } := by
      have hwrite : writeTree { o with encode := encode } tree = .ok (code, marks) := hwrite
      simp only [printTree_eq, hwrite, ok_bind, hmap, pure_eq_ok]
    have hcompact : mapOf { o with encode := true } marks =
        .ok { mappings := .str (Segment.encodeAll (marks.map (List.map Mark.segment)))
              sources := .arr [o.source], sourcesContent := .arr [o.content] } := by
      simp only [mapOf, if_true, linesOfJson_marksToJson hwhole]
      rfl
    have hraw : mapOf { o with encode := false } marks =
        .ok { mappings := marksToJson marks
              sources := .arr [o.source], sourcesContent := .arr [o.content] } := rfl
    exact ⟨_, _, _, _, hprint hcompact, hprint hraw, rfl, rfl, rfl, marksToJson_eq hwhole,
      Segment.decode_encodeAll (by simpa using hmarks)⟩

lemma placesWhole_holedArray : holedArray.PlacesWhole := by
  have hint (n : Int) : (Json.int n).PlacesWhole := Json.placesWhole_leaf rfl (by rintro child ⟨⟩)
  have hposition (line column : Int) :
      (Json.obj [("line", .int line), ("column", .int column)]).PlacesWhole := by
    refine Json.placesWhole_obj ?_ (by simp [hint])
    rintro span hspan
    cases hspan
  have hname : placedName.PlacesWhole := by
    refine Json.placesWhole_obj ?_ ?_
    · rintro span hspan
      cases hspan
      exact ⟨⟨⟨2, rfl⟩, 0, rfl⟩, ⟨⟨2, rfl⟩, 1, rfl⟩⟩
    · simp only [List.forall_mem_cons]
      refine ⟨Json.placesWhole_str _, Json.placesWhole_str _, Json.placesWhole_obj ?_ ?_,
        List.forall_mem_nil _⟩
      · rintro span hspan
        cases hspan
      · simp [hposition]
  refine Json.placesWhole_obj ?_ ?_
  · rintro span hspan
    cases hspan
  · simp only [List.forall_mem_cons]
    exact ⟨Json.placesWhole_str _, Json.placesWhole_arr (by
      simp [Json.placesWhole_leaf (v := .null) rfl (by rintro child ⟨⟩), hname]),
      List.forall_mem_nil _⟩

/-- A map with an empty line, a blank segment and a place before the one in front of it; and an
array with a name whose place is known. -/
theorem decode_mappings_holedArray :
    (∃ lines, Segment.linesOfJson (Segment.mappingsToJson
          [[[0, 0, 20, 5], [700]], [], [[3, 1, -2, 0]]]) = .ok lines ∧
        Segment.encodeAll lines = "AAoBK,4rB;;GCtBL" ∧
        SourceMap.decode? "AAoBK,4rB;;GCtBL" =
          some [[[0, 0, 20, 5], [700]], [], [[3, 1, -2, 0]]]) ∧
    ∃ compact raw text mappings, printTree {} holedArray = .ok compact ∧
      printTree { encode := false } holedArray = .ok raw ∧ compact.code = "[, a]" ∧
      compact.map.mappings = .str text ∧ raw.map.mappings = Segment.mappingsToJson mappings ∧
      SourceMap.decode? text = some mappings := by
  obtain ⟨hsegments, hprints⟩ := decode_mappings
  refine ⟨?_, ?_⟩
  · obtain ⟨lines, hlines, hdecode⟩ := hsegments [[[0, 0, 20, 5], [700]], [], [[3, 1, -2, 0]]]
      (by simp) (by simp)
    obtain rfl : [[Segment.mapped 0 0 20 5, .blank 700], [], [.mapped 3 1 (-2) 0]] = lines :=
      Except.ok.inj hlines
    have hcompact : Segment.encodeAll
        [[Segment.mapped 0 0 20 5, .blank 700], [], [.mapped 3 1 (-2) 0]] = "AAoBK,4rB;;GCtBL" := by
      decide +kernel
    exact ⟨_, hlines, hcompact, hcompact ▸ hdecode⟩
  · obtain ⟨out, hout, hcode⟩ := printTree_holedArray { encode := false } rfl
    obtain ⟨compact, raw, text, mappings, hcompact, hraw, hsame, -, htext, hmappings, hdecode⟩ :=
      hprints { encode := false } holedArray placesWhole_holedArray out hout
    refine ⟨compact, raw, text, mappings, hcompact, hraw, ?_, htext, hmappings, hdecode⟩
    rw [hsame, ← String.toList_inj, hcode]
    rfl

end EstreePrinter
