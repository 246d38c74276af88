import Mathlib
import EstreePrinter.SourceMap

/-!
# Reading a compact map

A reader of the compact form of a map, written from the description of the format and not from the
code that writes it.

**Digits and numbers.**  `Base64.value?` looks a digit up in the alphabet.  `Vlq.numbers?` cuts a
sequence of digits into numbers: a digit of thirty-two or more is continued by the number that
starts behind it.  Nothing separates two numbers, so this is where the reader has to find their
ends.

**Segments.**  A segment has one, four or five numbers, each a difference to the segment before it.
What the differences are added to is carried in a `Cursor`: its column starts anew on each line,
everything else goes on through the whole map.

* `decode_encodeAll` — what is read from the compact form of a map is the map.
-/

namespace EstreePrinter

/-- Reading a list item by item gives the list back if reading an item does. -/
lemma mapM_map_eq_pure {m : Type → Type} [Monad m] [LawfulMonad m] {α β : Type} {write : α → β}
    {read : β → m α} {list : List α} (h : ∀ a ∈ list, read (write a) = pure a) :
    (list.map write).mapM read = pure list := by
  induction list with
  | nil => simp
  | cons a rest ih =>
      rw [List.map_cons, List.mapM_cons, h a (by simp), ih fun b hb => h b (by simp [hb])]
      simp

/-! ## Digits -/

namespace Base64

/-- The sixty-four digits, in the order of the numbers they stand for. -/
def alphabet : List Char :=
  "ABCDEFGHIJKLMNOPQRSTUVWXYZabcdefghijklmnopqrstuvwxyz0123456789+/".toList

/-- The number a digit stands for. -/
def value? (c : Char) : Option Nat := alphabet.idxOf? c

lemma value?_digit {n : Nat} (h : n < 64) : value? (digit n) = some n := by
  have hall : ∀ n < 64, value? (digit n) = some n := by decide
  exact hall n h

/-- The two separators of a map are no digits. -/
lemma digit_ne_separator {n : Nat} (h : n < 64) : digit n ≠ ',' ∧ digit n ≠ ';' := by
  have hall : ∀ n < 64, digit n ≠ ',' ∧ digit n ≠ ';' := by decide
  exact hall n h

end Base64

/-! ## Numbers -/

namespace Vlq

/-- The numbers that digits stand for, least significant digit first.  A digit that is continued
adds its lower five bits to the number behind it; nothing may be missing there. -/
def numbers? : List Nat → Option (List Nat)
  | [] => some []
  | d :: rest =>
    if d < 32 then (numbers? rest).map (d :: ·)
    else
      match numbers? rest with
      | some (n :: others) => some ((d - 32 + 32 * n) :: others)
      | _ => none

/-- The whole number with its sign in the lowest bit. -/
def signed (n : Nat) : Int := if n % 2 = 1 then -(n / 2 : Nat) else (n / 2 : Nat)

/-- The whole numbers of a text of digits. -/
def decode? (text : List Char) : Option (List Int) := do
  let digits ← text.mapM Base64.value?
  let numbers ← numbers? digits
  pure (numbers.map signed)

lemma signed_fold (v : Int) : signed (fold v) = v := by
  unfold signed fold
  split_ifs <;> omega

lemma groups_lt (n : Nat) : ∀ d ∈ groups n, d < 64 := by
  fun_induction groups n with
  | case1 n h =>
      intro d hd
      rw [List.mem_singleton] at hd
      omega
  | case2 n h ih =>
      intro d hd
      rcases List.mem_cons.mp hd with rfl | hd
      · omega
      · exact ih d hd

lemma groups_ne_nil (n : Nat) : groups n ≠ [] := by
  rw [groups]
  split_ifs
  · exact List.cons_ne_nil _ _
  · exact List.cons_ne_nil _ _

/-- **The end of a number is found** whatever stands behind it. -/
lemma numbers?_groups_append (n : Nat) {more : List Nat} {others : List Nat}
    (h : numbers? more = some others) : numbers? (groups n ++ more) = some (n :: others) := by
  fun_induction groups n with
  | case1 n hn => simp [numbers?, hn, h]
  | case2 n hn ih =>
      have hcontinued : ¬ n % 32 + 32 < 32 := by omega
      have hsum : n % 32 + 32 * (n / 32) = n := Nat.mod_add_div n 32
      simp [numbers?, hcontinued, ih, hsum]

lemma numbers?_flatMap_groups (numbers : List Nat) :
    numbers? (numbers.flatMap groups) = some numbers := by
  induction numbers with
  | nil => rfl
  | cons n rest ih => exact numbers?_groups_append n ih

/-- **Numbers are read back**, written one after the other without anything between them. -/
lemma decode?_flatMap_encode (values : List Int) :
    decode? (values.flatMap encode) = some values := by
  have hdigits : values.flatMap encode =
      ((values.map fold).flatMap groups).map Base64.digit := by
    rw [List.map_flatMap, List.flatMap_map]
    rfl
  have hlt : ∀ d ∈ (values.map fold).flatMap groups, d < 64 := by
    intro d hd
    obtain ⟨n, -, hd⟩ := List.mem_flatMap.mp hd
    exact groups_lt n d hd
  have hread : (((values.map fold).flatMap groups).map Base64.digit).mapM Base64.value? =
      some ((values.map fold).flatMap groups) :=
    mapM_map_eq_pure fun d hd => Base64.value?_digit (hlt d hd)
  simp only [decode?, hdigits, hread, Option.bind_eq_bind, Option.bind_some,
    numbers?_flatMap_groups, Option.pure_def, List.map_map, Function.comp_def, signed_fold,
    List.map_id']

lemma encode_ne_nil (v : Int) : encode v ≠ [] := by
  simp [encode, groups_ne_nil]

lemma separator_notMem_encode (v : Int) : ',' ∉ encode v ∧ ';' ∉ encode v := by
  have hdigit : ∀ c ∈ encode v, c ≠ ',' ∧ c ≠ ';' := by
    intro c hc
    obtain ⟨d, hd, rfl⟩ := List.mem_map.mp hc
    exact Base64.digit_ne_separator (groups_lt _ d hd)
  exact ⟨fun h => (hdigit _ h).1 rfl, fun h => (hdigit _ h).2 rfl⟩

end Vlq

/-! ## Segments -/

/-- What differences are added to. -/
structure Cursor where
  column : Int := 0
  source : Int := 0
  line : Int := 0
  sourceColumn : Int := 0
  name : Int := 0

namespace Cursor

/-- Add the differences of a segment: one for a column of the printed code alone, three more for a
place of a source, and a fifth for a name. -/
def advance (c : Cursor) : List Int → Option (List Int × Cursor)
  | [column] =>
    let c := { c with column := c.column + column }
    some ([c.column], c)
  | [column, source, line, sourceColumn] =>
    let c := { c with
      column := c.column + column, source := c.source + source, line := c.line + line
      sourceColumn := c.sourceColumn + sourceColumn }
    some ([c.column, c.source, c.line, c.sourceColumn], c)
  | [column, source, line, sourceColumn, name] =>
    let c : Cursor :=
      { column := c.column + column, source := c.source + source, line := c.line + line
        sourceColumn := c.sourceColumn + sourceColumn, name := c.name + name }
    some ([c.column, c.source, c.line, c.sourceColumn, c.name], c)
  | _ => none

/-- The segments of a line, and where the cursor stands behind them. -/
def readSegments (c : Cursor) : List (List Char) → Option (List (List Int) × Cursor)
  | [] => some ([], c)
  | text :: rest => do
    let differences ← Vlq.decode? text
    let (segment, c) ← c.advance differences
    let (others, c) ← c.readSegments rest
    pure (segment :: others, c)

/-- The lines of a map.  An empty line has no segments. -/
def readLines (c : Cursor) : List (List Char) → Option (List (List (List Int)))
  | [] => some []
  | text :: rest => do
    let texts := if text = [] then [] else text.splitOn ','
    let (line, c) ← ({ c with column := 0 } : Cursor).readSegments texts
    let others ← c.readLines rest
    pure (line :: others)

end Cursor

/-- Read a map from its compact form. -/
def SourceMap.decode? (mappings : String) : Option (List (List (List Int))) :=
  ({} : Cursor).readLines (mappings.toList.splitOn ';')

/-! ## What was written is read -/

namespace Segment

/-- A segment as a list of numbers. -/
def numbers : Segment → List Int
  | .blank column => [column]
  | .mapped column source line sourceColumn => [column, source, line, sourceColumn]

/-- The cursor of a reader stands where the writer takes its differences from. -/
structure Meets (c : Cursor) (last : Int) (anchor : Anchor) : Prop where
  column : c.column = last
  source : c.source = anchor.source
  line : c.line = anchor.line
  sourceColumn : c.sourceColumn = anchor.column

lemma separator_notMem_encode (last : Int) (anchor : Anchor) (s : Segment) :
    ',' ∉ s.encode last anchor ∧ ';' ∉ s.encode last anchor := by
  cases s <;> simp [encode, Vlq.separator_notMem_encode]

lemma encode_ne_nil (last : Int) (anchor : Anchor) (s : Segment) : s.encode last anchor ≠ [] := by
  cases s <;> simp [encode, Vlq.encode_ne_nil]

/-- **One segment.**  The differences written are the ones that lead the reader to the segment, and
its cursor then meets the writer again. -/
lemma advance_encode {c : Cursor} {last : Int} {anchor : Anchor} (h : Meets c last anchor)
    (s : Segment) : ∃ differences next, Vlq.decode? (s.encode last anchor) = some differences ∧
      c.advance differences = some (s.numbers, next) ∧
      Meets next s.column (anchorAfter anchor s) := by
  obtain ⟨rfl, hsource, hline, hcolumn⟩ := h
  cases s with
  | blank column =>
      refine ⟨[column - c.column], { c with column := column }, ?_, ?_, ?_⟩
      · simpa [encode] using Vlq.decode?_flatMap_encode [column - c.column]
      · simp [Cursor.advance, numbers]
      · exact ⟨rfl, hsource, hline, hcolumn⟩
  | mapped column source line sourceColumn =>
      refine ⟨[column - c.column, source - anchor.source, line - anchor.line,
        sourceColumn - anchor.column],
        { c with column := column, source := source, line := line, sourceColumn := sourceColumn },
        ?_, ?_, ?_⟩
      · have hread := Vlq.decode?_flatMap_encode [column - c.column, source - anchor.source,
          line - anchor.line, sourceColumn - anchor.column]
        simpa [encode] using hread
      · simp [Cursor.advance, numbers, hsource, hline, hcolumn]
      · exact ⟨rfl, rfl, rfl, rfl⟩

/-- **One line.** -/
lemma readSegments_encodeLine {c : Cursor} {last : Int} {anchor : Anchor} (h : Meets c last anchor)
    (line : List Segment) : ∃ next, c.readSegments (encodeLine last anchor line) =
      some (line.map numbers, next) ∧
      ∃ last, Meets next last (line.foldl anchorAfter anchor) := by
  induction line generalizing c last anchor with
  | nil => exact ⟨c, rfl, last, h⟩
  | cons s rest ih =>
      obtain ⟨differences, middle, hdecode, hadvance, hmiddle⟩ := advance_encode h s
      obtain ⟨next, hrest, hnext⟩ := ih hmiddle
      refine ⟨next, ?_, hnext⟩
      simp [encodeLine, Cursor.readSegments, hdecode, hadvance, hrest]

/-- The texts of the segments of a line have no comma in them, and the line no semicolon. -/
lemma separator_notMem_encodeLine (last : Int) (anchor : Anchor) (line : List Segment) :
    ∀ text ∈ encodeLine last anchor line, text ≠ [] ∧ ',' ∉ text ∧ ';' ∉ text := by
  induction line generalizing last anchor with
  | nil => exact List.forall_mem_nil _
  | cons s rest ih =>
      rw [encodeLine, List.forall_mem_cons]
      exact ⟨⟨encode_ne_nil _ _ s, separator_notMem_encode _ _ s⟩, ih _ _⟩

lemma notMem_intercalate {separator c : Char} (hc : c ≠ separator) {texts : List (List Char)}
    (h : ∀ text ∈ texts, c ∉ text) : c ∉ List.intercalate [separator] texts := by
  induction texts with
  | nil => simp [List.intercalate]
  | cons text rest ih =>
      have hrest := ih fun t ht => h t (by simp [ht])
      cases rest with
      | nil => simpa [List.intercalate] using h
      | cons next rest =>
          simp only [List.intercalate, List.intersperse_cons_cons, List.flatten_cons,
            List.mem_append, List.mem_singleton, not_or] at hrest ⊢
          exact ⟨h text (by simp), hc, hrest⟩

/-- Splitting a line at its commas gives the texts of its segments; an empty line has none. -/
lemma texts_encodeLine (last : Int) (anchor : Anchor) (line : List Segment) :
    (if List.intercalate [','] (encodeLine last anchor line) = [] then []
      else (List.intercalate [','] (encodeLine last anchor line)).splitOn ',') =
      encodeLine last anchor line := by
  have htexts := separator_notMem_encodeLine last anchor line
  cases htext : encodeLine last anchor line with
  | nil => rfl
  | cons text rest =>
      rw [htext] at htexts
      have hsplit : (List.intercalate [','] (text :: rest)).splitOn ',' = text :: rest :=
        List.splitOn_intercalate ',' (fun t ht => (htexts t ht).2.1) (List.cons_ne_nil _ _)
      rw [if_neg, hsplit]
      -- an empty text would be split into a single empty segment
      intro hnil
      rw [hnil, List.splitOn_nil, List.cons.injEq] at hsplit
      exact (htexts text (by simp)).1 hsplit.1.symm

/-- **All lines.** -/
lemma readLines_encodeLines {c : Cursor} {last : Int} {anchor : Anchor} (h : Meets c last anchor)
    (lines : List (List Segment)) :
    c.readLines (encodeLines anchor lines) = some (lines.map (List.map numbers)) := by
  induction lines generalizing c last anchor with
  | nil => rfl
  | cons line rest ih =>
      have hstart : Meets { c with column := 0 } 0 anchor := ⟨rfl, h.source, h.line, h.sourceColumn⟩
      obtain ⟨next, hline, last', hnext⟩ := readSegments_encodeLine hstart line
      simp [encodeLines, Cursor.readLines, texts_encodeLine, hline, ih hnext]

lemma semicolon_notMem_encodeLines (anchor : Anchor) (lines : List (List Segment)) :
    ∀ text ∈ encodeLines anchor lines, ';' ∉ text := by
  induction lines generalizing anchor with
  | nil => exact List.forall_mem_nil _
  | cons line rest ih =>
      rw [encodeLines, List.forall_mem_cons]
      exact ⟨notMem_intercalate (by decide) fun text htext =>
        (separator_notMem_encodeLine _ _ _ text htext).2.2, ih _⟩

/-- **A map is read back from its compact form**, if it has a line. -/
theorem decode_encodeAll {lines : List (List Segment)} (h : lines ≠ []) :
    SourceMap.decode? (encodeAll lines) = some (lines.map (List.map numbers)) := by
  have hlines : encodeLines {} lines ≠ [] := by
    cases lines with
    | nil => exact absurd rfl h
    | cons line rest => exact List.cons_ne_nil _ _
  rw [SourceMap.decode?, encodeAll, String.toList_ofList,
    List.splitOn_intercalate ';' (semicolon_notMem_encodeLines _ _) hlines]
  have hstart : Meets {} 0 {} := ⟨rfl, rfl, rfl, rfl⟩
  exact readLines_encodeLines hstart lines

/-! ## Segments given as lists of numbers -/

/-- Lists of lists of numbers as a value. -/
def mappingsToJson (mappings : List (List (List Int))) : Json :=
  .arr (mappings.map fun line => .arr (line.map fun segment => .arr (segment.map .int)))

lemma ofJson_numbers (s : Segment) : ofJson (.arr (s.numbers.map .int)) = .ok s := by
  cases s <;> rfl

/-- A list of one or four numbers is a segment. -/
lemma exists_numbers_eq {segment : List Int} (h : segment.length = 1 ∨ segment.length = 4) :
    ∃ s : Segment, s.numbers = segment := by
  match segment, h with
  | [column], _ => exact ⟨.blank column, rfl⟩
  | [column, source, line, sourceColumn], _ => exact ⟨.mapped column source line sourceColumn, rfl⟩

lemma exists_map_numbers_eq {mappings : List (List (List Int))}
    (h : ∀ line ∈ mappings, ∀ segment ∈ line, segment.length = 1 ∨ segment.length = 4) :
    ∃ lines : List (List Segment), lines.map (List.map numbers) = mappings := by
  have hline (line : List (List Int)) (hline : line ∈ mappings) :
      line ∈ Set.range (List.map numbers) := by
    rw [Set.range_list_map]
    exact fun segment hsegment => exists_numbers_eq (h line hline segment hsegment)
  have hall : mappings ∈ Set.range (List.map (List.map numbers)) := by
    rw [Set.range_list_map]
    exact hline
  exact hall

/-- The segments of a map are those that its lists of numbers stand for. -/
lemma linesOfJson_mappingsToJson (lines : List (List Segment)) :
    linesOfJson (mappingsToJson (lines.map (List.map numbers))) = .ok lines := by
  have hline (line : List Segment) :
      ((line.map numbers).map fun segment => Json.arr (segment.map .int)).mapM ofJson =
        .ok line := by
    rw [List.map_map]
    exact mapM_map_eq_pure fun s _ => ofJson_numbers s
  rw [mappingsToJson, List.map_map]
  exact mapM_map_eq_pure fun line _ => hline line

end Segment

end EstreePrinter
