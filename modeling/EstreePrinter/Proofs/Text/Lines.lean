import Mathlib
import EstreePrinter.Fault
import EstreePrinter.Proofs.Outcome
import EstreePrinter.Proofs.Text.StringLiteral

/-!
# The line a report quotes

A position counts the lines of its source text as the language does: a line ends at a line feed, at
a carriage return with or without a line feed behind it, and at the two separators of Unicode
(`Text.sourceLines`).  A report looks for its line among the lines that `Text.lines` finds, which
end at six further characters as well and of which the last is never empty.

**Where the two agree.**  As long as none of the further characters stands in the lines up to the
one that is asked for, both have the same line there (`Text.lines_getElem?`), and a report quotes
the line its position names, or none if there is none to quote (`report_quotes_line`).

**Where they do not.**  A form feed in an earlier line makes a report quote the wrong one
(`report_misses_line`).
-/

namespace EstreePrinter

namespace Text

open StringLiteral (isLineTerminator)

/-! ## Lines of a source text -/

/-- The lines of a source text, without their ends.  What follows the last end is a line too, even
if it is empty. -/
def sourceLines : List Char → List (List Char)
  | [] => [[]]
  | '\r' :: '\n' :: rest => [] :: sourceLines rest
  | c :: rest =>
    if isLineTerminator c then [] :: sourceLines rest else (sourceLines rest).modifyHead (c :: ·)

/-- The line at an index, unless it is an empty last one. -/
def lineIn? (lines : List (List Char)) (index : Nat) : Option (List Char) :=
  lines[index]?.filter fun line => line ≠ [] ∨ index + 1 < lines.length

/-- The line of a source text with a number, counted from one, unless it is an empty last one. -/
def sourceLine? (text : List Char) (number : Int) : Option (List Char) :=
  if 0 < number then lineIn? (sourceLines text) (number - 1).toNat else none

/-- A line end of one character, or a character of a line. -/
lemma sourceLines_cons {c : Char} {rest : List Char}
    (h : ∀ behind, c = '\r' → rest = '\n' :: behind → False) :
    sourceLines (c :: rest) =
      if isLineTerminator c then [] :: sourceLines rest
      else (sourceLines rest).modifyHead (c :: ·) := by
  rw [sourceLines]
  exact h

lemma sourceLines_ne_nil (text : List Char) : sourceLines text ≠ [] := by
  fun_induction sourceLines text with
  | case1 => simp
  | case2 rest ih => simp
  | case3 c rest hrest hend ih => simp
  | case4 c rest hrest hend ih => simpa using ih

/-- The ends of lines of the language are among the ends of lines. -/
lemma endsLine_of_isLineTerminator {c : Char} (h : isLineTerminator c = true) :
    endsLine c = true := by
  simp only [isLineTerminator, Bool.or_eq_true, beq_iff_eq] at h
  rcases h with ((rfl | rfl) | h) | h
  · decide
  · decide
  · simp [endsLine, h]
  · simp [endsLine, h]

/-! ## Looking a line up -/

lemma lineIn?_zero {line : List Char} {rest : List (List Char)} (h : rest ≠ []) :
    lineIn? (line :: rest) 0 = some line := by
  simp [lineIn?, List.length_pos_iff.mpr h]

lemma lineIn?_succ (line : List Char) (rest : List (List Char)) (index : Nat) :
    lineIn? (line :: rest) (index + 1) = lineIn? rest index := by
  simp [lineIn?]

/-- Nothing put in front of the first line changes nothing. -/
lemma modifyHead_nil_append (lines : List (List Char)) :
    lines.modifyHead (([] : List Char).reverse ++ ·) = lines := by
  cases lines <;> rfl

/-- **Both ways to count lines agree** behind a line if they agree on the rest of the text. -/
lemma getElem?_cons_linesFrom {line rest : List Char}
    (hrest : ∀ index, (∀ l ∈ (sourceLines rest).take (index + 1), ∀ c ∈ l, endsLine c = false) →
      (linesFrom [] rest)[index]? =
        lineIn? ((sourceLines rest).modifyHead (([] : List Char).reverse ++ ·)) index)
    {index : Nat} (h : ∀ l ∈ (sourceLines rest).take index, ∀ c ∈ l, endsLine c = false) :
    (line :: linesFrom [] rest)[index]? = lineIn? (line :: sourceLines rest) index := by
  cases index with
  | zero => rw [lineIn?_zero (sourceLines_ne_nil rest), List.getElem?_cons_zero]
  | succ index =>
      rw [lineIn?_succ, List.getElem?_cons_succ, hrest index h, modifyHead_nil_append]

/-- **Both ways to count lines agree** up to a line, if no line up to it has a further end in it.
The induction is on the text, with the characters of the line being read put in front. -/
lemma linesFrom_getElem? (line text : List Char) (index : Nat)
    (h : ∀ l ∈ (sourceLines text).take (index + 1), ∀ c ∈ l, endsLine c = false) :
    (linesFrom line text)[index]? =
      lineIn? ((sourceLines text).modifyHead (line.reverse ++ ·)) index := by
  fun_induction linesFrom line text generalizing index with
  | case1 line hline =>
    obtain rfl : line = [] := by simpa using hline
    cases index <;> simp [sourceLines, lineIn?, Option.filter]
  | case2 line hline =>
    have hne : line ≠ [] := by simpa using hline
    cases index <;> simp [sourceLines, lineIn?, Option.filter, hne]
  | case3 line rest ih =>
    rw [sourceLines, List.modifyHead_cons, List.append_nil]
    exact getElem?_cons_linesFrom ih fun l hl => h l (by simp [sourceLines, hl])
  | case4 line c rest hrest hend ih =>
    by_cases hterminator : isLineTerminator c = true
    · rw [sourceLines_cons hrest, if_pos hterminator] at h ⊢
      rw [List.modifyHead_cons, List.append_nil]
      exact getElem?_cons_linesFrom ih fun l hl => h l (by simp [hl])
    · -- a further end would stand in the first line
      rw [sourceLines_cons hrest, if_neg hterminator] at h
      obtain ⟨first, others, hlines⟩ := List.exists_cons_of_ne_nil (sourceLines_ne_nil rest)
      have hc := h (c :: first) (by simp [hlines]) c (by simp)
      simp [hc] at hend
  | case5 line c rest hrest hend ih =>
    have hterminator : ¬isLineTerminator c = true := fun h => hend (endsLine_of_isLineTerminator h)
    rw [sourceLines_cons hrest, if_neg hterminator] at h ⊢
    obtain ⟨first, others, hlines⟩ := List.exists_cons_of_ne_nil (sourceLines_ne_nil rest)
    rw [ih index, hlines]
    · simp
    · intro l hl d hd
      simp only [hlines, List.modifyHead_cons, List.take_succ_cons, List.mem_cons] at h hl
      rcases hl with rfl | hl
      · exact h _ (.inl rfl) d (List.mem_cons_of_mem _ hd)
      · exact h l (.inr hl) d hd

/-- **The line of a report is the line of the source text**, if no line up to it has a further end
in it. -/
theorem lines_getElem? (text : List Char) (index : Nat)
    (h : ∀ l ∈ (sourceLines text).take (index + 1), ∀ c ∈ l, endsLine c = false) :
    (lines text)[index]? = lineIn? (sourceLines text) index := by
  rw [lines, linesFrom_getElem? [] text index h, modifyHead_nil_append]

end Text

/-! ## Reports -/

namespace Unhandled

/-- A place in a file, as reports write it: the column is counted from one there. -/
def place (filename : String) (line column : Int) : String :=
  filename ++ ":" ++ toString line ++ ":" ++ toString (column + 1)

/-- A report that says what is wrong and where. -/
def located (heading filename : String) (line column : Int) : String :=
  heading ++ "\n  --> " ++ place filename line column

/-- What stands to the left of a quoted line where its number does not. -/
def gutter (line : Int) : String := String.ofList (List.replicate ((toString line).length + 1) ' ')

/-- A report that quotes a line of the source text as well, and underlines a part of it. -/
def quoting (heading filename : String) (line column : Int) (quoted : List Char) (carets : Nat) :
    String :=
  heading ++ "\n" ++ gutter line ++ "--> " ++ place filename line column ++ "\n" ++
    gutter line ++ "|\n" ++
    toString line ++ " | " ++ String.ofList quoted ++ "\n" ++
    gutter line ++ "| " ++ String.ofList (List.replicate column.toNat ' ') ++
      String.ofList (List.replicate carets '^')

/-- How many characters a report underlines: those of a range on one line, and else the rest of the
line; at least one. -/
def carets (line column stopLine stopColumn : Int) (quoted : List Char) : Nat :=
  (max 1 (if stopLine = line then stopColumn - column else (quoted.length : Int) - column)).toNat

/-- The line that a report quotes. -/
lemma lineAt_lines {line : Int} {text : List Char}
    (h : ∀ l ∈ (Text.sourceLines text).take line.toNat, ∀ c ∈ l, Text.endsLine c = false) :
    lineAt (.int line) (Text.lines text) = .ok (Text.sourceLine? text line) := by
  have hline : lineAt (.int line) (Text.lines text) =
      .ok (if 0 ≤ line + -1 then (Text.lines text)[(line + -1).toNat]? else none) := rfl
  rw [hline, Text.sourceLine?, Int.add_neg_one]
  by_cases hpos : 0 < line
  · have hindex : line.toNat = (line - 1).toNat + 1 := by omega
    rw [hindex] at h
    rw [if_pos (by omega), if_pos hpos, Text.lines_getElem? text _ h]
  · rw [if_neg (by omega), if_neg hpos]

lemma same_int (m n : Int) : (Json.int m).same (.int n) = decide (m = n) := by
  have h : (Json.int m).same (.int n) = (some (compare m n) == some Ordering.eq) := by
    simp [Json.same, Json.compareNumbers, Json.toInt?]
  rw [h]
  by_cases hmn : m = n
  · simp [hmn]
  · simp [hmn]

section

variable {u : Unhandled} {source filename : String} {line column stopLine stopColumn : Int}

/-- A report for which there is no line. -/
lemma report_of_no_line
    (hspan : u.span = some ⟨⟨.int line, .int column⟩, ⟨.int stopLine, .int stopColumn⟩⟩)
    (hsource : u.source = .str source)
    (hline : lineAt (.int line) (Text.lines source.toList) = .ok none) :
    u.report filename = .ok (located ("error: " ++ u.message) filename line column) := by
  have hcolumn : (Json.int column).plus? 1 = some (.int (column + 1)) := rfl
  have hshown (n : Int) : (Json.int n).display = toString n := rfl
  rw [report, hspan, hsource]
  simp only [hcolumn, orMalformed, ok_bind, pure_eq_ok, hline, hshown, located, place]

/-- A report for which there is a line. -/
lemma report_of_line {quoted : List Char}
    (hspan : u.span = some ⟨⟨.int line, .int column⟩, ⟨.int stopLine, .int stopColumn⟩⟩)
    (hsource : u.source = .str source)
    (hline : lineAt (.int line) (Text.lines source.toList) = .ok (some quoted)) :
    u.report filename = .ok (quoting ("error: " ++ u.message) filename line column quoted
      (carets line column stopLine stopColumn quoted)) := by
  have hcolumn : (Json.int column).plus? 1 = some (.int (column + 1)) := rfl
  have hnumber : (Json.int (column + 1)).toInt? = some (column + 1) := rfl
  have hshown (n : Int) : (Json.int n).display = toString n := rfl
  have hunderlined : underlined column (.int stopColumn) =
      .ok (max 1 (stopColumn - column)).toNat := rfl
  have hstart : column + 1 - 1 = column := by omega
  have hrest : (quoted.length : Int) - (column + 1) + 1 = quoted.length - column := by omega
  rw [report, hspan, hsource]
  simp only [hcolumn, orMalformed, ok_bind, pure_eq_ok, hline, hshown, hnumber, same_int, hstart,
    hunderlined, hrest]
  by_cases hstop : stopLine = line
  · simp only [hstop, decide_true, if_true]
    unfold quoting carets place gutter
    simp only [if_true]
  · simp only [hstop, decide_false, if_false, Bool.false_eq_true]
    unfold quoting carets place gutter
    simp only [hstop, if_false]

end

end Unhandled

/-- **A report quotes the line its position names**, and no other: if the source text has that line
and it is not an empty last one, the report quotes it, and otherwise the report gives the place
only.  No line up to that one may have an end in it that is none for the language. -/
theorem report_quotes_line (u : Unhandled) (source filename : String)
    (line column stopLine stopColumn : Int)
    (hspan : u.span = some ⟨⟨.int line, .int column⟩, ⟨.int stopLine, .int stopColumn⟩⟩)
    (hsource : u.source = .str source)
    (hends : ∀ l ∈ (Text.sourceLines source.toList).take line.toNat, ∀ c ∈ l,
      Text.endsLine c = false) :
    (∀ quoted, Text.sourceLine? source.toList line = some quoted →
      u.report filename =
        .ok (Unhandled.quoting ("error: " ++ u.message) filename line column quoted
          (Unhandled.carets line column stopLine stopColumn quoted))) ∧
    (Text.sourceLine? source.toList line = none →
      u.report filename =
        .ok (Unhandled.located ("error: " ++ u.message) filename line column)) := by
  have hline := Unhandled.lineAt_lines hends
  constructor
  · intro quoted hquoted
    exact Unhandled.report_of_line hspan hsource (hquoted ▸ hline)
  · intro hnone
    exact Unhandled.report_of_no_line hspan hsource (hnone ▸ hline)

/-- An element on the second line of a source text, from one column to another. -/
def elementOnSecondLine (source : String) (column stopColumn : Int) : Unhandled :=
  { kind := .str "JSXElement", source := .str source,
    span := some ⟨⟨.int 2, .int column⟩, ⟨.int 2, .int stopColumn⟩⟩ }

theorem report_quotes_line_continuedText :
    (∀ l ∈ (Text.sourceLines "let a;\r\nx = <div/>;\n".toList).take 2, ∀ c ∈ l,
      Text.endsLine c = false) ∧
    (elementOnSecondLine "let a;\r\nx = <div/>;\n" 4 10).report "in.jsx" =
      .ok ("error: not implemented: node kind 'JSXElement'\n  --> in.jsx:2:5\n  |\n" ++
        "2 | x = <div/>;\n  |     ^^^^^^") := by
  have hends : ∀ l ∈ (Text.sourceLines "let a;\r\nx = <div/>;\n".toList).take 2, ∀ c ∈ l,
      Text.endsLine c = false := by
    have h : ((Text.sourceLines "let a;\r\nx = <div/>;\n".toList).take 2).all
        (·.all fun c => !Text.endsLine c) = true := by decide +kernel
    simpa only [List.all_eq_true, Bool.not_eq_true'] using h
  have hreport := (report_quotes_line (elementOnSecondLine "let a;\r\nx = <div/>;\n" 4 10)
    "let a;\r\nx = <div/>;\n" "in.jsx" 2 4 2 10 rfl rfl hends).1 "x = <div/>;".toList
    (by decide +kernel)
  exact ⟨hends, hreport.trans (congrArg Except.ok (by decide +kernel))⟩

/-- Behind a form feed the line is not found: the second line is `<x/>;`, and the report quotes what
follows the form feed in the first one. -/
theorem report_misses_line :
    Text.sourceLine? "a\x0cb;\n<x/>;\n".toList 2 = some "<x/>;".toList ∧
      ((elementOnSecondLine "a\x0cb;\n<x/>;\n" 0 4).report "in.jsx").toOption =
        some ("error: not implemented: node kind 'JSXElement'\n  --> in.jsx:2:1\n  |\n" ++
          "2 | b;\n  | ^^^^") := by
  decide +kernel

end EstreePrinter
