import Mathlib
import EstreePrinter.Proofs.Grammar.Token

/-!
# Scanning

How a text is read when templates occur in it.  A backtick opens a template and a closing brace goes
on with one: in the grammars that are read this way a brace occurs nowhere else.  Which signs there
are depends on the grammar (`Vocabulary`); the longest one that fits is taken, as in `lex`.

* `templatePart` — a template up to its end or to its next hole;
* `scan` — the tokens of a text;
* `Legible` — lexemes of which no two stand side by side that would be read differently;
* **`scan_of_renders`** — such lexemes are read back.
-/

namespace EstreePrinter

namespace Grammar

/-! ## Templates -/

/-- The character that opens and closes a template. -/
def backtick : Char := '\x60'

/-- A character that a part of a template begins with. -/
def isSeam (c : Char) : Bool := c == backtick || c == '\x7d'

/-- The characters of a template up to its end or to its next hole, with what marks them.  A
backslash takes the character behind it along. -/
def templatePart : List Char → Option (List Char)
  | [] => none
  | [c] => if c == backtick then some [c] else none
  | c :: d :: rest =>
    if c == backtick then some [c]
    else if c == '$' && d == '\x7b' then some [c, d]
    else if c == '\\' then (templatePart rest).map fun part => c :: d :: part
    else (templatePart (d :: rest)).map (c :: ·)

/-- What a template part goes on with is not looked at. -/
lemma templatePart_append {text part : List Char} (h : templatePart text = some part)
    (more : List Char) : templatePart (text ++ more) = some part := by
  fun_induction templatePart text generalizing part with
  | case1 => cases h
  | case2 c hc =>
      obtain rfl : [c] = part := by simpa using h
      cases more with
      | nil => simp [templatePart, hc]
      | cons d more => simp [templatePart, hc]
  | case3 c hc => cases h
  | case4 c d rest hc =>
      obtain rfl : [c] = part := by simpa using h
      simp [templatePart, hc]
  | case5 c d rest hc hhole =>
      obtain rfl : [c, d] = part := by simpa using h
      simp [templatePart, hc, hhole]
  | case6 c d rest hc hhole hescape ih =>
      obtain ⟨part, hpart, rfl⟩ := Option.map_eq_some_iff.mp h
      simp [templatePart, hc, hhole, hescape, ih hpart]
  | case7 c d rest hc hhole hescape ih =>
      obtain ⟨part, hpart, rfl⟩ := Option.map_eq_some_iff.mp h
      have := ih hpart
      rw [List.cons_append] at this
      simp [templatePart, hc, hhole, hescape, this]

/-- A text that can stand in a template: it is not ended and has no hole in it.  A carriage return
in a template stands for a line feed, so that none is ever read. -/
def IsRaw (s : String) : Prop :=
  templatePart (s.toList ++ [backtick]) = some (s.toList ++ [backtick]) ∧ '\r' ∉ s.toList

instance (s : String) : Decidable (IsRaw s) :=
  inferInstanceAs (Decidable (_ = _ ∧ _))

/-- What is read up to a backtick is read up to a hole as well. -/
lemma templatePart_hole (text : List Char)
    (h : templatePart (text ++ [backtick]) = some (text ++ [backtick])) :
    templatePart (text ++ ['$', '\x7b']) = some (text ++ ['$', '\x7b']) := by
  have hhole : templatePart ['$', '\x7b'] = some ['$', '\x7b'] := by decide
  match text with
  | [] => exact hhole
  | [c] =>
      by_cases hc : c == backtick
      · simp [templatePart, hc] at h
      · by_cases hescape : c == '\\'
        · simp [templatePart, hescape, backtick] at h
        · simp [templatePart, hc, hescape, (by decide : '$' ≠ backtick)]
  | c :: d :: rest =>
      rw [List.cons_append, List.cons_append, templatePart] at h ⊢
      by_cases hc : (c == backtick) = true
      · simp [hc] at h
      · rw [if_neg hc] at h ⊢
        by_cases hbrace : (c == '$' && d == '\x7b') = true
        · simp [hbrace] at h
        · rw [if_neg hbrace] at h ⊢
          by_cases hescape : (c == '\\') = true
          · rw [if_pos hescape] at h ⊢
            obtain ⟨part, hpart, heq⟩ := Option.map_eq_some_iff.mp h
            obtain rfl : part = rest ++ [backtick] := by simpa using heq
            simp [templatePart_hole rest hpart]
          · rw [if_neg hescape] at h ⊢
            obtain ⟨part, hpart, heq⟩ := Option.map_eq_some_iff.mp h
            obtain rfl : part = d :: rest ++ [backtick] := by simpa using heq
            have := templatePart_hole (d :: rest) hpart
            rw [List.cons_append] at this
            simp [this]

/-- A token that is a part of a template: from a backtick or a closing brace up to a backtick or a
hole. -/
def IsTemplate (s : String) : Prop :=
  ∃ c rest, s.toList = c :: rest ∧ isSeam c = true ∧ templatePart rest = some rest

/-- The four kinds of template parts. -/
lemma isTemplate_of_isRaw {raw front back : String} (h : IsRaw raw)
    (hfront : front = "`" ∨ front = "\x7d") (hback : back = "`" ∨ back = "$\x7b") :
    IsTemplate (front ++ raw ++ back) := by
  have hrest : templatePart (raw.toList ++ back.toList) = some (raw.toList ++ back.toList) := by
    rcases hback with rfl | rfl
    · exact h.1
    · exact templatePart_hole _ h.1
  rcases hfront with rfl | rfl
  · exact ⟨backtick, raw.toList ++ back.toList, by simp [backtick], rfl, hrest⟩
  · exact ⟨'\x7d', raw.toList ++ back.toList, by simp, rfl, hrest⟩

/-! ## Reading a text -/

/-- The signs of a language: they hold no characters of words, no blanks, and nothing that a part of
a template begins with. -/
structure Vocabulary where
  signs : List String
  plain : ∀ p ∈ signs, p.toList ≠ [] ∧
    ∀ c ∈ p.toList, isWordChar c = false ∧ isBlank c = false ∧ isSeam c = false

/-- That signs are plain can be checked. -/
lemma plain_of_all {signs : List String}
    (h : (signs.all fun p => !p.toList.isEmpty && p.toList.all fun c =>
      !isWordChar c && !isBlank c && !isSeam c) = true) :
    ∀ p ∈ signs, p.toList ≠ [] ∧
      ∀ c ∈ p.toList, isWordChar c = false ∧ isBlank c = false ∧ isSeam c = false := by
  simpa [and_assoc] using h

/-- The signs of expressions are plain. -/
lemma plain_punctuators : ∀ p ∈ punctuators.erase "\x7d", p.toList ≠ [] ∧
    ∀ c ∈ p.toList, isWordChar c = false ∧ isBlank c = false ∧ isSeam c = false :=
  plain_of_all (by decide)

variable {v : Vocabulary}

/-- The longest sign that a text begins with. -/
def Vocabulary.munch (v : Vocabulary) (text : List Char) : Option String :=
  longest (v.signs.filter fun p => p.toList.isPrefixOf text)

/-- The tokens of a text, if it consists of tokens; `newline` tells whether a line feed stands
before it. -/
def scan (v : Vocabulary) (newline : Bool) (text : List Char) : Option (List Token) :=
  match text with
  | [] => some []
  | c :: rest =>
    if isBlank c then scan v (newline || c == '\n') rest
    else if isSeam c then
      match templatePart rest with
      | none => none
      | some part =>
        (scan v false (rest.drop part.length)).map (⟨String.ofList (c :: part), newline⟩ :: ·)
    else if isWordChar c && !c.isDigit then
      (scan v false (rest.dropWhile isWordChar)).map
        (⟨String.ofList (c :: rest.takeWhile isWordChar), newline⟩ :: ·)
    else
      match v.munch (c :: rest) with
      | none => none
      | some p => (scan v false (rest.drop (p.toList.length - 1))).map (⟨p, newline⟩ :: ·)
termination_by text.length
decreasing_by
  · simp
  · simp only [List.length_cons, List.length_drop]
    omega
  · have := (List.dropWhile_suffix isWordChar (l := rest)).length_le
    simp only [List.length_cons]
    omega
  · simp only [List.length_cons, List.length_drop]
    omega

/-! ## Putting a text together -/

/-- Two tokens that are read apart when they stand side by side: not two words, and no sign is the
first one and a beginning of the second. -/
def Vocabulary.Apart (v : Vocabulary) (s t : String) : Prop :=
  (IsWord s → ¬IsWord t) ∧
    ∀ c, t.toList.head? = some c → ∀ p ∈ v.signs, ¬(s.toList ++ [c]) <+: p.toList

/-- A token that can be read by itself. -/
def Vocabulary.Reads (v : Vocabulary) (s : String) : Prop := IsWord s ∨ s ∈ v.signs ∨ IsTemplate s

/-- Lexemes that can be told apart when they are read. -/
structure Legible (v : Vocabulary) (ls : List Lexeme) : Prop where
  apart : ls.IsChain fun
    | .token s, .token t => v.Apart s t
    | _, _ => True
  reads : ∀ s, .token s ∈ ls → v.Reads s

/-- Two tokens that are written without a gap can be taken for one. -/
lemma Renders.fuse {s t : String} {ls : List Lexeme} {text : List Char}
    (h : Renders (.token s :: .token t :: ls) text) : Renders (.token (s ++ t) :: ls) text := by
  obtain ⟨first, others, rfl, hfirst, second, rest, rfl, hsecond, hrest⟩ := h
  obtain rfl : first = s.toList := hfirst
  obtain rfl : second = t.toList := hsecond
  exact ⟨(s ++ t).toList, rest, by simp, rfl, hrest⟩

lemma renders_append_iff {ls ms : List Lexeme} {text : List Char} :
    Renders (ls ++ ms) text ↔
      ∃ first others, text = first ++ others ∧ Renders ls first ∧ Renders ms others := by
  constructor
  · intro h
    induction ls generalizing text with
    | nil => exact ⟨[], text, rfl, rfl, h⟩
    | cons l rest ih =>
        obtain ⟨first, others, rfl, hfirst, hothers⟩ := h
        obtain ⟨front, back, rfl, hfront, hback⟩ := ih hothers
        exact ⟨first ++ front, back, (List.append_assoc ..).symm,
          ⟨first, front, rfl, hfirst, hfront⟩, hback⟩
  · rintro ⟨first, others, rfl, hfirst, hothers⟩
    exact hfirst.append hothers

/-! ## What is put together is read back -/

lemma isWordChar_of_isSeam {c : Char} (h : isSeam c = true) :
    isWordChar c = false ∧ isBlank c = false := by
  simp only [isSeam, backtick, Bool.or_eq_true, beq_iff_eq] at h
  rcases h with rfl | rfl
  · decide
  · decide

lemma not_isWord_of_isTemplate {s : String} (h : IsTemplate s) : ¬IsWord s := by
  intro hs
  obtain ⟨c, rest, hchars, hseam, -⟩ := h
  obtain ⟨d, more, hchars', -, hword⟩ := hs.exists_chars
  obtain ⟨rfl, rfl⟩ : c = d ∧ rest = more := by simpa using hchars.symm.trans hchars'
  simp [(isWordChar_of_isSeam hseam).1] at hword

/-- What a token begins with. -/
lemma Vocabulary.Reads.exists_head {s : String} (h : v.Reads s) :
    ∃ c rest, s.toList = c :: rest ∧ isBlank c = false ∧ (isWordChar c = true → IsWord s) := by
  rcases h with hs | hs | hs
  · obtain ⟨c, rest, hchars, -, hword⟩ := hs.exists_chars
    exact ⟨c, rest, hchars, isBlank_of_isWordChar (hword c (by simp)), fun _ => hs⟩
  · obtain ⟨hne, hplain⟩ := v.plain s hs
    obtain ⟨c, rest, hchars⟩ := List.exists_cons_of_ne_nil hne
    obtain ⟨hword, hblank, -⟩ := hplain c (by simp [hchars])
    exact ⟨c, rest, hchars, hblank, by simp [hword]⟩
  · obtain ⟨c, rest, hchars, hseam, -⟩ := hs
    obtain ⟨hword, hblank⟩ := isWordChar_of_isSeam hseam
    exact ⟨c, rest, hchars, hblank, by simp [hword]⟩

/-- A sign is read whole, and nothing beyond it, if no longer one begins like this. -/
lemma Vocabulary.munch_eq {p : String} (hp : p ∈ v.signs) {rest : List Char}
    (hrest : ∀ c, rest.head? = some c → ∀ q ∈ v.signs, ¬(p.toList ++ [c]) <+: q.toList) :
    v.munch (p.toList ++ rest) = some p := by
  refine longest_eq ?_ ?_
  · rw [List.mem_filter]
    exact ⟨hp, List.isPrefixOf_iff_prefix.mpr (List.prefix_append ..)⟩
  · intro q hq
    rw [List.mem_filter, List.isPrefixOf_iff_prefix] at hq
    obtain ⟨hq, hfits⟩ := hq
    have hlength : q.toList.length ≤ p.toList.length := by
      by_contra hlonger
      cases rest with
      | nil =>
          rw [List.append_nil] at hfits
          exact hlonger hfits.length_le
      | cons c rest =>
          refine hrest c rfl q hq (List.prefix_of_prefix_length_le ?_ hfits ?_)
          · exact ⟨rest, by simp⟩
          · simp only [List.length_append, List.length_singleton]
            omega
    refine ⟨hlength, fun heq => ?_⟩
    have hbegins : q.toList <+: p.toList :=
      List.prefix_of_prefix_length_le hfits (List.prefix_append ..) hlength
    exact String.toList_inj.mp (hbegins.eq_of_length heq)

/-- Blanks are skipped. -/
lemma scan_blanks {blanks : List Char} (h : ∀ c ∈ blanks, isBlank c = true) (newline : Bool)
    (rest : List Char) :
    scan v newline (blanks ++ rest) = scan v (newline || blanks.contains '\n') rest := by
  induction blanks generalizing newline with
  | nil => simp
  | cons c blanks ih =>
      have hc := h c (by simp)
      rw [List.cons_append, scan, if_pos hc, ih fun d hd => h d (by simp [hd])]
      congr 1
      simp only [List.contains_cons, Bool.or_assoc, BEq.comm]

lemma scan_word {s : String} (hs : IsWord s) (newline : Bool) {rest : List Char}
    (hrest : ∀ c, rest.head? = some c → isWordChar c = false) :
    scan v newline (s.toList ++ rest) = (scan v false rest).map (⟨s, newline⟩ :: ·) := by
  obtain ⟨c, cs, hchars, hdigit, hword⟩ := hs.exists_chars
  have hc := hword c (by simp)
  have hseam : isSeam c = false := by
    by_contra hseam
    rw [Bool.not_eq_false] at hseam
    simp [(isWordChar_of_isSeam hseam).1] at hc
  have hcs : ∀ d ∈ cs, isWordChar d = true := fun d hd => hword d (by simp [hd])
  have htake : (cs ++ rest).takeWhile isWordChar = cs := by
    rw [List.takeWhile_append_of_pos hcs]
    cases rest with
    | nil => simp
    | cons d ds => simp [hrest d rfl]
  have hdrop : (cs ++ rest).dropWhile isWordChar = rest := by
    rw [List.dropWhile_append_of_pos hcs]
    cases rest with
    | nil => simp
    | cons d ds => simp [hrest d rfl]
  rw [hchars, List.cons_append, scan, if_neg (by simp [isBlank_of_isWordChar hc]),
    if_neg (by simp [hseam]), if_pos (by simp [hc, hdigit]), htake, hdrop, ← hchars,
    String.ofList_toList]

lemma scan_sign {p : String} (hp : p ∈ v.signs) (newline : Bool) {rest : List Char}
    (hrest : ∀ c, rest.head? = some c → ∀ q ∈ v.signs, ¬(p.toList ++ [c]) <+: q.toList) :
    scan v newline (p.toList ++ rest) = (scan v false rest).map (⟨p, newline⟩ :: ·) := by
  have hmunch := v.munch_eq hp hrest
  obtain ⟨hne, hchars⟩ := v.plain p hp
  cases hp' : p.toList with
  | nil => exact absurd hp' hne
  | cons c cs =>
      rw [hp'] at hmunch hchars
      obtain ⟨hword, hblank, hseam⟩ := hchars c (by simp)
      rw [List.cons_append, scan, if_neg (by simp [hblank]), if_neg (by simp [hseam]),
        if_neg (by simp [hword]), ← List.cons_append, hmunch]
      simp [hp']

lemma scan_template {s : String} (hs : IsTemplate s) (newline : Bool) (rest : List Char) :
    scan v newline (s.toList ++ rest) = (scan v false rest).map (⟨s, newline⟩ :: ·) := by
  obtain ⟨c, part, hchars, hseam, hpart⟩ := hs
  have hblank := (isWordChar_of_isSeam hseam).2
  rw [hchars, List.cons_append, scan, if_neg (by simp [hblank]), if_pos hseam,
    templatePart_append hpart]
  simp [← hchars]

/-- What follows a token begins with a blank, or with a token that is told apart from this one. -/
lemma head_behind_token {s : String} {rest : List Lexeme} (h : Legible v (.token s :: rest))
    {others : List Char} (hothers : Renders rest others) {c : Char}
    (hc : others.head? = some c) : isBlank c = true ∨
      ∃ t, t.toList.head? = some c ∧ v.Apart s t ∧ v.Reads t := by
  cases rest with
  | nil =>
      obtain rfl : others = [] := hothers
      simp at hc
  | cons m more =>
      obtain ⟨second, last, rfl, hsecond, -⟩ := hothers
      cases m with
      | gap b =>
          obtain ⟨hne, hblank, -⟩ := hsecond
          obtain ⟨d, ds, rfl⟩ := List.exists_cons_of_ne_nil hne
          obtain rfl : d = c := by simpa using hc
          exact Or.inl (hblank d (by simp))
      | token t =>
          obtain rfl : second = t.toList := hsecond
          have hreads := h.reads t (by simp)
          obtain ⟨d, ds, hchars, -⟩ := hreads.exists_head
          refine Or.inr ⟨t, ?_, (List.isChain_cons_cons.mp h.apart).1, hreads⟩
          simpa [hchars] using hc

/-- One token is read, whatever stands behind it. -/
lemma scan_token {s : String} {rest : List Lexeme} (h : Legible v (.token s :: rest))
    {others : List Char} (hothers : Renders rest others) (newline : Bool) :
    scan v newline (s.toList ++ others) = (scan v false others).map (⟨s, newline⟩ :: ·) := by
  rcases h.reads s (by simp) with hs | hs | hs
  · refine scan_word hs newline fun c hc => ?_
    by_contra hword
    rw [Bool.not_eq_false] at hword
    rcases head_behind_token h hothers hc with hblank | ⟨t, ht, hapart, hreads⟩
    · simp [isBlank_of_isWordChar hword] at hblank
    · obtain ⟨d, ds, hchars, -, hof⟩ := hreads.exists_head
      obtain rfl : d = c := by simpa [hchars] using ht
      exact hapart.1 hs (hof hword)
  · refine scan_sign hs newline fun c hc q hq hbegins => ?_
    rcases head_behind_token h hothers hc with hblank | ⟨t, ht, hapart, -⟩
    · have hcq : c ∈ q.toList := hbegins.subset (by simp)
      simp [((v.plain q hq).2 c hcq).2.1] at hblank
    · exact hapart.2 c ht q hq hbegins
  · exact scan_template hs newline others

/-- **What is put together is read back.** -/
theorem scan_of_renders {ls : List Lexeme} (h : Legible v ls) {text : List Char}
    (htext : Renders ls text) (newline : Bool) :
    scan v newline text = some (tokensOf newline ls) := by
  induction ls generalizing text newline with
  | nil =>
      obtain rfl : text = [] := htext
      simp [scan, tokensOf]
  | cons l rest ih =>
      obtain ⟨first, others, rfl, hfirst, hothers⟩ := htext
      have hrest : Legible v rest :=
        ⟨h.apart.tail, fun s hs => h.reads s (by simp [hs])⟩
      cases l with
      | gap b =>
          obtain ⟨-, hblank, rfl⟩ := hfirst
          rw [scan_blanks hblank, ih hrest hothers]
          rfl
      | token s =>
          obtain rfl : first = s.toList := hfirst
          rw [scan_token h hothers, ih hrest hothers]
          rfl

end Grammar

end EstreePrinter
