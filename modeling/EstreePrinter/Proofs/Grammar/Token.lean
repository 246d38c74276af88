import Mathlib
import EstreePrinter.Proofs.Linearizer.Written

/-!
# Tokens

How a printed text is read: blanks and line feeds separate, and otherwise the longest token that
fits is taken, a word or a punctuator.

* `lex` — the tokens of a text, each with whether a line feed stands before it;
* `Lexeme`, `Renders` — the other way round: a text is put together from tokens and gaps between
  them;
* **`lex_of_renders`** — the tokens that were put together are the ones that are read, if no two of
  them stand side by side that would be read differently (`Separate`).
-/

namespace EstreePrinter

namespace Grammar

/-! ## Words and punctuators -/

/-- Blanks and line ends beyond ASCII, as ranges of code points. -/
def foreignBlanks : List (Nat × Nat) :=
  [(0xA0, 0xA0), (0x1680, 0x1680), (0x2000, 0x200A), (0x2028, 0x2029), (0x202F, 0x202F),
    (0x205F, 0x205F), (0x3000, 0x3000), (0xFEFF, 0xFEFF)]

/-- A character that words are made of.  Beyond ASCII every character is taken for one that is no
blank, which is more than the language allows. -/
def isWordChar (c : Char) : Bool :=
  c.isAlphanum || c == '_' || c == '$' ||
    (127 < c.toNat && !foreignBlanks.any fun r => r.1 ≤ c.toNat && c.toNat ≤ r.2)

/-- Whether a text is one word: word characters only, and no digit in front. -/
def isWord (s : String) : Bool :=
  match s.toList with
  | [] => false
  | c :: rest => !c.isDigit && (c :: rest).all isWordChar

/-- A text that is one word. -/
def IsWord (s : String) : Prop := isWord s = true

instance (s : String) : Decidable (IsWord s) := inferInstanceAs (Decidable (isWord s = true))

lemma IsWord.exists_chars {s : String} (h : IsWord s) :
    ∃ c rest, s.toList = c :: rest ∧ c.isDigit = false ∧ ∀ d ∈ c :: rest, isWordChar d = true := by
  unfold IsWord isWord at h
  split at h
  · simp at h
  · rename_i c rest hchars
    rw [Bool.and_eq_true, Bool.not_eq_true', List.all_eq_true] at h
    exact ⟨c, rest, hchars, h⟩

/-- What is read as one token though it is no word.  The openings of comments are among them: a text
in which one is read has no reading as an expression. -/
def punctuators : List String :=
  ["(", ")", "[", "]", "\x7b", "\x7d", ".", "...", ";", ",", "<", ">", "<=", ">=", "==", "!=",
    "===", "!==", "+", "-", "*", "/", "%", "**", "++", "--", "<<", ">>", ">>>", "&", "|", "^", "!",
    "~", "&&", "||", "??", "?", "?.", ":", "=", "+=", "-=", "*=", "/=", "%=", "**=", "<<=", ">>=",
    ">>>=", "&=", "|=", "^=", "&&=", "||=", "??=", "=>", "//", "/*", "<!--", "-->"]

/-- The first of the longest of some texts. -/
def longest : List String → Option String
  | [] => none
  | p :: rest =>
    match longest rest with
    | none => some p
    | some q => some (if p.toList.length < q.toList.length then q else p)

/-- The longest punctuator that a text begins with. -/
def munch (text : List Char) : Option String :=
  longest (punctuators.filter fun p => p.toList.isPrefixOf text)

/-! ## Reading a text -/

/-- A token, and whether a line feed stands before it. -/
structure Token where
  text : String
  newline : Bool
  deriving DecidableEq, Repr

/-- The tokens of a text, if it consists of tokens; `newline` tells whether a line feed stands
before it. -/
def lex (newline : Bool) (text : List Char) : Option (List Token) :=
  match text with
  | [] => some []
  | c :: rest =>
    if isBlank c then lex (newline || c == '\n') rest
    else if isWordChar c && !c.isDigit then
      (lex false (rest.dropWhile isWordChar)).map
        (⟨String.ofList (c :: rest.takeWhile isWordChar), newline⟩ :: ·)
    else
      match munch (c :: rest) with
      | none => none
      | some p => (lex false (rest.drop (p.toList.length - 1))).map (⟨p, newline⟩ :: ·)
termination_by text.length
decreasing_by
  · simp
  · have := (List.dropWhile_suffix isWordChar (l := rest)).length_le
    simp only [List.length_cons]
    omega
  · simp only [List.length_cons, List.length_drop]
    omega

/-! ## Putting a text together -/

/-- A gap, which is blank and may hold line feeds, or a token. -/
inductive Lexeme where
  | gap (newline : Bool)
  | token (text : String)

/-- What a lexeme looks like in a text. -/
def Lexeme.Renders : Lexeme → List Char → Prop
  | .gap newline, text =>
      text ≠ [] ∧ (∀ c ∈ text, isBlank c = true) ∧ newline = text.contains '\n'
  | .token s, text => text = s.toList

/-- What lexemes look like one after the other. -/
def Renders : List Lexeme → List Char → Prop
  | [], text => text = []
  | l :: rest, text =>
      ∃ first others, text = first ++ others ∧ l.Renders first ∧ Renders rest others

/-- The tokens among lexemes; `newline` tells whether a line feed stands before the first one. -/
def tokensOf (newline : Bool) : List Lexeme → List Token
  | [] => []
  | .gap b :: rest => tokensOf (newline || b) rest
  | .token s :: rest => ⟨s, newline⟩ :: tokensOf false rest

/-- Whether a line feed stands behind the last token. -/
def gapAfter (newline : Bool) : List Lexeme → Bool
  | [] => newline
  | .gap b :: rest => gapAfter (newline || b) rest
  | .token _ :: rest => gapAfter false rest

/-- Two tokens that are read apart when they stand side by side: not two words, and no punctuator
is the first one and a beginning of the second. -/
def Apart (s t : String) : Prop :=
  (IsWord s → ¬IsWord t) ∧
    ∀ c, t.toList.head? = some c → ∀ p ∈ punctuators, ¬(s.toList ++ [c]) <+: p.toList

/-- Two lexemes that may stand side by side. -/
def Lexeme.Apart : Lexeme → Lexeme → Prop
  | .token s, .token t => Grammar.Apart s t
  | _, _ => True

/-- A lexeme that can be read by itself. -/
def Lexeme.IsRead : Lexeme → Prop
  | .gap _ => True
  | .token s => IsWord s ∨ s ∈ punctuators

/-- Lexemes that can be told apart when they are read. -/
structure Separate (ls : List Lexeme) : Prop where
  apart : ls.IsChain Lexeme.Apart
  read : ∀ l ∈ ls, l.IsRead

lemma Renders.append {ls ms : List Lexeme} {text more : List Char} (h : Renders ls text)
    (h' : Renders ms more) : Renders (ls ++ ms) (text ++ more) := by
  induction ls generalizing text with
  | nil =>
      obtain rfl : text = [] := h
      exact h'
  | cons l rest ih =>
      obtain ⟨first, others, rfl, hfirst, hothers⟩ := h
      exact ⟨first, others ++ more, List.append_assoc .., hfirst, ih hothers⟩

lemma tokensOf_append (newline : Bool) (ls ms : List Lexeme) :
    tokensOf newline (ls ++ ms) = tokensOf newline ls ++ tokensOf (gapAfter newline ls) ms := by
  induction ls generalizing newline with
  | nil => rfl
  | cons l rest ih =>
      cases l with
      | gap b => exact ih _
      | token s => simp [tokensOf, gapAfter, ih]

lemma gapAfter_append (newline : Bool) (ls ms : List Lexeme) :
    gapAfter newline (ls ++ ms) = gapAfter (gapAfter newline ls) ms := by
  induction ls generalizing newline with
  | nil => rfl
  | cons l rest ih =>
      cases l with
      | gap b => exact ih _
      | token s => exact ih _

/-! ## What is put together is read back -/

lemma punctuator_chars : ∀ p ∈ punctuators,
    p.toList ≠ [] ∧ ∀ c ∈ p.toList, isWordChar c = false ∧ isBlank c = false := by
  have hall : punctuators.all (fun p =>
      !p.toList.isEmpty && p.toList.all fun c => !isWordChar c && !isBlank c) = true := by
    decide
  simpa using hall

lemma isBlank_of_isWordChar {c : Char} (h : isWordChar c = true) : isBlank c = false := by
  by_contra hblank
  simp only [Bool.not_eq_false, isBlank, Bool.or_eq_true, beq_iff_eq] at hblank
  rcases hblank with (rfl | rfl) | rfl
  · exact absurd h (by decide)
  · exact absurd h (by decide)
  · exact absurd h (by decide)

/-- No punctuator is a word. -/
lemma not_isWord_of_mem {p : String} (h : p ∈ punctuators) : ¬IsWord p := by
  intro hp
  obtain ⟨c, rest, hp, -, hword⟩ := hp.exists_chars
  have hc : c ∈ p.toList := by simp [hp]
  have := ((punctuator_chars p h).2 c hc).1
  simp [hword c (by simp)] at this

lemma mem_of_longest {list : List String} {p : String} (h : longest list = some p) : p ∈ list := by
  induction list generalizing p with
  | nil => simp [longest] at h
  | cons q rest ih =>
      rw [longest] at h
      cases hrest : longest rest with
      | none =>
          simp only [hrest, Option.some.injEq] at h
          simp [h]
      | some r =>
          simp only [hrest, Option.some.injEq] at h
          split at h
          · exact List.mem_cons_of_mem _ (h ▸ ih hrest)
          · simp [h]

/-- The longest of some texts is found, if all of that length are the same. -/
lemma longest_eq {list : List String} {p : String} (hp : p ∈ list)
    (hlist : ∀ q ∈ list, q.toList.length ≤ p.toList.length ∧
      (q.toList.length = p.toList.length → q = p)) : longest list = some p := by
  induction list with
  | nil => exact absurd hp List.not_mem_nil
  | cons q rest ih =>
      have hrest : ∀ q' ∈ rest, q'.toList.length ≤ p.toList.length ∧
          (q'.toList.length = p.toList.length → q' = p) := fun q' hq' => hlist q' (by simp [hq'])
      obtain ⟨hle, heq⟩ := hlist q (by simp)
      rw [longest]
      rcases List.mem_cons.mp hp with rfl | hmem
      · cases hlongest : longest rest with
        | none => rfl
        | some r =>
            have hr := (hrest r (mem_of_longest hlongest)).1
            simp only [if_neg (by omega : ¬p.toList.length < r.toList.length)]
      · rw [ih hmem hrest]
        by_cases hlength : q.toList.length < p.toList.length
        · simp only [if_pos hlength]
        · simp only [if_neg hlength, Option.some.injEq]
          exact heq (by omega)

/-- A punctuator is read whole, and nothing beyond it, if no longer one begins like this. -/
lemma munch_eq {p : String} (hp : p ∈ punctuators) {rest : List Char}
    (hrest : ∀ c, rest.head? = some c → ∀ q ∈ punctuators, ¬(p.toList ++ [c]) <+: q.toList) :
    munch (p.toList ++ rest) = some p := by
  refine longest_eq ?_ ?_
  · rw [List.mem_filter]
    exact ⟨hp, List.isPrefixOf_iff_prefix.mpr (List.prefix_append ..)⟩
  · intro q hq
    rw [List.mem_filter, List.isPrefixOf_iff_prefix] at hq
    obtain ⟨hq, hfits⟩ := hq
    have hlength : q.toList.length ≤ p.toList.length := by
      by_contra hlonger
      cases rest with
      | nil =>
          rw [List.append_nil] at hfits
          exact hlonger hfits.length_le
      | cons c rest =>
          refine hrest c rfl q hq (List.prefix_of_prefix_length_le ?_ hfits ?_)
          · exact ⟨rest, by simp⟩
          · simp only [List.length_append, List.length_singleton]
            omega
    refine ⟨hlength, fun heq => ?_⟩
    have hbegins : q.toList <+: p.toList :=
      List.prefix_of_prefix_length_le hfits (List.prefix_append ..) hlength
    exact String.toList_inj.mp (hbegins.eq_of_length heq)

/-- What a text begins with behind a lexeme that may stand before it. -/
lemma head_of_renders {ls : List Lexeme} {text : List Char} (h : Renders ls text)
    (hread : ∀ l ∈ ls, l.IsRead) {c : Char} (hc : text.head? = some c) :
    isBlank c = true ∨ ∃ s rest, ls = .token s :: rest ∧ s.toList.head? = some c := by
  cases ls with
  | nil =>
      obtain rfl : text = [] := h
      simp at hc
  | cons l rest =>
      obtain ⟨first, others, rfl, hfirst, -⟩ := h
      cases l with
      | gap b =>
          obtain ⟨hne, hblank, -⟩ := hfirst
          cases first with
          | nil => exact absurd rfl hne
          | cons d ds =>
              obtain rfl : d = c := by simpa using hc
              exact Or.inl (hblank d (by simp))
      | token s =>
          obtain rfl : first = s.toList := hfirst
          refine Or.inr ⟨s, rest, rfl, ?_⟩
          have hne : s.toList ≠ [] := by
            rcases hread (.token s) (by simp) with hs | hs
            · obtain ⟨d, ds, hs, -⟩ := hs.exists_chars
              simp [hs]
            · exact (punctuator_chars s hs).1
          cases hs : s.toList with
          | nil => exact absurd hs hne
          | cons d ds =>
              rw [hs] at hc
              simpa using hc

/-- Blanks are skipped. -/
lemma lex_blanks {blanks : List Char} (h : ∀ c ∈ blanks, isBlank c = true) (newline : Bool)
    (rest : List Char) :
    lex newline (blanks ++ rest) = lex (newline || blanks.contains '\n') rest := by
  induction blanks generalizing newline with
  | nil => simp
  | cons c blanks ih =>
      have hc := h c (by simp)
      rw [List.cons_append, lex, if_pos hc, ih fun d hd => h d (by simp [hd])]
      congr 1
      simp only [List.contains_cons, Bool.or_assoc, BEq.comm]

lemma lex_word {s : String} (hs : IsWord s) (newline : Bool) {rest : List Char}
    (hrest : ∀ c, rest.head? = some c → isWordChar c = false) :
    lex newline (s.toList ++ rest) = (lex false rest).map (⟨s, newline⟩ :: ·) := by
  obtain ⟨c, cs, hchars, hdigit, hword⟩ := hs.exists_chars
  have hc := hword c (by simp)
  have hcs : ∀ d ∈ cs, isWordChar d = true := fun d hd => hword d (by simp [hd])
  have htake : (cs ++ rest).takeWhile isWordChar = cs := by
    rw [List.takeWhile_append_of_pos hcs]
    cases rest with
    | nil => simp
    | cons d ds => simp [hrest d rfl]
  have hdrop : (cs ++ rest).dropWhile isWordChar = rest := by
    rw [List.dropWhile_append_of_pos hcs]
    cases rest with
    | nil => simp
    | cons d ds => simp [hrest d rfl]
  rw [hchars, List.cons_append, lex, if_neg (by simp [isBlank_of_isWordChar hc]),
    if_pos (by simp [hc, hdigit]), htake, hdrop, ← hchars, String.ofList_toList]

lemma lex_punctuator {p : String} (hp : p ∈ punctuators) (newline : Bool) {rest : List Char}
    (hrest : ∀ c, rest.head? = some c → ∀ q ∈ punctuators, ¬(p.toList ++ [c]) <+: q.toList) :
    lex newline (p.toList ++ rest) = (lex false rest).map (⟨p, newline⟩ :: ·) := by
  have hmunch := munch_eq hp hrest
  obtain ⟨hne, hchars⟩ := punctuator_chars p hp
  cases hp' : p.toList with
  | nil => exact absurd hp' hne
  | cons c cs =>
      rw [hp'] at hmunch hchars
      obtain ⟨hword, hblank⟩ := hchars c (by simp)
      rw [List.cons_append, lex, if_neg (by simp [hblank]), if_neg (by simp [hword]),
        ← List.cons_append, hmunch]
      simp [hp']

/-- **What is put together is read back.** -/
theorem lex_of_renders {ls : List Lexeme} (h : Separate ls) {text : List Char}
    (htext : Renders ls text) (newline : Bool) : lex newline text = some (tokensOf newline ls) := by
  induction ls generalizing text newline with
  | nil =>
      obtain rfl : text = [] := htext
      simp [lex, tokensOf]
  | cons l rest ih =>
      obtain ⟨first, others, rfl, hfirst, hothers⟩ := htext
      have hrest : Separate rest :=
        ⟨h.apart.tail, fun l' hl' => h.read l' (by simp [hl'])⟩
      cases l with
      | gap b =>
          obtain ⟨-, hblank, rfl⟩ := hfirst
          rw [lex_blanks hblank, ih hrest hothers]
          rfl
      | token s =>
          obtain rfl : first = s.toList := hfirst
          -- what follows is blank or a token that is told apart from this one
          have hnext {c : Char} (hc : others.head? = some c) : isBlank c = true ∨
              ∃ t, t.toList.head? = some c ∧ Apart s t ∧ (Lexeme.token t).IsRead := by
            rcases head_of_renders hothers hrest.read hc with hblank | ⟨t, more, rfl, ht⟩
            · exact Or.inl hblank
            · exact Or.inr ⟨t, ht, (List.isChain_cons_cons.mp h.apart).1, h.read _ (by simp)⟩
          have hlex : lex newline (s.toList ++ others) =
              (lex false others).map (⟨s, newline⟩ :: ·) := by
            rcases h.read (.token s) (by simp) with hs | hs
            · refine lex_word hs newline fun c hc => ?_
              rcases hnext hc with hblank | ⟨t, ht, hapart, hread⟩
              · by_contra hword
                rw [Bool.not_eq_false] at hword
                simp [isBlank_of_isWordChar hword] at hblank
              · rcases hread with hword | hmem
                · exact absurd hword (hapart.1 hs)
                · exact ((punctuator_chars t hmem).2 c (List.mem_of_head? ht)).1
            · refine lex_punctuator hs newline fun c hc q hq hbegins => ?_
              rcases hnext hc with hblank | ⟨t, ht, hapart, -⟩
              · have hcq : c ∈ q.toList := hbegins.subset (by simp)
                simp [((punctuator_chars q hq).2 c hcq).2] at hblank
              · exact hapart.2 c ht q hq hbegins
          rw [hlex, ih hrest hothers]
          rfl

end Grammar

end EstreePrinter
