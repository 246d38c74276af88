import Mathlib
import EstreePrinter.Proofs.Grammar.Scan
import EstreePrinter.Proofs.Grammar.Phrase

/-!
# Passages

A passage is a piece of printed text whose lexemes can be told apart and whose tokens have some
property, whatever gap stands before it.  The property is a parameter here: for a grammar it is that
the tokens are derived from a nonterminal with a given tree.  Passages are put together by the shape
of the text alone, so that a grammar has to say no more than which tokens a production puts where.

* `Alphabet` — the signs of a language, and which of them may stand beside a passage;
* `Passage`, `Suffix`, `Content` — a piece of text, what may follow one directly, and what may stand
  between brackets;
* `Padded` — a passage with gaps around it, as a list that is broken over several lines;
* `Passage.followedBy`, `Passage.joined`, `Content.bracketed`, ... — putting them together;
* `DerivesSeparated`, `DerivesListed` — lists, with `Passage.separated` and `Content.commas`.
-/

namespace EstreePrinter

namespace Grammar

/-! ## Alphabets -/

/-- Whether no sign is `p` followed by the beginning of `t`. -/
def Vocabulary.areApart (v : Vocabulary) (p t : String) : Bool :=
  v.signs.all fun q => !(p.toList ++ t.toList.take 1).isPrefixOf q.toList

/-- The signs of a language, and where they may stand beside a passage without a gap. -/
structure Alphabet extends Vocabulary where
  /-- The signs that a passage may begin with. -/
  openers : List String
  /-- The signs that a passage may end with. -/
  closers : List String
  /-- The signs that may stand directly before a passage. -/
  before : List String
  /-- The signs that may stand directly behind a passage. -/
  behind : List String
  mem_signs : ∀ p ∈ openers ++ closers ++ before ++ behind, p ∈ signs
  /-- What stands before a passage, or behind nothing, does not run into what follows. -/
  apart_before : ∀ p ∈ before, ∀ t ∈ openers ++ behind, toVocabulary.areApart p t = true
  apart_behind : ∀ s ∈ closers, ∀ p ∈ behind, toVocabulary.areApart s p = true

section Vocabulary

variable {v : Vocabulary}

lemma Vocabulary.not_isWord {p : String} (h : p ∈ v.signs) : ¬IsWord p := by
  intro hp
  obtain ⟨c, rest, hp, -, hword⟩ := hp.exists_chars
  have := ((v.plain p h).2 c (by simp [hp])).1
  simp [hword c (by simp)] at this

lemma Vocabulary.apart_of_areApart {p t : String} (hp : p ∈ v.signs)
    (h : v.areApart p t = true) : v.Apart p t := by
  refine ⟨fun hword => absurd hword (v.not_isWord hp), fun c hc q hq hbegins => ?_⟩
  have hq := List.all_eq_true.mp h q hq
  have htake : t.toList.take 1 = [c] := by
    cases ht : t.toList with
    | nil => simp [ht] at hc
    | cons d rest => simpa [ht] using hc
  rw [htake] at hq
  simp [List.isPrefixOf_iff_prefix.mpr hbegins] at hq

/-- No sign begins with a word. -/
lemma Vocabulary.apart_of_isWord {s t : String} (hs : IsWord s) (ht : t ∈ v.signs ∨ IsTemplate t) :
    v.Apart s t := by
  refine ⟨fun _ => ?_, fun c _ q hq hbegins => ?_⟩
  · exact ht.elim v.not_isWord not_isWord_of_isTemplate
  · obtain ⟨d, rest, hchars, -, hword⟩ := hs.exists_chars
    have hd : d ∈ q.toList := hbegins.subset (by simp [hchars])
    have := ((v.plain q hq).2 d hd).1
    simp [hword d (by simp)] at this

/-- No sign goes on with a word. -/
lemma Vocabulary.apart_isWord {p s : String} (hp : p ∈ v.signs) (hs : IsWord s) : v.Apart p s := by
  refine ⟨fun hword => absurd hword (v.not_isWord hp), fun c hc q hq hbegins => ?_⟩
  obtain ⟨d, rest, hchars, -, hword⟩ := hs.exists_chars
  obtain rfl : d = c := by simpa [hchars] using hc
  have := ((v.plain q hq).2 d (hbegins.subset (by simp))).1
  simp [hword d (by simp)] at this

/-- A part of a template ends by itself. -/
lemma Vocabulary.apart_of_isTemplate {s t : String} (hs : IsTemplate s) : v.Apart s t := by
  refine ⟨fun hword => absurd hword (not_isWord_of_isTemplate hs), fun c _ q hq hbegins => ?_⟩
  obtain ⟨d, rest, hchars, hseam, -⟩ := hs
  have := ((v.plain q hq).2 d (hbegins.subset (by simp [hchars]))).2.2
  simp [hseam] at this

/-- No sign goes on with a part of a template. -/
lemma Vocabulary.apart_isTemplate {p t : String} (hp : p ∈ v.signs) (ht : IsTemplate t) :
    v.Apart p t := by
  refine ⟨fun hword => absurd hword (v.not_isWord hp), fun c hc q hq hbegins => ?_⟩
  obtain ⟨d, rest, hchars, hseam, -⟩ := ht
  obtain rfl : d = c := by simpa [hchars] using hc
  have := ((v.plain q hq).2 d (hbegins.subset (by simp))).2.2
  simp [hseam] at this

/-! ## Legible lexemes -/

lemma legible_token {s : String} (hs : v.Reads s) : Legible v [.token s] :=
  ⟨.singleton _, by simpa using hs⟩

lemma Legible.append {ls ms : List Lexeme} (h : Legible v ls) (h' : Legible v ms)
    (hmeet : ∀ s t, ls.getLast? = some (.token s) → ms.head? = some (.token t) → v.Apart s t) :
    Legible v (ls ++ ms) := by
  refine ⟨List.isChain_append.mpr ⟨h.apart, h'.apart, ?_⟩, fun s hs => ?_⟩
  · intro x hx y hy
    cases x with
    | gap b => trivial
    | token s =>
        cases y with
        | gap b => trivial
        | token t => exact hmeet s t hx hy
  · exact (List.mem_append.mp hs).elim (h.reads s) (h'.reads s)

/-- Behind a gap anything may stand. -/
lemma Legible.afterGap {ls : List Lexeme} (h : Legible v ls) (b : Bool) :
    Legible v (.gap b :: ls) := by
  have hgap : Legible v [.gap b] := ⟨.singleton _, by simp⟩
  exact hgap.append h (by simp)

/-- Before a gap anything may stand. -/
lemma Legible.beforeGap {ls ms : List Lexeme} (h : Legible v ls) (h' : Legible v ms) (b : Bool) :
    Legible v (ls ++ .gap b :: ms) :=
  h.append (h'.afterGap b) (by simp)

/-- A token before others. -/
lemma Legible.cons {s : String} {ls : List Lexeme} (hs : v.Reads s) (h : Legible v ls)
    (hmeet : ∀ t, ls.head? = some (.token t) → v.Apart s t) : Legible v (.token s :: ls) := by
  refine (legible_token hs).append h fun u t hu ht => ?_
  obtain rfl : s = u := by simpa using hu
  exact hmeet t ht

end Vocabulary

variable {A : Alphabet} {P Q R : List Token → Prop} {ls ms : List Lexeme}

namespace Alphabet

lemma reads_of_mem {p : String} (h : p ∈ A.openers ++ A.closers ++ A.before ++ A.behind) :
    A.toVocabulary.Reads p := Or.inr (Or.inl (A.mem_signs p h))

/-- Lexemes that begin as a passage does. -/
def Starts (A : Alphabet) (ls : List Lexeme) : Prop :=
  ∃ t, ls.head? = some (.token t) ∧ (IsWord t ∨ t ∈ A.openers)

/-- Lexemes that end as a passage does. -/
def Ends (A : Alphabet) (ls : List Lexeme) : Prop :=
  ∃ t, ls.getLast? = some (.token t) ∧ (IsWord t ∨ t ∈ A.closers ∨ IsTemplate t)

/-- Lexemes that may follow a passage directly. -/
def Follows (A : Alphabet) (ls : List Lexeme) : Prop :=
  ∃ t, ls.head? = some (.token t) ∧ (t ∈ A.behind ∨ IsTemplate t)

lemma Starts.append (h : A.Starts ls) (ms : List Lexeme) : A.Starts (ls ++ ms) := by
  obtain ⟨t, ht, hstart⟩ := h
  exact ⟨t, by simp [List.head?_append, ht], hstart⟩

lemma Ends.append (h : A.Ends ms) (ls : List Lexeme) : A.Ends (ls ++ ms) := by
  obtain ⟨t, ht, hend⟩ := h
  exact ⟨t, by simp [List.getLast?_append, ht], hend⟩

lemma Follows.append (h : A.Follows ls) (ms : List Lexeme) : A.Follows (ls ++ ms) := by
  obtain ⟨t, ht, hfollows⟩ := h
  exact ⟨t, by simp [List.head?_append, ht], hfollows⟩

lemma Ends.gapAfter_eq (h : A.Ends ls) (b : Bool) : gapAfter b ls = false := by
  obtain ⟨t, hlast, -⟩ := h
  obtain ⟨init, rfl⟩ := List.getLast?_eq_some_iff.mp hlast
  rw [gapAfter_append]
  rfl

/-- What ends a passage stands apart from what follows it. -/
lemma apart_of_ends {s t : String} (hs : IsWord s ∨ s ∈ A.closers ∨ IsTemplate s)
    (ht : t ∈ A.behind ∨ IsTemplate t) : A.toVocabulary.Apart s t := by
  have hmem : t ∈ A.signs ∨ IsTemplate t :=
    ht.imp_left fun ht => A.mem_signs t (by simp [ht])
  rcases hs with hs | hs | hs
  · exact Vocabulary.apart_of_isWord hs hmem
  · have hs' := A.mem_signs s (by simp [hs])
    rcases ht with ht | ht
    · exact Vocabulary.apart_of_areApart hs' (A.apart_behind s hs t ht)
    · exact Vocabulary.apart_isTemplate hs' ht
  · exact Vocabulary.apart_of_isTemplate hs

/-- What stands before a passage stands apart from it. -/
lemma apart_of_before {p t : String} (hp : p ∈ A.before ∨ IsTemplate p)
    (ht : IsWord t ∨ t ∈ A.openers ++ A.behind ∨ IsTemplate t) : A.toVocabulary.Apart p t := by
  rcases hp with hp | hp
  · have hp' := A.mem_signs p (by simp [hp])
    rcases ht with ht | ht | ht
    · exact Vocabulary.apart_isWord hp' ht
    · exact Vocabulary.apart_of_areApart hp' (A.apart_before p hp t ht)
    · exact Vocabulary.apart_isTemplate hp' ht
  · exact Vocabulary.apart_of_isTemplate hp

end Alphabet

/-- What follows a passage directly. -/
lemma Legible.follow (h : Legible A.toVocabulary ls) (hends : A.Ends ls)
    (h' : Legible A.toVocabulary ms) (hfollows : A.Follows ms) :
    Legible A.toVocabulary (ls ++ ms) := by
  obtain ⟨s, hlast, hs⟩ := hends
  obtain ⟨t, hhead, ht⟩ := hfollows
  refine h.append h' fun u w hu hw => ?_
  obtain rfl : s = u := by simpa [hlast] using hu
  obtain rfl : t = w := by simpa [hhead] using hw
  exact Alphabet.apart_of_ends hs ht

/-- What stands directly before a passage, or before what may follow one. -/
lemma Legible.lead {p : String} (hp : p ∈ A.before ∨ IsTemplate p)
    (h : Legible A.toVocabulary ls) (hstarts : A.Starts ls ∨ A.Follows ls) :
    Legible A.toVocabulary (.token p :: ls) := by
  have hreads : A.toVocabulary.Reads p :=
    hp.elim (fun hp => Alphabet.reads_of_mem (by simp [hp])) fun hp => Or.inr (Or.inr hp)
  refine h.cons hreads fun t ht => Alphabet.apart_of_before hp ?_
  rcases hstarts with ⟨u, hu, hstart⟩ | ⟨u, hu, hfollow⟩
  · obtain rfl : u = t := by simpa [hu] using ht
    exact hstart.imp_right fun hstart => Or.inl (List.mem_append_left _ hstart)
  · obtain rfl : u = t := by simpa [hu] using ht
    exact Or.inr (hfollow.imp_left (List.mem_append_right _))

/-! ## Passages -/

/-- **Lexemes that can be read, with a property of their tokens** that does not depend on what
stands before them. -/
structure Passage (A : Alphabet) (P : List Token → Prop) (ls : List Lexeme) : Prop where
  legible : Legible A.toVocabulary ls
  starts : A.Starts ls
  ends : A.Ends ls
  holds : ∀ b, P (tokensOf b ls)

/-- Lexemes that follow a passage directly, with a property of their tokens. -/
structure Suffix (A : Alphabet) (P : List Token → Prop) (ls : List Lexeme) : Prop where
  legible : Legible A.toVocabulary ls
  follows : A.Follows ls
  ends : A.Ends ls
  holds : P (tokensOf false ls)

/-- Lexemes that stand between brackets: nothing or a passage, with gaps around it or not. -/
structure Content (A : Alphabet) (P : List Token → Prop) (ls : List Lexeme) : Prop where
  legible : Legible A.toVocabulary ls
  starts : ∀ t, ls.head? = some (.token t) → IsWord t ∨ t ∈ A.openers
  ends : ∀ t, ls.getLast? = some (.token t) → IsWord t ∨ t ∈ A.closers ∨ IsTemplate t
  holds : ∀ b, P (tokensOf b ls)

namespace Passage

lemma mono (h : Passage A P ls) (hPQ : ∀ ts, P ts → Q ts) : Passage A Q ls :=
  ⟨h.legible, h.starts, h.ends, fun b => hPQ _ (h.holds b)⟩

lemma content (h : Passage A P ls) : Content A P ls := by
  refine ⟨h.legible, fun t ht => ?_, fun t ht => ?_, h.holds⟩
  · obtain ⟨u, hu, hstart⟩ := h.starts
    obtain rfl : u = t := by simpa [hu] using ht
    exact hstart
  · obtain ⟨u, hu, hend⟩ := h.ends
    obtain rfl : u = t := by simpa [hu] using ht
    exact hend

/-- The tokens behind a passage. -/
lemma tokensOf_append (h : Passage A P ls) (b : Bool) (ms : List Lexeme) :
    tokensOf b (ls ++ ms) = tokensOf b ls ++ tokensOf false ms := by
  rw [Grammar.tokensOf_append, h.ends.gapAfter_eq]

lemma word {s : String} (hs : IsWord s) (h : ∀ b, P [⟨s, b⟩]) : Passage A P [.token s] :=
  ⟨legible_token (Or.inl hs), ⟨s, rfl, Or.inl hs⟩, ⟨s, rfl, Or.inl hs⟩, h⟩

/-- A passage and what follows it directly. -/
lemma followedBy (h : Passage A P ls) (h' : Suffix A Q ms)
    (hR : ∀ ts us, P ts → Q us → R (ts ++ us)) : Passage A R (ls ++ ms) where
  legible := h.legible.follow h.ends h'.legible h'.follows
  starts := h.starts.append ms
  ends := h'.ends.append ls
  holds b := by
    rw [h.tokensOf_append]
    exact hR _ _ (h.holds b) h'.holds

/-- A sign directly before a passage. -/
lemma behindSign (h : Passage A P ls) {op : String} (hop : op ∈ A.openers)
    (hmeet : ∀ t, ls.head? = some (.token t) → A.toVocabulary.Apart op t)
    (hQ : ∀ c ts, P ts → Q (⟨op, c⟩ :: ts)) : Passage A Q (.token op :: ls) where
  legible := h.legible.cons (Alphabet.reads_of_mem (by simp [hop])) hmeet
  starts := ⟨op, rfl, Or.inr hop⟩
  ends := h.ends.append [.token op]
  holds c := by simpa [tokensOf] using hQ c _ (h.holds false)

/-- A sign, and what goes with it, behind a passage that ends with a word. -/
lemma behindWord (h : Passage A P ls) {s : String} (hlast : ls.getLast? = some (.token s))
    (hs : IsWord s) (h' : Legible A.toVocabulary ms) {p : String}
    (hhead : ms.head? = some (.token p)) (hp : p ∈ A.signs) (hends : A.Ends ms)
    (hR : ∀ ts, P ts → R (ts ++ tokensOf false ms)) : Passage A R (ls ++ ms) where
  legible := by
    refine h.legible.append h' fun u t hu ht => ?_
    obtain rfl : s = u := by simpa [hlast] using hu
    obtain rfl : p = t := by simpa [hhead] using ht
    exact Vocabulary.apart_of_isWord hs (Or.inl hp)
  starts := h.starts.append ms
  ends := hends.append ls
  holds b := by
    rw [h.tokensOf_append]
    exact hR _ (h.holds b)

end Passage

/-- A sign and a word. -/
lemma legible_signWord {p s : String} (hp : p ∈ A.signs) (hs : IsWord s) :
    Legible A.toVocabulary [.token p, .token s] := by
  refine (legible_token (Or.inl hs)).cons (Or.inr (Or.inl hp)) fun t ht => ?_
  obtain rfl : s = t := by simpa using ht
  exact Vocabulary.apart_isWord hp hs

/-- A sign that ends what follows a passage. -/
lemma suffix_sign {p : String} (hp : p ∈ A.behind) (hp' : p ∈ A.closers) (h : P [⟨p, false⟩]) :
    Suffix A P [.token p] :=
  ⟨legible_token (Alphabet.reads_of_mem (by simp [hp])), ⟨p, rfl, Or.inl hp⟩,
    ⟨p, rfl, Or.inr (Or.inl hp')⟩, h⟩

/-- A sign and a word behind a passage. -/
lemma suffix_word {p s : String} (hp : p ∈ A.behind) (hs : IsWord s)
    (h : P [⟨p, false⟩, ⟨s, false⟩]) : Suffix A P [.token p, .token s] :=
  ⟨legible_signWord (A.mem_signs p (by simp [hp])) hs, ⟨p, rfl, Or.inl hp⟩, ⟨s, rfl, Or.inl hs⟩, h⟩

/-- A sign directly before what follows a passage. -/
lemma Suffix.behindSign (h : Suffix A P ls) {p : String} (hp : p ∈ A.behind)
    (hbefore : p ∈ A.before) (hQ : ∀ ts, P ts → Q (⟨p, false⟩ :: ts)) :
    Suffix A Q (.token p :: ls) where
  legible := h.legible.lead (Or.inl hbefore) (Or.inr h.follows)
  follows := ⟨p, rfl, Or.inl hp⟩
  ends := h.ends.append [.token p]
  holds := hQ _ h.holds

/-! ## Brackets -/

/-- Lexemes between brackets. -/
def between (p q : String) (ls : List Lexeme) : List Lexeme := .token p :: (ls ++ [.token q])

namespace Content

lemma nil (h : P []) : Content A P [] := ⟨⟨.nil, by simp⟩, by simp, by simp, fun _ => h⟩

/-- Line breaks around what stands between brackets. -/
lemma inset (h : Content A P ls) (b : Bool) :
    Content A P (Grammar.inset b ++ ls ++ Grammar.inset b) := by
  cases b with
  | false => simpa [Grammar.inset] using h
  | true =>
      have hlast : ([Lexeme.gap true] ++ ls ++ [Lexeme.gap true]).getLast? = some (.gap true) :=
        List.getLast?_concat
      refine ⟨?_, by simp [Grammar.inset], fun t ht => ?_, fun b => ?_⟩
      · exact (h.legible.beforeGap ⟨.nil, by simp⟩ true).afterGap true
      · exact absurd (hlast.symm.trans ht) (by simp)
      · have hend (c : Bool) (ls : List Lexeme) :
            tokensOf c (ls ++ [Lexeme.gap true]) = tokensOf c ls := by
          simp [Grammar.tokensOf_append, tokensOf]
        simpa [Grammar.inset, tokensOf, hend] using h.holds (b || true)

/-- Whatever stands between brackets is told apart from them. -/
lemma legible_between (h : Content A P ls) {p q : String} (hp : p ∈ A.before)
    (hq : q ∈ A.behind) : Legible A.toVocabulary (between p q ls) := by
  have hclose : Legible A.toVocabulary (ls ++ [Lexeme.token q]) := by
    refine h.legible.append (legible_token (Alphabet.reads_of_mem (by simp [hq])))
      fun s t hs ht => ?_
    obtain rfl : q = t := by simpa using ht
    exact Alphabet.apart_of_ends (h.ends s hs) (Or.inl hq)
  refine hclose.cons (Alphabet.reads_of_mem (by simp [hp])) fun t ht => ?_
  refine Alphabet.apart_of_before (Or.inl hp) ?_
  cases ls with
  | nil =>
      obtain rfl : q = t := by simpa using ht
      exact Or.inr (Or.inl (List.mem_append_right _ hq))
  | cons l rest => exact (h.starts t ht).imp_right fun ht => Or.inl (List.mem_append_left _ ht)

lemma ends_between {p q : String} (hq : q ∈ A.closers) (ls : List Lexeme) :
    A.Ends (between p q ls) :=
  ⟨q, by rw [between, ← List.cons_append, List.getLast?_concat], Or.inr (Or.inl hq)⟩

lemma tokensOf_between (p q : String) (c : Bool) (ls : List Lexeme) :
    tokensOf c (between p q ls) = ⟨p, c⟩ :: (tokensOf false ls ++ [⟨q, gapAfter false ls⟩]) := by
  simp [between, tokensOf, Grammar.tokensOf_append]

/-- Something in brackets. -/
lemma bracketed (h : Content A P ls) {p q : String} (hp : p ∈ A.before) (hp' : p ∈ A.openers)
    (hq : q ∈ A.behind) (hq' : q ∈ A.closers)
    (hQ : ∀ c d ts, P ts → Q (⟨p, c⟩ :: (ts ++ [⟨q, d⟩]))) :
    Passage A Q (between p q ls) where
  legible := h.legible_between hp hq
  starts := ⟨p, rfl, Or.inr hp'⟩
  ends := ends_between hq' ls
  holds c := tokensOf_between p q c ls ▸ hQ c _ _ (h.holds false)

/-- Something in brackets, directly behind a passage. -/
lemma suffix (h : Content A P ls) {p q : String} (hp : p ∈ A.before) (hp' : p ∈ A.behind)
    (hq : q ∈ A.behind) (hq' : q ∈ A.closers)
    (hQ : ∀ d ts, P ts → Q (⟨p, false⟩ :: (ts ++ [⟨q, d⟩]))) : Suffix A Q (between p q ls) where
  legible := h.legible_between hp hq
  follows := ⟨p, rfl, Or.inl hp'⟩
  ends := ends_between hq' ls
  holds := tokensOf_between p q false ls ▸ hQ _ _ (h.holds false)

end Content

/-! ## Gaps around passages -/

section Padding

variable {v : Vocabulary} {gs : List Lexeme}

/-- Behind gaps anything may stand. -/
lemma Legible.behindPadding (h : Legible v ls) (hgs : IsPadding gs) : Legible v (gs ++ ls) := by
  induction gs with
  | nil => exact h
  | cons l rest ih =>
      obtain ⟨b, rfl⟩ := hgs l (by simp)
      exact (ih fun m hm => hgs m (by simp [hm])).afterGap b

/-- On both sides of gaps anything may stand. -/
lemma Legible.across (h : Legible v ls) (hgs : IsPadding gs) (hne : gs ≠ [])
    (h' : Legible v ms) : Legible v (ls ++ (gs ++ ms)) := by
  obtain ⟨l, rest, rfl⟩ := List.exists_cons_of_ne_nil hne
  obtain ⟨b, rfl⟩ := hgs l (by simp)
  exact h.beforeGap (h'.behindPadding fun m hm => hgs m (by simp [hm])) b

end Padding

/-- A sign before a passage, directly or with gaps between them. -/
lemma Legible.leadPadded (h : Legible A.toVocabulary ls) (hstarts : A.Starts ls) {p : String}
    (hp : p ∈ A.before) {gs : List Lexeme} (hgs : IsPadding gs) :
    Legible A.toVocabulary (.token p :: (gs ++ ls)) := by
  by_cases hne : gs = []
  · subst hne
    exact h.lead (Or.inl hp) (Or.inl hstarts)
  · exact (legible_token (Alphabet.reads_of_mem (by simp [hp]))).across hgs hne h

/-- A sign and a word behind a passage, with gaps between them. -/
lemma suffix_wordBehind {p s : String} (hp : p ∈ A.behind) (hs : IsWord s) {gs : List Lexeme}
    (hgs : IsPadding gs) (h : ∀ b, P [⟨p, false⟩, ⟨s, b⟩]) :
    Suffix A P (.token p :: (gs ++ [.token s])) := by
  have hmem := A.mem_signs p (by simp [hp])
  have hword : Legible A.toVocabulary [.token s] := legible_token (Or.inl hs)
  refine ⟨?_, ⟨p, rfl, Or.inl hp⟩, ⟨s, ?_, Or.inl hs⟩, ?_⟩
  · by_cases hne : gs = []
    · subst hne
      exact legible_signWord hmem hs
    · exact (legible_token (Or.inr (Or.inl hmem))).across hgs hne hword
  · rw [← List.cons_append, List.getLast?_concat]
  · rw [tokensOf, hgs.tokensOf_eq]
    exact h _

/-- **A passage with gaps around it.** -/
def Padded (A : Alphabet) (P : List Token → Prop) (ls : List Lexeme) : Prop :=
  ∃ front ms back, ls = front ++ (ms ++ back) ∧ IsPadding front ∧ IsPadding back ∧ Passage A P ms

/-- Two passages with an operator between them, which has gaps around it; before a sign that may
follow a passage there need not be one. -/
lemma Passage.joined (h : Passage A P ls) (h' : Passage A Q ms) {op : String}
    (hop : A.toVocabulary.Reads op) {gs hs : List Lexeme} (hgs : IsPadding gs)
    (hmeet : gs ≠ [] ∨ op ∈ A.behind) (hhs : IsPadding hs) (hne : hs ≠ [])
    (hR : ∀ ts us, P ts → Q us → R (ts ++ ⟨op, gapAfter false gs⟩ :: us)) :
    Passage A R (ls ++ (gs ++ .token op :: (hs ++ ms))) where
  legible := by
    have hright : Legible A.toVocabulary ([Lexeme.token op] ++ (hs ++ ms)) :=
      (legible_token hop).across hhs hne h'.legible
    rcases hmeet with hmeet | hmeet
    · exact h.legible.across hgs hmeet hright
    · by_cases hempty : gs = []
      · subst hempty
        exact h.legible.follow h.ends hright ⟨op, rfl, Or.inl hmeet⟩
      · exact h.legible.across hgs hempty hright
  starts := h.starts.append _
  ends := by
    have hends := h'.ends.append (ls ++ (gs ++ .token op :: hs))
    simpa only [List.append_assoc, List.cons_append] using hends
  holds d := by
    rw [h.tokensOf_append, hgs.tokensOf_eq, tokensOf, hhs.tokensOf_eq]
    exact hR _ _ (h.holds d) (h'.holds _)

/-- A word or a sign before a passage, with gaps between them. -/
lemma Passage.behindPadding (h : Passage A P ls) {op : String} (hop : IsWord op ∨ op ∈ A.openers)
    {gs : List Lexeme} (hgs : IsPadding gs) (hne : gs ≠ [])
    (hQ : ∀ c ts, P ts → Q (⟨op, c⟩ :: ts)) : Passage A Q (.token op :: (gs ++ ls)) where
  legible := by
    have hreads : A.toVocabulary.Reads op :=
      hop.imp_right fun hop => Or.inl (A.mem_signs op (by simp [hop]))
    exact (legible_token hreads).across hgs hne h.legible
  starts := ⟨op, rfl, hop⟩
  ends := by simpa using h.ends.append (.token op :: gs)
  holds c := by
    rw [tokensOf, hgs.tokensOf_eq]
    exact hQ c _ (h.holds _)

lemma Passage.padded (h : Passage A P ls) : Padded A P ls :=
  ⟨[], ls, [], by simp, isPadding_nil, isPadding_nil, h⟩

/-- A passage and one with gaps around it, with an operator between them. -/
lemma Passage.joinedPadded (h : Passage A P ls) (h' : Padded A Q ms) {op : String}
    (hop : A.toVocabulary.Reads op) {gs hs : List Lexeme} (hgs : IsPadding gs)
    (hmeet : gs ≠ [] ∨ op ∈ A.behind) (hhs : IsPadding hs) (hne : hs ≠ [])
    (hR : ∀ ts us, P ts → Q us → R (ts ++ ⟨op, gapAfter false gs⟩ :: us)) :
    Padded A R (ls ++ (gs ++ .token op :: (hs ++ ms))) := by
  obtain ⟨front, ks, back, rfl, hfront, hback, hright⟩ := h'
  exact ⟨[], _, back, by simp, isPadding_nil, hback,
    h.joined hright hop hgs hmeet (hhs.append hfront) (by simp [hne]) hR⟩

/-- A passage with gaps before it. -/
lemma Led.padded (h : Led (Passage A P) ls) : Padded A P ls := by
  obtain ⟨gs, ms, rfl, hgs, hpassage⟩ := h
  exact ⟨gs, ms, [], by simp, hgs, isPadding_nil, hpassage⟩

namespace Padded

/-- Gaps before a passage with gaps around it. -/
lemma behind (h : Padded A P ls) {gs : List Lexeme} (hgs : IsPadding gs) :
    Padded A P (gs ++ ls) := by
  obtain ⟨front, ms, back, rfl, hfront, hback, hpassage⟩ := h
  exact ⟨gs ++ front, ms, back, by simp, hgs.append hfront, hback, hpassage⟩

/-- A word or a sign before a passage, with a gap between them. -/
lemma behindGap (h : Padded A P ls) {op : String} (hop : IsWord op ∨ op ∈ A.openers) (b : Bool)
    (hQ : ∀ c ts, P ts → Q (⟨op, c⟩ :: ts)) : Padded A Q (.token op :: .gap b :: ls) := by
  obtain ⟨front, ms, back, rfl, hfront, hback, hpassage⟩ := h
  exact ⟨[], _, back, by simp, isPadding_nil, hback,
    hpassage.behindPadding hop ((isPadding_gap b).append hfront) (by simp) hQ⟩

lemma mono (h : Padded A P ls) (hPQ : ∀ ts, P ts → Q ts) : Padded A Q ls := by
  obtain ⟨front, ms, back, rfl, hfront, hback, hpassage⟩ := h
  exact ⟨front, ms, back, rfl, hfront, hback, hpassage.mono hPQ⟩

lemma inset (h : Padded A P ls) (b : Bool) :
    Padded A P (Grammar.inset b ++ ls ++ Grammar.inset b) := by
  obtain ⟨front, ms, back, rfl, hfront, hback, hpassage⟩ := h
  exact ⟨Grammar.inset b ++ front, ms, back ++ Grammar.inset b, by simp,
    (isPadding_inset b).append hfront, hback.append (isPadding_inset b), hpassage⟩

lemma content (h : Padded A P ls) : Content A P ls := by
  obtain ⟨front, ms, back, rfl, hfront, hback, hpassage⟩ := h
  have hright : Content A P (ms ++ back) := by
    by_cases hback' : back = []
    · subst hback'
      simpa using hpassage.content
    · have hnil : Legible A.toVocabulary [] := ⟨.nil, by simp⟩
      have hlegible := hpassage.legible.across hback hback' hnil
      rw [List.append_nil] at hlegible
      refine ⟨hlegible, fun t ht => ?_, fun t ht => ?_, fun b => ?_⟩
      · obtain ⟨u, hu, -⟩ := hpassage.starts
        exact hpassage.content.starts t (by simpa [List.head?_append, hu] using ht)
      · rw [List.getLast?_append_of_ne_nil _ hback'] at ht
        obtain ⟨c, hc⟩ := hback _ (List.mem_of_getLast? ht)
        exact absurd hc (by simp)
      · rw [hpassage.tokensOf_append, ← List.append_nil back, hback.tokensOf_eq]
        simpa [tokensOf] using hpassage.holds b
  cases front with
  | nil => exact hright
  | cons l rest =>
      refine ⟨hright.legible.behindPadding hfront, fun t ht => ?_, fun t ht => ?_, fun b => ?_⟩
      · obtain ⟨c, hc⟩ := hfront l (by simp)
        simp [hc] at ht
      · obtain ⟨u, hu, -⟩ := hpassage.ends
        have hne : ms ++ back ≠ [] := by
          rintro hnil
          obtain rfl : ms = [] := (List.append_eq_nil_iff.mp hnil).1
          simp at hu
        rw [List.getLast?_append_of_ne_nil _ hne] at ht
        exact hright.ends t ht
      · rw [hfront.tokensOf_eq]
        exact hright.holds _

/-- Two passages with an operator between them. -/
lemma joined (h : Padded A P ls) (h' : Padded A Q ms) {op : String}
    (hop : A.toVocabulary.Reads op) {gs hs : List Lexeme} (hgs : IsPadding gs)
    (hmeet : gs ≠ [] ∨ op ∈ A.behind) (hhs : IsPadding hs) (hne : hs ≠ [])
    (hR : ∀ ts us b, P ts → Q us → R (ts ++ ⟨op, b⟩ :: us)) :
    Padded A R (ls ++ (gs ++ .token op :: (hs ++ ms))) := by
  obtain ⟨front, ks, back, rfl, hfront, hback, hleft⟩ := h
  have hboth := hleft.joinedPadded h' hop (hback.append hgs)
    (hmeet.imp_left fun hne => by simp [hne]) hhs hne fun ts us => hR ts us _
  simpa using hboth.behind hfront

end Padded

/-! ## Lists -/

variable {α : Type} {D : List Token → α → Prop}

/-- Derivations with a sign between any two of them. -/
inductive DerivesSeparated (D : List Token → α → Prop) (sign : String) : List Token → List α → Prop
  | one {ts : List Token} {a : α} (h : D ts a) : DerivesSeparated D sign ts [a]
  | more {ts us : List Token} {a : α} {list : List α} {b : Bool} (h : D ts a)
      (hlist : DerivesSeparated D sign us list) :
      DerivesSeparated D sign (ts ++ ⟨sign, b⟩ :: us) (a :: list)

/-- A list as it stands between brackets: nothing, or derivations with commas between them and
perhaps one behind the last. -/
inductive DerivesListed (D : List Token → α → Prop) : List Token → List α → Prop
  | none : DerivesListed D [] []
  | list {ts : List Token} {list : List α} (h : DerivesSeparated D "," ts list) :
      DerivesListed D ts list
  | trailing {ts : List Token} {list : List α} {b : Bool} (h : DerivesSeparated D "," ts list) :
      DerivesListed D (ts ++ [⟨",", b⟩]) list

lemma isPadding_marked (spaced : Bool) : IsPadding (if spaced then [.gap false] else []) := by
  cases spaced with
  | false => exact isPadding_nil
  | true => exact isPadding_gap false

/-- A list of two or more, from its first item on. -/
lemma separated_cons (spaced : Bool) (sign : String) (b : Bool) (ls ms : List Lexeme)
    (rest : List (List Lexeme)) :
    separated spaced sign b (ls :: ms :: rest) =
      ls ++ ((if spaced then [.gap false] else []) ++
        .token sign :: ([Lexeme.gap b] ++ separated spaced sign b (ms :: rest))) := by
  simp [separated, marked]

section Separated

variable {lss : List (List Lexeme)} {list : List α} {sign : String} {spaced : Bool}

/-- **Passages with signs between them.** -/
lemma Passage.separated (h : List.Forall₂ (fun ls a => Passage A (D · a) ls) lss list)
    (hne : lss ≠ []) (hsign : A.toVocabulary.Reads sign) (hmeet : spaced = true ∨ sign ∈ A.behind)
    (b : Bool) : Passage A (DerivesSeparated D sign · list) (separated spaced sign b lss) := by
  induction h with
  | nil => exact absurd rfl hne
  | @cons ls a lss list hls hlss ih =>
      cases hlss with
      | nil => exact hls.mono fun _ => .one
      | cons hms hrest =>
          rw [separated_cons]
          exact hls.joined (ih (by simp)) hsign (isPadding_marked spaced)
            (hmeet.imp_left fun h => by simp [h]) (isPadding_gap b) (by simp) fun _ _ => .more

/-- The same for passages with gaps around them. -/
lemma Padded.separated (h : List.Forall₂ (fun ls a => Padded A (D · a) ls) lss list)
    (hne : lss ≠ []) (hsign : A.toVocabulary.Reads sign) (hmeet : spaced = true ∨ sign ∈ A.behind)
    (b : Bool) : Padded A (DerivesSeparated D sign · list) (separated spaced sign b lss) := by
  induction h with
  | nil => exact absurd rfl hne
  | @cons ls a lss list hls hlss ih =>
      cases hlss with
      | nil => exact hls.mono fun _ => .one
      | cons hms hrest =>
          rw [separated_cons]
          exact hls.joined (ih (by simp)) hsign (isPadding_marked spaced)
            (hmeet.imp_left fun h => by simp [h]) (isPadding_gap b) (by simp) fun _ _ _ => .more

end Separated

/-- Passages with gaps around them, with commas and gaps between them. -/
lemma Padded.commas {G : List Lexeme → Prop} (hG : ∀ gs, G gs → IsPadding gs ∧ gs ≠ [])
    (hcomma : "," ∈ A.behind) {lss : List (List Lexeme)} {list : List α} {ls : List Lexeme}
    (hcommas : Commas G ls lss) (h : List.Forall₂ (fun ls a => Padded A (D · a) ls) lss list)
    (hne : lss ≠ []) : Padded A (DerivesSeparated D "," · list) ls := by
  induction hcommas generalizing list with
  | nil => exact absurd rfl hne
  | one ls =>
      cases h with
      | cons hls hrest =>
          cases hrest
          exact hls.mono fun _ => .one
  | more ls hgs _ ih =>
      cases h with
      | cons hls hrest =>
          have hreads : A.toVocabulary.Reads "," := Alphabet.reads_of_mem (by simp [hcomma])
          exact hls.joined (ih hrest (by simp)) hreads isPadding_nil (Or.inr hcomma) (hG _ hgs).1
            (hG _ hgs).2 fun _ _ _ => .more

/-- Passages with commas between them, as they stand between brackets. -/
lemma Content.commas {G : List Lexeme → Prop} (hG : ∀ gs, G gs → IsPadding gs ∧ gs ≠ [])
    (hcomma : "," ∈ A.behind) {lss : List (List Lexeme)} {list : List α} {ls : List Lexeme}
    (hcommas : Commas G ls lss) (h : List.Forall₂ (fun ls a => Padded A (D · a) ls) lss list) :
    Content A (DerivesListed D · list) ls := by
  by_cases hne : lss = []
  · subst hne
    cases h
    cases hcommas
    exact Content.nil .none
  · have hlist : Padded A (DerivesSeparated D "," · list) ls := .commas hG hcomma hcommas h hne
    exact (hlist.mono fun _ => .list).content

/-- The same with one gap behind each comma. -/
lemma Content.listed {lss : List (List Lexeme)} {list : List α}
    (h : List.Forall₂ (fun ls a => Padded A (D · a) ls) lss list) (hcomma : "," ∈ A.behind)
    (b : Bool) : Content A (DerivesListed D · list) (commaList b lss) := by
  refine Content.commas (fun gs hgs => ?_) hcomma (commas_commaList b lss) h
  rw [hgs]
  exact ⟨isPadding_gap b, by simp⟩

end Grammar

end EstreePrinter
