import Mathlib
import EstreePrinter.Proofs.Grammar.Expression

/-!
# Phrases

A phrase is a piece of printed text that is read as an expression: its lexemes can be told apart,
and its tokens derive the expression, whatever gap stands before it.  Phrases are put together here,
one lemma for each production; that the lexemes stay apart where two phrases meet is checked on the
way.

* `Phrase` — lexemes that are read as an expression at a level;
* `apart_*` — which tokens may stand side by side;
* `Phrase.wrap`, `Phrase.binary`, ... — putting phrases together.
-/

namespace EstreePrinter

namespace Grammar

/-! ## Tokens side by side -/

lemma apart_of_isWord {s p : String} (hs : IsWord s) (hp : p ∈ punctuators) : Apart s p := by
  refine ⟨fun _ => not_isWord_of_mem hp, fun c _ q hq hbegins => ?_⟩
  obtain ⟨d, rest, hchars, -, hword⟩ := hs.exists_chars
  have hd : d ∈ q.toList := hbegins.subset (by simp [hchars])
  have := ((punctuator_chars q hq).2 d hd).1
  simp [hword d (by simp)] at this

lemma apart_isWord {p s : String} (hp : p ∈ punctuators) (hs : IsWord s) : Apart p s := by
  refine ⟨fun hword => absurd hword (not_isWord_of_mem hp), fun c hc q hq hbegins => ?_⟩
  obtain ⟨d, rest, hchars, -, hword⟩ := hs.exists_chars
  obtain rfl : d = c := by simpa [hchars] using hc
  have hd : d ∈ q.toList := hbegins.subset (by simp)
  have := ((punctuator_chars q hq).2 d hd).1
  simp [hword d (by simp)] at this

/-- Whether no punctuator is `p` followed by the beginning of `t`. -/
def areApart (p t : String) : Bool :=
  punctuators.all fun q => !(p.toList ++ t.toList.take 1).isPrefixOf q.toList

lemma apart_of_areApart {p t : String} (hp : p ∈ punctuators) (h : areApart p t = true) :
    Apart p t := by
  refine ⟨fun hword => absurd hword (not_isWord_of_mem hp), fun c hc q hq hbegins => ?_⟩
  have hq := List.all_eq_true.mp h q hq
  have htake : t.toList.take 1 = [c] := by
    cases ht : t.toList with
    | nil => simp [ht] at hc
    | cons d rest => simpa [ht] using hc
  rw [htake] at hq
  simp [List.isPrefixOf_iff_prefix.mpr hbegins] at hq

/-- The tokens that are no words and that an expression may begin with. -/
def openers : List String := ["(", "-", "+", "!", "~", "++", "--"]

/-- The tokens that are no words and that an expression may end with. -/
def closers : List String := [")", "]", "++", "--"]

/-- The tokens that may follow an expression without a gap. -/
def followers : List String := [")", "]", ",", ".", "[", "(", "++", "--"]

lemma apart_follower {s p : String} (hs : IsWord s ∨ s ∈ closers) (hp : p ∈ followers) :
    Apart s p := by
  have hmem : ∀ p ∈ followers, p ∈ punctuators := by decide
  have hclosers : ∀ s ∈ closers, s ∈ punctuators ∧ ∀ p ∈ followers, areApart s p = true := by
    decide +kernel
  rcases hs with hs | hs
  · exact apart_of_isWord hs (hmem p hp)
  · exact apart_of_areApart (hclosers s hs).1 ((hclosers s hs).2 p hp)

/-- Brackets stand apart from any expression that follows them. -/
lemma apart_opener {p t : String} (hp : p = "(" ∨ p = "[") (ht : IsWord t ∨ t ∈ openers) :
    Apart p t := by
  have hbrackets : ∀ p ∈ ["(", "["], p ∈ punctuators ∧ ∀ t ∈ openers, areApart p t = true := by
    decide +kernel
  have hp : p ∈ ["(", "["] := by simpa using hp
  rcases ht with ht | ht
  · exact apart_isWord (hbrackets p hp).1 ht
  · exact apart_of_areApart (hbrackets p hp).1 ((hbrackets p hp).2 t ht)

/-! ## Separate lexemes -/

/-- Lexemes that begin as an expression does. -/
def Starts (ls : List Lexeme) : Prop :=
  ∃ t, ls.head? = some (.token t) ∧ (IsWord t ∨ t ∈ openers)

/-- Lexemes that end as an expression does. -/
def Ends (ls : List Lexeme) : Prop :=
  ∃ t, ls.getLast? = some (.token t) ∧ (IsWord t ∨ t ∈ closers)

lemma separate_nil : Separate [] := ⟨.nil, by simp⟩

lemma separate_token {s : String} (hs : IsWord s ∨ s ∈ punctuators) : Separate [.token s] :=
  ⟨.singleton _, by simpa [Lexeme.IsRead] using hs⟩

lemma Separate.append {ls ms : List Lexeme} (h : Separate ls) (h' : Separate ms)
    (hmeet : ∀ s t, ls.getLast? = some (.token s) → ms.head? = some (.token t) → Apart s t) :
    Separate (ls ++ ms) := by
  refine ⟨List.isChain_append.mpr ⟨h.apart, h'.apart, ?_⟩, ?_⟩
  · intro x hx y hy
    cases x with
    | gap b => trivial
    | token s =>
        cases y with
        | gap b => trivial
        | token t => exact hmeet s t hx hy
  · intro l hl
    rcases List.mem_append.mp hl with hl | hl
    · exact h.read l hl
    · exact h'.read l hl

/-- Behind a gap anything may stand. -/
lemma Separate.afterGap {ls : List Lexeme} (h : Separate ls) (b : Bool) :
    Separate (.gap b :: ls) := by
  have hgap : Separate [.gap b] := ⟨.singleton _, by simp [Lexeme.IsRead]⟩
  exact hgap.append h (by simp)

/-- Before a gap anything may stand. -/
lemma Separate.beforeGap {ls ms : List Lexeme} (h : Separate ls) (h' : Separate ms) (b : Bool) :
    Separate (ls ++ .gap b :: ms) :=
  h.append (h'.afterGap b) (by simp)

/-- A token with gaps around it. -/
lemma Separate.around {ls ms : List Lexeme} (h : Separate ls) (h' : Separate ms) {op : String}
    (hop : IsWord op ∨ op ∈ punctuators) (b c : Bool) :
    Separate (ls ++ .gap b :: .token op :: .gap c :: ms) := by
  have hright : Separate ([Lexeme.token op] ++ .gap c :: ms) := (separate_token hop).beforeGap h' c
  exact h.beforeGap hright b

/-- What follows an expression directly. -/
lemma Separate.follow {ls ms : List Lexeme} (h : Separate ls) (hends : Ends ls) {p : String}
    (hp : p ∈ followers) (h' : Separate (.token p :: ms)) : Separate (ls ++ .token p :: ms) := by
  obtain ⟨t, hlast, ht⟩ := hends
  refine h.append h' fun s u hs hu => ?_
  rw [hlast, Option.some.injEq, Lexeme.token.injEq] at hs
  rw [List.head?_cons, Option.some.injEq, Lexeme.token.injEq] at hu
  subst hs hu
  exact apart_follower ht hp

/-- A bracket before an expression. -/
lemma Separate.open {ls : List Lexeme} (h : Separate ls) (hstarts : Starts ls) {p : String}
    (hp : p = "(" ∨ p = "[") : Separate (.token p :: ls) := by
  obtain ⟨t, hhead, ht⟩ := hstarts
  have hmem : p ∈ punctuators := by
    rcases hp with rfl | rfl
    · decide
    · decide
  refine (separate_token (Or.inr hmem)).append h fun s u hs hu => ?_
  rw [List.getLast?_singleton, Option.some.injEq, Lexeme.token.injEq] at hs
  rw [hhead, Option.some.injEq, Lexeme.token.injEq] at hu
  subst hs hu
  exact apart_opener hp ht

lemma Starts.head?_append {ls : List Lexeme} (h : Starts ls) (ms : List Lexeme) :
    (ls ++ ms).head? = ls.head? := by
  obtain ⟨t, ht, -⟩ := h
  simp [List.head?_append, ht]

lemma Starts.append {ls : List Lexeme} (h : Starts ls) (ms : List Lexeme) : Starts (ls ++ ms) := by
  obtain ⟨t, ht, hstart⟩ := h
  exact ⟨t, by simp [List.head?_append, ht], hstart⟩

lemma Ends.append {ms : List Lexeme} (h : Ends ms) (ls : List Lexeme) : Ends (ls ++ ms) := by
  obtain ⟨t, ht, hend⟩ := h
  exact ⟨t, by simp [List.getLast?_append, ht], hend⟩

lemma starts_cons {t : String} (ht : IsWord t ∨ t ∈ openers) (ls : List Lexeme) :
    Starts (.token t :: ls) := ⟨t, rfl, ht⟩

lemma ends_snoc {t : String} (ht : IsWord t ∨ t ∈ closers) (ls : List Lexeme) :
    Ends (ls ++ [Lexeme.token t]) := ⟨t, by simp, ht⟩

lemma Ends.gapAfter_eq {ls : List Lexeme} (h : Ends ls) (b : Bool) : gapAfter b ls = false := by
  obtain ⟨t, hlast, -⟩ := h
  obtain ⟨init, rfl⟩ := List.getLast?_eq_some_iff.mp hlast
  rw [gapAfter_append]
  rfl

/-! ## Phrases -/

/-- **Lexemes that are read as an expression** at a level, whatever stands before them. -/
structure Phrase (l : Level) (ls : List Lexeme) (e : Expr) : Prop where
  separate : Separate ls
  starts : Starts ls
  ends : Ends ls
  derives : ∀ b, Derives l (tokensOf b ls) e

namespace Phrase

variable {l : Level} {ls ms ns : List Lexeme} {e f g : Expr}

lemma raise {m : Level} (h : Phrase m ls e) (hml : Level.Within m l) : Phrase l ls e :=
  ⟨h.separate, h.starts, h.ends, fun b => (h.derives b).raise hml⟩

/-- The tokens behind a phrase. -/
lemma tokensOf_append (h : Phrase l ls e) (b : Bool) (ms : List Lexeme) :
    tokensOf b (ls ++ ms) = tokensOf b ls ++ tokensOf false ms := by
  rw [Grammar.tokensOf_append, h.ends.gapAfter_eq]

lemma name {s : String} (hs : IsName s) : Phrase .primary [.token s] (.name s) :=
  ⟨separate_token (Or.inl hs.1), starts_cons (Or.inl hs.1) [], ends_snoc (Or.inl hs.1) [],
    fun _ => .name hs⟩

/-- An expression in parentheses. -/
lemma wrap (h : Phrase l ls e) (hl : l.Within .expression) :
    Phrase .primary (.token "(" :: (ls ++ [Lexeme.token ")"])) e where
  separate := (h.separate.follow h.ends (by decide) (separate_token (Or.inr (by decide)))).open
    (h.starts.append _) (Or.inl rfl)
  starts := starts_cons (Or.inr (by decide)) _
  ends := ends_snoc (Or.inr (by decide)) (.token "(" :: ls)
  derives b := by
    simp only [tokensOf, h.tokensOf_append]
    exact .parens ((h.derives false).raise hl)

/-- An expression in parentheses, with a gap before it. -/
lemma wrapBehindGap (h : Phrase l ls e) (hl : l.Within .expression) (c : Bool) :
    Phrase .primary (.token "(" :: .gap c :: (ls ++ [Lexeme.token ")"])) e where
  separate := (separate_token (Or.inr (by decide))).beforeGap
    (h.separate.follow h.ends (by decide) (separate_token (Or.inr (by decide)))) c
  starts := starts_cons (Or.inr (by decide)) _
  ends := ends_snoc (Or.inr (by decide)) (.token "(" :: .gap c :: ls)
  derives b := by
    simp only [tokensOf, h.tokensOf_append]
    exact .parens ((h.derives _).raise hl)

lemma member (hl : l = .member ∨ l = .call) (h : Phrase l ls e) {p : String} (hp : IsWord p) :
    Phrase l (ls ++ [Lexeme.token ".", .token p]) (.member e p) where
  separate := by
    have hdot : Separate [.token ".", .token p] :=
      (separate_token (Or.inr (by decide))).append (separate_token (Or.inl hp)) fun s t hs ht => by
        obtain rfl : "." = s := by simpa using hs
        obtain rfl : p = t := by simpa using ht
        exact apart_isWord (by decide) hp
    exact h.separate.follow h.ends (by decide) hdot
  starts := h.starts.append _
  ends := (ends_snoc (Or.inl hp) [.token "."]).append ls
  derives b := by
    rw [h.tokensOf_append]
    exact .member hl (h.derives b) hp

lemma index (hl : l = .member ∨ l = .call) (h : Phrase l ls e) (hf : Phrase .expression ms f) :
    Phrase l (ls ++ .token "[" :: (ms ++ [Lexeme.token "]"])) (.index e f) where
  separate := h.separate.follow h.ends (by decide)
    ((hf.separate.follow hf.ends (by decide) (separate_token (Or.inr (by decide)))).open
      (hf.starts.append _) (Or.inr rfl))
  starts := h.starts.append _
  ends := (ends_snoc (Or.inr (by decide)) (.token "[" :: ms)).append ls
  derives b := by
    simp only [h.tokensOf_append, tokensOf, hf.tokensOf_append]
    exact .index hl (h.derives b) (hf.derives false)

/-- The word or sign of a unary operator. -/
lemma isRead_unaryOperator {op : String} (hop : op ∈ unaryOperators) :
    IsWord op ∨ op ∈ openers := by
  have hall : ∀ op ∈ unaryOperators, IsWord op ∨ op ∈ openers := by decide
  exact hall op hop

lemma mem_punctuators_of_openers {t : String} (h : t ∈ openers) : t ∈ punctuators := by
  have hall : ∀ t ∈ openers, t ∈ punctuators := by decide
  exact hall t h

/-- A unary operator, with a gap behind it or not; without one its sign must not run into what
follows. -/
lemma unary {op : String} (hop : op ∈ unaryOperators) (h : Phrase .unary ls e) (gap : List Lexeme)
    (hgap : gap = [.gap false] ∨ gap = [] ∧ ∀ t, ls.head? = some (.token t) → Apart op t) :
    Phrase .unary (.token op :: (gap ++ ls)) (.unary op e) where
  separate := by
    have hread := isRead_unaryOperator hop
    have hop' : Separate [.token op] :=
      separate_token (hread.imp_right mem_punctuators_of_openers)
    rcases hgap with rfl | ⟨rfl, hmeet⟩
    · exact hop'.beforeGap h.separate false
    · refine hop'.append h.separate fun s t hs ht => ?_
      obtain rfl : op = s := by simpa using hs
      exact hmeet t ht
  starts := starts_cons (isRead_unaryOperator hop) _
  ends := h.ends.append (.token op :: gap)
  derives b := by
    have htokens : tokensOf false (gap ++ ls) = tokensOf false ls := by
      rcases hgap with rfl | ⟨rfl, -⟩
      · rfl
      · rfl
    simp only [tokensOf, htokens]
    exact .unary hop (h.derives false)

lemma mem_updateOperators {op : String} (hop : op ∈ updateOperators) :
    op ∈ openers ∧ op ∈ closers ∧ op ∈ followers := by
  have hall : ∀ op ∈ updateOperators, op ∈ openers ∧ op ∈ closers ∧ op ∈ followers := by decide
  exact hall op hop

lemma updateBehind {op : String} (hop : op ∈ updateOperators) (h : Phrase .leftHand ls e)
    (htarget : e.IsTarget) : Phrase .update (ls ++ [Lexeme.token op]) (.update op false e) where
  separate := h.separate.follow h.ends (mem_updateOperators hop).2.2
    (separate_token (Or.inr (mem_punctuators_of_openers (mem_updateOperators hop).1)))
  starts := h.starts.append _
  ends := ends_snoc (Or.inr (mem_updateOperators hop).2.1) _
  derives b := by
    rw [h.tokensOf_append]
    exact .updateBehind hop (h.derives b) htarget

/-- The target of an increment begins with a word or a parenthesis, which no sign runs into. -/
lemma updateBefore {op : String} (hop : op ∈ updateOperators) (h : Phrase .unary ls e)
    (htarget : e.IsTarget) (hhead : ∀ t, ls.head? = some (.token t) → IsWord t ∨ t = "(") :
    Phrase .update (.token op :: ls) (.update op true e) where
  separate := by
    have hmem := mem_punctuators_of_openers (mem_updateOperators hop).1
    have hparen : ∀ op ∈ updateOperators, areApart op "(" = true := by decide +kernel
    refine (separate_token (Or.inr hmem)).append h.separate fun s t hs ht => ?_
    obtain rfl : op = s := by simpa using hs
    rcases hhead t ht with hword | rfl
    · exact apart_isWord hmem hword
    · exact apart_of_areApart hmem (hparen op hop)
  starts := starts_cons (Or.inr (mem_updateOperators hop).1) _
  ends := h.ends.append [.token op]
  derives _ := .updateBefore hop (h.derives false) htarget

lemma isWord_await : IsWord "await" := by decide

lemma await (h : Phrase .unary ls e) :
    Phrase .unary (.token "await" :: .gap false :: ls) (.await e) where
  separate := (separate_token (Or.inl isWord_await)).beforeGap h.separate false
  starts := starts_cons (Or.inl isWord_await) _
  ends := h.ends.append [.token "await", .gap false]
  derives _ := .await (h.derives false)

/-! ## Operators with gaps around them -/

/-- The tokens of two phrases with an operator between them. -/
lemma tokensOf_around (h : Phrase l ls e) (op : String) (c d b : Bool) (ms : List Lexeme) :
    tokensOf b (ls ++ .gap c :: .token op :: .gap d :: ms) =
      tokensOf b ls ++ ⟨op, c⟩ :: tokensOf d ms := by
  rw [h.tokensOf_append]
  simp [tokensOf]

/-- Two phrases with an operator between them, if that is how a level is derived.  The gap behind
the operator may have a line feed in it. -/
lemma around {m k : Level} {d : Bool} (h : Phrase l ls e) (hf : Phrase m ms f) {op : String}
    (hop : IsWord op ∨ op ∈ punctuators) {g : Expr}
    (hderives : ∀ ts us b, Derives l ts e → Derives m us f → Derives k (ts ++ ⟨op, b⟩ :: us) g) :
    Phrase k (ls ++ .gap false :: .token op :: .gap d :: ms) g where
  separate := h.separate.around hf.separate hop false d
  starts := h.starts.append _
  ends := by
    have hends := hf.ends.append (ls ++ [Lexeme.gap false, .token op, .gap d])
    simpa using hends
  derives b := by
    rw [h.tokensOf_around]
    exact hderives _ _ _ (h.derives b) (hf.derives d)

lemma isRead_binaryOperator {op : String} (hop : (op, l) ∈ binaryLevels) :
    IsWord op ∨ op ∈ punctuators := by
  have hall : ∀ entry ∈ binaryLevels, IsWord entry.1 ∨ entry.1 ∈ punctuators := by decide +kernel
  exact hall _ hop

lemma binary {m : Level} {op : String} {d : Bool} (hop : (op, l) ∈ binaryLevels) (hm : m ∈ l.below)
    (h : Phrase l ls e) (hf : Phrase m ms f) :
    Phrase l (ls ++ .gap false :: .token op :: .gap d :: ms) (.binary op e f) :=
  h.around hf (isRead_binaryOperator hop) fun _ _ _ => .binary hop hm

lemma power {d : Bool} (h : Phrase .update ls e) (hf : Phrase .power ms f) :
    Phrase .power (ls ++ .gap false :: .token "**" :: .gap d :: ms) (.binary "**" e f) :=
  h.around hf (Or.inr (by decide)) fun _ _ _ => .power

lemma logical {m : Level} {op : String} {d : Bool} (hop : (op, l) ∈ logicalLevels)
    (hm : m ∈ l.below) (h : Phrase l ls e) (hf : Phrase m ms f) :
    Phrase l (ls ++ .gap false :: .token op :: .gap d :: ms) (.logical op e f) := by
  have hall : ∀ entry ∈ logicalLevels, entry.1 ∈ punctuators := by decide
  exact h.around hf (Or.inr (hall _ hop)) fun _ _ _ => .logical hop hm

lemma coalesce {d : Bool} (h : Phrase .coalesceHead ls e) (hf : Phrase .bitOr ms f) :
    Phrase .coalesce (ls ++ .gap false :: .token "??" :: .gap d :: ms) (.logical "??" e f) :=
  h.around hf (Or.inr (by decide)) fun _ _ _ => .coalesce

lemma assign {op : String} (hop : op ∈ assignmentOperators) (h : Phrase .leftHand ls e)
    (htarget : e.IsTarget) (hf : Phrase .assignment ms f) :
    Phrase .assignment (ls ++ .gap false :: .token op :: .gap false :: ms) (.assign op e f) := by
  have hall : ∀ op ∈ assignmentOperators, op ∈ punctuators := by decide
  exact h.around hf (Or.inr (hall _ hop)) fun _ _ _ ht hu => .assign hop ht htarget hu

/-- A conditional expression, with its branches on lines of their own or not. -/
lemma conditional (h : Phrase .shortCircuit ls e) (hf : Phrase .assignment ms f)
    (hg : Phrase .assignment ns g) (b : Bool) :
    Phrase .conditional
      (ls ++ .gap b :: .token "?" :: .gap false ::
        (ms ++ .gap b :: .token ":" :: .gap false :: ns)) (.conditional e f g) where
  separate := h.separate.around (hf.separate.around hg.separate (Or.inr (by decide)) b false)
    (Or.inr (by decide)) b false
  starts := h.starts.append _
  ends := by
    have hends := hg.ends.append (ls ++ .gap b :: .token "?" :: .gap false ::
      (ms ++ [Lexeme.gap b, .token ":", .gap false]))
    simpa using hends
  derives c := by
    rw [h.tokensOf_around, hf.tokensOf_around]
    exact .conditional (h.derives c) (hf.derives false) (hg.derives false)

/-! ## Expressions that begin with a word -/

lemma isWord_yield : IsWord "yield" := by decide

lemma yieldNothing : Phrase .assignment [.token "yield"] (.yield none) :=
  ⟨separate_token (Or.inl isWord_yield), starts_cons (Or.inl isWord_yield) [],
    ends_snoc (Or.inl isWord_yield) [], fun _ => .yieldNothing⟩

lemma yield (h : Phrase .assignment ls e) :
    Phrase .assignment (.token "yield" :: .gap false :: ls) (.yield (some e)) where
  separate := (separate_token (Or.inl isWord_yield)).beforeGap h.separate false
  starts := starts_cons (Or.inl isWord_yield) _
  ends := h.ends.append [.token "yield", .gap false]
  derives b := by
    obtain ⟨t, hhead, -⟩ := h.starts
    obtain ⟨rest, rfl⟩ := List.head?_eq_some_iff.mp hhead
    exact .yield (h.derives false)

lemma yieldAll (h : Phrase .assignment ls e) :
    Phrase .assignment (.token "yield" :: .token "*" :: .gap false :: ls) (.yieldAll e) where
  separate := by
    have hstar : Separate [.token "yield", .token "*"] :=
      (separate_token (Or.inl isWord_yield)).append (separate_token (Or.inr (by decide)))
        fun s t hs ht => by
          obtain rfl : "yield" = s := by simpa using hs
          obtain rfl : "*" = t := by simpa using ht
          exact apart_of_isWord isWord_yield (by decide)
    exact hstar.beforeGap h.separate false
  starts := starts_cons (Or.inl isWord_yield) _
  ends := h.ends.append [.token "yield", .token "*", .gap false]
  derives b := .yieldAll (h.derives false)

end Phrase

/-! ## Gaps -/

/-- The gap inside of a bracket: a line break if the list is broken, and nothing otherwise. -/
def inset (b : Bool) : List Lexeme := if b then [.gap true] else []

/-- Lexemes that are gaps. -/
def IsPadding (gs : List Lexeme) : Prop := ∀ l ∈ gs, ∃ b, l = .gap b

lemma isPadding_nil : IsPadding [] := by simp [IsPadding]

lemma isPadding_gap (b : Bool) : IsPadding [.gap b] := by simp [IsPadding]

lemma isPadding_inset (b : Bool) : IsPadding (inset b) := by
  cases b with
  | false => exact isPadding_nil
  | true => exact isPadding_gap true

lemma IsPadding.append {gs hs : List Lexeme} (h : IsPadding gs) (h' : IsPadding hs) :
    IsPadding (gs ++ hs) := by
  intro l hl
  exact (List.mem_append.mp hl).elim (h l) (h' l)

lemma IsPadding.tokensOf_eq {gs : List Lexeme} (h : IsPadding gs) (b : Bool) (ls : List Lexeme) :
    tokensOf b (gs ++ ls) = tokensOf (gapAfter b gs) ls := by
  induction gs generalizing b with
  | nil => rfl
  | cons l rest ih =>
      obtain ⟨c, rfl⟩ := h l (by simp)
      exact ih (fun m hm => h m (by simp [hm])) _

/-- Behind gaps anything may stand. -/
lemma Separate.behindPadding {gs ls : List Lexeme} (h : Separate ls) (hgs : IsPadding gs) :
    Separate (gs ++ ls) := by
  induction gs with
  | nil => exact h
  | cons l rest ih =>
      obtain ⟨b, rfl⟩ := hgs l (by simp)
      exact (ih fun m hm => hgs m (by simp [hm])).afterGap b

/-- Lexemes with a property, with gaps before them. -/
def Led (P : List Lexeme → Prop) (ls : List Lexeme) : Prop :=
  ∃ gs ms, ls = gs ++ ms ∧ IsPadding gs ∧ P ms

lemma Led.mono {P Q : List Lexeme → Prop} {ls : List Lexeme} (h : Led P ls)
    (hPQ : ∀ ms, P ms → Q ms) : Led Q ls := by
  obtain ⟨gs, ms, rfl, hgs, hP⟩ := h
  exact ⟨gs, ms, rfl, hgs, hPQ ms hP⟩

/-- Gaps before gaps. -/
lemma Led.led {P : List Lexeme → Prop} {ls : List Lexeme} (h : Led (Led P) ls) : Led P ls := by
  obtain ⟨gs, _, rfl, hgs, hs, ms, rfl, hhs, hP⟩ := h
  exact ⟨gs ++ hs, ms, (List.append_assoc ..).symm, hgs.append hhs, hP⟩

/-- A gap and the gaps behind it can be taken for one. -/
lemma IsPadding.renders {gs ls : List Lexeme} (h : IsPadding gs) {b : Bool} {text : List Char}
    (htext : Renders (.gap b :: (gs ++ ls)) text) : Renders (.gap (gapAfter b gs) :: ls) text := by
  induction gs generalizing b text with
  | nil => exact htext
  | cons l rest ih =>
      obtain ⟨c, rfl⟩ := h l (by simp)
      obtain ⟨first, _, rfl, hfirst, second, others, rfl, hsecond, hothers⟩ := htext
      refine ih (fun m hm => h m (by simp [hm]))
        ⟨first ++ second, others, (List.append_assoc ..).symm, ⟨?_, ?_, ?_⟩, hothers⟩
      · simp [hfirst.1]
      · exact List.forall_mem_append.mpr ⟨hfirst.2.1, hsecond.2.1⟩
      · rw [hfirst.2.2, hsecond.2.2]
        simp

/-! ## Lists -/

/-- Lexemes with commas between them, and behind each comma a gap. -/
def commaList (b : Bool) : List (List Lexeme) → List Lexeme
  | [] => []
  | ls :: rest => if rest.isEmpty then ls else ls ++ .token "," :: .gap b :: commaList b rest

/-- Lexemes with a comma between any two of them, and behind each comma what `G` allows. -/
inductive Commas (G : List Lexeme → Prop) : List Lexeme → List (List Lexeme) → Prop
  | nil : Commas G [] []
  | one (ls : List Lexeme) : Commas G ls [ls]
  | more (ls : List Lexeme) {gs rest ms : List Lexeme} {lss : List (List Lexeme)} (hgs : G gs)
      (h : Commas G rest (ms :: lss)) :
      Commas G (ls ++ .token "," :: (gs ++ rest)) (ls :: ms :: lss)

lemma commas_commaList (b : Bool) (lss : List (List Lexeme)) :
    Commas (fun gs => gs = [.gap b]) (commaList b lss) lss := by
  induction lss with
  | nil => exact .nil
  | cons ls rest ih =>
      cases rest with
      | nil => exact .one ls
      | cons ms rest =>
          have hmore : Commas (fun gs => gs = [.gap b])
              (ls ++ .token "," :: ([.gap b] ++ commaList b (ms :: rest))) (ls :: ms :: rest) :=
            .more ls (by rfl) ih
          simpa [commaList] using hmore

lemma Commas.eq_commaList {G : List Lexeme → Prop} {ls : List Lexeme} {lss : List (List Lexeme)}
    (h : Commas G ls lss) {b : Bool} (hG : ∀ gs, G gs → gs = [.gap b]) : ls = commaList b lss := by
  induction h with
  | nil => rfl
  | one ls => rfl
  | more ls hgs h ih =>
      rw [hG _ hgs, ih]
      simp [commaList]

/-- A sign between two items, with a blank before it or not. -/
def marked (spaced : Bool) (sign : String) : List Lexeme :=
  (if spaced then [.gap false] else []) ++ [.token sign]

/-- Lexemes with a sign between any two of them, and behind each sign a gap. -/
def separated (spaced : Bool) (sign : String) (b : Bool) : List (List Lexeme) → List Lexeme
  | [] => []
  | ls :: rest =>
    if rest.isEmpty then ls
    else ls ++ (marked spaced sign ++ .gap b :: separated spaced sign b rest)

lemma commaList_eq (b : Bool) (lss : List (List Lexeme)) :
    commaList b lss = separated false "," b lss := by
  induction lss with
  | nil => rfl
  | cons ls rest ih => simp [commaList, separated, marked, ih]

/-- Lexemes in parentheses, broken over several lines or not. -/
def enclosed (b : Bool) (ls : List Lexeme) : List Lexeme :=
  .token "(" :: (inset b ++ ls ++ inset b ++ [.token ")"])

/-- The lexemes of a list, which may be empty. -/
structure Items (ls : List Lexeme) : Prop where
  separate : Separate ls
  starts : ls ≠ [] → Starts ls
  ends : ls ≠ [] → Ends ls

lemma items_nil : Items [] := ⟨separate_nil, by simp, by simp⟩

/-- The tokens of what stands in parentheses. -/
lemma tokensOf_enclosed (b c : Bool) (ls : List Lexeme) :
    ∃ d, tokensOf c (enclosed b ls) = ⟨"(", c⟩ :: (tokensOf b ls ++ [⟨")", d⟩]) := by
  refine ⟨gapAfter (gapAfter b ls) (inset b), ?_⟩
  have hinset (ms : List Lexeme) : tokensOf false (inset b ++ ms) = tokensOf b ms := by
    cases b with
    | false => rfl
    | true => rfl
  have hclose (d : Bool) :
      tokensOf d (inset b ++ [Lexeme.token ")"]) = [⟨")", gapAfter d (inset b)⟩] := by
    cases b with
    | false => rfl
    | true => rfl
  simp only [enclosed, tokensOf, List.append_assoc, hinset]
  rw [tokensOf_append, hclose]

lemma ends_enclosed (b : Bool) (ls : List Lexeme) : Ends (enclosed b ls) :=
  ends_snoc (Or.inr (by decide)) (.token "(" :: (inset b ++ ls ++ inset b))

/-- Whatever stands in parentheses is told apart from them. -/
lemma Items.separate_enclosed {ls : List Lexeme} (h : Items ls) (b : Bool) :
    Separate (enclosed b ls) := by
  have hclose : Separate [.token ")"] := separate_token (Or.inr (by decide))
  have hopen : Separate [.token "("] := separate_token (Or.inr (by decide))
  cases b with
  | true =>
      have hright : Separate (ls ++ [Lexeme.gap true, .token ")"]) :=
        h.separate.beforeGap hclose true
      simpa [enclosed, inset] using hopen.beforeGap hright true
  | false =>
      by_cases hls : ls = []
      · subst hls
        have hboth : Separate ([Lexeme.token "("] ++ [Lexeme.token ")"]) := by
          refine hopen.append hclose fun s t hs ht => ?_
          obtain rfl : "(" = s := by simpa using hs
          obtain rfl : ")" = t := by simpa using ht
          exact apart_of_areApart (by decide) (by decide +kernel)
        exact hboth
      · have hright := h.separate.follow (h.ends hls) (by decide : ")" ∈ followers) hclose
        simpa [enclosed, inset] using hright.open ((h.starts hls).append _) (Or.inl rfl)

namespace Phrase

/-- Phrases with commas between them are a list. -/
lemma commaList_derives {lss : List (List Lexeme)} {es : List Expr}
    (h : List.Forall₂ (Phrase .assignment) lss es) (hne : lss ≠ []) (b : Bool) :
    (Separate (commaList b lss) ∧ Starts (commaList b lss) ∧ Ends (commaList b lss)) ∧
      ∀ c, DerivesList (tokensOf c (commaList b lss)) es := by
  induction h with
  | nil => exact absurd rfl hne
  | @cons ls e lss es hls hlss ih =>
      cases hlss with
      | nil =>
          refine ⟨⟨hls.separate, hls.starts, hls.ends⟩, fun c => .one (hls.derives c)⟩
      | @cons ms f rest fs hms hrest =>
          obtain ⟨⟨hseparate, -, hends⟩, hderives⟩ := ih (by simp)
          have hcomma : Separate [.token ","] := separate_token (Or.inr (by decide))
          have hlist : commaList b (ls :: ms :: rest) =
              ls ++ .token "," :: .gap b :: commaList b (ms :: rest) := by simp [commaList]
          rw [hlist]
          refine ⟨⟨hls.separate.follow hls.ends (by decide) (hcomma.beforeGap hseparate b),
            hls.starts.append _, ?_⟩, fun c => ?_⟩
          · have := hends.append (ls ++ [Lexeme.token ",", .gap b])
            simpa using this
          · rw [hls.tokensOf_append]
            exact .more (hls.derives c) (hderives b)

lemma items_commaList {lss : List (List Lexeme)} {es : List Expr}
    (h : List.Forall₂ (Phrase .assignment) lss es) (b : Bool) : Items (commaList b lss) := by
  by_cases hne : lss = []
  · subst hne
    exact items_nil
  · obtain ⟨⟨hseparate, hstarts, hends⟩, -⟩ := commaList_derives h hne b
    exact ⟨hseparate, fun _ => hstarts, fun _ => hends⟩

/-- Expressions one after the other, which stand in parentheses. -/
lemma sequence {lss : List (List Lexeme)} {first second : Expr} {rest : List Expr}
    (h : List.Forall₂ (Phrase .assignment) lss (first :: second :: rest)) (b : Bool) :
    Phrase .primary (enclosed b (commaList b lss)) (.sequence first second rest) where
  separate := (items_commaList h b).separate_enclosed b
  starts := starts_cons (Or.inr (by decide)) _
  ends := ends_enclosed b _
  derives c := by
    have hne : lss ≠ [] := by
      rintro rfl
      cases h
    obtain ⟨d, htokens⟩ := tokensOf_enclosed b c (commaList b lss)
    rw [htokens]
    exact .parens (.comma ((commaList_derives h hne b).2 _))

lemma call {l : Level} {ls : List Lexeme} {e : Expr} (hl : l = .member ∨ l = .call)
    (h : Phrase l ls e) {lss : List (List Lexeme)} {args : List Expr}
    (hargs : List.Forall₂ (Phrase .assignment) lss args) (b : Bool) :
    Phrase .call (ls ++ enclosed b (commaList b lss)) (.call e args) where
  separate := h.separate.follow h.ends (by decide) ((items_commaList hargs b).separate_enclosed b)
  starts := h.starts.append _
  ends := (ends_enclosed b _).append ls
  derives c := by
    obtain ⟨d, htokens⟩ := tokensOf_enclosed b false (commaList b lss)
    rw [h.tokensOf_append, htokens]
    refine .call hl (h.derives c) ?_
    by_cases hne : lss = []
    · subst hne
      cases hargs
      exact .none
    · exact .list ((commaList_derives hargs hne b).2 _)

/-- Names as phrases. -/
lemma names {names : List String} (hnames : ∀ s ∈ names, IsName s) :
    List.Forall₂ (Phrase .assignment) (names.map fun s => [.token s]) (names.map .name) := by
  induction names with
  | nil => exact .nil
  | cons s rest ih =>
      refine .cons ?_ (ih fun t ht => hnames t (by simp [ht]))
      exact (Phrase.name (hnames s (by simp))).raise (Level.within_of_isWithin rfl)

lemma parameters {names : List String} (hnames : ∀ s ∈ names, IsName s) (b c : Bool) :
    DerivesParameters (tokensOf c (commaList b (names.map fun s => [.token s]))) names := by
  have hsome : ∀ (names : List String) (c : Bool), names ≠ [] → (∀ s ∈ names, IsName s) →
      DerivesNames (tokensOf c (commaList b (names.map fun s => [.token s]))) names := by
    intro names
    induction names with
    | nil => exact fun _ hne => absurd rfl hne
    | cons s rest ih =>
        intro c _ hnames
        cases rest with
        | nil => exact .one (hnames s (by simp))
        | cons t rest =>
            have hrest := ih b (by simp) fun u hu => hnames u (List.mem_cons_of_mem s hu)
            exact .more (hnames s (by simp)) hrest
  cases names with
  | nil => exact .none
  | cons s rest => exact .names (hsome _ c (by simp) hnames)

lemma isWord_async : IsWord "async" := by decide

/-- The text of an arrow function behind its parameters. -/
lemma arrow {names : List String} (hnames : ∀ s ∈ names, IsName s) {ms : List Lexeme} {e : Expr}
    (h : Phrase .assignment ms e) (isAsync b : Bool) :
    Phrase .assignment ((if isAsync then [.token "async", .gap false] else []) ++
      (enclosed b (commaList b (names.map fun s => [.token s])) ++
        .gap false :: .token "=>" :: .gap false :: ms)) (.arrow isAsync names e) := by
  have hitems := items_commaList (Phrase.names hnames) b
  have hright : Separate (enclosed b (commaList b (names.map fun s => [.token s])) ++
      .gap false :: .token "=>" :: .gap false :: ms) :=
    (hitems.separate_enclosed b).around h.separate (Or.inr (by decide)) false false
  have htokens (c : Bool) : ∃ d,
      tokensOf c (enclosed b (commaList b (names.map fun s => [.token s])) ++
        .gap false :: .token "=>" :: .gap false :: ms) =
        ⟨"(", c⟩ :: (tokensOf b (commaList b (names.map fun s => [.token s])) ++
          ⟨")", d⟩ :: ⟨"=>", false⟩ :: tokensOf false ms) := by
    obtain ⟨d, hd⟩ := tokensOf_enclosed b c (commaList b (names.map fun s => [.token s]))
    refine ⟨d, ?_⟩
    rw [Grammar.tokensOf_append, (ends_enclosed b _).gapAfter_eq, hd]
    simp [tokensOf]
  have hends := h.ends.append ((if isAsync then [.token "async", .gap false] else []) ++
    (enclosed b (commaList b (names.map fun s => [.token s])) ++
      [.gap false, .token "=>", .gap false]))
  cases isAsync with
  | false =>
      refine ⟨by simpa using hright, starts_cons (Or.inr (by decide)) _, by simpa using hends,
        fun c => ?_⟩
      obtain ⟨d, htokens⟩ := htokens c
      simp only [Bool.false_eq_true, if_false, List.nil_append, htokens]
      exact .arrow (parameters hnames b b) (h.derives false)
  | true =>
      refine ⟨(separate_token (Or.inl isWord_async)).beforeGap hright false,
        starts_cons (Or.inl isWord_async) _, by simpa using hends, fun c => ?_⟩
      obtain ⟨d, htokens⟩ := htokens false
      simp only [if_true, List.cons_append, List.nil_append, tokensOf, Bool.or_false, htokens]
      exact .asyncArrow (parameters hnames b b) (h.derives false)

end Phrase

end Grammar

end EstreePrinter
