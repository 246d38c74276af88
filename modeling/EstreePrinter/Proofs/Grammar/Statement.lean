import Mathlib
import EstreePrinter.Json.Basic

/-!
# The grammar of statements

Statements with the expressions in them, which are not looked into.  An `else` goes with the next
`if` before it that has none: where an `if` stands without one, no `else` may follow.

* `Tree` — statements, and the statements of a block;
* `Tree.terminals` — the words, signs and expressions of which a statement consists;
* **`Reads`** — which statement a sequence of these begins with, and what is left of the sequence;
* `Reads.unique` — there is at most one;
* `Tree.attaches` — whether each `else` is in reach of its own `if` only.

**`reads_terminals_iff`** — what a statement consists of is read as this statement just if each
`else` attaches to its own `if`, and no `else` follows an `if` at the end that has none.
-/

namespace EstreePrinter

namespace Grammar.Statement

/-! ## Statements -/

/-- What a statement consists of: words and signs, and expressions. -/
inductive Terminal where
  | token (s : String)
  | node (node : Json)

/-- What a declaration of variables begins with. -/
inductive Keyword where
  | var
  | lexical
  | constant
  | resource
  | asyncResource

namespace Keyword

def words : Keyword → List String
  | var => ["var"]
  | lexical => ["let"]
  | constant => ["const"]
  | resource => ["using"]
  | asyncResource => ["await", "using"]

def terminals (keyword : Keyword) : List Terminal := keyword.words.map .token

end Keyword

/-- What comes first in the head of a loop with three parts. -/
inductive Start where
  | none
  | expression (e : Json)
  | declaration (keyword : Keyword) (declarator : Json) (others : List Json)

/-- What the head of a loop over keys or values assigns to. -/
inductive Target where
  | expression (e : Json)
  | declaration (keyword : Keyword) (declarator : Json)

/-- What stands before the body of a statement that has one part. -/
inductive Head where
  /-- The head of a loop with a test. -/
  | test (e : Json)
  /-- The head of a `with`. -/
  | scope (e : Json)
  /-- The head of a loop with three parts. -/
  | steps (start : Start) (test update : Option Json)
  /-- The head of a loop over keys. -/
  | keys (target : Target) (e : Json)
  /-- The head of a loop over values. -/
  | values (target : Target) (e : Json)
  /-- The head of a loop that awaits the values. -/
  | awaited (target : Target) (e : Json)

/-- Declarators behind another one. -/
def declarators (others : List Json) : List Terminal :=
  others.flatMap fun e => [.token ",", .node e]

/-- An expression that may be missing. -/
def expression? (e : Option Json) : List Terminal := e.toList.map .node

def Start.terminals : Start → List Terminal
  | none => []
  | expression e => [.node e]
  | declaration keyword e others => keyword.terminals ++ .node e :: declarators others

/-- What is assigned to may stand first in the head of a loop with three parts too. -/
def Target.start : Target → Start
  | expression e => .expression e
  | declaration keyword e => .declaration keyword e []

def Head.terminals : Head → List Terminal
  | test e => [.token "while", .token "(", .node e, .token ")"]
  | scope e => [.token "with", .token "(", .node e, .token ")"]
  | steps start first second =>
    .token "for" :: .token "(" :: (start.terminals ++ .token ";" ::
      (expression? first ++ .token ";" :: (expression? second ++ [.token ")"])))
  | keys target e =>
    .token "for" :: .token "(" :: (target.start.terminals ++ [.token "in", .node e, .token ")"])
  | values target e =>
    .token "for" :: .token "(" :: (target.start.terminals ++ [.token "of", .node e, .token ")"])
  | awaited target e =>
    .token "for" :: .token "await" :: .token "(" ::
      (target.start.terminals ++ [.token "of", .node e, .token ")"])

/-- What a tree is one of. -/
inductive Category where
  | statement
  /-- The statements of a block, up to its end. -/
  | body

/-- **Statements**, and the statements of a block. -/
inductive Tree : Category → Type where
  | plain (e : Json) : Tree .statement
  | block (body : Tree .body) : Tree .statement
  | labeled (label : Json) (body : Tree .statement) : Tree .statement
  | headed (head : Head) (body : Tree .statement) : Tree .statement
  /-- An `if` without an `else`. -/
  | branch (test : Json) (consequent : Tree .statement) : Tree .statement
  | choice (test : Json) (consequent alternate : Tree .statement) : Tree .statement
  | done : Tree .body
  | more (first : Tree .statement) (rest : Tree .body) : Tree .body

/-! ## Reading -/

/-- `(`, an expression and `)`, before other terminals. -/
def inParens (e : Json) (rest : List Terminal) : List Terminal :=
  .token "(" :: .node e :: .token ")" :: rest

/-- **What a sequence begins with, and what is left of it.**  An expression statement may have its
expression in parentheses. -/
inductive Reads : {c : Category} → List Terminal → Tree c → List Terminal → Prop
  | plain {e : Json} {rest : List Terminal} : Reads (.node e :: .token ";" :: rest) (.plain e) rest
  | parens {e : Json} {rest : List Terminal} :
      Reads (inParens e (.token ";" :: rest)) (.plain e) rest
  | block {ts rest : List Terminal} {body : Tree .body} (h : Reads ts body rest) :
      Reads (.token "\x7b" :: ts) (.block body) rest
  | labeled {label : Json} {ts rest : List Terminal} {body : Tree .statement}
      (h : Reads ts body rest) : Reads (.node label :: .token ":" :: ts) (.labeled label body) rest
  | headed {head : Head} {ts us rest : List Terminal} {body : Tree .statement}
      (hhead : us = head.terminals ++ ts) (h : Reads ts body rest) : Reads us (.headed head body) rest
  /-- No `else` follows an `if` that has none. -/
  | branch {test : Json} {ts rest : List Terminal} {consequent : Tree .statement}
      (h : Reads ts consequent rest) (hrest : rest.head? ≠ some (.token "else")) :
      Reads (.token "if" :: inParens test ts) (.branch test consequent) rest
  | choice {test : Json} {ts us rest : List Terminal} {consequent alternate : Tree .statement}
      (h : Reads ts consequent (.token "else" :: us)) (h' : Reads us alternate rest) :
      Reads (.token "if" :: inParens test ts) (.choice test consequent alternate) rest
  | done {rest : List Terminal} : Reads (.token "\x7d" :: rest) .done rest
  | more {ts us rest : List Terminal} {first : Tree .statement} {others : Tree .body}
      (h : Reads ts first us) (h' : Reads us others rest) : Reads ts (.more first others) rest

/-! ## At most one reading -/

section Heads

variable {ts us : List Terminal}

/-- Texts that go neither before nor between declarators. -/
abbrev IsEnd (t : String) : Prop := t ∉ [",", "var", "let", "const", "using", "await"]

lemma declarators_inj {others others' : List Json} {t t' : String} (ht : IsEnd t) (ht' : IsEnd t')
    (h : declarators others ++ .token t :: ts = declarators others' ++ .token t' :: us) :
    others = others' ∧ t = t' ∧ ts = us := by
  simp only [IsEnd, List.mem_cons, not_or] at ht ht'
  induction others generalizing others' with
  | nil =>
      cases others' with
      | nil => simpa [declarators] using h
      | cons e rest => simp [declarators, ht.1] at h
  | cons e rest ih =>
      cases others' with
      | nil => simp [declarators, Ne.symm ht'.1] at h
      | cons f rest' =>
          simp only [declarators, List.flatMap_cons, List.cons_append, List.nil_append,
            List.cons.injEq, Terminal.node.injEq, true_and] at h
          obtain ⟨rfl, hrest⟩ := h
          obtain ⟨rfl, htokens⟩ := ih hrest
          exact ⟨rfl, htokens⟩

lemma expression?_inj {e f : Option Json} {t : String}
    (h : expression? e ++ .token t :: ts = expression? f ++ .token t :: us) : e = f ∧ ts = us := by
  cases e <;> cases f <;> simp_all [expression?]

namespace Keyword

lemma terminals_inj {k l : Keyword} {e f : Json}
    (h : k.terminals ++ .node e :: ts = l.terminals ++ .node f :: us) :
    k = l ∧ e = f ∧ ts = us := by
  cases k <;> cases l <;> simp_all [terminals, words]

/-- No declaration begins with an expression or with what goes behind declarators. -/
lemma terminals_ne_node {k : Keyword} {e : Json} : k.terminals ++ ts ≠ .node e :: us := by
  cases k <;> simp [terminals, words]

lemma terminals_ne_token {k : Keyword} {t : String} (ht : IsEnd t) :
    k.terminals ++ ts ≠ .token t :: us := by
  simp only [IsEnd, List.mem_cons, not_or] at ht
  cases k <;> simp [terminals, words, ne_comm, ht]

end Keyword

/-- What comes first in the head of a loop ends where it ends, whatever follows it. -/
lemma Start.terminals_inj {s s' : Start} {t t' : String} (ht : IsEnd t) (ht' : IsEnd t')
    (h : s.terminals ++ .token t :: ts = s'.terminals ++ .token t' :: us) :
    s = s' ∧ t = t' ∧ ts = us := by
  cases s with
  | none =>
      cases s' with
      | none => simpa [terminals] using h
      | expression e => simp [terminals] at h
      | declaration k e others =>
          simp only [terminals, List.append_assoc] at h
          exact absurd h.symm (Keyword.terminals_ne_token ht)
  | expression e =>
      cases s' with
      | none => simp [terminals] at h
      | expression f => simpa [terminals] using h
      | declaration k f others =>
          simp only [terminals, List.append_assoc] at h
          exact absurd h.symm Keyword.terminals_ne_node
  | declaration k e others =>
      simp only [terminals, List.append_assoc, List.cons_append] at h
      cases s' with
      | none => exact absurd h (Keyword.terminals_ne_token ht')
      | expression f => exact absurd h Keyword.terminals_ne_node
      | declaration l f others' =>
          simp only [List.append_assoc, List.cons_append] at h
          obtain ⟨rfl, rfl, hothers⟩ := Keyword.terminals_inj h
          obtain ⟨rfl, htokens⟩ := declarators_inj ht ht' hothers
          exact ⟨rfl, htokens⟩

lemma Target.start_inj {a b : Target} (h : a.start = b.start) : a = b := by
  cases a <;> cases b <;> simp_all [start]

/-- What comes first in one kind of loop does not in another one. -/
lemma Start.terminals_ne {s s' : Start} {t t' : String} (ht : IsEnd t) (ht' : IsEnd t')
    (hne : t ≠ t') : s.terminals ++ .token t :: ts ≠ s'.terminals ++ .token t' :: us :=
  fun h => hne (terminals_inj ht ht' h).2.1

/-- The target and the expression behind it in the head of a loop over keys or values. -/
lemma Target.terminals_inj {a b : Target} {t : String} {e f : Json} (ht : IsEnd t)
    (h : a.start.terminals ++ .token t :: .node e :: .token ")" :: ts =
      b.start.terminals ++ .token t :: .node f :: .token ")" :: us) : a = b ∧ e = f ∧ ts = us := by
  obtain ⟨hstart, -, hrest⟩ := Start.terminals_inj ht ht h
  simp only [List.cons.injEq, Terminal.node.injEq, true_and] at hrest
  exact ⟨start_inj hstart, hrest⟩

/-- **A head ends where it ends**, whatever follows it. -/
lemma Head.terminals_inj {h h' : Head} (heq : h.terminals ++ ts = h'.terminals ++ us) :
    h = h' ∧ ts = us := by
  cases h <;> cases h' <;>
    simp only [terminals, List.cons_append, List.append_assoc, List.nil_append, List.cons.injEq,
      Terminal.token.injEq, Terminal.node.injEq, true_and, reduceCtorEq, false_and,
      String.reduceEq] at heq
  case test.test e f => simpa using heq
  case scope.scope e f => simpa using heq
  case steps.steps start first second start' first' second' =>
    obtain ⟨rfl, -, hfirst⟩ := Start.terminals_inj (by decide) (by decide) heq
    obtain ⟨rfl, hsecond⟩ := expression?_inj hfirst
    obtain ⟨rfl, htokens⟩ := expression?_inj hsecond
    exact ⟨rfl, htokens⟩
  case keys.keys =>
    obtain ⟨rfl, rfl, htokens⟩ := Target.terminals_inj (by decide) heq
    exact ⟨rfl, htokens⟩
  case values.values | awaited.awaited =>
    obtain ⟨rfl, rfl, htokens⟩ := Target.terminals_inj (by decide) heq
    exact ⟨rfl, htokens⟩
  -- two kinds of loops, which are told apart by the sign behind what comes first
  all_goals
    have hsign := (Start.terminals_inj (by decide) (by decide) heq).2.1
    exact absurd hsign (by decide)

lemma Head.terminals_eq_cons (h : Head) :
    ∃ t rest, h.terminals = .token t :: rest ∧ t ∈ ["while", "with", "for"] := by
  cases h <;> exact ⟨_, _, rfl, by decide⟩

/-- No head begins with another word. -/
lemma Head.terminals_ne {h : Head} {t : String} (ht : t ∉ ["while", "with", "for"]) :
    .token t :: us ≠ h.terminals ++ ts := by
  obtain ⟨t', rest, hterminals, hmem⟩ := h.terminals_eq_cons
  rw [hterminals]
  rintro heq
  obtain rfl : t = t' := by simpa using (List.cons.inj heq).1
  exact ht hmem

/-- No head begins with an expression. -/
lemma Head.terminals_ne_node {h : Head} {e : Json} : .node e :: us ≠ h.terminals ++ ts := by
  obtain ⟨t, rest, hterminals, -⟩ := h.terminals_eq_cons
  simp [hterminals]

end Heads

/-- The end of a block is not the beginning of a statement. -/
lemma Reads.ne_brace {ts us rest : List Terminal} {t : Tree .statement} (h : Reads ts t rest) :
    ts ≠ .token "\x7d" :: us := by
  cases h with
  | headed hhead =>
      rintro rfl
      exact absurd hhead (Head.terminals_ne (by decide))
  | _ => simp [inParens]

/-- The same beginning, and so the same statement. -/
lemma Reads.eq_of_eq {c : Category} {ts us rest rest' : List Terminal} {t t' : Tree c}
    (h : Reads ts t rest) (h' : Reads us t' rest') (heq : ts = us) : t = t' ∧ rest = rest' := by
  induction h generalizing us rest' with
  | plain =>
      cases h' with
      | plain => simpa using heq
      | headed hhead => exact absurd (heq.trans hhead) Head.terminals_ne_node
      | _ => simp [inParens] at heq
  | parens =>
      cases h' with
      | parens => simpa [inParens] using heq
      | headed hhead => exact absurd (heq.trans hhead) (Head.terminals_ne (by decide))
      | _ => simp [inParens] at heq
  | block _ ih =>
      cases h' with
      | block h =>
          obtain ⟨rfl, rfl⟩ := ih h (by simpa using heq)
          exact ⟨rfl, rfl⟩
      | headed hhead => exact absurd (heq.trans hhead) (Head.terminals_ne (by decide))
      | _ => simp [inParens] at heq
  | labeled _ ih =>
      cases h' with
      | labeled h =>
          simp only [List.cons.injEq, Terminal.node.injEq, true_and] at heq
          obtain ⟨rfl, rfl⟩ := ih h heq.2
          exact ⟨by rw [heq.1], rfl⟩
      | headed hhead => exact absurd (heq.trans hhead) Head.terminals_ne_node
      | _ => simp [inParens] at heq
  | headed hhead _ ih =>
      subst heq
      cases h' with
      | headed hhead' h =>
          obtain ⟨rfl, htokens⟩ := Head.terminals_inj (hhead.symm.trans hhead')
          obtain ⟨rfl, rfl⟩ := ih h htokens
          exact ⟨rfl, rfl⟩
      | plain | labeled => exact absurd hhead Head.terminals_ne_node
      | parens | block | branch | choice => exact absurd hhead (Head.terminals_ne (by decide))
  | branch _ hrest ih =>
      cases h' with
      | branch h =>
          obtain ⟨rfl, htokens⟩ : _ ∧ _ := by simpa [inParens] using heq
          obtain ⟨rfl, rfl⟩ := ih h htokens
          exact ⟨rfl, rfl⟩
      | choice h =>
          obtain ⟨-, htokens⟩ : _ ∧ _ := by simpa [inParens] using heq
          obtain ⟨-, rfl⟩ := ih h htokens
          exact absurd rfl hrest
      | headed hhead => exact absurd (heq.trans hhead) (Head.terminals_ne (by decide))
      | _ => simp [inParens] at heq
  | choice _ _ ih ih' =>
      cases h' with
      | branch h hrest =>
          obtain ⟨-, htokens⟩ : _ ∧ _ := by simpa [inParens] using heq
          obtain ⟨-, rfl⟩ := ih h htokens
          exact absurd rfl hrest
      | choice h h' =>
          obtain ⟨rfl, htokens⟩ : _ ∧ _ := by simpa [inParens] using heq
          obtain ⟨rfl, helse⟩ := ih h htokens
          obtain ⟨rfl, rfl⟩ := ih' h' (List.cons.inj helse).2
          exact ⟨rfl, rfl⟩
      | headed hhead => exact absurd (heq.trans hhead) (Head.terminals_ne (by decide))
      | _ => simp [inParens] at heq
  | done =>
      cases h' with
      | done => simpa using heq
      | more h => exact absurd heq.symm h.ne_brace
  | more h _ ih ih' =>
      cases h' with
      | done => exact absurd heq h.ne_brace
      | more h h' =>
          obtain ⟨rfl, hrest⟩ := ih h heq
          obtain ⟨rfl, rfl⟩ := ih' h' hrest
          exact ⟨rfl, rfl⟩

/-- **A sequence begins with at most one statement.** -/
theorem Reads.unique {c : Category} {ts rest rest' : List Terminal} {t t' : Tree c}
    (h : Reads ts t rest) (h' : Reads ts t' rest') : t = t' ∧ rest = rest' := h.eq_of_eq h' rfl

/-! ## What a statement consists of -/

namespace Tree

/-- Whether a statement ends with an `if` that has no `else`, to which one that follows would go. -/
def isOpen : {c : Category} → Tree c → Bool
  | _, .labeled _ body => body.isOpen
  | _, .headed _ body => body.isOpen
  | _, .branch _ _ => true
  | _, .choice _ _ alternate => alternate.isOpen
  | _, _ => false

/-- **Whether each `else` attaches to its own `if`**: no statement before an `else` is open. -/
def attaches : {c : Category} → Tree c → Bool
  | _, .plain _ => true
  | _, .block body => body.attaches
  | _, .labeled _ body => body.attaches
  | _, .headed _ body => body.attaches
  | _, .branch _ consequent => consequent.attaches
  | _, .choice _ consequent alternate =>
    !consequent.isOpen && consequent.attaches && alternate.attaches
  | _, .done => true
  | _, .more first rest => first.attaches && rest.attaches

/-- **What a tree consists of**, where `wraps` tells which expressions go in parentheses as
statements. -/
def terminals (wraps : Json → Bool) : {c : Category} → Tree c → List Terminal
  | _, .plain e => if wraps e then inParens e [.token ";"] else [.node e, .token ";"]
  | _, .block body => .token "\x7b" :: body.terminals wraps
  | _, .labeled label body => .node label :: .token ":" :: body.terminals wraps
  | _, .headed head body => head.terminals ++ body.terminals wraps
  | _, .branch test consequent => .token "if" :: inParens test (consequent.terminals wraps)
  | _, .choice test consequent alternate =>
    .token "if" :: inParens test
      (consequent.terminals wraps ++ .token "else" :: alternate.terminals wraps)
  | _, .done => [.token "\x7d"]
  | _, .more first rest => first.terminals wraps ++ rest.terminals wraps

variable {wraps : Json → Bool}

/-- No tree begins with `else`. -/
lemma head?_terminals_ne {c : Category} (t : Tree c) (rest : List Terminal) :
    (t.terminals wraps ++ rest).head? ≠ some (.token "else") := by
  induction t generalizing rest with
  | plain e => cases h : wraps e <;> simp [terminals, h, inParens]
  | headed head body =>
      obtain ⟨t, others, hterminals, hmem⟩ := head.terminals_eq_cons
      simp only [terminals, hterminals, List.cons_append, List.head?_cons, ne_eq,
        Option.some.injEq, Terminal.token.injEq]
      rintro rfl
      exact absurd hmem (by decide)
  | more first others ih =>
      rw [terminals, List.append_assoc]
      exact ih _
  | _ => simp [terminals, inParens]

end Tree

section Inversion

variable {ts us rest : List Terminal}

lemma inParens_inj {e : Json} {t : String}
    (h : .token t :: inParens e ts = .token t :: inParens e us) : us = ts := by
  simpa [inParens, eq_comm] using h

lemma reads_plain_iff {e : Json} :
    Reads ts (.plain e) us ↔
      ts = .node e :: .token ";" :: us ∨ ts = inParens e (.token ";" :: us) := by
  constructor
  · intro h
    cases h with
    | plain => exact .inl rfl
    | parens => exact .inr rfl
  · rintro (rfl | rfl)
    · exact .plain
    · exact .parens

lemma reads_block_iff {body : Tree .body} :
    Reads ts (.block body) us ↔ ∃ inside, ts = .token "\x7b" :: inside ∧ Reads inside body us :=
  ⟨fun h => by cases h with | block h => exact ⟨_, rfl, h⟩,
    fun ⟨_, hts, h⟩ => hts ▸ .block h⟩

lemma reads_labeled_iff {label : Json} {body : Tree .statement} :
    Reads ts (.labeled label body) us ↔
      ∃ inside, ts = .node label :: .token ":" :: inside ∧ Reads inside body us :=
  ⟨fun h => by cases h with | labeled h => exact ⟨_, rfl, h⟩,
    fun ⟨_, hts, h⟩ => hts ▸ .labeled h⟩

lemma reads_headed_iff {head : Head} {body : Tree .statement} :
    Reads ts (.headed head body) us ↔
      ∃ inside, ts = head.terminals ++ inside ∧ Reads inside body us :=
  ⟨fun h => by cases h with | headed hhead h => exact ⟨_, hhead, h⟩,
    fun ⟨_, hts, h⟩ => .headed hts h⟩

lemma reads_branch_iff {test : Json} {consequent : Tree .statement} :
    Reads ts (.branch test consequent) us ↔
      ∃ inside, ts = .token "if" :: inParens test inside ∧ Reads inside consequent us ∧
        us.head? ≠ some (.token "else") :=
  ⟨fun h => by cases h with | branch h hrest => exact ⟨_, rfl, h, hrest⟩,
    fun ⟨_, hts, h, hrest⟩ => hts ▸ .branch h hrest⟩

lemma reads_choice_iff {test : Json} {consequent alternate : Tree .statement} :
    Reads ts (.choice test consequent alternate) us ↔
      ∃ inside rest, ts = .token "if" :: inParens test inside ∧
        Reads inside consequent (.token "else" :: rest) ∧ Reads rest alternate us :=
  ⟨fun h => by cases h with | choice h h' => exact ⟨_, _, rfl, h, h'⟩,
    fun ⟨_, _, hts, h, h'⟩ => hts ▸ .choice h h'⟩

lemma reads_done_iff : Reads ts .done us ↔ ts = .token "\x7d" :: us :=
  ⟨fun h => by cases h with | done => rfl, fun h => h ▸ .done⟩

lemma reads_more_iff {first : Tree .statement} {others : Tree .body} :
    Reads ts (.more first others) us ↔ ∃ rest, Reads ts first rest ∧ Reads rest others us :=
  ⟨fun h => by cases h with | more h h' => exact ⟨_, h, h'⟩, fun ⟨_, h, h'⟩ => .more h h'⟩

end Inversion

/-- **What a tree consists of is read as this tree**, up to its end, just if each `else` attaches to
its own `if` and none follows that would go to an `if` of the tree. -/
theorem reads_terminals_iff {wraps : Json → Bool} {c : Category} (t : Tree c)
    (rest us : List Terminal) :
    Reads (t.terminals wraps ++ rest) t us ↔
      us = rest ∧ t.attaches = true ∧ (t.isOpen = true → rest.head? ≠ some (.token "else")) := by
  induction t generalizing rest us with
  | plain e =>
      cases h : wraps e <;>
        simp [reads_plain_iff, Tree.terminals, Tree.attaches, Tree.isOpen, inParens, h, eq_comm]
  | block body ih =>
      have hclosed : body.isOpen = false := by cases body <;> rfl
      simp [Tree.terminals, reads_block_iff, ih, Tree.attaches, Tree.isOpen, hclosed]
  | labeled label body ih =>
      simp [Tree.terminals, reads_labeled_iff, ih, Tree.attaches, Tree.isOpen]
  | headed head body ih =>
      simp [Tree.terminals, reads_headed_iff, ih, Tree.attaches, Tree.isOpen]
  | branch test consequent ih =>
      simp only [Tree.terminals, reads_branch_iff, inParens, List.cons_append, List.cons.injEq,
        true_and, exists_eq_left', ih, Tree.attaches, Tree.isOpen, forall_const]
      constructor
      · rintro ⟨⟨rfl, hattaches, -⟩, hrest⟩
        exact ⟨rfl, hattaches, hrest⟩
      · rintro ⟨rfl, hattaches, hrest⟩
        exact ⟨⟨rfl, hattaches, fun _ => hrest⟩, hrest⟩
  | choice test consequent alternate ih ih' =>
      have hterminals : (Tree.choice test consequent alternate).terminals wraps ++ rest =
          .token "if" :: inParens test (consequent.terminals wraps ++
            .token "else" :: (alternate.terminals wraps ++ rest)) := by
        simp [Tree.terminals, inParens]
      rw [hterminals, reads_choice_iff]
      constructor
      · rintro ⟨inside, behind, hts, h, h'⟩
        obtain rfl := inParens_inj hts
        obtain ⟨helse, hattaches, hclosed⟩ := (ih _ _).mp h
        obtain rfl := (List.cons.inj helse).2
        obtain ⟨rfl, hattaches', hrest⟩ := (ih' _ _).mp h'
        have hnot : consequent.isOpen = false := by simpa using hclosed
        exact ⟨rfl, by simp [Tree.attaches, hnot, hattaches, hattaches'], hrest⟩
      · rintro ⟨rfl, hattaches, hrest⟩
        simp only [Tree.attaches, Bool.and_eq_true, Bool.not_eq_true'] at hattaches
        obtain ⟨⟨hclosed, hattaches⟩, hattaches'⟩ := hattaches
        exact ⟨_, _, rfl, (ih _ _).mpr ⟨rfl, hattaches, by simp [hclosed]⟩,
          (ih' _ _).mpr ⟨rfl, hattaches', hrest⟩⟩
  | done => simp [Tree.terminals, reads_done_iff, Tree.attaches, Tree.isOpen, eq_comm]
  | more first others ih ih' =>
      have hclosed : others.isOpen = false := by cases others <;> rfl
      -- behind a statement of a block there is no `else`
      have hnext : (others.terminals wraps ++ rest).head? ≠ some (.token "else") :=
        others.head?_terminals_ne rest
      rw [Tree.terminals, List.append_assoc, reads_more_iff]
      constructor
      · rintro ⟨_, h, h'⟩
        obtain ⟨rfl, hattaches, -⟩ := (ih _ _).mp h
        obtain ⟨rfl, hattaches', -⟩ := (ih' _ _).mp h'
        exact ⟨rfl, by simp [Tree.attaches, hattaches, hattaches'], by simp [Tree.isOpen]⟩
      · rintro ⟨rfl, hattaches, -⟩
        obtain ⟨hattaches, hattaches'⟩ := Bool.and_eq_true_iff.mp hattaches
        exact ⟨_, (ih _ _).mpr ⟨rfl, hattaches, fun _ => hnext⟩,
          (ih' _ _).mpr ⟨rfl, hattaches', by simp [hclosed]⟩⟩

/-- A whole statement is read as itself, and as nothing else, just if each `else` attaches to its
own `if`. -/
theorem reads_iff_attaches {wraps : Json → Bool} (t : Tree .statement) :
    (∀ read, Reads (t.terminals wraps) read [] ↔ read = t) ↔ t.attaches = true := by
  have hself : Reads (t.terminals wraps ++ []) t [] ↔ _ := reads_terminals_iff t [] []
  rw [List.append_nil] at hself
  constructor
  · exact fun h => (hself.mp ((h t).mpr rfl)).2.1
  · intro hattaches
    have hreads := hself.mpr ⟨rfl, hattaches, by simp⟩
    refine fun read => ⟨fun h => (h.unique hreads).1, ?_⟩
    rintro rfl
    exact hreads

end Grammar.Statement

end EstreePrinter
