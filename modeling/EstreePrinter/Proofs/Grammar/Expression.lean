import Mathlib
import EstreePrinter.Proofs.Grammar.Token

/-!
# The grammar of expressions

The stratified grammar of expressions, from primary expressions up to comma expressions.  The words
`await` and `yield` are always operators here, and a bare `in` may stand anywhere.

* `Expr` — the trees, without parentheses;
* `Level` — the nonterminals, each with the ones it includes as they are (`Level.below`);
* **`Derives`** — which tokens are derived from a nonterminal, and with which tree.  Where no line
  feed may stand before a token, its mark is `false`;
* `Derives.raise` — what is derived at one level is derived at every level that includes it.
-/

namespace EstreePrinter

namespace Grammar

/-- An expression. -/
inductive Expr where
  | name (s : String)
  | binary (operator : String) (left right : Expr)
  | logical (operator : String) (left right : Expr)
  | unary (operator : String) (argument : Expr)
  /-- An increment or decrement, written before its target or behind it. -/
  | update (operator : String) (isBefore : Bool) (argument : Expr)
  | await (argument : Expr)
  | yield (argument : Option Expr)
  | yieldAll (argument : Expr)
  | conditional (test yes no : Expr)
  | assign (operator : String) (target value : Expr)
  /-- Two or more expressions with commas between them. -/
  | sequence (first second : Expr) (rest : List Expr)
  | arrow (isAsync : Bool) (parameters : List String) (body : Expr)
  /-- A member by its name. -/
  | member (object : Expr) (property : String)
  /-- A member by an expression. -/
  | index (object property : Expr)
  | call (callee : Expr) (arguments : List Expr)

/-- What can be assigned to. -/
def Expr.IsTarget : Expr → Prop
  | .name _ => True
  | .member _ _ => True
  | .index _ _ => True
  | _ => False

/-- The words that are no names. -/
def reservedWords : List String :=
  ["await", "break", "case", "catch", "class", "const", "continue", "debugger", "default", "delete",
    "do", "else", "enum", "export", "extends", "false", "finally", "for", "function", "if",
    "import", "in", "instanceof", "new", "null", "return", "super", "switch", "this", "throw",
    "true", "try", "typeof", "var", "void", "while", "with", "yield"]

/-- A text that can be the name of a variable. -/
def IsName (s : String) : Prop := IsWord s ∧ s ∉ reservedWords

instance (s : String) : Decidable (IsName s) :=
  inferInstanceAs (Decidable (IsWord s ∧ s ∉ reservedWords))

/-! ## Levels -/

/-- The nonterminals of the grammar. -/
inductive Level where
  | primary
  | member
  | call
  | leftHand
  | update
  | unary
  | power
  | product
  | sum
  | shift
  | relation
  | equality
  | bitAnd
  | bitXor
  | bitOr
  | and
  | or
  | coalesce
  | coalesceHead
  | shortCircuit
  | conditional
  | assignment
  | expression
  deriving DecidableEq, Repr

/-- The nonterminals that a nonterminal includes as they are. -/
def Level.below : Level → List Level
  | .primary => []
  | .member => [.primary]
  | .call => []
  | .leftHand => [.member, .call]
  | .update => [.leftHand]
  | .unary => [.update]
  | .power => [.unary]
  | .product => [.power]
  | .sum => [.product]
  | .shift => [.sum]
  | .relation => [.shift]
  | .equality => [.relation]
  | .bitAnd => [.equality]
  | .bitXor => [.bitAnd]
  | .bitOr => [.bitXor]
  | .and => [.bitOr]
  | .or => [.and]
  | .coalesce => []
  | .coalesceHead => [.coalesce, .bitOr]
  | .shortCircuit => [.or, .coalesce]
  | .conditional => [.shortCircuit]
  | .assignment => [.conditional]
  | .expression => [.assignment]

/-! ## Operators -/

/-- The binary operators that group to the left, with their levels. -/
def binaryLevels : List (String × Level) :=
  [("*", .product), ("/", .product), ("%", .product), ("+", .sum), ("-", .sum), ("<<", .shift),
    (">>", .shift), (">>>", .shift), ("<", .relation), (">", .relation), ("<=", .relation),
    (">=", .relation), ("in", .relation), ("instanceof", .relation), ("==", .equality),
    ("!=", .equality), ("===", .equality), ("!==", .equality), ("&", .bitAnd), ("^", .bitXor),
    ("|", .bitOr)]

/-- The logical operators that group to the left, with their levels. -/
def logicalLevels : List (String × Level) := [("&&", .and), ("||", .or)]

/-- The operators before an argument. -/
def unaryOperators : List String := ["-", "+", "!", "~", "typeof", "void", "delete"]

/-- The operators that change their target. -/
def updateOperators : List String := ["++", "--"]

/-- The operators of assignments. -/
def assignmentOperators : List String :=
  ["=", "+=", "-=", "*=", "/=", "%=", "**=", "<<=", ">>=", ">>>=", "&=", "|=", "^=", "&&=", "||=",
    "??="]

/-! ## Derivations -/

/-- Names with commas between them. -/
inductive DerivesNames : List Token → List String → Prop
  | one {s : String} {b : Bool} (hs : IsName s) : DerivesNames [⟨s, b⟩] [s]
  | more {s : String} {b c : Bool} {ts : List Token} {names : List String} (hs : IsName s)
      (h : DerivesNames ts names) : DerivesNames (⟨s, b⟩ :: ⟨",", c⟩ :: ts) (s :: names)

/-- The parameters of a function: none, or names with commas between them and perhaps one behind. -/
inductive DerivesParameters : List Token → List String → Prop
  | none : DerivesParameters [] []
  | names {ts : List Token} {names : List String} (h : DerivesNames ts names) :
      DerivesParameters ts names
  | trailing {ts : List Token} {names : List String} {b : Bool} (h : DerivesNames ts names) :
      DerivesParameters (ts ++ [⟨",", b⟩]) names

mutual

/-- **Derivations.**  `Derives l ts e` says that the tokens `ts` are derived from the nonterminal
`l`, and that `e` is their tree. -/
inductive Derives : Level → List Token → Expr → Prop
  | unit {l m : Level} {ts : List Token} {e : Expr} (hm : m ∈ l.below) (h : Derives m ts e) :
      Derives l ts e
  | name {s : String} {b : Bool} (hs : IsName s) : Derives .primary [⟨s, b⟩] (.name s)
  | parens {ts : List Token} {e : Expr} {b c : Bool} (h : Derives .expression ts e) :
      Derives .primary (⟨"(", b⟩ :: (ts ++ [⟨")", c⟩])) e
  | member {l : Level} {ts : List Token} {e : Expr} {p : String} {b c : Bool}
      (hl : l = .member ∨ l = .call) (h : Derives l ts e) (hp : IsWord p) :
      Derives l (ts ++ [⟨".", b⟩, ⟨p, c⟩]) (.member e p)
  | index {l : Level} {ts us : List Token} {e f : Expr} {b c : Bool}
      (hl : l = .member ∨ l = .call) (h : Derives l ts e) (hf : Derives .expression us f) :
      Derives l (ts ++ ⟨"[", b⟩ :: (us ++ [⟨"]", c⟩])) (.index e f)
  | call {l : Level} {ts us : List Token} {e : Expr} {args : List Expr} {b c : Bool}
      (hl : l = .member ∨ l = .call) (h : Derives l ts e) (hargs : DerivesArguments us args) :
      Derives .call (ts ++ ⟨"(", b⟩ :: (us ++ [⟨")", c⟩])) (.call e args)
  | updateBehind {ts : List Token} {e : Expr} {op : String} (hop : op ∈ updateOperators)
      (h : Derives .leftHand ts e) (htarget : e.IsTarget) :
      Derives .update (ts ++ [⟨op, false⟩]) (.update op false e)
  | updateBefore {ts : List Token} {e : Expr} {op : String} {b : Bool} (hop : op ∈ updateOperators)
      (h : Derives .unary ts e) (htarget : e.IsTarget) :
      Derives .update (⟨op, b⟩ :: ts) (.update op true e)
  | unary {ts : List Token} {e : Expr} {op : String} {b : Bool} (hop : op ∈ unaryOperators)
      (h : Derives .unary ts e) : Derives .unary (⟨op, b⟩ :: ts) (.unary op e)
  | await {ts : List Token} {e : Expr} {b : Bool} (h : Derives .unary ts e) :
      Derives .unary (⟨"await", b⟩ :: ts) (.await e)
  | power {ts us : List Token} {e f : Expr} {b : Bool} (h : Derives .update ts e)
      (hf : Derives .power us f) : Derives .power (ts ++ ⟨"**", b⟩ :: us) (.binary "**" e f)
  | binary {l m : Level} {ts us : List Token} {e f : Expr} {op : String} {b : Bool}
      (hop : (op, l) ∈ binaryLevels) (hm : m ∈ l.below) (h : Derives l ts e) (hf : Derives m us f) :
      Derives l (ts ++ ⟨op, b⟩ :: us) (.binary op e f)
  | logical {l m : Level} {ts us : List Token} {e f : Expr} {op : String} {b : Bool}
      (hop : (op, l) ∈ logicalLevels) (hm : m ∈ l.below) (h : Derives l ts e)
      (hf : Derives m us f) : Derives l (ts ++ ⟨op, b⟩ :: us) (.logical op e f)
  | coalesce {ts us : List Token} {e f : Expr} {b : Bool} (h : Derives .coalesceHead ts e)
      (hf : Derives .bitOr us f) : Derives .coalesce (ts ++ ⟨"??", b⟩ :: us) (.logical "??" e f)
  | conditional {ts us vs : List Token} {e f g : Expr} {b c : Bool} (h : Derives .shortCircuit ts e)
      (hf : Derives .assignment us f) (hg : Derives .assignment vs g) :
      Derives .conditional (ts ++ ⟨"?", b⟩ :: (us ++ ⟨":", c⟩ :: vs)) (.conditional e f g)
  | assign {ts us : List Token} {e f : Expr} {op : String} {b : Bool}
      (hop : op ∈ assignmentOperators) (h : Derives .leftHand ts e) (htarget : e.IsTarget)
      (hf : Derives .assignment us f) : Derives .assignment (ts ++ ⟨op, b⟩ :: us) (.assign op e f)
  | yieldNothing {b : Bool} : Derives .assignment [⟨"yield", b⟩] (.yield none)
  | yield {s : String} {ts : List Token} {e : Expr} {b : Bool}
      (h : Derives .assignment (⟨s, false⟩ :: ts) e) :
      Derives .assignment (⟨"yield", b⟩ :: ⟨s, false⟩ :: ts) (.yield (some e))
  | yieldAll {ts : List Token} {e : Expr} {b : Bool} (h : Derives .assignment ts e) :
      Derives .assignment (⟨"yield", b⟩ :: ⟨"*", false⟩ :: ts) (.yieldAll e)
  | arrow {ts us : List Token} {names : List String} {e : Expr} {b c : Bool}
      (hnames : DerivesParameters ts names) (h : Derives .assignment us e) :
      Derives .assignment (⟨"(", b⟩ :: (ts ++ ⟨")", c⟩ :: ⟨"=>", false⟩ :: us))
        (.arrow false names e)
  | arrowOfName {us : List Token} {s : String} {e : Expr} {b : Bool} (hs : IsName s)
      (h : Derives .assignment us e) :
      Derives .assignment (⟨s, b⟩ :: ⟨"=>", false⟩ :: us) (.arrow false [s] e)
  | asyncArrow {ts us : List Token} {names : List String} {e : Expr} {b c : Bool}
      (hnames : DerivesParameters ts names) (h : Derives .assignment us e) :
      Derives .assignment (⟨"async", b⟩ :: ⟨"(", false⟩ :: (ts ++ ⟨")", c⟩ :: ⟨"=>", false⟩ :: us))
        (.arrow true names e)
  | asyncArrowOfName {us : List Token} {s : String} {e : Expr} {b : Bool} (hs : IsName s)
      (h : Derives .assignment us e) :
      Derives .assignment (⟨"async", b⟩ :: ⟨s, false⟩ :: ⟨"=>", false⟩ :: us) (.arrow true [s] e)
  | comma {ts : List Token} {first second : Expr} {rest : List Expr}
      (h : DerivesList ts (first :: second :: rest)) :
      Derives .expression ts (.sequence first second rest)

/-- Expressions with commas between them. -/
inductive DerivesList : List Token → List Expr → Prop
  | one {ts : List Token} {e : Expr} (h : Derives .assignment ts e) : DerivesList ts [e]
  | more {ts us : List Token} {e : Expr} {es : List Expr} {b : Bool} (h : Derives .assignment ts e)
      (hes : DerivesList us es) : DerivesList (ts ++ ⟨",", b⟩ :: us) (e :: es)

/-- The arguments of a call: none, or expressions with commas between them and perhaps one behind
the last. -/
inductive DerivesArguments : List Token → List Expr → Prop
  | none : DerivesArguments [] []
  | list {ts : List Token} {es : List Expr} (h : DerivesList ts es) : DerivesArguments ts es
  | trailing {ts : List Token} {es : List Expr} {b : Bool} (h : DerivesList ts es) :
      DerivesArguments (ts ++ [⟨",", b⟩]) es

end

/-! ## Levels inside of levels -/

/-- A level that is included in another one, in some number of steps. -/
def Level.Within (m l : Level) : Prop := Relation.ReflTransGen (fun m l => m ∈ l.below) m l

/-- Whether a level is included in another one, in at most so many steps. -/
def Level.isWithin (steps : Nat) (m l : Level) : Bool :=
  m == l ||
    match steps with
    | 0 => false
    | steps + 1 => l.below.any fun k => isWithin steps m k

lemma Level.Within.trans {a b c : Level} (h : a.Within b) (h' : b.Within c) : a.Within c :=
  Relation.ReflTransGen.trans h h'

/-- Whether a level is included in another one can be checked; no chain of levels is longer than
there are levels. -/
lemma Level.within_of_isWithin {m l : Level} (h : Level.isWithin 22 m l = true) : m.Within l := by
  have hsteps : ∀ steps l, Level.isWithin steps m l = true → m.Within l := by
    intro steps
    induction steps with
    | zero =>
        intro l hl
        simp only [Level.isWithin, Bool.or_false, beq_iff_eq] at hl
        exact hl ▸ .refl
    | succ steps ih =>
        intro l hl
        simp only [Level.isWithin, Bool.or_eq_true, beq_iff_eq, List.any_eq_true] at hl
        rcases hl with rfl | ⟨k, hk, hwithin⟩
        · exact .refl
        · exact .tail (ih k hwithin) hk
  exact hsteps 22 l h

/-- The levels are listed so that each includes earlier ones only. -/
lemma Level.ctorIdx_lt_of_mem {m l : Level} (h : m ∈ l.below) : m.ctorIdx < l.ctorIdx := by
  have hall : ∀ l : Level, ∀ k ∈ l.below, k.ctorIdx < l.ctorIdx := by
    intro l
    cases l <;> decide
  exact hall l m h

/-- The check finds every chain of levels. -/
lemma Level.isWithin_of_within {m l : Level} (h : m.Within l) : Level.isWithin 22 m l = true := by
  have hsteps : ∀ steps, l.ctorIdx ≤ steps → Level.isWithin steps m l = true := by
    induction h with
    | refl =>
        intro steps _
        unfold Level.isWithin
        simp
    | @tail k l _ hstep ih =>
        intro steps hrank
        have hlt := Level.ctorIdx_lt_of_mem hstep
        obtain ⟨n, rfl⟩ : ∃ n, steps = n + 1 := ⟨steps - 1, by omega⟩
        simp only [Level.isWithin, Bool.or_eq_true, List.any_eq_true]
        exact Or.inr ⟨k, hstep, ih n (by omega)⟩
  exact hsteps 22 (by cases l <;> decide)

/-- **What is derived at one level is derived at every level that includes it.** -/
lemma Derives.raise {m l : Level} (hml : Level.Within m l) {ts : List Token} {e : Expr}
    (h : Derives m ts e) : Derives l ts e := by
  induction hml with
  | refl => exact h
  | tail _ hstep ih => exact .unit hstep ih

end Grammar

end EstreePrinter
