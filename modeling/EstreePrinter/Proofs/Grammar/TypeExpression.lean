import Mathlib
import EstreePrinter.Proofs.Grammar.Expression
import EstreePrinter.Proofs.Grammar.Passage

/-!
# The grammar of types

The stratified grammar of types: brackets behind a type bind tightest, then the operators before
one, then `&`, then `|`, then function types and conditional types.  Behind the word `extends` no
conditional type may stand, not even as the result of a function type (`TypeLevel.bound`).

* `TypeTree` — the trees, without parentheses;
* `TypeLevel` — the nonterminals;
* **`DerivesType`** — which tokens are derived from a nonterminal, and with which tree.  No line
  feed may stand before a bracket, before type arguments and before the word `extends`;
* `TypeTree.level`, `TypeTree.fits` — where a tree may stand without parentheses;
* `typeAlphabet` — the signs: angle brackets are read one by one, so that two lists of type
  arguments can end side by side.
-/

namespace EstreePrinter

namespace Grammar

/-! ## Trees -/

/-- What a parameter is marked as. -/
inductive Mark where
  | none
  | optional
  | rest
  deriving DecidableEq, Repr

/-- What a function type is the type of: a function, or a constructor. -/
inductive FunctionForm where
  | plain
  | newable
  | abstractNewable
  deriving DecidableEq, Repr

mutual

/-- A type. -/
inductive TypeTree where
  | keyword (word : String)
  /-- A type by its name, which may be qualified, and its arguments. -/
  | reference (path : List String) (arguments : List TypeTree)
  | array (element : TypeTree)
  | index (object key : TypeTree)
  | operator (op : String) (operand : TypeTree)
  /-- Two or more types with `&` between them. -/
  | intersection (first second : TypeTree) (rest : List TypeTree)
  /-- Two or more types with `|` between them. -/
  | union (first second : TypeTree) (rest : List TypeTree)
  | conditional (check bound yes no : TypeTree)
  | function (form : FunctionForm) (parameters : List Parameter) (result : TypeTree)

/-- A parameter of a function type. -/
inductive Parameter where
  | bare (name : String) (mark : Mark)
  | typed (name : String) (mark : Mark) (type : TypeTree)

end

/-! ## Words -/

/-- The types that are a single word. -/
def typeKeywords : List String :=
  ["any", "unknown", "number", "string", "boolean", "bigint", "symbol", "object", "void",
    "undefined", "null", "never", "intrinsic", "this"]

/-- The operators before a type. -/
def typeOperators : List String := ["keyof", "readonly", "unique"]

/-- The name of a type: a name that is no operator, with words behind it, or one that is no keyword
either. -/
def IsTypePath : List String → Prop
  | [] => False
  | [s] => IsName s ∧ s ∉ "infer" :: typeOperators ∧ s ∉ typeKeywords
  | s :: _ :: _ => IsName s ∧ s ∉ "infer" :: typeOperators

/-- The name of a parameter. -/
def IsParameterName (s : String) : Prop := IsName s ∨ s = "this"

/-- The signs of types, and where they stand beside types. -/
def typeAlphabet : Alphabet where
  signs := punctuators.filter fun p =>
    p != "\x7d" && (p.toList.length == 1 || !(['<', '>'].contains (p.toList.headD '.')))
  plain := plain_of_all (by decide)
  openers := ["(", "..."]
  closers := [")", "]", ">", "?"]
  before := ["(", "[", "<"]
  behind := [")", "]", ",", "[", "<", ">", ":"]
  mem_signs := by decide
  apart_before := by decide
  apart_behind := by decide

/-! ## Levels -/

/-- The nonterminals of types. -/
inductive TypeLevel where
  | primary
  | bracket
  | operator
  | intersection
  | union
  /-- What may stand behind the word `extends`. -/
  | bound
  | type
  deriving DecidableEq, Repr

/-- The nonterminal that a nonterminal includes as it is. -/
def TypeLevel.below : TypeLevel → Option TypeLevel
  | .primary => none
  | .bracket => some .primary
  | .operator => some .bracket
  | .intersection => some .operator
  | .union => some .intersection
  | .bound => some .union
  | .type => some .bound

/-! ## Derivations -/

/-- The name of a type. -/
inductive DerivesPath : List Token → List String → Prop
  | one {s : String} {b : Bool} (hs : IsWord s) : DerivesPath [⟨s, b⟩] [s]
  | more {ts : List Token} {path : List String} {s : String} {b c : Bool}
      (h : DerivesPath ts path) (hs : IsWord s) :
      DerivesPath (ts ++ [⟨".", b⟩, ⟨s, c⟩]) (path ++ [s])

/-- The name of a parameter with its mark. -/
inductive DerivesBinding : List Token → String → Mark → Prop
  | plain {s : String} {b : Bool} (hs : IsParameterName s) : DerivesBinding [⟨s, b⟩] s .none
  | optional {s : String} {b c : Bool} (hs : IsParameterName s) :
      DerivesBinding [⟨s, b⟩, ⟨"?", c⟩] s .optional
  | rest {s : String} {b c : Bool} (hs : IsParameterName s) :
      DerivesBinding [⟨"...", b⟩, ⟨s, c⟩] s .rest

mutual

/-- **Derivations.**  `DerivesType l ts e` says that the tokens `ts` are derived from the
nonterminal `l`, and that `e` is their tree. -/
inductive DerivesType : TypeLevel → List Token → TypeTree → Prop
  | unit {l m : TypeLevel} {ts : List Token} {e : TypeTree} (hm : l.below = some m)
      (h : DerivesType m ts e) : DerivesType l ts e
  | keyword {word : String} {b : Bool} (hword : word ∈ typeKeywords) :
      DerivesType .primary [⟨word, b⟩] (.keyword word)
  | reference {ts : List Token} {path : List String} (hpath : IsTypePath path)
      (h : DerivesPath ts path) : DerivesType .primary ts (.reference path [])
  | generic {ts us : List Token} {path : List String} {args : List TypeTree} {c : Bool}
      (hpath : IsTypePath path) (h : DerivesPath ts path)
      (hargs : DerivesSeparated (DerivesType .type) "," us args) :
      DerivesType .primary (ts ++ ⟨"<", false⟩ :: (us ++ [⟨">", c⟩])) (.reference path args)
  | parens {ts : List Token} {e : TypeTree} {b c : Bool} (h : DerivesType .type ts e) :
      DerivesType .primary (⟨"(", b⟩ :: (ts ++ [⟨")", c⟩])) e
  | array {ts : List Token} {e : TypeTree} {c : Bool} (h : DerivesType .bracket ts e) :
      DerivesType .bracket (ts ++ [⟨"[", false⟩, ⟨"]", c⟩]) (.array e)
  | index {ts us : List Token} {e f : TypeTree} {c : Bool} (h : DerivesType .bracket ts e)
      (hf : DerivesType .type us f) :
      DerivesType .bracket (ts ++ ⟨"[", false⟩ :: (us ++ [⟨"]", c⟩])) (.index e f)
  | operator {op : String} {ts : List Token} {e : TypeTree} {b : Bool} (hop : op ∈ typeOperators)
      (h : DerivesType .operator ts e) : DerivesType .operator (⟨op, b⟩ :: ts) (.operator op e)
  | intersection {ts : List Token} {first second : TypeTree} {rest : List TypeTree}
      (h : DerivesSeparated (DerivesType .operator) "&" ts (first :: second :: rest)) :
      DerivesType .intersection ts (.intersection first second rest)
  | union {ts : List Token} {first second : TypeTree} {rest : List TypeTree}
      (h : DerivesSeparated (DerivesType .intersection) "|" ts (first :: second :: rest)) :
      DerivesType .union ts (.union first second rest)
  | conditional {ts us vs ws : List Token} {e f g k : TypeTree} {b c : Bool}
      (h : DerivesType .union ts e) (hf : DerivesType .bound us f) (hg : DerivesType .type vs g)
      (hk : DerivesType .type ws k) :
      DerivesType .type
        (ts ++ ⟨"extends", false⟩ :: (us ++ ⟨"?", b⟩ :: (vs ++ ⟨":", c⟩ :: ws)))
        (.conditional e f g k)
  | function {l : TypeLevel} {ts : List Token} {params : List Parameter} {e : TypeTree}
      (hl : l = .bound ∨ l = .type) (h : DerivesSignature l ts params e) :
      DerivesType l ts (.function .plain params e)
  | newable {l : TypeLevel} {ts : List Token} {params : List Parameter} {e : TypeTree}
      {b : Bool} (hl : l = .bound ∨ l = .type) (h : DerivesSignature l ts params e) :
      DerivesType l (⟨"new", b⟩ :: ts) (.function .newable params e)
  | abstractNewable {l : TypeLevel} {ts : List Token} {params : List Parameter} {e : TypeTree}
      {b c : Bool} (hl : l = .bound ∨ l = .type) (h : DerivesSignature l ts params e) :
      DerivesType l (⟨"abstract", b⟩ :: ⟨"new", c⟩ :: ts) (.function .abstractNewable params e)

/-- The parameters and the result of a function type.  The result stands at the level of the whole
type. -/
inductive DerivesSignature : TypeLevel → List Token → List Parameter → TypeTree → Prop
  | mk {l : TypeLevel} {ts us : List Token} {params : List Parameter} {e : TypeTree} {b c : Bool}
      (hparams : DerivesListed DerivesParameter ts params) (h : DerivesType l us e) :
      DerivesSignature l (⟨"(", b⟩ :: (ts ++ [⟨")", c⟩]) ++ ⟨"=>", false⟩ :: us) params e

/-- A parameter, with its type or without one. -/
inductive DerivesParameter : List Token → Parameter → Prop
  | bare {ts : List Token} {s : String} {mark : Mark} (h : DerivesBinding ts s mark) :
      DerivesParameter ts (.bare s mark)
  | typed {ts us : List Token} {s : String} {mark : Mark} {e : TypeTree} {b : Bool}
      (h : DerivesBinding ts s mark) (he : DerivesType .type us e) :
      DerivesParameter (ts ++ ⟨":", b⟩ :: us) (.typed s mark e)

end

/-! ## The level of a tree -/

/-- How many levels are below a level. -/
def TypeLevel.rank : TypeLevel → Nat
  | .primary => 0
  | .bracket => 1
  | .operator => 2
  | .intersection => 3
  | .union => 4
  | .bound => 5
  | .type => 6

namespace TypeTree

/-- The level at which a tree is derived.  A function type stands where its result can stand. -/
def level : TypeTree → TypeLevel
  | .keyword _ => .primary
  | .reference _ _ => .primary
  | .array _ => .bracket
  | .index _ _ => .bracket
  | .operator _ _ => .operator
  | .intersection _ _ _ => .intersection
  | .union _ _ _ => .union
  | .conditional _ _ _ _ => .type
  | .function _ _ result => if result.level = .type then .type else .bound

/-- Whether a tree is derived at a level without parentheses. -/
def fits (l : TypeLevel) (e : TypeTree) : Bool := decide (e.level.rank ≤ l.rank)

/-- Whether a type is a list of other ones. -/
def isList (e : TypeTree) : Bool := e.level = .union || e.level = .intersection

/-- Whether a type is a conditional type. -/
def isConditional : TypeTree → Bool
  | .conditional _ _ _ _ => true
  | _ => false

end TypeTree

/-- **What is derived at one level is derived at every level above it.** -/
lemma DerivesType.raise {m l : TypeLevel} (hml : m.rank ≤ l.rank) {ts : List Token} {e : TypeTree}
    (h : DerivesType m ts e) : DerivesType l ts e := by
  obtain ⟨n, hn⟩ := Nat.exists_eq_add_of_le hml
  induction n generalizing l with
  | zero =>
      obtain rfl : l = m := by cases l <;> cases m <;> simp_all [TypeLevel.rank]
      exact h
  | succ n ih =>
      cases hbelow : l.below with
      | none => cases l <;> simp [TypeLevel.below, TypeLevel.rank] at hbelow hn
      | some k =>
          have hrank : l.rank = k.rank + 1 := by
            cases l <;> simp only [TypeLevel.below, Option.some.injEq, reduceCtorEq] at hbelow <;>
              subst hbelow <;> rfl
          exact .unit hbelow (ih (by omega) (by omega))

/-- A tree is derived at every level that it fits. -/
lemma DerivesType.ofFits {l : TypeLevel} {e : TypeTree} (hfits : e.fits l = true)
    {ts : List Token} (h : DerivesType e.level ts e) : DerivesType l ts e :=
  h.raise (of_decide_eq_true hfits)

lemma TypeTree.fits_type (e : TypeTree) : e.fits .type = true := by
  rw [TypeTree.fits, decide_eq_true_eq]
  cases e.level <;> decide

end Grammar

end EstreePrinter
