import Mathlib
import EstreePrinter.Proofs.Grammar.Expression
import EstreePrinter.Proofs.Grammar.Passage

/-!
# The grammar of accesses and calls

Names, accesses, calls, `new`, tagged templates, dynamic imports and optional chains, with the
productions that group them.

* `Access`, `Link` — the trees, without parentheses.  A chain is marked where it ends: what follows
  an optional access or call is skipped up to there;
* `AccessLevel` — the nonterminals;
* **`DerivesAccess`** — which tokens are derived from a nonterminal, and with which tree;
* `Access.isOpen`, `Access.hidesCall` — what decides at which level a tree is derived.
-/

namespace EstreePrinter

namespace Grammar

/-! ## Trees -/

mutual

/-- An expression made of names, accesses and calls. -/
inductive Access where
  | name (s : String)
  /-- An access or a call, which may be optional. -/
  | link (isOptional : Bool) (head : Access) (link : Link)
  /-- The making of an object with `new`. -/
  | make (callee : Access) (arguments : List Access)
  /-- A template with a tag: its texts, and the holes between them. -/
  | tagged (tag : Access) (texts : List String) (holes : List Access)
  /-- A dynamic import: what is imported, and perhaps options. -/
  | load (arguments : List Access)
  /-- A whole optional chain. -/
  | chain (e : Access)

/-- What stands behind the head of an access or a call. -/
inductive Link where
  | member (property : String)
  | index (property : Access)
  | call (arguments : List Access)

end

/-- Whether a link is a call. -/
def Link.isCall : Link → Bool
  | .call _ => true
  | _ => false

namespace Access

/-- Whether a tree is a part of an optional chain that is still to be ended: one of its links is
optional. -/
def isOpen : Access → Bool
  | .link isOptional head _ => isOptional || head.isOpen
  | _ => false

/-- Whether a tree is a whole optional chain. -/
def isChain : Access → Bool
  | .chain _ => true
  | _ => false

/-- Whether the text of a tree holds a call outside of all parentheses, and so would end the head of
a `new`: one of its links is a call, or it begins with an import. -/
def hidesCall : Access → Bool
  | .link _ head k => k.isCall || head.hidesCall
  | .tagged tag _ _ => tag.hidesCall
  | .load _ => true
  | _ => false

end Access

/-! ## Levels -/

/-- The nonterminals of accesses and calls. -/
inductive AccessLevel where
  | primary
  | member
  | make
  | call
  | optional
  | leftHand
  deriving DecidableEq, Repr

/-- The nonterminals that a nonterminal includes as they are.  A left-hand side may also be an
optional chain, which is marked in its tree. -/
def AccessLevel.below : AccessLevel → List AccessLevel
  | .primary => []
  | .member => [.primary]
  | .make => [.member]
  | .call => []
  | .optional => []
  | .leftHand => [.make, .call]

/-! ## Derivations -/

mutual

/-- **Derivations.**  `DerivesAccess l ts e` says that the tokens `ts` are derived from the
nonterminal `l`, and that `e` is their tree. -/
inductive DerivesAccess : AccessLevel → List Token → Access → Prop
  | unit {l m : AccessLevel} {ts : List Token} {e : Access} (hm : m ∈ l.below)
      (h : DerivesAccess m ts e) : DerivesAccess l ts e
  | name {s : String} {b : Bool} (hs : IsName s) : DerivesAccess .primary [⟨s, b⟩] (.name s)
  | parens {ts : List Token} {e : Access} {b c : Bool} (h : DerivesAccess .leftHand ts e) :
      DerivesAccess .primary (⟨"(", b⟩ :: (ts ++ [⟨")", c⟩])) e
  | access {l : AccessLevel} {ts us : List Token} {e : Access} {k : Link}
      (hl : l = .member ∨ l = .call) (h : DerivesAccess l ts e) (hk : DerivesLink false us k)
      (hcall : k.isCall = false) : DerivesAccess l (ts ++ us) (.link false e k)
  | call {l : AccessLevel} {ts us : List Token} {e : Access} {k : Link}
      (hl : l = .member ∨ l = .call) (h : DerivesAccess l ts e) (hk : DerivesLink false us k)
      (hcall : k.isCall = true) : DerivesAccess .call (ts ++ us) (.link false e k)
  | tagged {l : AccessLevel} {ts us : List Token} {e : Access} {texts : List String}
      {holes : List Access} (hl : l = .member ∨ l = .call) (h : DerivesAccess l ts e)
      (hquasi : DerivesTemplate "`" us texts holes) :
      DerivesAccess l (ts ++ us) (.tagged e texts holes)
  /-- A `new` takes the next argument list. -/
  | make {ts us : List Token} {e : Access} {args : List Access} {b : Bool}
      (h : DerivesAccess .member ts e) (hargs : DerivesLink false us (.call args)) :
      DerivesAccess .member (⟨"new", b⟩ :: (ts ++ us)) (.make e args)
  /-- A `new` for which no argument list is left. -/
  | makeBare {ts : List Token} {e : Access} {b : Bool} (h : DerivesAccess .make ts e) :
      DerivesAccess .make (⟨"new", b⟩ :: ts) (.make e [])
  | load {ts : List Token} {args : List Access} {b c d : Bool}
      (hcount : args.length = 1 ∨ args.length = 2)
      (hargs : DerivesListed (DerivesAccess .leftHand) ts args) :
      DerivesAccess .call (⟨"import", b⟩ :: ⟨"(", c⟩ :: (ts ++ [⟨")", d⟩])) (.load args)
  | optional {l : AccessLevel} {ts us : List Token} {e : Access} {k : Link}
      (hl : l = .member ∨ l = .call ∨ l = .optional) (h : DerivesAccess l ts e)
      (hk : DerivesLink true us k) : DerivesAccess .optional (ts ++ us) (.link true e k)
  | further {ts us : List Token} {e : Access} {k : Link} (h : DerivesAccess .optional ts e)
      (hk : DerivesLink false us k) : DerivesAccess .optional (ts ++ us) (.link false e k)
  | chain {ts : List Token} {e : Access} (h : DerivesAccess .optional ts e) :
      DerivesAccess .leftHand ts (.chain e)

/-- The tokens of a link, which is optional or not. -/
inductive DerivesLink : Bool → List Token → Link → Prop
  | member {p : String} {isOptional b c : Bool} (hp : IsWord p) :
      DerivesLink isOptional [⟨if isOptional then "?." else ".", b⟩, ⟨p, c⟩] (.member p)
  | index {ts : List Token} {e : Access} {b c : Bool} (h : DerivesAccess .leftHand ts e) :
      DerivesLink false (⟨"[", b⟩ :: (ts ++ [⟨"]", c⟩])) (.index e)
  | call {ts : List Token} {args : List Access} {b c : Bool}
      (hargs : DerivesListed (DerivesAccess .leftHand) ts args) :
      DerivesLink false (⟨"(", b⟩ :: (ts ++ [⟨")", c⟩])) (.call args)
  | optional {ts : List Token} {k : Link} {b : Bool} (h : DerivesLink false ts k)
      (hk : ∀ p, k ≠ .member p) : DerivesLink true (⟨"?.", b⟩ :: ts) k

/-- The tokens of a template from the character `front` on, with its texts and holes. -/
inductive DerivesTemplate : String → List Token → List String → List Access → Prop
  | last {front raw : String} {b : Bool} (hraw : IsRaw raw) :
      DerivesTemplate front [⟨front ++ raw ++ "`", b⟩] [raw] []
  | hole {front raw : String} {ts us : List Token} {e : Access} {texts : List String}
      {holes : List Access} {b : Bool} (hraw : IsRaw raw) (h : DerivesAccess .leftHand ts e)
      (hrest : DerivesTemplate "\x7d" us texts holes) :
      DerivesTemplate front (⟨front ++ raw ++ "$\x7b", b⟩ :: (ts ++ us)) (raw :: texts) (e :: holes)

end

/-! ## The level of a tree -/

namespace Access

/-- The level at which a tree stands as the head of an access.  A whole chain stands there in
parentheses. -/
def headLevel (e : Access) : AccessLevel :=
  match e.isOpen, e.hidesCall with
  | true, _ => .optional
  | false, true => .call
  | false, false => .member

/-- The level at which a tree is derived. -/
def level (e : Access) : AccessLevel :=
  match e.isChain with
  | true => .leftHand
  | false => e.headLevel

lemma headLevel_of_isOpen {e : Access} (h : e.isOpen = true) : e.headLevel = .optional := by
  rw [headLevel, h]

/-- A tree that is no part of a chain stands at the level of members or at that of calls. -/
lemma headLevel_of_not_isOpen {e : Access} (h : e.isOpen = false) :
    e.headLevel = if e.hidesCall = true then .call else .member := by
  rw [headLevel, h]
  cases e.hidesCall with
  | true => rfl
  | false => rfl

lemma headLevel_cases {e : Access} (h : e.isOpen = false) :
    e.headLevel = .member ∨ e.headLevel = .call := by
  rw [headLevel_of_not_isOpen h]
  split
  · exact Or.inr rfl
  · exact Or.inl rfl

end Access

/-- What is derived as the head of an access is a left-hand side, unless a chain is to be ended. -/
lemma DerivesAccess.leftHand {e : Access} {ts : List Token} (h : DerivesAccess e.level ts e)
    (hclosed : e.isOpen = false) : DerivesAccess .leftHand ts e := by
  unfold Access.level at h
  split at h
  · exact h
  · rcases Access.headLevel_cases hclosed with hlevel | hlevel
    · exact .unit (m := .make) (by decide) (.unit (by decide) (hlevel ▸ h))
    · exact .unit (m := .call) (by decide) (hlevel ▸ h)

end Grammar

end EstreePrinter
