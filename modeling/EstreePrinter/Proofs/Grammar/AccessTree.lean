import Mathlib
import EstreePrinter.Proofs.Grammar.Access
import EstreePrinter.Proofs.Grammar.Description

/-!
# Trees of accesses and calls

Which trees describe an access or a call (`DescribesAccess`): nodes without comments, with optional
accesses and calls where a chain goes on, and chains around them.  Nodes that stand for parentheses
may be anywhere.

On such trees what is asked about heads has an answer (`wrapsAsHead_of_access`,
`hasCall_of_access`).  The answer about the calls in the head of a `new` is not always the right
one: the search follows accesses and calls only, and stops at a tag and at an import
(`Access.hasCall`).  `Access.newsSee` says that no `new` of a tree misses a call in this way.
-/

namespace EstreePrinter

namespace Json

/-- The text of a template between two holes. -/
structure IsQuasi (node : Json) (raw : String) : Prop where
  value : ∃ value, node.Has "value" value ∧ value.Has "raw" (.str raw)
  isRaw : Grammar.IsRaw raw
  placed : node.IsPlaced

end Json

namespace Grammar

/-! ## Which trees describe an access -/

/-- A tree that can stand by itself: no optional chain is still to be ended. -/
def Access.IsWhole (e : Access) : Prop := e.isOpen = false

instance (e : Access) : Decidable e.IsWhole := inferInstanceAs (Decidable (_ = _))

/-- **Which trees describe an access or a call.** -/
inductive DescribesAccess : Json → Access → Prop
  | parens {node inner : Json} {e : Access} (hnode : node.IsNode "ParenthesizedExpression")
      (hinner : node.Has "expression" inner) (h : DescribesAccess inner e) : DescribesAccess node e
  | name {node : Json} {s : String} (h : node.IsIdentifier s) (hs : IsName s) :
      DescribesAccess node (.name s)
  | member {node head property : Json} {isOptional : Bool} {p : String} {e : Access}
      (hnode : node.IsNode "MemberExpression") (hcomputed : node.flag "computed" = .ok false)
      (hoptional : node.flag "optional" = .ok isOptional) (hhead : node.Has "object" head)
      (hproperty : node.Has "property" property) (h : DescribesAccess head e)
      (hp : NamesMember property p) : DescribesAccess node (.link isOptional e (.member p))
  | index {node head property : Json} {isOptional : Bool} {e f : Access}
      (hnode : node.IsNode "MemberExpression") (hcomputed : node.flag "computed" = .ok true)
      (hoptional : node.flag "optional" = .ok isOptional) (hhead : node.Has "object" head)
      (hproperty : node.Has "property" property) (h : DescribesAccess head e)
      (hf : DescribesAccess property f) (hwhole : f.IsWhole) :
      DescribesAccess node (.link isOptional e (.index f))
  | call {node head : Json} {items : List Json} {isOptional : Bool} {e : Access}
      {args : List Access} (hnode : node.IsNode "CallExpression")
      (hoptional : node.flag "optional" = .ok isOptional)
      (hgeneric : node.givenOr "typeArguments" "typeParameters" = .ok none)
      (hhead : node.Has "callee" head) (hitems : node.Has "arguments" (.arr items))
      (h : DescribesAccess head e) (hargs : List.Forall₂ DescribesAccess items args)
      (hwhole : ∀ a ∈ args, a.IsWhole) : DescribesAccess node (.link isOptional e (.call args))
  | make {node head : Json} {items : List Json} {e : Access} {args : List Access}
      (hnode : node.IsNode "NewExpression") (hoptional : node.flag "optional" = .ok false)
      (hgeneric : node.givenOr "typeArguments" "typeParameters" = .ok none)
      (hhead : node.Has "callee" head) (hitems : node.Has "arguments" (.arr items))
      (h : DescribesAccess head e) (hwhole : e.IsWhole)
      (hargs : List.Forall₂ DescribesAccess items args) (hwholes : ∀ a ∈ args, a.IsWhole) :
      DescribesAccess node (.make e args)
  | tagged {node head quasi : Json} {quasis items : List Json} {e : Access} {texts : List String}
      {holes : List Access} (hnode : node.IsNode "TaggedTemplateExpression")
      (hgeneric : node.givenOr "typeArguments" "typeParameters" = .ok none)
      (hhead : node.Has "tag" head) (hquasi : node.Has "quasi" quasi) (h : DescribesAccess head e)
      (hwhole : e.IsWhole) (htemplate : quasi.IsNode "TemplateLiteral")
      (hquasis : quasi.Has "quasis" (.arr quasis)) (hitems : quasi.Has "expressions" (.arr items))
      (htexts : List.Forall₂ Json.IsQuasi quasis texts)
      (hholes : List.Forall₂ DescribesAccess items holes) (hwholes : ∀ a ∈ holes, a.IsWhole)
      (hcount : texts.length = holes.length + 1) : DescribesAccess node (.tagged e texts holes)
  | load {node source : Json} {e : Access} (hnode : node.IsNode "ImportExpression")
      (hplaced : node.IsPlaced) (hsource : node.Has "source" source)
      (hoptions : node.givenOr "options" "attributes" = .ok none) (h : DescribesAccess source e)
      (hwhole : e.IsWhole) : DescribesAccess node (.load [e])
  | loadWith {node source options : Json} {hinside : options.Inside node} {e f : Access}
      (hnode : node.IsNode "ImportExpression") (hplaced : node.IsPlaced)
      (hsource : node.Has "source" source)
      (hoptions : node.givenOr "options" "attributes" = .ok (some ⟨options, hinside⟩))
      (h : DescribesAccess source e) (hwhole : e.IsWhole) (hf : DescribesAccess options f)
      (hwhole' : f.IsWhole) : DescribesAccess node (.load [e, f])
  | chain {node inner : Json} {e : Access} (hnode : node.IsNode "ChainExpression")
      (hinner : node.Has "expression" inner) (h : DescribesAccess inner e)
      (hopen : e.isOpen = true) : DescribesAccess node (.chain e)

namespace Access

/-- The kind of the nodes that a tree describes. -/
def kind : Access → String
  | .name _ => "Identifier"
  | .link _ _ k => if k.isCall then "CallExpression" else "MemberExpression"
  | .make _ _ => "NewExpression"
  | .tagged _ _ _ => "TaggedTemplateExpression"
  | .load _ => "ImportExpression"
  | .chain _ => "ChainExpression"

/-- Whether the search for a call in the head of a `new` finds one: it follows the links, but looks
neither at a tag nor at an import. -/
def hasCall : Access → Bool
  | .link _ head k => k.isCall || head.hasCall
  | _ => false

end Access

mutual

/-- **Whether every `new` of a tree sees the call in its head**, if there is one outside of all
parentheses. -/
def Access.newsSee : Access → Bool
  | .name _ => true
  | .link _ head k => head.newsSee && k.newsSee
  | .make callee args =>
    (callee.hasCall || !callee.hidesCall) && callee.newsSee && newsSeeAll args
  | .tagged tag _ holes => tag.newsSee && newsSeeAll holes
  | .load args => newsSeeAll args
  | .chain e => e.newsSee

/-- The same for what a link holds. -/
def Link.newsSee : Link → Bool
  | .member _ => true
  | .index e => e.newsSee
  | .call args => newsSeeAll args

/-- The same for a list. -/
def newsSeeAll : List Access → Bool
  | [] => true
  | e :: rest => e.newsSee && newsSeeAll rest

end

/-! ## Answers about one tree -/

lemma Access.kind_ne (e : Access) : e.kind ≠ "ParenthesizedExpression" := by
  cases e with
  | link isOptional head k => cases k <;> simp [kind, Link.isCall]
  | _ => simp [kind]

lemma isRaw_of_mem {quasis : List Json} {texts : List String}
    (h : List.Forall₂ Json.IsQuasi quasis texts) {raw : String} (hraw : raw ∈ texts) :
    IsRaw raw := by
  induction h with
  | nil => simp at hraw
  | cons hquasi hquasis ih =>
      rcases List.mem_cons.mp hraw with rfl | hmem
      · exact hquasi.isRaw
      · exact ih hmem

/-- A described node is of the kind of its tree, unless it stands for parentheses. -/
lemma DescribesAccess.isNode {node : Json} {e : Access} (h : DescribesAccess node e) :
    node.IsNode e.kind ∨ node.IsNode "ParenthesizedExpression" ∧
      ∃ inner, node.Has "expression" inner ∧ DescribesAccess inner e := by
  cases h with
  | parens hnode hinner h => exact Or.inr ⟨hnode, _, hinner, h⟩
  | name h hs => exact Or.inl h.toIsNodeAmid
  | member hnode => exact Or.inl hnode
  | index hnode => exact Or.inl hnode
  | call hnode => exact Or.inl hnode
  | make hnode => exact Or.inl hnode
  | tagged hnode => exact Or.inl hnode
  | load hnode => exact Or.inl hnode
  | loadWith hnode => exact Or.inl hnode
  | chain hnode => exact Or.inl hnode

/-- **The node inside of the parentheses.** -/
lemma unwrap_of_access {node : Json} {e : Access} (h : DescribesAccess node e) :
    ∃ core, Precedence.unwrap node = .ok core ∧ DescribesAccess core.1 e ∧
      core.1.IsNode e.kind := by
  rcases h.isNode with hnode | ⟨hnode, inner, hhas, hinner⟩
  · exact ⟨_, unwrap_of_isNode hnode e.kind_ne, h, hnode⟩
  · have := hhas.sizeOf_lt
    obtain ⟨core, hcore, hdescribes, hkind⟩ := unwrap_of_access hinner
    obtain ⟨core', hcore', heq⟩ := unwrap_of_parens hnode hhas hcore
    exact ⟨core', hcore', heq ▸ hdescribes, heq ▸ hkind⟩
termination_by sizeOf node

/-- No access or call binds looser than the head of another one. -/
lemma Access.lookup_kind (e : Access) :
    ∃ strength, Precedence.kinds.lookup e.kind = some strength ∧ 19 ≤ strength := by
  cases e with
  | link isOptional head k =>
      cases k with
      | call args => exact ⟨19, rfl, le_refl _⟩
      | _ => exact ⟨19, rfl, le_refl _⟩
  | name s => exact ⟨20, rfl, by decide⟩
  | tagged tag texts holes => exact ⟨20, rfl, by decide⟩
  | _ => exact ⟨19, rfl, le_refl _⟩

/-- **Among accesses and calls only a whole chain goes in parentheses as a head.** -/
lemma wrapsAsHead_of_access {node : Json} {e : Access} (h : DescribesAccess node e)
    (threshold : Nat) (hthreshold : threshold = 19) :
    Precedence.wrapsAsHead node threshold = .ok e.isChain := by
  subst hthreshold
  obtain ⟨core, hcore, -, hkind⟩ := unwrap_of_access h
  obtain ⟨strength, hlookup, hstrong⟩ := e.lookup_kind
  have hlooser : ¬strength < 19 := not_lt.mpr hstrong
  have hchain : (e.kind == "ChainExpression") = e.isChain := by
    cases e with
    | link isOptional head k => cases k <;> rfl
    | _ => rfl
  rw [wrapsAsHead_of_strength hcore hkind (strength_of_isNode hcore hkind hlookup), hchain]
  simp [hlooser]

/-- **The search for a call in the head of a `new`.** -/
lemma hasCall_of_access {node : Json} {e : Access} (h : DescribesAccess node e) :
    Precedence.hasCall node = .ok e.hasCall := by
  obtain ⟨core, hcore, hdescribes, hkind⟩ := unwrap_of_access h
  have hsize := core.2
  have hnull : node.isNull = false := by
    rcases h.isNode with hnode | ⟨hnode, -⟩
    · exact hnode.ne_null
    · exact hnode.ne_null
  rw [Precedence.hasCall, if_neg (by simp [hnull]), hcore, ok_bind, hkind.requireKind_eq, ok_bind]
  -- an access hands the question on to its head; the answer for all the others is known by the kind
  have haccess {isOptional : Bool} {head : Json} {f : Access} {k : Link}
      (he : e = .link isOptional f k) (hcall : k.isCall = false)
      (hhead : core.1.Has "object" head) (hrest : Precedence.hasCall head = .ok f.hasCall) :
      (if (Json.str e.kind).isText "CallExpression" = true then (pure true : Except Fault Bool)
        else if (Json.str e.kind).isText "MemberExpression" = true then do
          let head ← core.1.require "object"
          Precedence.hasCall head.1
        else pure false) = .ok e.hasCall := by
    subst he
    obtain ⟨hinside, hread⟩ := hhead
    simp [Access.kind, Access.hasCall, hcall, Json.isText, hread, hrest]
  cases hdescribes with
  | parens hparens =>
      have := hkind.kind_eq.symm.trans hparens.kind_eq
      simp [e.kind_ne] at this
  | member hnode hcomputed hoptional hhead hproperty hinner hp =>
      have := hhead.sizeOf_lt
      exact haccess rfl rfl hhead (hasCall_of_access hinner)
  | index hnode hcomputed hoptional hhead hproperty hinner hf =>
      have := hhead.sizeOf_lt
      exact haccess rfl rfl hhead (hasCall_of_access hinner)
  | call => rfl
  | name => rfl
  | make => rfl
  | tagged => rfl
  | load => rfl
  | loadWith => rfl
  | chain => rfl
termination_by sizeOf node

end Grammar

end EstreePrinter
