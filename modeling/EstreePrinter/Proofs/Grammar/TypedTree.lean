import Mathlib
import EstreePrinter.Proofs.Grammar.Description
import EstreePrinter.Proofs.Grammar.Typed

/-!
# Trees of expressions with types

Which trees describe an expression with types (`DescribesTypedAmid`), with single words as types.
Comments may be attached to any node; `DescribesTyped` allows none.

The questions about binding strengths have answers on such trees, but the answers about casts are
not always the right ones: `as` binds looser than every operator but is given a strength above them,
and `satisfies` and a type before an expression are given the strength of a head.  `Typed.groups`
says that no cast is left without parentheses where it does not stand at the level that is asked
for.
-/

namespace EstreePrinter

namespace Grammar

open Json (Part)

/-! ## Which trees describe an expression with types -/

section Trees

variable (known : Json → Prop)

/-- **Which trees describe an expression with types.** -/
inductive DescribesTypedAmid : Json → Typed → Prop
  | name {node : Json} {s : String} (h : node.IsIdentifierAmid known s) (hs : IsName s) :
      DescribesTypedAmid node (.name s)
  | binary {node left right : Json} {op : String} {e f : Typed}
      (h : IsOperationAmid known .binary node op left right) (hleft : DescribesTypedAmid left e)
      (hright : DescribesTypedAmid right f) : DescribesTypedAmid node (.binary op e f)
  | logical {node left right : Json} {op : String} {e f : Typed}
      (h : IsOperationAmid known .logical node op left right) (hleft : DescribesTypedAmid left e)
      (hright : DescribesTypedAmid right f) : DescribesTypedAmid node (.logical op e f)
  | unary {node argument : Json} {op : String} {e : Typed}
      (hnode : node.IsNodeAmid known "UnaryExpression")
      (hop : node.Has "operator" (.str op)) (hmem : op ∈ unaryOperators)
      (hbefore : node.flagUnlessAbsent "prefix" = .ok true)
      (hargument : node.Has "argument" argument) (h : DescribesTypedAmid argument e) :
      DescribesTypedAmid node (.unary op e)
  | update {node argument : Json} {op : String} {isBefore : Bool} {e : Typed}
      (hnode : node.IsNodeAmid known "UpdateExpression") (hop : node.Has "operator" (.str op))
      (hmem : op ∈ updateOperators) (hbefore : node.flag "prefix" = .ok isBefore)
      (hargument : node.Has "argument" argument) (h : DescribesTypedAmid argument e)
      (htarget : e.IsTarget) : DescribesTypedAmid node (.update op isBefore e)
  | await {node argument : Json} {e : Typed} (hnode : node.IsNodeAmid known "AwaitExpression")
      (hargument : node.Has "argument" argument) (h : DescribesTypedAmid argument e) :
      DescribesTypedAmid node (.await e)
  | conditional {node test yes no : Json} {e f g : Typed}
      (hnode : node.IsNodeAmid known "ConditionalExpression") (htest : node.Has "test" test)
      (hyes : node.Has "consequent" yes) (hno : node.Has "alternate" no)
      (h : DescribesTypedAmid test e) (hf : DescribesTypedAmid yes f)
      (hg : DescribesTypedAmid no g) :
      DescribesTypedAmid node (.conditional e f g)
  | assign {node left right : Json} {op : String} {e f : Typed}
      (hnode : node.IsNodeAmid known "AssignmentExpression") (hop : node.Has "operator" (.str op))
      (hmem : op ∈ assignmentOperators) (hleft : node.Has "left" left)
      (hright : node.Has "right" right) (h : DescribesTypedAmid left e) (htarget : e.IsTarget)
      (hf : DescribesTypedAmid right f) : DescribesTypedAmid node (.assign op e f)
  | member {node head property : Json} {p : String} {e : Typed}
      (hnode : node.IsNodeAmid known "MemberExpression")
      (hcomputed : node.flag "computed" = .ok false)
      (hoptional : node.flag "optional" = .ok false) (hhead : node.Has "object" head)
      (hproperty : node.Has "property" property) (h : DescribesTypedAmid head e)
      (hp : NamesMemberAmid known property p) : DescribesTypedAmid node (.member e p)
  | index {node head property : Json} {e f : Typed}
      (hnode : node.IsNodeAmid known "MemberExpression")
      (hcomputed : node.flag "computed" = .ok true) (hoptional : node.flag "optional" = .ok false)
      (hhead : node.Has "object" head) (hproperty : node.Has "property" property)
      (h : DescribesTypedAmid head e) (hf : DescribesTypedAmid property f) :
      DescribesTypedAmid node (.index e f)
  | call {node head : Json} {items : List Json} {e : Typed} {args : List Typed}
      (hnode : node.IsNodeAmid known "CallExpression")
      (hoptional : node.flag "optional" = .ok false)
      (hgeneric : node.givenOr "typeArguments" "typeParameters" = .ok none)
      (hhead : node.Has "callee" head) (hitems : node.Has "arguments" (.arr items))
      (h : DescribesTypedAmid head e) (hargs : List.Forall₂ DescribesTypedAmid items args) :
      DescribesTypedAmid node (.call e args)
  | ascribed {node argument type : Json} {how : Ascription} {kind word : String} {e : Typed}
      (hnode : node.IsNodeAmid known how.kind) (hargument : node.Has "expression" argument)
      (htype : node.Has "typeAnnotation" type) (hkind : type.kind = .ok (.str kind))
      (hword : (kind, word) ∈ Rules.keywordTypes) (h : DescribesTypedAmid argument e) :
      DescribesTypedAmid node (.ascribed how e word)
  | nonNull {node argument : Json} {e : Typed} (hnode : node.IsNodeAmid known "TSNonNullExpression")
      (hargument : node.Has "expression" argument) (h : DescribesTypedAmid argument e) :
      DescribesTypedAmid node (.nonNull e)
  | assertion {node argument type : Json} {kind word : String} {e : Typed}
      (hnode : node.IsNodeAmid known "TSTypeAssertion") (hargument : node.Has "expression" argument)
      (htype : node.Has "typeAnnotation" type) (hkind : type.kind = .ok (.str kind))
      (hword : (kind, word) ∈ Rules.keywordTypes) (h : DescribesTypedAmid argument e) :
      DescribesTypedAmid node (.assertion word e)

/-- Which trees without comments describe an expression with types. -/
abbrev DescribesTyped : Json → Typed → Prop := DescribesTypedAmid Json.NoComment

end Trees

variable {known : Json → Prop}

/-- A described node is of the kind of its expression. -/
lemma DescribesTypedAmid.isNode {node : Json} {e : Typed} (h : DescribesTypedAmid known node e) :
    node.IsNodeAmid known e.kind := by
  cases h with
  | name h hs => exact h.toIsNodeAmid
  | binary h hleft hright => exact h.toIsNodeAmid
  | logical h hleft hright => exact h.toIsNodeAmid
  | unary hnode => exact hnode
  | update hnode => exact hnode
  | await hnode => exact hnode
  | conditional hnode => exact hnode
  | assign hnode => exact hnode
  | member hnode => exact hnode
  | index hnode => exact hnode
  | call hnode => exact hnode
  | ascribed hnode => exact hnode
  | nonNull hnode => exact hnode
  | assertion hnode => exact hnode

/-! ## Casts that are grouped -/

namespace Typed

/-- Whether a cast that is left without parentheses, since it is given the strength `threshold` or
more, stands at a level. -/
def stands (threshold : Nat) (l : Level) (e : Typed) : Bool :=
  !e.isCast || decide (e.strength < threshold) || e.fits l

/-- Whether the operands of a binary operation keep their grouping.  Before a sign that goes on with
a type no operand may end with one. -/
def operandsStand (op : String) (e f : Typed) : Bool :=
  match Family.binary.shapes.lookup op with
  | some shape =>
    e.stands 14 shape.left && f.stands 14 shape.right &&
      !(typeJoiners.contains op && e.fits shape.left && e.endsInType)
  | none => true

/-- What stands at a level unless it is put in parentheses. -/
lemma within_of_stands {threshold : Nat} {l : Level} {e : Typed} (h : e.stands threshold l = true)
    (hstrong : threshold ≤ e.strength) (hcast : e.isCast = true) : e.level.Within l := by
  have hweak : ¬e.strength < threshold := not_lt.mpr hstrong
  simp only [stands, hcast, hweak, Bool.not_true, decide_false, Bool.false_or] at h
  exact within_of_fits h

end Typed

mutual

/-- **Whether an expression keeps its grouping**: no cast in it is left without parentheses where it
does not stand at the level that is asked for. -/
def Typed.groups : Typed → Bool
  | .name _ => true
  | .binary op e f => e.operandsStand op f && (e.groups && f.groups)
  | .logical _ e f => e.groups && f.groups
  | .unary _ e => e.stands 15 .unary && e.groups
  | .update _ isBefore e => e.stands 0 (if isBefore then .unary else .leftHand) && e.groups
  | .await e => e.stands 17 .unary && e.groups
  | .conditional e f g => e.groups && (f.groups && g.groups)
  | .assign _ e f => e.stands 0 .leftHand && (e.groups && f.groups)
  | .member e _ => e.groups
  | .index e f => e.groups && f.groups
  | .call e args => e.groups && typedGroupsAll args
  | .ascribed _ e _ => e.groups
  | .nonNull e => e.stands 18 .leftHand && e.groups
  | .assertion _ e => e.stands 15 .unary && e.groups

/-- The same for a list. -/
def typedGroupsAll : List Typed → Bool
  | [] => true
  | e :: rest => e.groups && typedGroupsAll rest

end

/-! ## Answers about one expression -/

section Answers

variable {node : Json} {e : Typed}

lemma unwrap_of_typed (h : DescribesTypedAmid known node e) :
    Precedence.unwrap node = .ok ⟨node, Nat.le_refl _⟩ :=
  unwrap_of_isNode h.isNode e.kind_ne.1

lemma strength_of_typed (h : DescribesTypedAmid known node e) :
    Precedence.strength? node = .ok (some e.strength) :=
  strength_of_isNode (unwrap_of_typed h) h.isNode e.lookup_kind

lemma bindsLooser_of_typed (h : DescribesTypedAmid known node e) (threshold : Nat) :
    Precedence.bindsLooser node threshold = .ok (decide (e.strength < threshold)) :=
  bindsLooser_of_strength (strength_of_typed h) threshold

lemma wrapsAsHead_of_typed (h : DescribesTypedAmid known node e) (threshold : Nat) :
    Precedence.wrapsAsHead node threshold = .ok (decide (e.strength < threshold)) := by
  simp [wrapsAsHead_of_strength (unwrap_of_typed h) h.isNode (strength_of_typed h), e.kind_ne.2.1]

lemma wrapsAsTest_of_typed (h : DescribesTypedAmid known node e) :
    Precedence.wrapsAsTest node = .ok (decide (e.strength ≤ 4)) :=
  wrapsAsTest_of_strength (strength_of_typed h)

end Answers

/-- **An operand that is left without parentheses** stands at the level that is asked for there, if
it does so when it is a cast. -/
theorem needsParens_of_typed {family : Family} {parent operand : Json} {outer : String}
    {shape : Shape} (hparent : parent.IsNodeAmid known family.kind)
    (hop : parent.Has "operator" (.str outer)) (hshape : (outer, shape) ∈ family.shapes)
    {e : Typed} (h : DescribesTypedAmid known operand e) (isRight : Bool)
    (hcast : e.isCast = true → e.level.Within (shape.operand isRight)) :
    ∃ wrap, Precedence.needsParens operand parent isRight = .ok wrap ∧
      (wrap = false → e.level.Within (shape.operand isRight)) := by
  refine needsParens_of_level hparent hop hshape (unwrap_of_typed h) h.isNode e.lookup_kind
    e.kind_ne.2.2 (fun hequal => ?_) isRight
    fun hstrong => Typed.operand_of_strength hshape hstrong hcast
  -- only an operation of the same family has its strength
  have hoperation {inner : String} {left right : Json} {f g : Typed}
      (hinner : IsOperationAmid known family operand inner left right)
      (he : e = .operation family inner f g) : e.kind = family.kind ∧ ∃ inner shape',
        operand.Has "operator" (.str inner) ∧ (inner, shape') ∈ family.shapes ∧
          e.level = shape'.own := by
    obtain ⟨shape', hlookup⟩ := Family.lookup_of_mem hinner.isOperator
    refine ⟨?_, inner, shape', hinner.operator, Family.mem_of_lookup hlookup,
      he ▸ Typed.level_operation hlookup f g⟩
    subst he
    cases family with
    | binary => rfl
    | logical => rfl
  cases h with
  | binary hinner hleft hright =>
      cases family with
      | binary => exact hoperation hinner rfl
      | logical => simp [Typed.strength, Family.strength] at hequal
  | logical hinner hleft hright =>
      cases family with
      | binary => simp [Typed.strength, Family.strength] at hequal
      | logical => exact hoperation hinner rfl
  | @ascribed _ _ _ how =>
      cases family <;> cases how <;>
        simp [Typed.strength, Ascription.strength, Family.strength] at hequal
  | _ => cases family <;> simp [Typed.strength, Family.strength] at hequal

/-! ## Signs -/

/-- What an expression begins with if it is strong enough to be an argument: a word, a parenthesis,
a type in angle brackets or its own operator. -/
def Typed.Leads (t : String) (e : Typed) : Prop :=
  IsWord t ∨ t ∈ ["(", "<"] ∨ e.sign = some t

lemma signsCollide_of_typed {op : String} (hop : op = "+" ∨ op = "-") {argument : Json} {e : Typed}
    (h : DescribesTypedAmid known argument e) :
    ∃ collide, Rules.signsCollide (.str op) argument = .ok collide ∧
      (collide = false → ∀ t, e.sign = some t → areApart op t = true) := by
  have hcore := unwrap_of_typed h
  have hkind := h.isNode
  cases h with
  | @unary _ _ sign _ hnode hsign hmem hbefore hargument h =>
      obtain ⟨collide, hcollide, hapart⟩ := signsCollide_of_sign hop hcore hkind (Or.inl rfl) hsign
        (List.mem_append_left _ hmem) hbefore
      refine ⟨collide, hcollide, fun hno t ht => ?_⟩
      obtain rfl : sign = t := by simpa [Typed.sign] using ht
      exact hapart hno rfl
  | @update _ _ sign isBefore _ hnode hsign hmem hbefore hargument h htarget =>
      obtain ⟨found, hfound, hgiven⟩ := flagUnlessAbsent_of_flag hbefore
      obtain ⟨collide, hcollide, hapart⟩ := signsCollide_of_sign hop hcore hkind (Or.inr rfl) hsign
        (List.mem_append_right _ hmem) hfound
      refine ⟨collide, hcollide, fun hno t ht => ?_⟩
      cases isBefore with
      | false => simp [Typed.sign] at ht
      | true =>
          obtain rfl : sign = t := by simpa [Typed.sign] using ht
          exact hapart hno (hgiven rfl)
  | @ascribed _ _ _ how =>
      refine ⟨false, signsCollide_of_isNode hcore hkind ?_, by simp [Typed.sign]⟩
      cases how <;> simp [Typed.kind, Ascription.kind]
  | _ =>
      exact ⟨false, signsCollide_of_isNode hcore hkind (by simp [Typed.kind]), by simp [Typed.sign]⟩

lemma DescribesTypedAmid.sign_mem {node : Json} {e : Typed} (h : DescribesTypedAmid known node e)
    {t : String} (ht : e.sign = some t) : t ∈ unaryOperators ++ updateOperators := by
  cases h with
  | @unary _ _ sign _ hnode hsign hmem hbefore hargument h =>
      obtain rfl : sign = t := by simpa [Typed.sign] using ht
      exact List.mem_append_left _ hmem
  | @update _ _ sign isBefore _ hnode hsign hmem hbefore hargument h htarget =>
      cases isBefore with
      | false => simp [Typed.sign] at ht
      | true =>
          obtain rfl : sign = t := by simpa [Typed.sign] using ht
          exact List.mem_append_right _ hmem
  | _ => simp [Typed.sign] at ht

/-- Signs that stand apart among all of them do so among those of expressions. -/
lemma apart_typed {p t : String} (hp : p ∈ typedAlphabet.signs) (h : areApart p t = true) :
    typedAlphabet.toVocabulary.Apart p t := by
  refine Vocabulary.apart_of_areApart hp (List.all_eq_true.mpr fun q hq => ?_)
  have hmem : q ∈ punctuators.erase "\x7d" := hq
  exact List.all_eq_true.mp h q (List.mem_of_mem_erase hmem)

/-- **Where no blank goes behind a unary operator**, what follows does not run into it. -/
theorem spacedUnary_of_typed {op : String} (hop : op ∈ unaryOperators) {argument : Json} {e : Typed}
    (h : DescribesTypedAmid known argument e) :
    ∃ spaced, Rules.spacedUnary (.str op) argument = .ok spaced ∧
      (spaced = false → op ∈ ["!", "~", "+", "-"] ∧
        ∀ t, e.Leads t → typedAlphabet.toVocabulary.Apart op t) := by
  have hfixed : ∀ op ∈ ["!", "~", "+", "-"], op ∈ typedAlphabet.signs ∧
      ∀ t ∈ ["(", "<"], areApart op t = true := by decide
  obtain ⟨spaced, hspaced, hapart⟩ := spacedUnary_of_sign hop (fun _ => h.sign_mem)
    fun hsign => signsCollide_of_typed hsign h
  refine ⟨spaced, hspaced, fun hno => ?_⟩
  obtain ⟨hmem, hsign⟩ := hapart hno
  obtain ⟨hop, hfixed⟩ := hfixed op hmem
  refine ⟨hmem, ?_⟩
  rintro t (hword | ht | ht)
  · exact Vocabulary.apart_isWord hop hword
  · exact apart_typed hop (hfixed t ht)
  · exact apart_typed hop (hsign t ht)

end Grammar

end EstreePrinter
