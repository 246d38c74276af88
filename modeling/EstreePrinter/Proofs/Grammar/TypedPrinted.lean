import Mathlib
import EstreePrinter.Proofs.Grammar.TypedTree
import EstreePrinter.Proofs.Grammar.TypePrinted
import EstreePrinter.Printer

/-!
# Printed expressions with types are read back

**The invariant.**  `ReadsTyped ls e` says that the lexemes `ls` are a passage from which the
expression `e` is derived at its level, and that an expression that is an argument as it stands
begins with nothing that a sign before it could run into.  The passage may end with a type only
where `Typed.endsInType` says so, since `|` and `&` behind a type would go on with it.  Comments
before a node are gaps before its passage (`PrintsTyped`).

**The result.**  `handle_typed`: what is printed for an expression with types is read as tokens, and
the tokens derive the expression, if its casts are grouped as `Typed.groups` says.  Otherwise they
need not: `operand_misses_cast`.
-/

namespace EstreePrinter

namespace Grammar

open Json (Part)
open Render (GivesFrom GivesAmid read_bind partsOf)

/-! ## Passages of expressions with types -/

/-- **Tokens that are derived from an expression** at a level, and that end with a type only if
`mayEnd` allows it. -/
def TypedTokens (l : Level) (mayEnd : Bool) (e : Typed) (ts : List Token) : Prop :=
  ∃ o, DerivesTyped l o ts e ∧ (o = true → mayEnd = true)

/-- A passage of an expression at a level. -/
abbrev TypedPassage (l : Level) (mayEnd : Bool) (e : Typed) : List Lexeme → Prop :=
  Passage typedAlphabet (TypedTokens l mayEnd e)

section Passages

variable {e f : Typed} {l : Level} {mayEnd : Bool} {ls ms : List Lexeme}

lemma TypedPassage.raise {m : Level} (h : TypedPassage m mayEnd e ls) (hml : m.Within l) :
    TypedPassage l mayEnd e ls := by
  refine h.mono fun ts hts => ?_
  obtain ⟨o, hderives, hends⟩ := hts
  exact ⟨o, hderives.raise hml, hends⟩

/-- Every expression is one in parentheses and one between brackets. -/
lemma TypedPassage.whole (h : TypedPassage e.level mayEnd e ls) :
    TypedPassage .expression mayEnd e ls :=
  h.raise (e.level_within_assignment.trans
    (.single (by decide : Level.assignment ∈ Level.expression.below)))

/-- Nothing in parentheses ends with a type. -/
lemma typedPassage_parens (h : Led (TypedPassage e.level mayEnd e) ls)
    (hl : Level.Within .primary l) (others : Bool) :
    TypedPassage l others e (.token "(" :: (ls ++ [Lexeme.token ")"])) := by
  have hpadded := (h.mono fun _ h => TypedPassage.whole h).padded
  refine hpadded.content.bracketed (by decide) (by decide) (by decide) (by decide) ?_
  rintro c d ts ⟨o, hderives, -⟩
  exact ⟨false, (DerivesTyped.parens hderives).raise hl, by simp⟩

/-- Passages of two expressions with an operator between them. -/
lemma typedPassage_joined {m k : Level} {mayEnd' : Bool} {g : Typed}
    (h : TypedPassage l mayEnd e ls)
    (h' : TypedPassage m mayEnd' f ms) {op : String} (hop : typedAlphabet.toVocabulary.Reads op)
    (hderives : ∀ o o' ts us, DerivesTyped l o ts e → (o = true → mayEnd = true) →
      DerivesTyped m o' us f → DerivesTyped k o' (ts ++ ⟨op, false⟩ :: us) g)
    {gs : List Lexeme} (hgs : IsPadding gs) :
    TypedPassage k mayEnd' g (ls ++ .gap false :: .token op :: .gap false :: (gs ++ ms)) := by
  have hgap := isPadding_gap false
  refine Passage.joined h h' hop hgap (Or.inl (by simp)) (hgap.append hgs) (by simp) ?_
  rintro ts us ⟨o, hts, hends⟩ ⟨o', hus, hends'⟩
  exact ⟨o', hderives o o' ts us hts hends hus, hends'⟩

/-- A word or sign that is read apart from an argument. -/
lemma typedPassage_before {k : Level} {g : Typed} {op : String}
    (h : TypedPassage l mayEnd e ls) (hop : IsWord op ∨ op ∈ typedAlphabet.openers)
    (hderives : ∀ o c ts, DerivesTyped l o ts e → DerivesTyped k o (⟨op, c⟩ :: ts) g)
    {gs : List Lexeme} (hgs : IsPadding gs) (hne : gs ≠ []) :
    TypedPassage k mayEnd g (.token op :: (gs ++ ls)) := by
  refine h.behindPadding hop hgs hne ?_
  rintro c ts ⟨o, hts, hends⟩
  exact ⟨o, hderives o c ts hts, hends⟩

/-- A sign before an argument, directly or not. -/
lemma typedPassage_sign {k : Level} {g : Typed} {op : String} (h : TypedPassage l mayEnd e ls)
    (hop : op ∈ typedAlphabet.openers)
    (hmeet : ∀ t, ls.head? = some (.token t) → typedAlphabet.toVocabulary.Apart op t)
    (hderives : ∀ o c ts, DerivesTyped l o ts e → DerivesTyped k o (⟨op, c⟩ :: ts) g)
    {gs : List Lexeme} (hgs : IsPadding gs) :
    TypedPassage k mayEnd g (.token op :: (gs ++ ls)) := by
  by_cases hne : gs = []
  · subst hne
    refine h.behindSign hop hmeet ?_
    rintro c ts ⟨o, hts, hends⟩
    exact ⟨o, hderives o c ts hts, hends⟩
  · exact typedPassage_before h (Or.inr hop) hderives hgs hne

/-- What stands directly behind an expression; the whole does not end with a type. -/
lemma typedPassage_followed {k : Level} {g : Typed} {Q : List Token → Prop}
    (h : TypedPassage l mayEnd e ls) (h' : Suffix typedAlphabet Q ms)
    (hderives : ∀ o ts us, DerivesTyped l o ts e → Q us → DerivesTyped k false (ts ++ us) g)
    (others : Bool) : TypedPassage k others g (ls ++ ms) := by
  refine h.followedBy h' ?_
  rintro ts us ⟨o, hts, -⟩ hus
  exact ⟨false, hderives o ts us hts hus, by simp⟩

end Passages

/-! ## The invariant -/

/-- **Lexemes that are read as an expression with types**, at its own level. -/
structure ReadsTyped (e : Typed) (ls : List Lexeme) : Prop where
  passage : TypedPassage e.level e.endsInType e ls
  leads : e.fits .unary = true → ∀ t, ls.head? = some (.token t) → e.Leads t

/-- **A node that is printed as an expression with types.** -/
def PrintsTyped (known : Json → Prop) (s : Setting) (node : Json) (e : Typed) : Prop :=
  GivesAmid known s (Render.tree .value node) (Led (ReadsTyped e))

section Printed

variable {known : Json → Prop} {s : Setting} {node : Json} {e f : Typed}

/-- What is no argument as it stands may begin with anything. -/
lemma readsTyped_of_weak {ls : List Lexeme} (h : TypedPassage e.level e.endsInType e ls)
    (hweak : e.fits .unary = false) : ReadsTyped e ls :=
  ⟨h, fun hfits => absurd hfits (by simp [hweak])⟩

/-- What begins with a token that is no danger. -/
lemma readsTyped_of_leads {t : String} {ls : List Lexeme}
    (h : TypedPassage e.level e.endsInType e (.token t :: ls)) (ht : e.Leads t) :
    ReadsTyped e (.token t :: ls) := by
  refine ⟨h, fun _ u hu => ?_⟩
  obtain rfl : t = u := by simpa using hu
  exact ht

/-- **A node is printed as its rule says.** -/
lemma printsTyped_of_rule (hknown : ∀ c, known c → c.IsComment) {kind : String}
    (hnode : node.IsNodeAmid known kind) {rule : Rule}
    (hfind : Rules.find Role.value.rules (.str kind) = .ok (some rule))
    (h : GivesAmid known s (rule node (partsOf node)) (Led (ReadsTyped e))) :
    PrintsTyped known s node e :=
  (givesAmid_tree hknown hnode hfind h).mono fun _ => Led.led

/-- An operand that is read as `e`: at which level, whether it may end with a type, and what it may
begin with. -/
structure ReadsOperand (l : Level) (mayEnd : Bool) (leads : String → Prop) (e : Typed)
    (ls : List Lexeme) : Prop where
  passage : TypedPassage l mayEnd e ls
  leads : ∀ t, ls.head? = some (.token t) → leads t

/-- **An operand**, in parentheses if `wrap` says so. -/
lemma PrintsTyped.operand {child : Json} (hinside : child.Inside node)
    (h : PrintsTyped known s child e) (wrap : Bool) {l : Level} (hwrap : Level.Within .primary l)
    (hbare : wrap = false → e.level.Within l) :
    GivesAmid known s ((partsOf node).wrapped ⟨child, hinside⟩ wrap)
      (Led (ReadsOperand l (!wrap && e.endsInType)
        (fun t => t = "(" ∨ wrap = false ∧ (e.fits .unary = true → e.Leads t)) e)) := by
  intro q
  obtain ⟨q', _, hgives, hled⟩ := h q
  refine ⟨q', _, Render.gives_wrapped hgives wrap, ?_⟩
  cases wrap with
  | false =>
      refine hled.mono fun ls hreads => ⟨hreads.passage.raise (hbare rfl), fun t ht => ?_⟩
      exact Or.inr ⟨rfl, fun hfits => hreads.leads hfits t ht⟩
  | true =>
      have hparens := typedPassage_parens (hled.mono fun _ hreads => hreads.passage) hwrap
      exact ⟨[], _, rfl, isPadding_nil, hparens _, fun t ht => Or.inl (by simpa using ht.symm)⟩

/-- **The argument of an operator**: in parentheses if it binds looser than `threshold`, and a cast
only where it stands at the level of arguments. -/
lemma PrintsTyped.argument {child : Json} (hinside : child.Inside node)
    (h : PrintsTyped known s child e) {threshold : Nat}
    (hstands : e.stands threshold .unary = true) (hthreshold : 15 ≤ threshold) :
    GivesAmid known s
      ((partsOf node).wrapped ⟨child, hinside⟩ (decide (e.strength < threshold)))
      (Led (ReadsOperand .unary false (fun t => t = "(" ∨ e.Leads t) e)) := by
  have hbare (hstrong : decide (e.strength < threshold) = false) : e.level.Within .unary := by
    have hstrong := not_lt.mp (of_decide_eq_false hstrong)
    cases hcast : e.isCast with
    | true => exact Typed.within_of_stands hstands hstrong hcast
    | false => exact Typed.level_within_unary (hthreshold.trans hstrong) hcast
  refine (h.operand hinside _ (Level.within_of_isWithin rfl) hbare).mono fun _ hled =>
    hled.mono fun ls hreads => ?_
  refine ⟨hreads.passage.mono fun ts hts => ?_, fun t ht => ?_⟩
  · obtain ⟨o, hderives, hends⟩ := hts
    refine ⟨o, hderives, fun ho => ?_⟩
    obtain ⟨hstrong, htype⟩ : decide (e.strength < threshold) = false ∧ e.endsInType = true := by
      simpa using hends ho
    have hfits := Typed.fits_of_within (hbare hstrong)
    simp [Typed.endsInType_of_fits_unary hfits] at htype
  · refine (hreads.leads t ht).imp_right ?_
    rintro ⟨hstrong, hleads⟩
    exact hleads (Typed.fits_of_within (hbare hstrong))

/-- A head that is read as `e`, at the level that `threshold` asks for. -/
def ReadsHead (threshold : Nat) (e : Typed) (ls : List Lexeme) : Prop :=
  ∃ mayEnd, ReadsOperand (e.headLevel threshold) mayEnd
    (fun t => IsWord t ∨ t ∈ ["(", "<"]) e ls

/-- **The head of an access or a call**, in parentheses if it binds looser than `threshold`. -/
lemma PrintsTyped.head {child : Json} (hinside : child.Inside node)
    (h : PrintsTyped known s child e) {threshold : Nat} (hthreshold : 18 ≤ threshold)
    (hcast : threshold ≤ e.strength → e.isCast = false) :
    GivesAmid known s
      ((partsOf node).wrapped ⟨child, hinside⟩ (decide (e.strength < threshold)))
      (Led (ReadsHead threshold e)) := by
  have hstrong (hbare : decide (e.strength < threshold) = false) : threshold ≤ e.strength :=
    not_lt.mp (of_decide_eq_false hbare)
  have hheads (hbare : decide (e.strength < threshold) = false) :=
    Typed.level_head (hthreshold.trans (hstrong hbare)) (hcast (hstrong hbare))
  have hlevel (hbare : decide (e.strength < threshold) = false) :
      e.level.Within (e.headLevel threshold) := by
    rw [Typed.headLevel, if_neg (not_lt.mpr (hstrong hbare))]
    rcases hheads hbare with hl | hl | hl
    · exact hl ▸ Level.within_of_isWithin rfl
    · exact hl ▸ Level.within_of_isWithin rfl
    · exact hl ▸ Level.within_of_isWithin rfl
  intro q
  obtain ⟨q', _, hgives, hled⟩ := h q
  refine ⟨q', _, Render.gives_wrapped hgives _, ?_⟩
  cases hwrap : decide (e.strength < threshold) with
  | true =>
      have hprimary : Level.Within .primary (e.headLevel threshold) := by
        rw [Typed.headLevel, if_pos (of_decide_eq_true hwrap)]
        exact Level.within_of_isWithin rfl
      have hparens := typedPassage_parens (hled.mono fun _ hreads => hreads.passage) hprimary
      exact ⟨[], _, rfl, isPadding_nil, false, hparens _,
        fun t ht => Or.inr (by simp [show t = "(" by simpa using ht.symm])⟩
  | false =>
      refine hled.mono fun ls hreads => ⟨_, hreads.passage.raise (hlevel hwrap), fun t ht => ?_⟩
      have hfits : e.fits .unary = true := by
        refine Typed.fits_of_within ?_
        rcases hheads hwrap with hl | hl | hl
        · exact hl ▸ Level.within_of_isWithin rfl
        · exact hl ▸ Level.within_of_isWithin rfl
        · exact hl ▸ Level.within_of_isWithin rfl
      have hsign := Typed.sign_eq_none (hthreshold.trans (hstrong hwrap))
      simpa [Typed.Leads, hsign] using hreads.leads hfits t ht

/-! ## Names and operators -/

lemma printsTyped_name (hknown : ∀ c, known c → c.IsComment) {name : String}
    (h : node.IsIdentifierAmid known name) (hname : IsName name) :
    PrintsTyped known s node (.name name) := by
  refine (givesAmid_identifier hknown h).mono fun _ hled => hled.mono ?_
  rintro _ rfl
  exact readsTyped_of_leads (Passage.word hname.1 fun _ => ⟨false, .name hname, by simp⟩)
    (Or.inl hname.1)

/-- What keeps a binary or logical operation together: casts among the operands stand at the level
that is asked for, and no type runs into the operator. -/
structure OperandsFit (family : Family) (op : String) (shape : Shape) (e f : Typed) : Prop where
  left : e.isCast = true → e.level.Within shape.left
  right : f.isCast = true → f.level.Within shape.right
  join : op ∈ typeJoiners → e.fits shape.left = true → e.endsInType = false

lemma operandsFit_binary {op : String} {shape : Shape}
    (hlookup : Family.binary.shapes.lookup op = some shape) (h : e.operandsStand op f = true) :
    OperandsFit .binary op shape e f := by
  simp only [Typed.operandsStand, hlookup, Bool.and_eq_true, Bool.not_eq_true',
    Bool.and_eq_false_iff] at h
  obtain ⟨⟨hleft, hright⟩, hjoin⟩ := h
  have hstrong {g : Typed} (hcast : g.isCast = true) : 14 ≤ g.strength := by
    cases g with
    | ascribed how argument type => cases how <;> simp [Typed.strength, Ascription.strength]
    | assertion type argument => simp [Typed.strength]
    | _ => simp [Typed.isCast] at hcast
  refine ⟨fun hcast => Typed.within_of_stands hleft (hstrong hcast) hcast,
    fun hcast => Typed.within_of_stands hright (hstrong hcast) hcast, fun hop hfits => ?_⟩
  rcases hjoin with (hjoin | hjoin) | hjoin
  · exact absurd hop (by simpa using hjoin)
  · exact absurd hfits (by simp [hjoin])
  · exact hjoin

lemma operandsFit_logical {op : String} {shape : Shape}
    (hlookup : Family.logical.shapes.lookup op = some shape) :
    OperandsFit .logical op shape e f := by
  have hshape := Family.mem_of_lookup hlookup
  have hjoiner : ∀ entry ∈ Family.logical.shapes, entry.1 ∉ typeJoiners := by decide
  exact ⟨Typed.operand_of_cast hshape false, Typed.operand_of_cast hshape true,
    fun hop => absurd hop (hjoiner _ hshape)⟩

lemma isRead_operator {family : Family} {op : String} {shape : Shape}
    (hshape : (op, shape) ∈ family.shapes) : typedAlphabet.toVocabulary.Reads op := by
  have hall : ∀ entry ∈ Family.binary.shapes ++ Family.logical.shapes,
      IsWord entry.1 ∨ entry.1 ∈ typedAlphabet.signs := by decide
  have hmem : (op, shape) ∈ Family.binary.shapes ++ Family.logical.shapes := by
    cases family with
    | binary => exact List.mem_append_left _ hshape
    | logical => exact List.mem_append_right _ hshape
  exact (hall _ hmem).imp_right Or.inl

/-- **A binary or logical operation.** -/
lemma printsTyped_operation (hknown : ∀ c, known c → c.IsComment) {family : Family} {op : String}
    {left right : Json} (h : IsOperationAmid known family node op left right) (hs : s.noIn = false)
    {shape : Shape} (hlookup : family.shapes.lookup op = some shape)
    (hfit : OperandsFit family op shape e f) (hleft : DescribesTypedAmid known left e)
    (hright : DescribesTypedAmid known right f) (hprints : PrintsTyped known s left e)
    (hprints' : PrintsTyped known s right f) :
    PrintsTyped known s node (.operation family op e f) := by
  have hshape := Family.mem_of_lookup hlookup
  have hprimary (isRight : Bool) : Level.Within .primary (shape.operand isRight) :=
    (Level.within_of_isWithin rfl).trans (operand_least hshape isRight).1
  obtain ⟨wrap, hwrap, hlevel⟩ :=
    needsParens_of_typed h.toIsNodeAmid h.operator hshape hleft false hfit.left
  obtain ⟨wrap', hwrap', hlevel'⟩ :=
    needsParens_of_typed h.toIsNodeAmid h.operator hshape hright true hfit.right
  obtain ⟨hinside, hread⟩ := h.left
  obtain ⟨hinside', hread'⟩ := h.right
  have hends : (!wrap' && f.endsInType) = true →
      (Typed.operation family op e f).endsInType = true := by
    simp only [Bool.and_eq_true, Bool.not_eq_true']
    rintro ⟨hbare, htype⟩
    have hfits : f.fits shape.right = true := Typed.fits_of_within (hlevel' hbare)
    cases family with
    | binary => simp [Typed.operation, Typed.endsInType, Typed.endsBare, hlookup, hfits, htype]
    | logical => simp [Typed.operation, Typed.endsInType, Typed.endsBare, hlookup, hfits, htype]
  refine (givesAmid_operation hknown h hs ?_).mono fun _ => Led.led
  intro q
  obtain ⟨q', _, hgives, gs, ls, rfl, hgs, hreads⟩ :=
    hprints.operand hinside wrap (hprimary false) hlevel q
  obtain ⟨q'', _, hgives', hs', ms, rfl, hhs, hreads'⟩ :=
    hprints'.operand hinside' wrap' (hprimary true) hlevel' q'
  have hoperands : GivesFrom s q (Rules.operands (partsOf node) (.str op))
      (gs ++ (ls ++ .gap false :: .token op :: .gap false :: (hs' ++ ms))) q'' := by
    rw [Rules.operands, read_bind hread, read_bind hread', read_bind hwrap]
    simp only [read_bind hwrap']
    rw [← List.append_assoc]
    exact hgives.andThen ((gives_operator op).andThen hgives')
  refine ⟨q'', _, hoperands, gs, _, rfl, hgs,
    readsTyped_of_weak ?_ (Typed.operation_fits_unary hlookup e f)⟩
  rw [Typed.level_operation hlookup]
  have hjoined : TypedPassage shape.own (!wrap' && f.endsInType) (.operation family op e f)
      (ls ++ .gap false :: .token op :: .gap false :: (hs' ++ ms)) := by
    refine typedPassage_joined hreads.passage hreads'.passage (isRead_operator hshape)
      (fun o o' ts us hts ho hus => DerivesTyped.operation hshape hts (fun hop => ?_) hus) hhs
    -- the left operand does not end with a type, in parentheses or not
    by_contra hopen
    obtain ⟨hbare, htype⟩ : wrap = false ∧ e.endsInType = true := by
      simpa using ho (by simpa using hopen)
    have hnone := hfit.join hop (Typed.fits_of_within (hlevel hbare))
    simp [hnone] at htype
  refine hjoined.mono ?_
  rintro ts ⟨o, hderives, ho⟩
  exact ⟨o, hderives, fun hopen => hends (ho hopen)⟩

lemma printsTyped_unary (hknown : ∀ c, known c → c.IsComment) {op : String} {argument : Json}
    (hnode : node.IsNodeAmid known "UnaryExpression") (hop : node.Has "operator" (.str op))
    (hmem : op ∈ unaryOperators) (hargument : node.Has "argument" argument)
    (hstands : e.stands 15 .unary = true) (h : DescribesTypedAmid known argument e)
    (hprints : PrintsTyped known s argument e) : PrintsTyped known s node (.unary op e) := by
  obtain ⟨hinside, hread⟩ := hop
  obtain ⟨hinside', hread'⟩ := hargument
  obtain ⟨spaced, hspaced, hapart⟩ := spacedUnary_of_typed hmem h
  have hlooser := bindsLooser_of_typed h Precedence.unary
  have hopener : ∀ op ∈ unaryOperators, IsWord op ∨ op ∈ typedAlphabet.openers := by
    decide
  have hrule : Rules.unary node (partsOf node) = (do
      Render.emit [.ofValue (.str op)]
      if spaced then Render.text " "
      (partsOf node).wrapped ⟨argument, hinside'⟩ (decide (e.strength < 15))) := by
    rw [Rules.unary, read_bind hread, read_bind hread']
    simp only [read_bind hspaced, read_bind hlooser]
    rfl
  refine printsTyped_of_rule hknown hnode rfl fun q => ?_
  obtain ⟨q', _, hgives, gs, ls, rfl, hgs, hreads⟩ :=
    hprints.argument hinside' hstands (by decide) q
  rw [hrule]
  cases spaced with
  | true =>
      have hspace := Render.givesFrom_text (s := s) (q := q) (t := " ") [.gap false] rfl (by simp)
      refine ⟨q', _, (gives_ofValue op).andThen (hspace.andThen hgives), [], _, rfl,
        isPadding_nil, readsTyped_of_leads ?_ (Or.inr (Or.inr rfl))⟩
      exact typedPassage_before hreads.passage (hopener op hmem) (fun _ _ _ => .unary hmem)
        ((isPadding_gap false).append hgs) (by simp)
  | false =>
      obtain ⟨hsigns, hmeet⟩ := hapart rfl
      have hsign : ∀ op ∈ ["!", "~", "+", "-"], op ∈ typedAlphabet.openers := by decide
      refine ⟨q', _, (gives_ofValue op).andThen hgives, [], _, rfl, isPadding_nil,
        readsTyped_of_leads ?_ (Or.inr (Or.inr rfl))⟩
      refine typedPassage_sign hreads.passage (hsign op hsigns) (fun t ht => ?_)
        (fun _ _ _ => .unary hmem) hgs
      rcases hreads.leads t ht with rfl | hlead
      · exact hmeet "(" (Or.inr (Or.inl (by simp)))
      · exact hmeet t hlead

lemma isTarget_strength (h : e.IsTarget) (hcast : e.isCast = false) : 18 ≤ e.strength := by
  cases e with
  | name => simp [Typed.strength]
  | member => simp [Typed.strength]
  | index => simp [Typed.strength]
  | nonNull => simp [Typed.strength]
  | ascribed => simp [Typed.isCast] at hcast
  | assertion => simp [Typed.isCast] at hcast
  | _ => exact absurd h id

/-- A target begins with no operator. -/
lemma isTarget_sign (h : e.IsTarget) : e.sign = none := by
  cases hcast : e.isCast with
  | false => exact Typed.sign_eq_none (isTarget_strength h hcast)
  | true =>
      cases e with
      | unary => simp [Typed.isCast] at hcast
      | update => simp [Typed.isCast] at hcast
      | _ => rfl

/-- A target, which is never put in parentheses, stands at the level of targets. -/
lemma target_within {l : Level} (htarget : e.IsTarget) (hstands : e.stands 0 l = true)
    (hl : Level.Within .leftHand l) : e.level.Within l := by
  cases hcast : e.isCast with
  | true => exact Typed.within_of_stands hstands (Nat.zero_le _) hcast
  | false => exact (Typed.level_within_leftHand (isTarget_strength htarget hcast) hcast).trans hl

lemma printsTyped_update (hknown : ∀ c, known c → c.IsComment) {op : String} {argument : Json}
    {isBefore : Bool} (hnode : node.IsNodeAmid known "UpdateExpression")
    (hop : node.Has "operator" (.str op)) (hmem : op ∈ updateOperators)
    (hbefore : node.flag "prefix" = .ok isBefore) (hargument : node.Has "argument" argument)
    (htarget : e.IsTarget) (hstands : e.stands 0 (if isBefore then .unary else .leftHand) = true)
    (hprints : PrintsTyped known s argument e) :
    PrintsTyped known s node (.update op isBefore e) := by
  obtain ⟨hinside, hread⟩ := hop
  have hleftHand : Level.Within .leftHand .unary := Level.within_of_isWithin rfl
  have hunary : e.level.Within .unary := by
    cases isBefore with
    | true => exact target_within htarget hstands hleftHand
    | false => exact (target_within htarget hstands .refl).trans hleftHand
  have hfits := Typed.fits_of_within hunary
  have htype := Typed.endsInType_of_fits_unary hfits
  refine printsTyped_of_rule hknown hnode rfl fun q => ?_
  obtain ⟨q', _, hgives, gs, ls, rfl, hgs, hpassage, hleads⟩ := hprints q
  have hlead : ∀ t, ls.head? = some (.token t) → IsWord t ∨ t ∈ ["(", "<"] := by
    intro t ht
    simpa [Typed.Leads, isTarget_sign htarget] using hleads hfits t ht
  rw [Rules.update, read_bind hbefore, field_eq hargument]
  cases isBefore with
  | true =>
      simp only [if_true, read_bind hread]
      have hopener : ∀ op ∈ updateOperators, op ∈ typedAlphabet.openers ∧ op ∈ typedAlphabet.signs ∧
          ∀ t ∈ ["(", "<"], areApart op t = true := by decide
      obtain ⟨hopen, hop, happart⟩ := hopener op hmem
      refine ⟨q', _, (gives_ofValue op).andThen hgives, [], _, rfl, isPadding_nil,
        readsTyped_of_leads ?_ (Or.inr (Or.inr rfl))⟩
      rw [htype] at hpassage
      refine typedPassage_sign (hpassage.raise hunary) hopen (fun t ht => ?_)
        (fun _ _ _ hts => .updateBefore hmem hts htarget) hgs
      rcases hlead t ht with hword | ht
      · exact Vocabulary.apart_isWord hop hword
      · exact apart_typed hop (happart t ht)
  | false =>
      simp only [Bool.false_eq_true, if_false, read_bind hread]
      have hcloser : ∀ op ∈ updateOperators, op ∈ typedAlphabet.behind ∧
          op ∈ typedAlphabet.closers := by decide
      obtain ⟨hbehind, hclose⟩ := hcloser op hmem
      have hsuffix : Suffix typedAlphabet (· = [⟨op, false⟩]) [.token op] :=
        suffix_sign hbehind hclose rfl
      refine ⟨q', _, hgives.andThen (gives_ofValue op), gs, _, List.append_assoc .., hgs, ?_,
        fun _ t ht => ?_⟩
      · refine typedPassage_followed (hpassage.raise (target_within htarget hstands .refl)) hsuffix
          (fun o ts us hts hus => ?_) _
        rw [hus]
        exact .updateBehind hmem hts htarget
      · obtain ⟨u, hu, -⟩ := hpassage.starts
        have ht : ls.head? = some (.token t) := by simpa [List.head?_append, hu] using ht
        exact (hlead t ht).imp_right Or.inl

lemma printsTyped_await (hknown : ∀ c, known c → c.IsComment) {argument : Json}
    (hnode : node.IsNodeAmid known "AwaitExpression") (hargument : node.Has "argument" argument)
    (hstands : e.stands 17 .unary = true) (h : DescribesTypedAmid known argument e)
    (hprints : PrintsTyped known s argument e) : PrintsTyped known s node (.await e) := by
  obtain ⟨hinside, hpresent⟩ := hargument.present_eq h.isNode.ne_null
  have hlooser := bindsLooser_of_typed h Precedence.await
  have hword := Phrase.isWord_await
  have hrule : Rules.await node (partsOf node) = (if decide (e.strength < 17) then do
        Render.text "await ("
        Render.tree .value argument
        Render.text ")"
      else do
        Render.text "await "
        Render.tree .value argument) := by
    rw [Rules.await, read_bind hpresent]
    simp only [read_bind hlooser]
    rfl
  refine printsTyped_of_rule hknown hnode rfl fun q => ?_
  rw [hrule]
  by_cases hweak : e.strength < 17
  · obtain ⟨q', ls, hgives, hled⟩ := hprints q
    have hparens := typedPassage_parens (hled.mono fun _ hreads => hreads.passage) (l := .unary)
      (Level.within_of_isWithin rfl) false
    have hopen := Render.givesFrom_text (s := s) (q := q) (t := "await (")
      [.token "await", .gap false, .token "("] rfl (by simp)
    have hclose := Render.givesFrom_text (s := s) (q := q') (t := ")") [.token ")"] rfl (by simp)
    rw [if_pos (decide_eq_true hweak)]
    refine ⟨q', _, hopen.andThen (hgives.andThen hclose), [], _, rfl, isPadding_nil,
      readsTyped_of_leads ?_ (Or.inl hword)⟩
    exact typedPassage_before hparens (Or.inl hword) (fun _ _ _ => .await) (isPadding_gap false)
      (by simp)
  · obtain ⟨q', _, hgives, gs, ls, rfl, hgs, hreads⟩ :=
      hprints.argument hinside hstands (by decide) q
    rw [decide_eq_false hweak] at hgives
    have hopen := Render.givesFrom_text (s := s) (q := q) (t := "await ")
      [.token "await", .gap false] rfl (by simp)
    rw [if_neg (by simp [hweak])]
    refine ⟨q', _, hopen.andThen hgives, [], _, rfl, isPadding_nil,
      readsTyped_of_leads ?_ (Or.inl hword)⟩
    exact typedPassage_before hreads.passage (Or.inl hword) (fun _ _ _ => .await)
      ((isPadding_gap false).append hgs) (by simp)

lemma printsTyped_assign (hknown : ∀ c, known c → c.IsComment) {op : String} {left right : Json}
    (hnode : node.IsNodeAmid known "AssignmentExpression") (hop : node.Has "operator" (.str op))
    (hmem : op ∈ assignmentOperators) (hleft : node.Has "left" left)
    (hright : node.Has "right" right) (htarget : e.IsTarget)
    (hstands : e.stands 0 .leftHand = true) (hprints : PrintsTyped known s left e)
    (hprints' : PrintsTyped known s right f) : PrintsTyped known s node (.assign op e f) := by
  obtain ⟨hinside, hread⟩ := hop
  have hall : ∀ op ∈ assignmentOperators, op ∈ typedAlphabet.signs := by decide
  refine printsTyped_of_rule hknown hnode rfl fun q => ?_
  obtain ⟨q', _, hgives, gs, ls, rfl, hgs, hreads⟩ := hprints q
  obtain ⟨q'', _, hgives', hs, ms, rfl, hhs, hreads'⟩ := hprints' q'
  have hrule : GivesFrom s q (Rules.assignment node (partsOf node))
      (gs ++ (ls ++ .gap false :: .token op :: .gap false :: (hs ++ ms))) q'' := by
    rw [Rules.assignment, field_eq hleft, field_eq hright]
    simp only [read_bind hread]
    rw [← List.append_assoc]
    exact hgives.andThen ((gives_operator op).andThen hgives')
  refine ⟨q'', _, hrule, gs, _, rfl, hgs, readsTyped_of_weak ?_ rfl⟩
  exact typedPassage_joined (hreads.passage.raise (target_within htarget hstands .refl))
    (hreads'.passage.raise f.level_within_assignment) (Or.inr (Or.inl (hall op hmem)))
    (fun _ _ _ _ hts _ hus => .assign hmem hts htarget hus) hhs

lemma printsTyped_conditional (hknown : ∀ c, known c → c.IsComment) {test yes no : Json}
    {g : Typed} (hnode : node.IsNodeAmid known "ConditionalExpression")
    (htest : node.Has "test" test) (hyes : node.Has "consequent" yes)
    (hno : node.Has "alternate" no) (h : DescribesTypedAmid known test e)
    (hprints : PrintsTyped known s test e) (hprints' : PrintsTyped known s yes f)
    (hprints'' : PrintsTyped known s no g) : PrintsTyped known s node (.conditional e f g) := by
  obtain ⟨hinside, hread⟩ := htest
  have hquestion : typedAlphabet.toVocabulary.Reads "?" := Or.inr (Or.inl (by decide))
  have hcolon : typedAlphabet.toVocabulary.Reads ":" := Or.inr (Or.inl (by decide))
  refine printsTyped_of_rule hknown hnode rfl fun q => ?_
  obtain ⟨q₁, _, hgives, gs, ls, rfl, hgs, hreads⟩ :=
    hprints.operand hinside (decide (e.strength ≤ 4)) (l := .shortCircuit)
      (Level.within_of_isWithin rfl)
      (fun hwrap => Typed.level_within_shortCircuit (not_le.mp (of_decide_eq_false hwrap))) q
  obtain ⟨q₂, _, hgives', hs, ms, rfl, hhs, hreads'⟩ := hprints' q₁
  obtain ⟨q₃, _, hgives'', ks, ns, rfl, hks, hreads''⟩ := hprints'' q₂
  obtain ⟨b, hbranches⟩ := Render.gives_branches hgives' hgives''
  have hrule : GivesFrom s q (Rules.conditional node (partsOf node))
      (gs ++ (ls ++ ([.gap b] ++ .token "?" :: (.gap false :: hs ++
        (ms ++ ([.gap b] ++ .token ":" :: (.gap false :: ks ++ ns))))))) q₃ := by
    rw [Rules.conditional, read_bind hread, read_bind (wrapsAsTest_of_typed h), field_eq hyes,
      field_eq hno]
    simpa using hgives.andThen hbranches
  have hright : Passage typedAlphabet (fun ts => ∃ c us vs o o', ts = us ++ ⟨":", c⟩ :: vs ∧
      DerivesTyped .assignment o us f ∧ DerivesTyped .assignment o' vs g ∧
        (o' = true → g.endsInType = true))
      (ms ++ ([.gap b] ++ .token ":" :: (.gap false :: ks ++ ns))) := by
    refine Passage.joined (hreads'.passage.raise f.level_within_assignment)
      (hreads''.passage.raise g.level_within_assignment) hcolon (isPadding_gap b)
      (Or.inl (by simp)) ((isPadding_gap false).append hks) (by simp) ?_
    rintro us vs ⟨o, hus, -⟩ ⟨o', hvs, hends⟩
    exact ⟨_, us, vs, o, o', rfl, hus, hvs, hends⟩
  refine ⟨q₃, _, hrule, gs, _, rfl, hgs, readsTyped_of_weak ?_ rfl⟩
  refine Passage.joined hreads.passage hright hquestion (isPadding_gap b) (Or.inl (by simp))
    ((isPadding_gap false).append hhs) (by simp) ?_
  rintro ts _ ⟨o, hts, -⟩ ⟨c, us, vs, o', o'', rfl, hus, hvs, hends⟩
  exact ⟨o'', .conditional hts hus hvs, hends⟩

/-! ## Accesses and calls -/

/-- An access or a call: the head, and what stands directly behind it. -/
lemma readsTyped_followed {threshold : Nat} {ls ms : List Lexeme} {g : Typed}
    (h : ReadsHead threshold e ls) {Q : List Token → Prop} (hsuffix : Suffix typedAlphabet Q ms)
    (hderives : ∀ o ts us, DerivesTyped (e.headLevel threshold) o ts e → Q us →
      DerivesTyped g.level false (ts ++ us) g) : ReadsTyped g (ls ++ ms) := by
  obtain ⟨mayEnd, hpassage, hleads⟩ := h
  refine ⟨typedPassage_followed hpassage hsuffix hderives _, fun _ t ht => ?_⟩
  obtain ⟨u, hu, -⟩ := hpassage.starts
  have ht : ls.head? = some (.token t) := by simpa [List.head?_append, hu] using ht
  exact (hleads t ht).imp_right Or.inl

/-- A cast is in parentheses as the head of an access. -/
lemma isCast_of_strength (h : 19 ≤ e.strength) : e.isCast = false := by
  cases e with
  | ascribed how argument type => cases how <;> simp [Typed.strength, Ascription.strength] at h
  | assertion type argument => simp [Typed.strength] at h
  | _ => rfl

lemma printsTyped_member (hknown : ∀ c, known c → c.IsComment) {head property : Json}
    {p : String} (hnode : node.IsNodeAmid known "MemberExpression")
    (hcomputed : node.flag "computed" = .ok false) (hoptional : node.flag "optional" = .ok false)
    (hhead : node.Has "object" head) (hproperty : node.Has "property" property)
    (h : DescribesTypedAmid known head e) (hp : NamesMemberAmid known property p)
    (hprints : PrintsTyped known s head e) : PrintsTyped known s node (.member e p) := by
  obtain ⟨hinside, hread⟩ := hhead
  obtain ⟨hword, hname⟩ := givesAmid_namesMember (s := s) hknown hp
  refine printsTyped_of_rule hknown hnode rfl fun q => ?_
  obtain ⟨q', _, hgives, gs, ls, rfl, hgs, hhead⟩ :=
    hprints.head hinside (by decide : 18 ≤ 19) isCast_of_strength q
  obtain ⟨q'', _, hgives', hs, _, rfl, hhs, rfl⟩ := hname q'
  have hdot := Render.givesFrom_text (s := s) (q := q') (t := ".") [.token "."] rfl (by simp)
  have hsuffix : Suffix typedAlphabet (fun us => ∃ b, us = [⟨".", false⟩, ⟨p, b⟩])
      (.token "." :: (hs ++ [.token p])) :=
    suffix_wordBehind (by decide) hword hhs fun b => ⟨b, rfl⟩
  have hrule : GivesFrom s q (Rules.member node (partsOf node))
      (gs ++ (ls ++ .token "." :: (hs ++ [.token p]))) q'' := by
    rw [Rules.member, read_bind hread, read_bind (wrapsAsHead_of_typed h Precedence.member),
      field_eq hproperty]
    simp only [read_bind hcomputed, read_bind hoptional, Bool.false_eq_true, if_false]
    rw [← List.append_assoc]
    exact hgives.andThen (hdot.andThen hgives')
  refine ⟨q'', _, hrule, gs, _, rfl, hgs, readsTyped_followed hhead hsuffix ?_⟩
  rintro o ts us hts ⟨b, rfl⟩
  exact .member (e.headLevel_cases 19) hts hword

lemma printsTyped_index (hknown : ∀ c, known c → c.IsComment) {head property : Json}
    (hnode : node.IsNodeAmid known "MemberExpression")
    (hcomputed : node.flag "computed" = .ok true) (hoptional : node.flag "optional" = .ok false)
    (hhead : node.Has "object" head) (hproperty : node.Has "property" property)
    (h : DescribesTypedAmid known head e) (hprints : PrintsTyped known s head e)
    (hprints' : PrintsTyped known s property f) : PrintsTyped known s node (.index e f) := by
  obtain ⟨hinside, hread⟩ := hhead
  refine printsTyped_of_rule hknown hnode rfl fun q => ?_
  obtain ⟨q', _, hgives, gs, ls, rfl, hgs, hhead⟩ :=
    hprints.head hinside (by decide : 18 ≤ 19) isCast_of_strength q
  obtain ⟨q'', ms, hgives', hled⟩ := hprints' q'
  have hopen := Render.givesFrom_text (s := s) (q := q') (t := "[") [.token "["] rfl (by simp)
  have hclose := Render.givesFrom_text (s := s) (q := q'') (t := "]") [.token "]"] rfl (by simp)
  have hmark := Render.gives_textIf (s := s) (q := q') hoptional
    (Render.givesFrom_text (t := "?.") [.token "?."] rfl (by simp))
  have hpadded := (hled.mono fun _ hreads => TypedPassage.whole hreads.passage).padded
  have hsuffix : Suffix typedAlphabet (fun us => ∃ c vs o, us = ⟨"[", false⟩ :: (vs ++ [⟨"]", c⟩]) ∧
      DerivesTyped .expression o vs f) (between "[" "]" ms) := by
    refine hpadded.content.suffix (by decide) (by decide) (by decide) (by decide) ?_
    rintro c vs ⟨o, hvs, -⟩
    exact ⟨c, vs, o, rfl, hvs⟩
  have hrule : GivesFrom s q (Rules.member node (partsOf node))
      (gs ++ (ls ++ between "[" "]" ms)) q'' := by
    rw [Rules.member, read_bind hread, read_bind (wrapsAsHead_of_typed h Precedence.member),
      field_eq hproperty]
    simp only [read_bind hcomputed, if_true]
    rw [← List.append_assoc]
    exact hgives.andThen (hmark.andThen (hopen.andThen (hgives'.andThen hclose)))
  refine ⟨q'', _, hrule, gs, _, rfl, hgs, readsTyped_followed hhead hsuffix ?_⟩
  rintro o ts us hts ⟨c, vs, o', rfl, hvs⟩
  exact .index (e.headLevel_cases 19) hts hvs

/-- What is printed for a node stands as an argument. -/
lemma padded_argument {ls : List Lexeme} (h : Led (ReadsTyped e) ls) :
    Padded typedAlphabet (DerivesArgument · e) ls := by
  refine (h.mono fun _ hreads => ?_).padded
  refine (hreads.passage.raise e.level_within_assignment).mono ?_
  rintro ts ⟨o, hts, -⟩
  exact .mk hts

lemma printsTyped_call (hknown : ∀ c, known c → c.IsComment) {head : Json} {items : List Json}
    {args : List Typed} (hnode : node.IsNodeAmid known "CallExpression")
    (hoptional : node.flag "optional" = .ok false)
    (hgeneric : node.givenOr "typeArguments" "typeParameters" = .ok none)
    (hhead : node.Has "callee" head) (hitems : node.Has "arguments" (.arr items))
    (h : DescribesTypedAmid known head e) (hprints : PrintsTyped known s head e)
    (hprints' : List.Forall₂ (PrintsTyped known s) items args) :
    PrintsTyped known s node (.call e args) := by
  obtain ⟨hinside, hread⟩ := hhead
  have hlist : List.Forall₂ (fun item P => GivesAmid known s (Render.tree .value item) P) items
      (args.map fun e => Led (ReadsTyped e)) := List.forall₂_map_right_iff.mpr hprints'
  have hrule : Rules.call false node (partsOf node) = (do
      (partsOf node).wrapped ⟨head, hinside⟩ (decide (e.strength < 19))
      Render.textIf node "optional" "?."
      (partsOf node).typeIf none
      Rules.callArguments (partsOf node)) := by
    rw [Rules.call, if_neg Bool.false_ne_true, read_bind hread,
      read_bind (wrapsAsHead_of_typed h Precedence.call), Precedence.call, Rules.typeArguments,
      read_bind hgeneric]
    cases decide (e.strength < 19) with
    | true => exact pure_bind true _
    | false => exact pure_bind false _
  refine printsTyped_of_rule hknown hnode rfl fun q => ?_
  obtain ⟨q', _, hgives, gs, ls, rfl, hgs, hhead⟩ :=
    hprints.head hinside (by decide : 18 ≤ 19) isCast_of_strength q
  obtain ⟨q'', _, harguments, b, ms, lss, rfl, hcommas, hlss⟩ :=
    givesAmid_argumentList hknown hitems hlist q'
  have hpadded : List.Forall₂ (fun ls e => Padded typedAlphabet (DerivesArgument · e) ls) lss
      args := ((List.forall₂_map_left_iff.mp hlss).imp fun _ _ => padded_argument).flip
  have hsuffix : Suffix typedAlphabet (fun us => ∃ c vs, us = ⟨"(", false⟩ :: (vs ++ [⟨")", c⟩]) ∧
      DerivesListed DerivesArgument vs args) (enclosed b ms) :=
    ((Content.commas (fun _ => Render.BehindComma.isPadding) (by decide) hcommas hpadded).inset
      b).suffix (by decide) (by decide) (by decide) (by decide) fun c vs hvs => ⟨c, vs, rfl, hvs⟩
  have hmark := Render.gives_textIf (s := s) (q := q') hoptional
    (Render.givesFrom_text (t := "?.") [.token "?."] rfl (by simp))
  have hcall : GivesFrom s q (Rules.call false node (partsOf node))
      (gs ++ (ls ++ enclosed b ms)) q'' := by
    rw [hrule, ← List.append_assoc]
    exact hgives.andThen (hmark.andThen (Render.gives_pure.andThen harguments))
  refine ⟨q'', _, hcall, gs, _, rfl, hgs, readsTyped_followed hhead hsuffix ?_⟩
  rintro o ts us hts ⟨c, vs, rfl, hvs⟩
  exact .call (e.headLevel_cases 19) hts hvs

/-! ## Types on expressions -/

lemma printsTyped_nonNull (hknown : ∀ c, known c → c.IsComment) {argument : Json}
    (hnode : node.IsNodeAmid known "TSNonNullExpression")
    (hargument : node.Has "expression" argument) (hstands : e.stands 18 .leftHand = true)
    (h : DescribesTypedAmid known argument e) (hprints : PrintsTyped known s argument e) :
    PrintsTyped known s node (.nonNull e) := by
  obtain ⟨hinside, hread⟩ := hargument
  have hcast (hstrong : 18 ≤ e.strength) : e.isCast = false := by
    have hnever : ∀ l ∈ [Level.relation, .unary], Level.isWithin 22 l .leftHand = false := by
      decide
    by_contra hcast
    rw [Bool.not_eq_false] at hcast
    have hfits := Typed.fits_of_within (Typed.within_of_stands hstands hstrong hcast)
    cases e with
    | ascribed => simp [Typed.fits, Typed.level, hnever] at hfits
    | assertion => simp [Typed.fits, Typed.level, hnever] at hfits
    | _ => simp [Typed.isCast] at hcast
  refine printsTyped_of_rule hknown hnode rfl fun q => ?_
  obtain ⟨q', _, hgives, gs, ls, rfl, hgs, hhead⟩ := hprints.head hinside le_rfl hcast q
  have hmark := Render.givesFrom_text (s := s) (q := q') (t := "!") [.token "!"] rfl (by simp)
  have hsuffix : Suffix typedAlphabet (· = [⟨"!", false⟩]) [.token "!"] :=
    suffix_sign (by decide) (by decide) rfl
  have hrule : GivesFrom s q (Rules.nonNull node (partsOf node))
      (gs ++ (ls ++ [.token "!"])) q' := by
    rw [Rules.nonNull, read_bind hread, read_bind (bindsLooser_of_typed h Precedence.nonNull)]
    rw [← List.append_assoc]
    exact hgives.andThen hmark
  refine ⟨q', _, hrule, gs, _, rfl, hgs, readsTyped_followed hhead hsuffix ?_⟩
  intro o ts us hts hus
  rw [hus]
  exact .nonNull (e.headLevel_cases 18) hts

lemma printsTyped_assertion (hknown : ∀ c, known c → c.IsComment) {argument type : Json}
    {kind word : String} (hnode : node.IsNodeAmid known "TSTypeAssertion")
    (hargument : node.Has "expression" argument) (htype : node.Has "typeAnnotation" type)
    (hkind : type.kind = .ok (.str kind)) (hword : (kind, word) ∈ Rules.keywordTypes)
    (hstands : e.stands 15 .unary = true) (h : DescribesTypedAmid known argument e)
    (hprints : PrintsTyped known s argument e) : PrintsTyped known s node (.assertion word e) := by
  obtain ⟨hinside, hread⟩ := hargument
  obtain ⟨hinside', hread'⟩ := htype
  refine printsTyped_of_rule hknown hnode rfl fun q => ?_
  obtain ⟨htypes, hmem, hisWord⟩ := gives_keyword (s := s) (q := q) hkind hword
  obtain ⟨q', _, hgives, gs, ls, rfl, hgs, hreads⟩ :=
    hprints.argument hinside hstands (by decide) q
  have hopen := Render.givesFrom_text (s := s) (q := q) (t := "<") [.token "<"] rfl (by simp)
  have hclose := Render.givesFrom_text (s := s) (q := q) (t := ">") [.token ">"] rfl (by simp)
  have hrule : GivesFrom s q (Rules.typeAssertion node (partsOf node))
      (.token "<" :: .token word :: .token ">" :: (gs ++ ls)) q' := by
    rw [Rules.typeAssertion, Inner.typeField, read_bind hread', read_bind hread,
      read_bind (bindsLooser_of_typed h Precedence.unary)]
    exact hopen.andThen (htypes.andThen (hclose.andThen hgives))
  refine ⟨q', _, hrule, [], _, rfl, isPadding_nil,
    readsTyped_of_leads ?_ (Or.inr (Or.inl (by simp)))⟩
  have hbehind : Legible typedAlphabet.toVocabulary (.token ">" :: (gs ++ ls)) :=
    hreads.passage.legible.leadPadded hreads.passage.starts (by decide) hgs
  have hmiddle : Legible typedAlphabet.toVocabulary (.token word :: .token ">" :: (gs ++ ls)) := by
    refine hbehind.cons (Or.inl hisWord) fun t ht => ?_
    obtain rfl : ">" = t := by simpa using ht
    exact Vocabulary.apart_of_isWord hisWord (Or.inl (by decide))
  refine ⟨hmiddle.cons (Alphabet.reads_of_mem (by decide)) fun t ht => ?_,
    ⟨"<", rfl, Or.inr (by decide)⟩,
    hreads.passage.ends.append (.token "<" :: .token word :: .token ">" :: gs), fun b => ?_⟩
  · obtain rfl : word = t := by simpa using ht
    exact Vocabulary.apart_isWord (by decide) hisWord
  · obtain ⟨o, hts, hends⟩ := hreads.passage.holds (gapAfter false gs)
    refine ⟨o, ?_, fun ho => absurd (hends ho) (by simp)⟩
    simp only [tokensOf, hgs.tokensOf_eq]
    exact .assertion hmem hts

lemma isWord_ascription (how : Ascription) : IsWord how.word := by
  cases how with
  | asType => decide
  | satisfies => decide

lemma printsTyped_ascribed (hknown : ∀ c, known c → c.IsComment) {argument type : Json}
    {how : Ascription} {kind word : String} (hnode : node.IsNodeAmid known how.kind)
    (hargument : node.Has "expression" argument) (htype : node.Has "typeAnnotation" type)
    (hkind : type.kind = .ok (.str kind)) (hword : (kind, word) ∈ Rules.keywordTypes)
    (h : DescribesTypedAmid known argument e) (hprints : PrintsTyped known s argument e) :
    PrintsTyped known s node (.ascribed how e word) := by
  obtain ⟨hinside, hread⟩ := hargument
  obtain ⟨hinside', hread'⟩ := htype
  have hhow : 15 ≤ how.strength := by cases how <;> decide
  have hfind : Rules.find Role.value.rules (.str how.kind) =
      .ok (some (Rules.typedExpression how.strength (" " ++ how.word ++ " "))) := by
    cases how with
    | asType => rfl
    | satisfies => rfl
  refine printsTyped_of_rule hknown hnode hfind fun q => ?_
  obtain ⟨q', _, hgives, gs, ls, rfl, hgs, hreads⟩ :=
    hprints.operand hinside (decide (e.strength < how.strength)) (l := .relation)
      (Level.within_of_isWithin rfl) (fun hstrong =>
        Typed.level_within_relation (hhow.trans (not_lt.mp (of_decide_eq_false hstrong)))) q
  obtain ⟨htypes, hmem, hisWord⟩ := gives_keyword (s := s) (q := q') hkind hword
  have hrule : GivesFrom s q
      (Rules.typedExpression how.strength (" " ++ how.word ++ " ") node (partsOf node))
      (gs ++ (ls ++ ([.gap false] ++ .token how.word :: ([.gap false] ++ [Lexeme.token word]))))
      q' := by
    rw [Rules.typedExpression, read_bind hread, read_bind (bindsLooser_of_typed h _),
      Inner.typeField, read_bind hread']
    rw [← List.append_assoc]
    exact hgives.andThen ((gives_operator how.word).andThen htypes)
  have htoken : Passage typedAlphabet (fun us => ∃ b, us = [⟨word, b⟩]) [.token word] :=
    Passage.word hisWord fun b => ⟨b, rfl⟩
  refine ⟨q', _, hrule, gs, _, rfl, hgs, readsTyped_of_weak ?_ rfl⟩
  refine Passage.joined hreads.passage htoken (Or.inl (isWord_ascription how))
    (isPadding_gap false) (Or.inl (by simp)) (isPadding_gap false) (by simp) ?_
  rintro ts _ ⟨o, hts, -⟩ ⟨b, rfl⟩
  exact ⟨true, .ascribed hmem hts, fun _ => rfl⟩

end Printed

/-! ## All expressions -/

/-- Every part of a list keeps its grouping if the list does. -/
lemma groups_of_mem {args : List Typed} (h : typedGroupsAll args = true) :
    ∀ e ∈ args, e.groups = true := by
  induction args with
  | nil => simp
  | cons e rest ih =>
      rw [typedGroupsAll, Bool.and_eq_true] at h
      intro f hf
      rcases List.mem_cons.mp hf with rfl | hf
      · exact h.1
      · exact ih h.2 f hf

/-- The parts of a list are printed if all smaller trees are. -/
lemma printsTyped_items {known : Json → Prop} {s : Setting} {items : List Json} {args : List Typed}
    (h : List.Forall₂ (DescribesTypedAmid known) items args)
    (hgroups : ∀ e ∈ args, e.groups = true)
    (hprints : ∀ item ∈ items, ∀ e, DescribesTypedAmid known item e → e.groups = true →
      PrintsTyped known s item e) : List.Forall₂ (PrintsTyped known s) items args := by
  induction h with
  | nil => exact .nil
  | cons hitem hitems ih =>
      exact .cons (hprints _ (by simp) _ hitem (hgroups _ (by simp)))
        (ih (fun e he => hgroups e (by simp [he])) fun item hmem => hprints item (by simp [hmem]))

/-- **Every described tree that keeps its grouping is printed as its expression.** -/
theorem prints_of_typed {known : Json → Prop} (hknown : ∀ c, known c → c.IsComment) {s : Setting}
    (hs : s.noIn = false) {node : Json} {e : Typed} (h : DescribesTypedAmid known node e)
    (hgroups : e.groups = true) : PrintsTyped known s node e := by
  induction hn : sizeOf node using Nat.strong_induction_on generalizing node e with
  | _ n ih =>
      subst hn
      have hpart {key : String} {value : Json} (hvalue : node.Has key value) {f : Typed}
          (hf : DescribesTypedAmid known value f) (hgroups' : f.groups = true) :
          PrintsTyped known s value f :=
        ih _ hvalue.sizeOf_lt hf hgroups' rfl
      cases h with
      | name h hs => exact printsTyped_name hknown h hs
      | @binary _ _ _ op _ _ h hleft hright =>
          simp only [Typed.groups, Bool.and_eq_true] at hgroups
          obtain ⟨hstand, hgroups, hgroups'⟩ := hgroups
          obtain ⟨shape, hlookup⟩ := Family.lookup_of_mem h.isOperator
          exact printsTyped_operation hknown h hs hlookup (operandsFit_binary hlookup hstand) hleft
            hright (hpart h.left hleft hgroups) (hpart h.right hright hgroups')
      | @logical _ _ _ op _ _ h hleft hright =>
          simp only [Typed.groups, Bool.and_eq_true] at hgroups
          obtain ⟨shape, hlookup⟩ := Family.lookup_of_mem h.isOperator
          exact printsTyped_operation hknown h hs hlookup (operandsFit_logical hlookup) hleft hright
            (hpart h.left hleft hgroups.1) (hpart h.right hright hgroups.2)
      | unary hnode hop hmem hbefore hargument h =>
          simp only [Typed.groups, Bool.and_eq_true] at hgroups
          exact printsTyped_unary hknown hnode hop hmem hargument hgroups.1 h
            (hpart hargument h hgroups.2)
      | update hnode hop hmem hbefore hargument h htarget =>
          simp only [Typed.groups, Bool.and_eq_true] at hgroups
          exact printsTyped_update hknown hnode hop hmem hbefore hargument htarget hgroups.1
            (hpart hargument h hgroups.2)
      | await hnode hargument h =>
          simp only [Typed.groups, Bool.and_eq_true] at hgroups
          exact printsTyped_await hknown hnode hargument hgroups.1 h (hpart hargument h hgroups.2)
      | conditional hnode htest hyes hno h hf hg =>
          simp only [Typed.groups, Bool.and_eq_true] at hgroups
          obtain ⟨hgroups, hgroups', hgroups''⟩ := hgroups
          exact printsTyped_conditional hknown hnode htest hyes hno h (hpart htest h hgroups)
            (hpart hyes hf hgroups') (hpart hno hg hgroups'')
      | assign hnode hop hmem hleft hright h htarget hf =>
          simp only [Typed.groups, Bool.and_eq_true] at hgroups
          obtain ⟨hstands, hgroups, hgroups'⟩ := hgroups
          exact printsTyped_assign hknown hnode hop hmem hleft hright htarget hstands
            (hpart hleft h hgroups) (hpart hright hf hgroups')
      | member hnode hcomputed hoptional hhead hproperty h hp =>
          exact printsTyped_member hknown hnode hcomputed hoptional hhead hproperty h hp
            (hpart hhead h hgroups)
      | index hnode hcomputed hoptional hhead hproperty h hf =>
          simp only [Typed.groups, Bool.and_eq_true] at hgroups
          exact printsTyped_index hknown hnode hcomputed hoptional hhead hproperty h
            (hpart hhead h hgroups.1) (hpart hproperty hf hgroups.2)
      | call hnode hoptional hgeneric hhead hlist h hargs =>
          simp only [Typed.groups, Bool.and_eq_true] at hgroups
          refine printsTyped_call hknown hnode hoptional hgeneric hhead hlist h
            (hpart hhead h hgroups.1)
            (printsTyped_items hargs (groups_of_mem hgroups.2) fun item hmem f hf hgroups' =>
              ih _ ?_ hf hgroups' rfl)
          have := List.sizeOf_lt_of_mem hmem
          have := hlist.sizeOf_lt
          simp only [Json.arr.sizeOf_spec] at this
          omega
      | ascribed hnode hargument htype hkind hword h =>
          exact printsTyped_ascribed hknown hnode hargument htype hkind hword h
            (hpart hargument h hgroups)
      | nonNull hnode hargument h =>
          simp only [Typed.groups, Bool.and_eq_true] at hgroups
          exact printsTyped_nonNull hknown hnode hargument hgroups.1 h
            (hpart hargument h hgroups.2)
      | assertion hnode hargument htype hkind hword h =>
          simp only [Typed.groups, Bool.and_eq_true] at hgroups
          exact printsTyped_assertion hknown hnode hargument htype hkind hword hgroups.1 h
            (hpart hargument h hgroups.2)

/-- **Printed expressions with types are read back**, if their casts are grouped.  Whatever the
width, the tree is rendered without a fault, and no comment is left over that was not attached to
it; whatever the indentation, the commands are written as a text; that text consists of tokens, if
comments are read as blanks; and the tokens derive the expression that the tree describes. -/
theorem handle_typed (quote : Char) (width : Int) {known : Json → Prop}
    (hknown : ∀ c, known c → c.IsComment) {node : Json} {e : Typed}
    (h : DescribesTypedAmid known node e) (hgroups : e.groups = true) :
    ∃ after, ({ setting := { quote, width } } : Rendering).handle .value node = .ok after ∧
      (∀ c ∈ after.draft.queue, known c) ∧
      ∀ indent, BlankIndent indent → indent ≠ "" →
        Reread known after.draft.commands indent fun read =>
          ∃ tokens, scan typedAlphabet.toVocabulary false read.toList = some tokens ∧
            ∃ o, DerivesTyped .expression o tokens e := by
  obtain ⟨q, ls, hgives, hled⟩ :=
    prints_of_typed (s := { quote, width }) hknown rfl h hgroups .none
  obtain ⟨after, hafter, hqueue, hread⟩ := handle_rereads hknown hgives
  have hcontent := (hled.mono fun _ hreads => TypedPassage.whole hreads.passage).padded.content
  refine ⟨after, hafter, hqueue ▸ q.2, fun indent hblank hindent =>
    (hread indent hblank hindent).mono fun read hrenders => ?_⟩
  obtain ⟨o, hderives, -⟩ := hcontent.holds false
  exact ⟨tokensOf false ls, scan_of_renders hcontent.legible hrenders false, o, hderives⟩

/-! ## A cast among operators -/

/-- The tree of an expression with a type behind it. -/
def ascribedNode (how : Ascription) (argument : Json) (type : String) : Json :=
  .obj [("type", .str how.kind), ("expression", argument), ("typeAnnotation", wordNode type)]

/-- The tree of an expression with a type before it. -/
def assertionNode (type : String) (argument : Json) : Json :=
  .obj [("type", .str "TSTypeAssertion"), ("expression", argument),
    ("typeAnnotation", wordNode type)]

section Trees

variable {known : Json → Prop}

lemma describesTyped_nameNode {name : String} (hname : IsName name) :
    DescribesTypedAmid known (nameNode name) (.name name) :=
  .name (isIdentifier_nameNode name) hname

lemma describesTyped_ascribedNode {how : Ascription} {argument : Json} {kind word : String}
    {e : Typed} (hword : (kind, word) ∈ Rules.keywordTypes)
    (h : DescribesTypedAmid known argument e) :
    DescribesTypedAmid known (ascribedNode how argument kind) (.ascribed how e word) :=
  .ascribed (.ofPlain ⟨rfl, rfl⟩ rfl) ⟨_, rfl⟩ ⟨_, rfl⟩ rfl hword h

lemma describesTyped_binary {op : String} (hop : op ∈ Family.binary.operators) {left right : Json}
    {e f : Typed} (hleft : DescribesTypedAmid known left e)
    (hright : DescribesTypedAmid known right f) :
    DescribesTypedAmid known (operationNode .binary op left right) (.binary op e f) :=
  .binary ⟨.ofPlain ⟨rfl, rfl⟩ rfl, ⟨_, rfl⟩, hop, ⟨_, rfl⟩, ⟨_, rfl⟩⟩ hleft hright

end Trees

/-- The tree of `<any>a as any == b`, with a comment before `b`. -/
def comparedCast : Json :=
  operationNode .binary "=="
    (ascribedNode .asType (assertionNode "TSAnyKeyword" (nameNode "a")) "TSAnyKeyword")
    (remarkedNode " or not" "b")

theorem handle_typed_comparedCast :
    ∃ e, DescribesTypedAmid Json.IsComment comparedCast e ∧ e.groups = true ∧
      e = .binary "==" (.ascribed .asType (.assertion "any" (.name "a")) "any") (.name "b") ∧
      ∃ after, ({ setting := { quote := '"', width := 0 } } : Rendering).handle .value comparedCast
          = .ok after ∧
        Reread Json.IsComment after.draft.commands "\t" fun read =>
          ∃ tokens, scan typedAlphabet.toVocabulary false read.toList = some tokens ∧
            ∃ o, DerivesTyped .expression o tokens e := by
  obtain ⟨ha, hb⟩ : IsName "a" ∧ IsName "b" := by
    unfold IsName
    decide
  have hany : ("TSAnyKeyword", "any") ∈ Rules.keywordTypes := by decide
  have hassertion : DescribesTypedAmid Json.IsComment (assertionNode "TSAnyKeyword" (nameNode "a"))
      (.assertion "any" (.name "a")) :=
    .assertion (.ofPlain ⟨rfl, rfl⟩ rfl) ⟨_, rfl⟩ ⟨_, rfl⟩ rfl hany (describesTyped_nameNode ha)
  have h : DescribesTypedAmid Json.IsComment comparedCast _ :=
    describesTyped_binary (by decide) (describesTyped_ascribedNode hany hassertion)
      (.name (isIdentifier_remarkedNode " or not" "b") hb)
  have hgroups : (Typed.binary "==" (.ascribed .asType (.assertion "any" (.name "a")) "any")
      (.name "b")).groups = true := by decide
  obtain ⟨after, hafter, -, hcode⟩ := handle_typed '"' 0 (fun _ => id) h hgroups
  refine ⟨_, h, hgroups, rfl, after, hafter, hcode "\t" ?_ (by decide)⟩
  simp [BlankIndent, isBlank]

/-- The tree of `b * (a as any)`. -/
def multipliedCast : Json :=
  operationNode .binary "*" (nameNode "b")
    (ascribedNode .asType (nameNode "a") "TSAnyKeyword")

/-- An expression with a type behind it counts as stronger than every operator, so that it stays
without parentheses as an operand; there the type goes with the whole product. -/
theorem operand_misses_cast :
    DescribesTyped multipliedCast
        (.binary "*" (.name "b") (.ascribed .asType (.name "a") "any")) ∧
      (printTree {} (.obj [("type", .str "ExpressionStatement"), ("expression", multipliedCast)])
        ).toOption.map Output.code = some "b * a as any;" ∧
      scan typedAlphabet.toVocabulary false "b * a as any".toList =
        some [⟨"b", false⟩, ⟨"*", false⟩, ⟨"a", false⟩, ⟨"as", false⟩, ⟨"any", false⟩] ∧
      DerivesTyped .expression true
        [⟨"b", false⟩, ⟨"*", false⟩, ⟨"a", false⟩, ⟨"as", false⟩, ⟨"any", false⟩]
        (.ascribed .asType (.binary "*" (.name "b") (.name "a")) "any") := by
  obtain ⟨ha, hb⟩ : IsName "a" ∧ IsName "b" := by
    unfold IsName
    decide
  have hproduct : DerivesTyped .product false [⟨"b", false⟩, ⟨"*", false⟩, ⟨"a", false⟩]
      (.binary "*" (.name "b") (.name "a")) :=
    .binary (m := .power) (by decide) (by decide)
      ((DerivesTyped.name hb).raise (Level.within_of_isWithin rfl)) (by decide)
      ((DerivesTyped.name ha).raise (Level.within_of_isWithin rfl))
  refine ⟨?_, by decide +kernel, by decide +kernel, ?_⟩
  · exact describesTyped_binary (by decide) (describesTyped_nameNode hb)
      (describesTyped_ascribedNode (by decide) (describesTyped_nameNode ha))
  · have hascribed : DerivesTyped .relation true
        ([⟨"b", false⟩, ⟨"*", false⟩, ⟨"a", false⟩] ++
          [⟨Ascription.asType.word, false⟩, ⟨"any", false⟩])
        (.ascribed .asType (.binary "*" (.name "b") (.name "a")) "any") :=
      .ascribed (by decide) (hproduct.raise (Level.within_of_isWithin rfl))
    exact hascribed.raise (Level.within_of_isWithin rfl)

end Grammar

end EstreePrinter
