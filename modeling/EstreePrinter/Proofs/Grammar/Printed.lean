import Mathlib
import EstreePrinter.Proofs.Grammar.Description
import EstreePrinter.Proofs.Grammar.Reading

/-!
# Printed expressions are read back

**The invariant.**  `Reads ls e` says that the lexemes `ls` are a phrase of the expression `e` at
the level of `e`, and that a strong expression begins with nothing that a sign before it could run
into.  There is one lemma for each kind of node (`prints_*`): if the parts are printed as phrases,
so is the node.

**The result.**  `handle_derives`: what is printed for the tree of an expression is read as tokens,
and the tokens derive the expression, whatever the width and the indentation.
-/

namespace EstreePrinter

namespace Grammar

open Json (Part)
open Render (Gives GivesFrom GivesAmid Waiting read_bind tree_of_isPlain partsOf)

/-! ## The invariant -/

/-- **Lexemes that are read as an expression** at its own level. -/
structure Reads (ls : List Lexeme) (e : Expr) : Prop where
  phrase : Phrase e.level ls e
  leads : 15 ≤ e.strength → ∀ t, ls.head? = some (.token t) → Leads t e

/-- A node that is printed as an expression. -/
def Prints (s : Setting) (node : Json) (e : Expr) : Prop :=
  ∃ ls, Gives s (Render.tree .value node) ls ∧ Reads ls e

variable {known : Json → Prop} {s : Setting} {q q' : Waiting known} {node : Json}

/-- A field that is rendered. -/
lemma field_eq {key : String} {value : Json} (h : node.Has key value) :
    (partsOf node).field key = Render.tree .value value := by
  obtain ⟨hinside, hread⟩ := h
  rw [Inner.field, read_bind hread]
  rfl

/-- Weak expressions may begin with anything. -/
lemma reads_of_weak {ls : List Lexeme} {e : Expr} (h : Phrase e.level ls e)
    (hweak : e.strength < 15) : Reads ls e :=
  ⟨h, fun hstrong => absurd hstrong (by omega)⟩

/-- What begins with a token that is no danger. -/
lemma reads_cons {t : String} {ls : List Lexeme} {e : Expr} (h : Phrase e.level (.token t :: ls) e)
    (ht : Leads t e) : Reads (.token t :: ls) e := by
  refine ⟨h, fun _ u hu => ?_⟩
  obtain rfl : t = u := by simpa using hu
  exact ht

/-- **An operand**, in parentheses if `wrap` says so. -/
lemma operand_phrase {child : Json} (hinside : child.Inside node) {e : Expr}
    (h : Prints s child e) (wrap : Bool) {l : Level}
    (hwrap : wrap = true → Level.Within .primary l) (hbare : wrap = false → e.level.Within l) :
    ∃ ls, Gives s ((partsOf node).wrapped ⟨child, hinside⟩ wrap) ls ∧ Phrase l ls e ∧
      ∀ t, ls.head? = some (.token t) → t = "(" ∨ wrap = false ∧ (15 ≤ e.strength → Leads t e) := by
  obtain ⟨ls, hgives, hreads⟩ := h
  refine ⟨_, Render.gives_wrapped hgives wrap, ?_⟩
  cases wrap with
  | false =>
      exact ⟨hreads.phrase.raise (hbare rfl),
        fun t ht => Or.inr ⟨rfl, fun hstrong => hreads.leads hstrong t ht⟩⟩
  | true =>
      have hlevel := (e.level_within_assignment).trans
        (Level.within_of_isWithin (l := .expression) rfl)
      exact ⟨(hreads.phrase.wrap hlevel).raise (hwrap rfl),
        fun t ht => Or.inl (by simpa using ht.symm)⟩

/-! ## Comments around a node -/

/-- The comment behind a node waits for its place. -/
lemma exists_queueTrailing {kind : String} (h : node.IsNodeAmid known kind) (q : Waiting known) :
    ∃ q', GivesFrom s q (Render.queueTrailing node) [] q' := by
  rcases h.trailing with hnone | ⟨list, first, hlist, hfirst, hknown⟩
  · rw [Render.queueTrailing, read_bind hnone]
    exact ⟨q, Render.gives_pure⟩
  · rw [Render.queueTrailing, read_bind hlist]
    simp only [read_bind hfirst]
    have hall : ∀ c ∈ q.1 ++ [first], known c :=
      List.forall_mem_append.mpr ⟨q.2, by simpa using hknown⟩
    exact ⟨⟨_, hall⟩, _, Render.enqueue_run .., rfl, Command.spells_nil⟩

/-- **A node is printed as its rule says**, with the comments before it as gaps. -/
lemma givesAmid_tree (hknown : ∀ c, known c → c.IsComment) {kind : String}
    (hnode : node.IsNodeAmid known kind) {rule : Rule}
    (hfind : Rules.find Role.value.rules (.str kind) = .ok (some rule))
    {P : List Lexeme → Prop} (h : GivesAmid known s (rule node (partsOf node)) P) :
    GivesAmid known s (Render.tree .value node) (Led P) := by
  intro q
  obtain ⟨comments, hcomments, hall, hplace⟩ := hnode.leading
  obtain ⟨commands, hcommands, gs, hgs, hspells⟩ := Render.leading_spell hknown hall hplace
  obtain ⟨q', ls, hgives, hP⟩ := h q
  obtain ⟨q'', htrailing⟩ := exists_queueTrailing (s := s) hnode q'
  have hleading : GivesFrom s q (Render.leadingComments false node comments) gs q :=
    ⟨_, Render.leadingComments_eq_ok_iff.mpr ⟨commands, hcommands, rfl⟩, rfl, hspells⟩
  refine ⟨q'', gs ++ ls, ?_, gs, ls, rfl, hgs, hP⟩
  rw [Render.tree_of_kind hnode.kind_eq hfind]
  simp only [Render.dressed, read_bind hcomments]
  simpa using hleading.andThen (hgives.andThen htrailing)

/-! ## Names and parentheses -/

lemma isWord_new : IsWord "new" := by decide

/-- A text that stands where the node does. -/
lemma gives_chunk {content : String} (h : node.IsPlaced) :
    GivesFrom s q (Render.chunk (.str content) node) [.token content] q := by
  obtain ⟨span, hspan, hwritable⟩ := h
  rw [Render.chunk, read_bind hspan]
  exact Render.gives_emit (Command.spells_chunk (hwritable content))

lemma identifier_gives {name : String} (h : node.IsIdentifierAmid known name) :
    GivesFrom s q (Rules.identifier node (partsOf node)) [.token name] q := by
  obtain ⟨hinside, hread⟩ := h.name
  obtain ⟨span, hspan, hwritable⟩ := h.span
  rw [Rules.identifier, read_bind hread, Render.chunk, read_bind hspan, Rules.ascription,
    read_bind h.annotation]
  have hchunk := Render.gives_emit (s := s) (q := q) (Command.spells_chunk hwritable)
  have hmark := Render.gives_textIf (s := s) (q := q) h.optional
    (Render.givesFrom_text (t := "?") [.token "?"] rfl (by simp))
  exact hchunk.andThen (hmark.andThen Render.gives_pure)

lemma gives_identifier {name : String} (h : node.IsIdentifier name) :
    Gives s (Render.tree .value node) [.token name] := by
  rw [tree_of_isPlain "Identifier" h.toIsPlain h.kind_eq rfl]
  exact identifier_gives h

lemma givesAmid_identifier (hknown : ∀ c, known c → c.IsComment) {name : String}
    (h : node.IsIdentifierAmid known name) :
    GivesAmid known s (Render.tree .value node) (Led (· = [.token name])) :=
  givesAmid_tree hknown h.toIsNodeAmid rfl fun q => ⟨q, _, identifier_gives h, rfl⟩

lemma tree_parens {inner : Json} (hnode : node.IsNode "ParenthesizedExpression")
    (hinner : node.Has "expression" inner) :
    Render.tree .value node = Render.tree .value inner := by
  rw [tree_of_isPlain "ParenthesizedExpression" hnode.toIsPlain hnode.kind_eq rfl,
    Rules.transparent, field_eq hinner]

lemma givesAmid_parens (hknown : ∀ c, known c → c.IsComment) {inner : Json}
    (hnode : node.IsNodeAmid known "ParenthesizedExpression")
    (hinner : node.Has "expression" inner) {P : List Lexeme → Prop}
    (h : GivesAmid known s (Render.tree .value inner) (Led P)) :
    GivesAmid known s (Render.tree .value node) (Led P) := by
  refine (givesAmid_tree hknown hnode rfl ?_).mono fun _ => Led.led
  rw [Rules.transparent, field_eq hinner]
  exact h

lemma gives_namesMember {p : String} (h : NamesMember node p) :
    IsWord p ∧ Gives s (Render.tree .value node) [.token p] := by
  induction h with
  | name h hp => exact ⟨hp, gives_identifier h⟩
  | parens hnode hinner h ih => exact ⟨ih.1, tree_parens hnode hinner ▸ ih.2⟩

lemma givesAmid_namesMember (hknown : ∀ c, known c → c.IsComment) {p : String}
    (h : NamesMemberAmid known node p) :
    IsWord p ∧ GivesAmid known s (Render.tree .value node) (Led (· = [.token p])) := by
  induction h with
  | name h hp => exact ⟨hp, givesAmid_identifier hknown h⟩
  | parens hnode hinner h ih => exact ⟨ih.1, givesAmid_parens hknown hnode hinner ih.2⟩

lemma gives_name {node : Json} {name : String} (h : Describes node (.name name)) :
    IsName name ∧ Gives s (Render.tree .value node) [.token name] := by
  rcases h.isNode with hnode | ⟨hnode, inner, hinner, hdescribes⟩
  · cases h with
    | parens hparens => exact absurd hparens (not_parens hnode)
    | name h hs => exact ⟨hs, gives_identifier h⟩
  · have := hinner.sizeOf_lt
    rw [tree_parens hnode hinner]
    exact gives_name hdescribes
termination_by sizeOf node

lemma prints_name {name : String} (h : node.IsIdentifier name) (hname : IsName name) :
    Prints s node (.name name) :=
  ⟨_, gives_identifier h, reads_cons (Phrase.name hname) (Or.inl hname.1)⟩

/-! ## Operators -/

/-- The text of an operator between its operands. -/
lemma gives_operator (op : String) :
    GivesFrom s q (Render.text (" " ++ op ++ " ")) [.gap false, .token op, .gap false] q :=
  Render.givesFrom_text _ (by simp [Command.plainly]) (by simp)

lemma binary_gives {op : String} (hop : node.Has "operator" (.str op)) (hs : s.noIn = false)
    {ls : List Lexeme}
    (hoperands : GivesFrom s q (Rules.operands (partsOf node) (.str op)) ls q') :
    GivesFrom s q (Rules.binary node (partsOf node)) ls q' := by
  obtain ⟨hinside, hread⟩ := hop
  obtain ⟨e, he, hrest⟩ := hoperands
  refine ⟨_, ?_, hrest⟩
  rw [Rules.binary, read_bind hread]
  simp only [Render.bind_eq_ok_iff, Render.setting_run, Except.ok.injEq]
  exact ⟨_, rfl, e, by simpa [hs] using he, by simp [Emission.andThen]⟩

lemma find_operation (family : Family) :
    Rules.find Role.value.rules (.str family.kind) = .ok (some Rules.binary) := by
  cases family with
  | binary => rfl
  | logical => rfl

lemma gives_operation {family : Family} {op : String} {left right : Json}
    (h : IsOperation family node op left right) (hs : s.noIn = false) {ls : List Lexeme}
    (hoperands : Gives s (Rules.operands (partsOf node) (.str op)) ls) :
    Gives s (Render.tree .value node) ls := by
  rw [tree_of_isPlain family.kind h.toIsPlain h.kind_eq (find_operation family)]
  exact binary_gives h.operator hs hoperands

lemma givesAmid_operation (hknown : ∀ c, known c → c.IsComment) {family : Family} {op : String}
    {left right : Json} (h : IsOperationAmid known family node op left right)
    (hs : s.noIn = false) {P : List Lexeme → Prop}
    (hoperands : GivesAmid known s (Rules.operands (partsOf node) (.str op)) P) :
    GivesAmid known s (Render.tree .value node) (Led P) := by
  refine givesAmid_tree hknown h.toIsNodeAmid (find_operation family) fun q => ?_
  obtain ⟨q', ls, hgives, hP⟩ := hoperands q
  exact ⟨q', ls, binary_gives h.operator hs hgives, hP⟩

/-- **A binary or logical operation.** -/
lemma prints_operation {family : Family} {op : String} {left right : Json}
    (h : IsOperation family node op left right) (hs : s.noIn = false) {e f : Expr}
    (hleft : Describes left e) (hright : Describes right f) (hleft' : Prints s left e)
    (hright' : Prints s right f) : Prints s node (family.expr op e f) := by
  obtain ⟨shape, hlookup⟩ := Family.lookup_of_mem h.isOperator
  have hshape := Family.mem_of_lookup hlookup
  have hprimary (isRight : Bool) : Level.Within .primary (shape.operand isRight) :=
    (Level.within_of_isWithin rfl).trans (operand_least hshape isRight).1
  obtain ⟨wrap, hwrap, hlevel⟩ :=
    needsParens_of_describes h.toIsNodeAmid h.operator hshape hleft false
  obtain ⟨wrap', hwrap', hlevel'⟩ :=
    needsParens_of_describes h.toIsNodeAmid h.operator hshape hright true
  obtain ⟨hinside, hread⟩ := h.left
  obtain ⟨hinside', hread'⟩ := h.right
  obtain ⟨ls, hgives, hphrase, -⟩ :=
    operand_phrase hinside hleft' wrap (fun _ => hprimary false) hlevel
  obtain ⟨ms, hgives', hphrase', -⟩ :=
    operand_phrase hinside' hright' wrap' (fun _ => hprimary true) hlevel'
  have hoperands : Gives s (Rules.operands (partsOf node) (.str op))
      (ls ++ .gap false :: .token op :: .gap false :: ms) := by
    rw [Rules.operands, read_bind hread, read_bind hread', read_bind hwrap]
    simp only [read_bind hwrap']
    exact hgives.andThen ((gives_operator op).andThen hgives')
  refine ⟨_, gives_operation h hs hoperands, reads_of_weak ?_ ?_⟩
  · rw [Expr.level_operation hlookup]
    exact Phrase.operation hshape hphrase hphrase'
  · cases family with
    | binary => simp [Family.expr, Expr.strength]
    | logical => simp [Family.expr, Expr.strength]

/-- The text of an operator before or behind its argument. -/
lemma gives_ofValue (op : String) :
    GivesFrom s q (Render.emit [.ofValue (.str op)]) [.token op] q :=
  Render.givesFrom_text [.token op] (by simp [Command.plainly]) (by simp)

lemma prints_unary {op : String} {argument : Json} {e : Expr}
    (hnode : node.IsNode "UnaryExpression") (hop : node.Has "operator" (.str op))
    (hmem : op ∈ unaryOperators) (hargument : node.Has "argument" argument)
    (h : Describes argument e) (hprints : Prints s argument e) : Prints s node (.unary op e) := by
  obtain ⟨hinside, hread⟩ := hop
  obtain ⟨hinside', hread'⟩ := hargument
  obtain ⟨spaced, hspaced, hapart⟩ := spacedUnary_of_describes hmem h
  have hlooser := bindsLooser_of_describes h Precedence.unary
  obtain ⟨ls, hgives, hphrase, hleads⟩ := operand_phrase hinside' hprints
    (decide (e.strength < Precedence.unary)) (l := .unary)
    (fun _ => Level.within_of_isWithin rfl)
    (fun hwrap => Expr.level_within_unary (not_lt.mp (of_decide_eq_false hwrap)))
  have hlead : ∀ t, ls.head? = some (.token t) → Leads t e := by
    intro t ht
    rcases hleads t ht with rfl | ⟨hwrap, hleads⟩
    · exact Or.inr (Or.inl rfl)
    · exact hleads (not_lt.mp (of_decide_eq_false hwrap))
  have hrule : Render.tree .value node = (do
      Render.emit [.ofValue (.str op)]
      if spaced then Render.text " "
      (partsOf node).wrapped ⟨argument, hinside'⟩ (decide (e.strength < Precedence.unary))) := by
    rw [tree_of_isPlain "UnaryExpression" hnode.toIsPlain hnode.kind_eq rfl, Rules.unary,
      read_bind hread, read_bind hread']
    simp only [read_bind hspaced, read_bind hlooser]
  rw [Prints, hrule]
  cases spaced with
  | true =>
      refine ⟨_, (gives_ofValue op).andThen
        ((Render.gives_text [.gap false] rfl (by simp)).andThen hgives), reads_cons ?_ ?_⟩
      · exact hphrase.unary hmem [.gap false] (Or.inl rfl)
      · exact Or.inr (Or.inr rfl)
  | false =>
      refine ⟨_, (gives_ofValue op).andThen hgives, reads_cons ?_ ?_⟩
      · exact Phrase.unary hmem hphrase [] (Or.inr ⟨rfl, fun t ht => hapart rfl t (hlead t ht)⟩)
      · exact Or.inr (Or.inr rfl)

lemma Expr.IsTarget.strength_ge {e : Expr} (h : e.IsTarget) : 19 ≤ e.strength := by
  cases e with
  | name => simp [Expr.strength]
  | member => simp [Expr.strength]
  | index => simp [Expr.strength]
  | _ => exact absurd h id

lemma prints_update {op : String} {argument : Json} {isBefore : Bool} {e : Expr}
    (hnode : node.IsNode "UpdateExpression") (hop : node.Has "operator" (.str op))
    (hmem : op ∈ updateOperators) (hbefore : node.flag "prefix" = .ok isBefore)
    (hargument : node.Has "argument" argument) (htarget : e.IsTarget)
    (hprints : Prints s argument e) : Prints s node (.update op isBefore e) := by
  obtain ⟨hinside, hread⟩ := hop
  obtain ⟨ls, hgives, hreads⟩ := hprints
  have hstrong := htarget.strength_ge
  have hlevel := Expr.level_within_leftHand hstrong
  have hlead : ∀ t, ls.head? = some (.token t) → IsWord t ∨ t = "(" := by
    intro t ht
    have := hreads.leads (by omega) t ht
    simpa [Leads, Expr.sign_eq_none hstrong] using this
  rw [Prints, tree_of_isPlain "UpdateExpression" hnode.toIsPlain hnode.kind_eq rfl, Rules.update,
    read_bind hbefore, field_eq hargument]
  cases isBefore with
  | true =>
      simp only [if_true, read_bind hread]
      refine ⟨_, (gives_ofValue op).andThen hgives, reads_cons ?_ (Or.inr (Or.inr rfl))⟩
      exact Phrase.updateBefore hmem (hreads.phrase.raise
        (hlevel.trans (Level.within_of_isWithin rfl))) htarget hlead
  | false =>
      simp only [Bool.false_eq_true, if_false, read_bind hread]
      refine ⟨_, hgives.andThen (gives_ofValue op), ?_, fun _ t ht => ?_⟩
      · exact Phrase.updateBehind hmem (hreads.phrase.raise hlevel) htarget
      · rw [hreads.phrase.starts.head?_append] at ht
        exact (hlead t ht).imp_right Or.inl

lemma prints_await {argument : Json} {e : Expr} (hnode : node.IsNode "AwaitExpression")
    (hargument : node.Has "argument" argument) (h : Describes argument e)
    (hprints : Prints s argument e) : Prints s node (.await e) := by
  obtain ⟨hinside, hpresent⟩ := hargument.present_eq h.ne_null
  obtain ⟨ls, hgives, hreads⟩ := hprints
  have hlooser := bindsLooser_of_describes h Precedence.await
  rw [Prints, tree_of_isPlain "AwaitExpression" hnode.toIsPlain hnode.kind_eq rfl, Rules.await,
    read_bind hpresent]
  simp only [read_bind hlooser]
  by_cases hweak : e.strength < Precedence.await
  · simp only [hweak, decide_true, if_true]
    have hphrase := (hreads.phrase.wrap (e.level_within_assignment.trans
      (Level.within_of_isWithin rfl))).raise (l := .unary) (Level.within_of_isWithin rfl)
    refine ⟨_, (Render.gives_text [.token "await", .gap false, .token "("] rfl (by simp)).andThen
      (hgives.andThen (Render.gives_text [.token ")"] rfl (by simp))), reads_cons ?_ ?_⟩
    · exact hphrase.await
    · exact Or.inl Phrase.isWord_await
  · simp only [hweak, decide_false, Bool.false_eq_true, if_false]
    have hlevel : e.level.Within .unary :=
      Expr.level_within_unary (by rw [Precedence.await] at hweak; omega)
    refine ⟨_, (Render.gives_text [.token "await", .gap false] rfl (by simp)).andThen hgives,
      reads_cons ?_ ?_⟩
    · exact (hreads.phrase.raise hlevel).await
    · exact Or.inl Phrase.isWord_await

lemma prints_yieldNothing (hnode : node.IsNode "YieldExpression")
    (hdelegate : node.flag "delegate" = .ok false)
    (hargument : node.present "argument" = .ok none) : Prints s node (.yield none) := by
  rw [Prints, tree_of_isPlain "YieldExpression" hnode.toIsPlain hnode.kind_eq rfl, Rules.yield,
    read_bind hdelegate]
  simp only [read_bind hargument]
  exact ⟨_, Render.gives_text [.token "yield"] rfl (by simp),
    reads_of_weak Phrase.yieldNothing (by simp [Expr.strength])⟩

lemma prints_yield {argument : Json} {e : Expr} (hnode : node.IsNode "YieldExpression")
    {isAll : Bool} (hdelegate : node.flag "delegate" = .ok isAll)
    (hargument : node.Has "argument" argument) (h : Describes argument e)
    (hprints : Prints s argument e) :
    Prints s node (if isAll then .yieldAll e else .yield (some e)) := by
  obtain ⟨hinside, hpresent⟩ := hargument.present_eq h.ne_null
  obtain ⟨ls, hgives, hreads⟩ := hprints
  have hphrase := hreads.phrase.raise e.level_within_assignment
  rw [Prints, tree_of_isPlain "YieldExpression" hnode.toIsPlain hnode.kind_eq rfl, Rules.yield,
    read_bind hdelegate]
  simp only [read_bind hpresent]
  cases isAll with
  | false =>
      exact ⟨_, (Render.gives_text [.token "yield", .gap false] rfl (by simp)).andThen hgives,
        reads_of_weak hphrase.yield (by simp [Expr.strength])⟩
  | true =>
      exact ⟨_, (Render.gives_text [.token "yield", .token "*", .gap false] rfl
        (by simp)).andThen hgives, reads_of_weak hphrase.yieldAll (by simp [Expr.strength])⟩

lemma prints_assign {op : String} {left right : Json} {e f : Expr}
    (hnode : node.IsNode "AssignmentExpression") (hop : node.Has "operator" (.str op))
    (hmem : op ∈ assignmentOperators) (hleft : node.Has "left" left)
    (hright : node.Has "right" right) (htarget : e.IsTarget) (hprints : Prints s left e)
    (hprints' : Prints s right f) : Prints s node (.assign op e f) := by
  obtain ⟨hinside, hread⟩ := hop
  obtain ⟨ls, hgives, hreads⟩ := hprints
  obtain ⟨ms, hgives', hreads'⟩ := hprints'
  have hlevel := Expr.level_within_leftHand htarget.strength_ge
  rw [Prints, tree_of_isPlain "AssignmentExpression" hnode.toIsPlain hnode.kind_eq rfl,
    Rules.assignment, field_eq hleft, field_eq hright]
  simp only [read_bind hread]
  refine ⟨_, hgives.andThen ((gives_operator op).andThen hgives'), reads_of_weak ?_ ?_⟩
  · exact Phrase.assign hmem (hreads.phrase.raise hlevel) htarget
      (hreads'.phrase.raise f.level_within_assignment)
  · simp [Expr.strength]

lemma prints_conditional {test yes no : Json} {e f g : Expr}
    (hnode : node.IsNode "ConditionalExpression") (htest : node.Has "test" test)
    (hyes : node.Has "consequent" yes) (hno : node.Has "alternate" no) (h : Describes test e)
    (hprints : Prints s test e) (hprints' : Prints s yes f) (hprints'' : Prints s no g) :
    Prints s node (.conditional e f g) := by
  obtain ⟨hinside, hread⟩ := htest
  obtain ⟨ls, hgives, hphrase, -⟩ := operand_phrase hinside hprints (decide (e.strength ≤ 4))
    (l := .shortCircuit) (fun _ => Level.within_of_isWithin rfl)
    (fun hwrap => Expr.level_within_shortCircuit (not_le.mp (of_decide_eq_false hwrap)))
  obtain ⟨ms, hgives', hreads'⟩ := hprints'
  obtain ⟨ns, hgives'', hreads''⟩ := hprints''
  obtain ⟨b, hbranches⟩ := Render.gives_branches hgives' hgives''
  rw [Prints, tree_of_isPlain "ConditionalExpression" hnode.toIsPlain hnode.kind_eq rfl,
    Rules.conditional, read_bind hread, read_bind (wrapsAsTest_of_describes h), field_eq hyes,
    field_eq hno]
  refine ⟨_, hgives.andThen hbranches, reads_of_weak ?_ ?_⟩
  · exact hphrase.conditional (hreads'.phrase.raise f.level_within_assignment)
      (hreads''.phrase.raise g.level_within_assignment) b
  · simp [Expr.strength]

/-! ## Accesses -/

/-- **The head of an access or a call**, in parentheses if it binds looser. -/
lemma head_phrase {child : Json} (hinside : child.Inside node) {e : Expr}
    (h : Prints s child e) :
    ∃ ls, Gives s ((partsOf node).wrapped ⟨child, hinside⟩ (decide (e.strength < 19))) ls ∧
      Phrase e.level.extended ls e ∧
      ∀ t, ls.head? = some (.token t) → IsWord t ∨ t = "(" := by
  have hwrap (hweak : decide (e.strength < 19) = true) :
      Level.Within .primary e.level.extended := by
    have hcall : e.level ≠ .call := Expr.level_ne_call (of_decide_eq_true hweak)
    rw [Level.extended, if_neg hcall]
    exact Level.within_of_isWithin rfl
  have hbare (hstrong : decide (e.strength < 19) = false) :
      e.level.Within e.level.extended := by
    rcases Expr.level_head (not_lt.mp (of_decide_eq_false hstrong)) with hl | hl | hl
    · exact hl ▸ Level.within_of_isWithin rfl
    · exact hl ▸ Level.within_of_isWithin rfl
    · exact hl ▸ Level.within_of_isWithin rfl
  obtain ⟨ls, hgives, hphrase, hleads⟩ := operand_phrase hinside h _ hwrap hbare
  refine ⟨ls, hgives, hphrase, fun t ht => ?_⟩
  rcases hleads t ht with rfl | ⟨hstrong, hleads⟩
  · exact Or.inr rfl
  · have hstrong := not_lt.mp (of_decide_eq_false hstrong)
    have hsign : e.sign = none := Expr.sign_eq_none hstrong
    simpa [Leads, hsign] using hleads (by omega)

lemma prints_member {head property : Json} {p : String} {e : Expr}
    (hnode : node.IsNode "MemberExpression") (hcomputed : node.flag "computed" = .ok false)
    (hoptional : node.flag "optional" = .ok false) (hhead : node.Has "object" head)
    (hproperty : node.Has "property" property) (h : Describes head e)
    (hp : NamesMember property p) (hprints : Prints s head e) : Prints s node (.member e p) := by
  obtain ⟨hinside, hread⟩ := hhead
  obtain ⟨ls, hgives, hphrase, hleads⟩ := head_phrase hinside hprints
  obtain ⟨hword, hgives'⟩ := gives_namesMember (s := s) hp
  rw [Prints, tree_of_isPlain "MemberExpression" hnode.toIsPlain hnode.kind_eq rfl, Rules.member,
    read_bind hread, read_bind (wrapsAsHead_of_describes h Precedence.member),
    field_eq hproperty]
  simp only [read_bind hcomputed, read_bind hoptional, Bool.false_eq_true, if_false]
  refine ⟨_, hgives.andThen ((Render.gives_text [.token "."] rfl (by simp)).andThen hgives'),
    ?_, fun _ t ht => ?_⟩
  · exact Phrase.member e.level.extended_cases hphrase hword
  · rw [hphrase.starts.head?_append] at ht
    exact (hleads t ht).imp_right Or.inl

lemma prints_index {head property : Json} {e f : Expr} (hnode : node.IsNode "MemberExpression")
    (hcomputed : node.flag "computed" = .ok true) (hoptional : node.flag "optional" = .ok false)
    (hhead : node.Has "object" head) (hproperty : node.Has "property" property)
    (h : Describes head e) (hprints : Prints s head e) (hprints' : Prints s property f) :
    Prints s node (.index e f) := by
  obtain ⟨hinside, hread⟩ := hhead
  obtain ⟨ls, hgives, hphrase, hleads⟩ := head_phrase hinside hprints
  obtain ⟨ms, hgives', hreads'⟩ := hprints'
  have hlevel := f.level_within_assignment.trans (Level.within_of_isWithin (l := .expression) rfl)
  rw [Prints, tree_of_isPlain "MemberExpression" hnode.toIsPlain hnode.kind_eq rfl, Rules.member,
    read_bind hread, read_bind (wrapsAsHead_of_describes h Precedence.member),
    field_eq hproperty]
  simp only [read_bind hcomputed, if_true]
  have hmark := Render.gives_textIf (s := s) hoptional
    (Render.gives_text (t := "?.") [.token "?."] rfl (by simp))
  refine ⟨_, hgives.andThen (hmark.andThen ((Render.gives_text [.token "["] rfl (by simp)).andThen
    (hgives'.andThen (Render.gives_text [.token "]"] rfl (by simp))))), ?_, fun _ t ht => ?_⟩
  · exact Phrase.index e.level.extended_cases hphrase (hreads'.phrase.raise hlevel)
  · rw [hphrase.starts.head?_append] at ht
    exact (hleads t ht).imp_right Or.inl

/-! ## Lists -/

/-- The elements of a list are its parts. -/
lemma parts_arr {items : List Json} (hinside : (Json.arr items).Inside node) :
    ∃ list, Json.parts (⟨.arr items, hinside⟩ : Part node) = .ok list ∧
      list.map Subtype.val = items := by
  refine ⟨_, rfl, ?_⟩
  simp [Function.comp_def]

/-- The items of a list that has no holes. -/
lemma itemsOf_arr {items : List Json} (hinside : (Json.arr items).Inside node)
    (hitems : ∀ item ∈ items, item.isNull = false) :
    ∃ list : List (Part node),
      Json.itemsOf (⟨.arr items, hinside⟩ : Part node) = .ok (list.map some) ∧
        list.map Subtype.val = items := by
  obtain ⟨list, hlist, hval⟩ := parts_arr hinside
  cases items with
  | nil => exact ⟨[], rfl, rfl⟩
  | cons first rest =>
      refine ⟨list, ?_, hval⟩
      have hmap : list.map (fun p => if p.1.isNull then none else some p) = list.map some := by
        refine List.map_congr_left fun p hp => ?_
        have hp : p.1 ∈ first :: rest := hval ▸ List.mem_map_of_mem hp
        simp [hitems p.1 hp]
      simp [Json.itemsOf, Json.isGiven, hlist, hmap]

/-- Items that are printed are phrases of a list. -/
lemma exists_phrases {items : List Json} {es : List Expr}
    (h : List.Forall₂ (Prints s) items es) :
    ∃ lss, List.Forall₂ (fun item ls => Gives s (Render.tree .value item) ls) items lss ∧
      List.Forall₂ (Phrase .assignment) lss es := by
  induction h with
  | nil => exact ⟨[], .nil, .nil⟩
  | @cons item e items es hitem hitems ih =>
      obtain ⟨ls, hgives, hreads⟩ := hitem
      obtain ⟨lss, hall, hphrases⟩ := ih
      exact ⟨ls :: lss, .cons hgives hall,
        .cons (hreads.phrase.raise e.level_within_assignment) hphrases⟩

lemma ne_null_of_forall₂ {items : List Json} {es : List Expr}
    (h : List.Forall₂ Describes items es) : ∀ item ∈ items, item.isNull = false := by
  induction h with
  | nil => simp
  | cons hitem hitems ih =>
      intro item hmem
      rcases List.mem_cons.mp hmem with rfl | hmem
      · exact hitem.ne_null
      · exact ih item hmem

/-- **A list with commas between its items**, broken over several lines or not. -/
lemma gives_list {items : List Json} (hinside : (Json.arr items).Inside node)
    (hitems : ∀ item ∈ items, item.isNull = false) {lss : List (List Lexeme)}
    (hgives : List.Forall₂ (fun item ls => Gives s (Render.tree .value item) ls) items lss) :
    ∃ b, Gives s (Rules.list (partsOf node) false ⟨.arr items, hinside⟩)
      (inset b ++ commaList b lss ++ inset b) := by
  obtain ⟨list, hlist, rfl⟩ := itemsOf_arr hinside hitems
  rw [Rules.list, read_bind hlist]
  have hlists := List.forall₂_map_left_iff.mp hgives
  exact Render.gives_sequence hlists

lemma prints_sequence {items : List Json} {first second : Expr} {rest : List Expr}
    (hnode : node.IsNode "SequenceExpression") (hitems : node.Has "expressions" (.arr items))
    (h : List.Forall₂ Describes items (first :: second :: rest))
    (hprints : List.Forall₂ (Prints s) items (first :: second :: rest)) :
    Prints s node (.sequence first second rest) := by
  obtain ⟨hinside, hread⟩ := hitems
  obtain ⟨lss, hgives, hphrases⟩ := exists_phrases hprints
  obtain ⟨b, hlist⟩ := gives_list hinside (ne_null_of_forall₂ h) hgives
  have hphrase := Phrase.sequence hphrases b
  rw [Prints, tree_of_isPlain "SequenceExpression" hnode.toIsPlain hnode.kind_eq rfl,
    Rules.commaExpression]
  simp only [read_bind hread]
  refine ⟨_, Render.gives_parens hlist, reads_cons ?_ ?_⟩
  · exact hphrase
  · exact Or.inr (Or.inl rfl)

/-- The argument list of a call, broken over several lines or not. -/
lemma gives_argumentList {items : List Json} (hitems : node.Has "arguments" (.arr items))
    {lss : List (List Lexeme)}
    (h : List.Forall₂ (fun item ls => Gives s (Render.tree .value item) ls) items lss) :
    ∃ b, Gives s (Rules.callArguments (partsOf node)) (enclosed b (commaList b lss)) := by
  obtain ⟨hinside, hread⟩ := hitems
  obtain ⟨list, hlist, rfl⟩ := parts_arr hinside
  have hlists := List.forall₂_map_left_iff.mp h
  exact Render.gives_callArguments hread hlist hlists

lemma givesAmid_argumentList (hknown : ∀ c, known c → c.IsComment) {items : List Json}
    (hitems : node.Has "arguments" (.arr items)) {Ps : List (List Lexeme → Prop)}
    (h : List.Forall₂ (fun item P => GivesAmid known s (Render.tree .value item) P) items Ps) :
    GivesAmid known s (Rules.callArguments (partsOf node)) fun ls => ∃ b ms lss,
      ls = enclosed b ms ∧ Commas (Render.BehindComma known b) ms lss ∧
        List.Forall₂ (fun P ms => P ms) Ps lss := by
  obtain ⟨hinside, hread⟩ := hitems
  obtain ⟨list, hlist, rfl⟩ := parts_arr hinside
  have hlists := List.forall₂_map_left_iff.mp h
  exact Render.givesAmid_callArguments hknown hread hlist hlists

lemma prints_call {head : Json} {items : List Json} {e : Expr} {args : List Expr}
    (hnode : node.IsNode "CallExpression") (hoptional : node.flag "optional" = .ok false)
    (hgeneric : node.givenOr "typeArguments" "typeParameters" = .ok none)
    (hhead : node.Has "callee" head) (hitems : node.Has "arguments" (.arr items))
    (h : Describes head e) (hprints : Prints s head e)
    (hprints' : List.Forall₂ (Prints s) items args) : Prints s node (.call e args) := by
  obtain ⟨hinside, hread⟩ := hhead
  obtain ⟨ls, hgives, hphrase, hleads⟩ := head_phrase hinside hprints
  obtain ⟨lss, hgives', hphrases⟩ := exists_phrases hprints'
  obtain ⟨b, harguments⟩ := gives_argumentList hitems hgives'
  have hmark := Render.gives_textIf (s := s) hoptional
    (Render.gives_text (t := "?.") [.token "?."] rfl (by simp))
  have hrule : Render.tree .value node = (do
      (partsOf node).wrapped ⟨head, hinside⟩ (decide (e.strength < 19))
      Render.textIf node "optional" "?."
      (partsOf node).typeIf none
      Rules.callArguments (partsOf node)) := by
    rw [tree_of_isPlain "CallExpression" hnode.toIsPlain hnode.kind_eq rfl, Rules.call,
      if_neg Bool.false_ne_true, read_bind hread,
      read_bind (wrapsAsHead_of_describes h Precedence.call), Precedence.call, Rules.typeArguments,
      read_bind hgeneric]
    cases decide (e.strength < 19) with
    | true => exact pure_bind true _
    | false => exact pure_bind false _
  rw [Prints, hrule]
  refine ⟨_, hgives.andThen (hmark.andThen (Render.gives_pure.andThen harguments)), ?_,
    fun _ t ht => ?_⟩
  · exact Phrase.call e.level.extended_cases hphrase hphrases b
  · rw [hphrase.starts.head?_append] at ht
    exact (hleads t ht).imp_right Or.inl

/-- The parameters of an arrow function. -/
lemma gives_names {items : List Json} {names : List String}
    (h : List.Forall₂ Describes items (names.map .name)) :
    (∀ name ∈ names, IsName name) ∧
      List.Forall₂ (fun item ls => Gives s (Render.tree .value item) ls) items
        (names.map fun name => [.token name]) := by
  induction names generalizing items with
  | nil =>
      cases h
      exact ⟨by simp, .nil⟩
  | cons name rest ih =>
      cases h with
      | cons hitem hitems =>
          obtain ⟨hname, hgives⟩ := gives_name (s := s) hitem
          obtain ⟨hnames, hall⟩ := ih hitems
          exact ⟨by simpa using ⟨hname, hnames⟩, .cons hgives hall⟩

lemma gives_signature {items : List Json} {names : List String}
    (hgeneric : node.given "typeParameters" = .ok none)
    (hresult : node.given "returnType" = .ok none) (hitems : node.Has "params" (.arr items))
    (hparams : List.Forall₂ Describes items (names.map .name)) :
    ∃ b, Gives s (Rules.signature (partsOf node))
      (enclosed b (commaList b (names.map fun name => [.token name]))) := by
  obtain ⟨hinside, hpresent⟩ := hitems.present_eq rfl
  obtain ⟨b, hlist⟩ := gives_list hinside (ne_null_of_forall₂ hparams) (gives_names hparams).2
  have hparameters : Rules.parametersOf node = .ok (some ⟨.arr items, hinside⟩) := by
    rw [Rules.parametersOf, hpresent]
    rfl
  refine ⟨b, ?_⟩
  rw [Rules.signature, Rules.typeParameters, read_bind hgeneric, Rules.parameters,
    read_bind hparameters]
  simp only [read_bind hresult]
  have hgives := Render.gives_pure.andThen ((Render.gives_text (s := s) (t := "(") [.token "("] rfl
    (by simp)).andThen (hlist.andThen ((Render.gives_text (t := ")") [.token ")"] rfl
      (by simp)).andThen Render.gives_pure)))
  simpa [enclosed, Inner.typeIf] using hgives

lemma prints_arrow {body : Json} {items : List Json} {isAsync : Bool} {names : List String}
    {e : Expr} (hnode : node.IsNode "ArrowFunctionExpression")
    (hasync : node.flag "async" = .ok isAsync)
    (hgeneric : node.given "typeParameters" = .ok none)
    (hresult : node.given "returnType" = .ok none) (hitems : node.Has "params" (.arr items))
    (hparams : List.Forall₂ Describes items (names.map .name)) (hbody : node.Has "body" body)
    (h : Describes body e) (hprints : Prints s body e) :
    Prints s node (.arrow isAsync names e) := by
  obtain ⟨hinside, hread⟩ := hbody
  obtain ⟨ms, hgives, hreads⟩ := hprints
  obtain ⟨b, hsignature⟩ := gives_signature (s := s) hgeneric hresult hitems hparams
  obtain ⟨kind, hkind, hblock⟩ : ∃ kind, body.IsNode kind ∧ kind ≠ "BlockStatement" := by
    rcases h.isNode with hnode | ⟨hnode, -⟩
    · exact ⟨e.kind, hnode, e.kind_ne.2.2.2.2.2⟩
    · exact ⟨_, hnode, by decide⟩
  have hword := Render.gives_textIf (s := s) hasync
    (Render.gives_text (t := "async ") [.token "async", .gap false] rfl (by simp))
  have harrow : Gives s (Render.text (" " ++ "=>" ++ " ")) _ := gives_operator "=>"
  rw [Prints, tree_of_isPlain "ArrowFunctionExpression" hnode.toIsPlain hnode.kind_eq rfl,
    Rules.arrow]
  simp only [read_bind hread, read_bind hkind.requireKind_eq, Json.isText, beq_iff_eq, hblock,
    if_false, read_bind (startsWith_of_describes h)]
  refine ⟨_, hword.andThen (hsignature.andThen (harrow.andThen hgives)), reads_of_weak ?_ ?_⟩
  · exact Phrase.arrow (gives_names (s := s) hparams).1
      (hreads.phrase.raise e.level_within_assignment) isAsync b
  · simp [Expr.strength]

/-! ## All expressions -/

/-- The parts of a list are printed if all smaller trees are. -/
lemma prints_items {items : List Json} {es : List Expr} (h : List.Forall₂ Describes items es)
    (hprints : ∀ item ∈ items, ∀ e, Describes item e → Prints s item e) :
    List.Forall₂ (Prints s) items es := by
  induction h with
  | nil => exact .nil
  | cons hitem hitems ih =>
      exact .cons (hprints _ (by simp) _ hitem) (ih fun item hmem => hprints item (by simp [hmem]))

/-- **Every described tree is printed as its expression.** -/
theorem prints_of_describes (hs : s.noIn = false) {node : Json} {e : Expr} (h : Describes node e) :
    Prints s node e := by
  induction hn : sizeOf node using Nat.strong_induction_on generalizing node e with
  | _ n ih =>
      subst hn
      have hpart {key : String} {value : Json} (hvalue : node.Has key value) {f : Expr}
          (hf : Describes value f) : Prints s value f :=
        ih _ hvalue.sizeOf_lt hf rfl
      have hitems {key : String} {items : List Json} (hvalue : node.Has key (.arr items))
          {es : List Expr} (hes : List.Forall₂ Describes items es) :
          List.Forall₂ (Prints s) items es := by
        refine prints_items hes fun item hmem f hf => ih _ ?_ hf rfl
        have := List.sizeOf_lt_of_mem hmem
        have := hvalue.sizeOf_lt
        simp only [Json.arr.sizeOf_spec] at this
        omega
      cases h with
      | parens hnode hinner h =>
          rw [Prints, tree_parens hnode hinner]
          exact hpart hinner h
      | name h hs => exact prints_name h hs
      | binary h hleft hright =>
          exact prints_operation h hs hleft hright (hpart h.left hleft) (hpart h.right hright)
      | logical h hleft hright =>
          exact prints_operation h hs hleft hright (hpart h.left hleft) (hpart h.right hright)
      | unary hnode hop hmem hbefore hargument h =>
          exact prints_unary hnode hop hmem hargument h (hpart hargument h)
      | update hnode hop hmem hbefore hargument h htarget =>
          exact prints_update hnode hop hmem hbefore hargument htarget (hpart hargument h)
      | await hnode hargument h => exact prints_await hnode hargument h (hpart hargument h)
      | yieldNothing hnode hdelegate hargument =>
          exact prints_yieldNothing hnode hdelegate hargument
      | yield hnode hdelegate hargument h =>
          exact prints_yield hnode hdelegate hargument h (hpart hargument h)
      | yieldAll hnode hdelegate hargument h =>
          exact prints_yield hnode hdelegate hargument h (hpart hargument h)
      | conditional hnode htest hyes hno h hf hg =>
          exact prints_conditional hnode htest hyes hno h (hpart htest h) (hpart hyes hf)
            (hpart hno hg)
      | assign hnode hop hmem hleft hright h htarget hf =>
          exact prints_assign hnode hop hmem hleft hright htarget (hpart hleft h) (hpart hright hf)
      | sequence hnode hlist h => exact prints_sequence hnode hlist h (hitems hlist h)
      | arrow hnode hasync hgeneric hresult hlist hparams hbody h =>
          exact prints_arrow hnode hasync hgeneric hresult hlist hparams hbody h (hpart hbody h)
      | member hnode hcomputed hoptional hhead hproperty h hp =>
          exact prints_member hnode hcomputed hoptional hhead hproperty h hp (hpart hhead h)
      | index hnode hcomputed hoptional hhead hproperty h hf =>
          exact prints_index hnode hcomputed hoptional hhead hproperty h (hpart hhead h)
            (hpart hproperty hf)
      | call hnode hoptional hgeneric hhead hlist h hargs =>
          exact prints_call hnode hoptional hgeneric hhead hlist h (hpart hhead h)
            (hitems hlist hargs)

/-- **Printed expressions are read back.**  Whatever the width, the tree of an expression is
rendered without a fault and without a comment left over; whatever the indentation, the commands are
written as a text; that text consists of tokens; and the tokens derive the expression that the tree
describes, in which the parentheses of the tree do not occur. -/
theorem handle_derives (quote : Char) (width : Int) {node : Json} {e : Expr}
    (h : Describes node e) :
    ∃ after, ({ setting := { quote, width } } : Rendering).handle .value node = .ok after ∧
      after.draft.queue = [] ∧
      ∀ indent, BlankIndent indent → indent ≠ "" →
        ∃ code marks, linearize after.draft.commands indent = .ok (code, marks) ∧
          ∃ tokens, lex false code.toList = some tokens ∧ Derives .expression tokens e := by
  obtain ⟨ls, hgives, hreads⟩ := prints_of_describes (s := { quote, width }) rfl h
  obtain ⟨after, hafter, hqueue, hcode⟩ := handle_of_gives hgives
  have hphrase := hreads.phrase.raise (e.level_within_assignment.trans
    (Level.within_of_isWithin (l := .expression) rfl))
  refine ⟨after, hafter, hqueue, fun indent hblank hindent => ?_⟩
  obtain ⟨code, marks, hlinearize, hrenders⟩ := hcode indent hblank hindent
  exact ⟨code, marks, hlinearize, tokensOf false ls,
    lex_of_renders hphrase.separate hrenders false, hphrase.derives false⟩

/-! ## A power of a negative number -/

/-- The tree of a name. -/
def nameNode (name : String) : Json := .obj [("type", .str "Identifier"), ("name", .str name)]

/-- The tree of a binary or logical operation. -/
def operationNode (family : Family) (op : String) (left right : Json) : Json :=
  .obj [("type", .str family.kind), ("operator", .str op), ("left", left), ("right", right)]

/-- The tree of `-a`. -/
def negatedName : Json :=
  .obj [("type", .str "UnaryExpression"), ("operator", .str "-"), ("prefix", .bool true),
    ("argument", nameNode "a")]

/-- The tree of `(-a) ** (b ?? (c || d))`, which keeps the outer parentheses of the right operand
and no others. -/
def signedPower : Json :=
  operationNode .binary "**" negatedName
    (.obj [("type", .str "ParenthesizedExpression"), ("expression",
      operationNode .logical "??" (nameNode "b")
        (operationNode .logical "||" (nameNode "c") (nameNode "d")))])

/-- The tree of a name with a comment before it. -/
def remarkedNode (remark name : String) : Json :=
  .obj [("type", .str "Identifier"), ("name", .str name), ("leadingComments",
    .arr [.obj [("type", .str "Line"), ("value", .str remark)]])]

lemma isIdentifier_nameNode (name : String) : (nameNode name).IsIdentifierAmid known name :=
  ⟨.ofPlain ⟨rfl, rfl⟩ rfl, ⟨_, rfl⟩, rfl, rfl, none, rfl, trivial⟩

lemma isIdentifier_remarkedNode (remark name : String) :
    (remarkedNode remark name).IsIdentifierAmid Json.IsComment name := by
  have hcomment : (Json.obj [("type", .str "Line"), ("value", .str remark)]).IsComment := rfl
  exact ⟨⟨rfl, ⟨_, rfl, by simpa using hcomment, fun _ => ⟨none, rfl, by simp⟩⟩, Or.inl rfl⟩,
    ⟨_, rfl⟩, rfl, rfl, none, rfl, trivial⟩

lemma describes_nameNode {name : String} (hname : IsName name) :
    DescribesAmid known (nameNode name) (.name name) := .name (isIdentifier_nameNode name) hname

lemma describes_operationNode {family : Family} {op : String} (hop : op ∈ family.operators)
    {left right : Json} {e f : Expr} (hleft : DescribesAmid known left e)
    (hright : DescribesAmid known right f) :
    DescribesAmid known (operationNode family op left right) (family.expr op e f) := by
  have h : IsOperationAmid known family (operationNode family op left right) op left right :=
    ⟨.ofPlain ⟨rfl, rfl⟩ rfl, ⟨_, rfl⟩, hop, ⟨_, rfl⟩, ⟨_, rfl⟩⟩
  cases family with
  | binary => exact .binary h hleft hright
  | logical => exact .logical h hleft hright

theorem handle_derives_signedPower :
    ∃ e, Describes signedPower e ∧
      e = .binary "**" (.unary "-" (.name "a"))
        (.logical "??" (.name "b") (.logical "||" (.name "c") (.name "d"))) ∧
      ∃ after, ({ setting := { quote := '"', width := 0 } } : Rendering).handle .value signedPower
          = .ok after ∧
        ∃ code marks, linearize after.draft.commands "\t" = .ok (code, marks) ∧
          ∃ tokens, lex false code.toList = some tokens ∧ Derives .expression tokens e := by
  obtain ⟨ha, hb, hc, hd⟩ : IsName "a" ∧ IsName "b" ∧ IsName "c" ∧ IsName "d" := by
    unfold IsName
    decide
  have hleft : Describes negatedName (.unary "-" (.name "a")) :=
    .unary (.ofPlain ⟨rfl, rfl⟩ rfl) ⟨_, rfl⟩ (by decide) rfl ⟨_, rfl⟩ (describes_nameNode ha)
  have hright : Describes _ _ := describes_operationNode
    (by decide : "??" ∈ Family.logical.operators) (describes_nameNode hb) (describes_operationNode
      (by decide : "||" ∈ Family.logical.operators) (describes_nameNode hc)
      (describes_nameNode hd))
  have h : Describes signedPower _ :=
    describes_operationNode (by decide : "**" ∈ Family.binary.operators) hleft
      (.parens (.ofPlain ⟨rfl, rfl⟩ rfl) ⟨_, rfl⟩ hright)
  obtain ⟨after, hafter, -, hcode⟩ := handle_derives '"' 0 h
  refine ⟨_, h, rfl, after, hafter, hcode "\t" ?_ (by decide)⟩
  simp [BlankIndent, isBlank]

end Grammar

end EstreePrinter
