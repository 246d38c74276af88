import Mathlib
import EstreePrinter.Proofs.Grammar.Printed

/-!
# No pair of parentheses to spare

The printed text of an operation over names keeps a pair of parentheses around an operand only where
the grammar leaves no choice.  Both sides are counted.

**What the grammar asks for.**  `Expr.pairs` counts the operands of an operation that stand at too
high a level for their place.  No tokens derive the operation with fewer opening parentheses
(`Derives.pairs_le`): a token sequence that derives an expression at a level where it does not stand
has come through the production for parentheses.

**What is printed.**  An operand is put in parentheses exactly if it stands at too high a level
(`needsParens_of_isOperations`), so the printed tokens have as many opening parentheses as that and
no more (`printsSparely_of_describes`).

* **`handle_minimal`** — without any of its pairs of parentheses, what is printed does not derive
  the same expression.
-/

namespace EstreePrinter

namespace Grammar

open Json (Part)
open Render (GivesFrom GivesAmid read_bind partsOf)

/-! ## Counting parentheses -/

/-- How many tokens are opening parentheses. -/
def opens (ts : List Token) : Nat := (ts.map Token.text).count "("

@[simp] lemma opens_nil : opens [] = 0 := rfl

lemma opens_append (ts us : List Token) : opens (ts ++ us) = opens ts + opens us := by
  simp [opens]

lemma opens_cons (t : Token) (ts : List Token) :
    opens (t :: ts) = opens ts + if t.text = "(" then 1 else 0 := by
  simp [opens, List.count_cons]

/-- Line feeds between the tokens do not matter. -/
lemma opens_tokensOf (b : Bool) (ls : List Lexeme) :
    opens (tokensOf b ls) = opens (tokensOf false ls) := by
  induction ls generalizing b with
  | nil => rfl
  | cons l rest ih =>
      cases l with
      | gap c => rw [tokensOf, ih, tokensOf, ih (false || c)]
      | token t => simp [tokensOf, opens_cons]

lemma opens_tokensOf_append (ls ms : List Lexeme) :
    opens (tokensOf false (ls ++ ms)) = opens (tokensOf false ls) + opens (tokensOf false ms) := by
  rw [tokensOf_append, opens_append, opens_tokensOf (gapAfter false ls)]

lemma ne_open_of_isWord {s : String} (h : IsWord s) : s ≠ "(" := by
  rintro rfl
  exact not_isWord_of_mem (by decide) h

lemma ne_open_of_mem {family : Family} {op : String} (h : op ∈ family.operators) : op ≠ "(" := by
  have hall : ∀ op ∈ family.operators, op ≠ "(" := by
    cases family with
    | binary => decide
    | logical => decide
  exact hall op h

/-! ## What the grammar asks for -/

/-- The shape of the operations with an operator. -/
def Family.shapeOf (family : Family) (op : String) : Shape :=
  (family.shapes.lookup op).getD ⟨.primary, .primary, .primary⟩

namespace Expr

/-- An expression that is built from names by binary and logical operations. -/
def IsOperations : Expr → Prop
  | .name _ => True
  | .binary _ e f => e.IsOperations ∧ f.IsOperations
  | .logical _ e f => e.IsOperations ∧ f.IsOperations
  | _ => False

/-- How many pairs of parentheses an expression takes around itself to stand at a level. -/
def wraps (e : Expr) (l : Level) : Nat := if Level.isWithin 22 e.level l then 0 else 1

/-- How many pairs of parentheses an operation takes inside of itself. -/
def pairs : Expr → Nat
  | .binary op e f =>
      let shape := Family.binary.shapeOf op
      e.pairs + e.wraps shape.left + (f.pairs + f.wraps shape.right)
  | .logical op e f =>
      let shape := Family.logical.shapeOf op
      e.pairs + e.wraps shape.left + (f.pairs + f.wraps shape.right)
  | _ => 0

lemma wraps_of_within {e : Expr} {l : Level} (h : e.level.Within l) : e.wraps l = 0 := by
  rw [wraps, if_pos (Level.isWithin_of_within h)]

lemma wraps_le_one (e : Expr) (l : Level) : e.wraps l ≤ 1 := by
  unfold wraps
  split
  · omega
  · omega

/-- What stands at a level stands at the levels that include it. -/
lemma wraps_anti (e : Expr) {l m : Level} (h : m.Within l) : e.wraps l ≤ e.wraps m := by
  by_cases hm : Level.isWithin 22 e.level m = true
  · rw [wraps_of_within ((Level.within_of_isWithin hm).trans h)]
    omega
  · rw [wraps, wraps, if_neg hm]
    split
    · omega
    · omega

end Expr

section Shapes

variable {family : Family} {op : String} {shape : Shape}

lemma Family.shapeOf_eq (h : family.shapes.lookup op = some shape) : family.shapeOf op = shape := by
  simp [shapeOf, h]

/-- The operators of a family that group to the left, with their levels. -/
def Family.levels : Family → List (String × Level)
  | .binary => binaryLevels
  | .logical => logicalLevels

/-- An operation that groups to the left has its left operand at its own level and its right one at
the level below. -/
lemma Family.lookup_of_levels (family : Family) {op : String} {l m : Level}
    (hop : (op, l) ∈ family.levels) (hm : m ∈ l.below) :
    family.shapes.lookup op = some ⟨l, l, m⟩ := by
  have hall : ∀ entry ∈ family.levels, ∀ m ∈ entry.2.below,
      (family.shapes.lookup entry.1).map (fun shape => (shape.own, shape.left, shape.right)) =
        some (entry.2, entry.2, m) := by
    cases family with
    | binary => decide
    | logical => decide
  obtain ⟨⟨own, left, right⟩, hlookup, hshape⟩ := Option.map_eq_some_iff.mp (hall _ hop _ hm)
  simp only [Prod.mk.injEq] at hshape
  obtain ⟨rfl, rfl, rfl⟩ := hshape
  exact hlookup

lemma Family.lookup_power :
    Family.binary.shapes.lookup "**" = some ⟨.power, .update, .power⟩ := rfl

lemma Family.lookup_coalesce :
    Family.logical.shapes.lookup "??" = some ⟨.coalesce, .coalesceHead, .bitOr⟩ := rfl

lemma Expr.pairs_operation (h : family.shapes.lookup op = some shape) (e f : Expr) :
    (family.expr op e f).pairs =
      e.pairs + e.wraps shape.left + (f.pairs + f.wraps shape.right) := by
  rw [← Family.shapeOf_eq h]
  cases family with
  | binary => rfl
  | logical => rfl

end Shapes

/-- Two operands with an operator between them have as many parentheses as the operation asks for,
if each of them has as many as its place asks for. -/
lemma pairs_operation_le (family : Family) {op : String} {shape : Shape}
    (hlookup : family.shapes.lookup op = some shape) {e f : Expr} {ts us : List Token} {b : Bool}
    (h : e.pairs + e.wraps shape.left ≤ opens ts) (hf : f.pairs + f.wraps shape.right ≤ opens us) :
    (family.expr op e f).pairs + (family.expr op e f).wraps shape.own ≤
      opens (ts ++ ⟨op, b⟩ :: us) := by
  have hwraps : (family.expr op e f).wraps shape.own = 0 :=
    Expr.wraps_of_within (Expr.level_operation hlookup e f ▸ .refl)
  rw [hwraps, Expr.pairs_operation hlookup, opens_append, opens_cons]
  omega

/-- **No tokens derive an expression with fewer parentheses** than the expression takes inside of
itself and around itself. -/
theorem Derives.pairs_le {l : Level} {ts : List Token} {e : Expr} (h : Derives l ts e) :
    e.IsOperations → e.pairs + e.wraps l ≤ opens ts := by
  refine @Derives.rec (fun l ts e _ => e.IsOperations → e.pairs + e.wraps l ≤ opens ts)
    (fun _ _ _ => True) (fun _ _ _ => True) ?unit ?name ?parens ?member ?index ?call ?updateBehind
    ?updateBefore ?unary ?await ?power ?binary ?logical ?coalesce ?conditional ?assign ?yieldNothing
    ?yield ?yieldAll ?arrow ?arrowOfName ?asyncArrow ?asyncArrowOfName ?comma ?one ?more ?none ?list
    ?trailing l ts e h
  case unit => exact fun hm _ ih he =>
    (Nat.add_le_add_left (Expr.wraps_anti _ (.single hm)) _).trans (ih he)
  case name => simp [Expr.pairs, Expr.wraps, Expr.level, Level.isWithin]
  case parens =>
    intro ts e b c _ ih he
    have := ih he
    have := e.wraps_le_one .primary
    simp only [opens_cons, opens_append, if_true]
    omega
  case power => exact fun _ _ ih ih' he =>
    pairs_operation_le .binary Family.lookup_power (ih he.1) (ih' he.2)
  case binary => exact fun hop hm _ _ ih ih' he =>
    pairs_operation_le .binary (Family.binary.lookup_of_levels hop hm) (ih he.1) (ih' he.2)
  case logical => exact fun hop hm _ _ ih ih' he =>
    pairs_operation_le .logical (Family.logical.lookup_of_levels hop hm) (ih he.1) (ih' he.2)
  case coalesce => exact fun _ _ ih ih' he =>
    pairs_operation_le .logical Family.lookup_coalesce (ih he.1) (ih' he.2)
  -- lists and other expressions are no operations
  all_goals intros
  all_goals first | exact True.intro | exact absurd ‹Expr.IsOperations _› id

/-! ## What is printed -/

variable {known : Json → Prop}

/-- **An operation of the same family is put in parentheses** exactly if it does not stand at the
level that is asked for. -/
lemma wrapsAmong_eq {family : Family} {inner outer : String} {shape shape' : Shape}
    (hinner : (inner, shape') ∈ family.shapes) (houter : (outer, shape) ∈ family.shapes)
    (isRight : Bool) :
    wrapsAmong inner outer isRight = !Level.isWithin 22 shape'.own (shape.operand isRight) := by
  have hall : ∀ entry' ∈ family.shapes, ∀ entry ∈ family.shapes, ∀ isRight,
      wrapsAmong entry'.1 entry.1 isRight =
        !Level.isWithin 22 entry'.2.own (entry.2.operand isRight) := by
    cases family with
    | binary => decide
    | logical => decide
  exact hall _ hinner _ houter isRight

/-- An operation of the other family stands at the level that is asked for exactly if it is the
stronger one: a binary operation. -/
lemma strength_across {family family' : Family} (hne : family' ≠ family) {inner outer : String}
    {shape shape' : Shape} (hinner : (inner, shape') ∈ family'.shapes)
    (houter : (outer, shape) ∈ family.shapes) (isRight : Bool) :
    family'.strength ≠ family.strength ∧ decide (family'.strength < family.strength) =
      !Level.isWithin 22 shape'.own (shape.operand isRight) := by
  have hall : ∀ entry' ∈ family'.shapes, ∀ entry ∈ family.shapes, ∀ isRight,
      family'.strength ≠ family.strength ∧ decide (family'.strength < family.strength) =
        !Level.isWithin 22 entry'.2.own (entry.2.operand isRight) := by
    cases family' with
    | binary => cases family with
      | binary => exact absurd rfl hne
      | logical => decide
    | logical => cases family with
      | binary => decide
      | logical => exact absurd rfl hne
  exact hall _ hinner _ houter isRight

/-- An operand of another strength is put in parentheses exactly if it is weaker. -/
lemma needsParens_across {family : Family} {parent operand : Json} {outer : String}
    (hparent : parent.IsNodeAmid known family.kind) (hop : parent.Has "operator" (.str outer))
    {e : Expr} (h : DescribesAmid known operand e) (he : e.IsOperations)
    (hne : e.strength ≠ family.strength) (isRight : Bool) :
    Precedence.needsParens operand parent isRight =
      .ok (decide (e.strength < family.strength)) := by
  obtain ⟨core, hcore, -, hkind⟩ := unwrap_of_describes h
  have hkinds : ¬(e.kind = "LogicalExpression" ∧ family = .logical) ∧
      (Json.str e.kind).isOneOf ["UnaryExpression", "AwaitExpression"] = false := by
    cases e with
    | name s => simp [Expr.kind, Json.isOneOf]
    | binary op e f => simp [Expr.kind, Json.isOneOf]
    | logical op e f =>
        refine ⟨fun hboth => hne ?_, by simp [Expr.kind, Json.isOneOf]⟩
        rw [hboth.2]
        rfl
    | _ => exact absurd he id
  rw [needsParens_eq hparent hcore hkind e.lookup_kind e.kind_ne.2.2.1, if_neg hkinds.1]
  exact (needsParensByStrength_eq hop isRight hne).trans (by simp [hkinds.2])

/-- **An operand is put in parentheses exactly if it takes some** to stand at the level that is
asked for. -/
theorem needsParens_of_isOperations {family : Family} {parent operand : Json} {outer : String}
    {shape : Shape} (hparent : parent.IsNodeAmid known family.kind)
    (hop : parent.Has "operator" (.str outer)) (hlookup : family.shapes.lookup outer = some shape)
    {e : Expr} (h : DescribesAmid known operand e) (he : e.IsOperations) (isRight : Bool) :
    Precedence.needsParens operand parent isRight =
      .ok (!Level.isWithin 22 e.level (shape.operand isRight)) := by
  have hshape := Family.mem_of_lookup hlookup
  have houter : outer ∈ family.operators := List.mem_map_of_mem hshape
  obtain ⟨s, rfl⟩ | ⟨family', inner, a, b, rfl⟩ :
      (∃ s, e = .name s) ∨ ∃ (family' : Family) (inner : String) (a b : Expr),
        e = family'.expr inner a b := by
    cases e with
    | name s => exact Or.inl ⟨s, rfl⟩
    | binary inner a b => exact Or.inr ⟨.binary, inner, a, b, rfl⟩
    | logical inner a b => exact Or.inr ⟨.logical, inner, a, b, rfl⟩
    | _ => exact absurd he id
  · have hleast := (Level.within_of_isWithin rfl : Level.Within .primary .update).trans
      (operand_least hshape isRight).1
    have hstrong : family.strength < (Expr.name s).strength := by
      cases family with
      | binary => simp [Family.strength, Expr.strength]
      | logical => simp [Family.strength, Expr.strength]
    rw [needsParens_across hparent hop h he hstrong.ne' isRight]
    simp [hstrong.le, Expr.level, Level.isWithin_of_within hleast]
  · obtain ⟨core, hcore, hdescribes, hkind⟩ := unwrap_of_describes h
    obtain ⟨hinner, hinner'⟩ := hdescribes.operator hkind
    obtain ⟨shape', hlookup'⟩ := Family.lookup_of_mem hinner'
    have hshape' := Family.mem_of_lookup hlookup'
    rw [Expr.level_operation hlookup']
    by_cases hfamily : family' = family
    · subst hfamily
      have hkind' : core.1.IsNodeAmid known family'.kind := by
        cases family' with
        | binary => exact hkind
        | logical => exact hkind
      rw [needsParens_among hparent hop houter hcore hkind' hinner hinner' isRight,
        wrapsAmong_eq hshape' hshape]
    · have hstrength : (family'.expr inner a b).strength = family'.strength := by
        cases family' with
        | binary => rfl
        | logical => rfl
      obtain ⟨hne, hwithin⟩ := strength_across hfamily hshape' hshape isRight
      rw [needsParens_across hparent hop h he (hstrength ▸ hne) isRight, hstrength, hwithin]

/-- A phrase of an expression with a number of opening parentheses in it. -/
structure Counts (l : Level) (e : Expr) (n : Nat) (ls : List Lexeme) : Prop where
  phrase : Phrase l ls e
  opens_eq : opens (tokensOf false ls) = n

/-- A node that is printed as an expression, with no more parentheses than the expression takes. -/
def PrintsSparely (known : Json → Prop) (s : Setting) (node : Json) (e : Expr) : Prop :=
  GivesAmid known s (Render.tree .value node) (Led (Counts e.level e e.pairs))

variable {s : Setting} {node : Json}

/-- Parentheses around a phrase, in which a gap may stand before it. -/
lemma counts_parens {e : Expr} {n : Nat} {gs ms : List Lexeme} (hgs : IsPadding gs)
    (h : Counts e.level e n ms) {l : Level} (hprimary : Level.Within .primary l) :
    ∃ ls, Counts l e (n + 1) ls ∧ ∀ text,
      Renders (.token "(" :: (gs ++ ms ++ [Lexeme.token ")"])) text → Renders ls text := by
  have hlevel := e.level_within_assignment.trans
    (Level.within_of_isWithin (l := .expression) rfl)
  have hopens (b : Bool) : opens (tokensOf b (ms ++ [Lexeme.token ")"])) = n := by
    rw [opens_tokensOf, opens_tokensOf_append, h.opens_eq]
    rfl
  cases gs with
  | nil =>
      refine ⟨_, ⟨(h.phrase.wrap hlevel).raise hprimary, ?_⟩, fun _ => id⟩
      simp [tokensOf, opens_cons, hopens]
  | cons l rest =>
      obtain ⟨b, rfl⟩ := hgs l (by simp)
      have hrest : IsPadding rest := fun m hm => hgs m (by simp [hm])
      refine ⟨_, ⟨(h.phrase.wrapBehindGap hlevel (gapAfter b rest)).raise hprimary, ?_⟩, ?_⟩
      · simp [tokensOf, opens_cons, hopens]
      · rintro _ ⟨first, text, rfl, hfirst, hgap⟩
        exact ⟨first, text, rfl, hfirst, hrest.renders (by simpa using hgap)⟩

/-- An operand, in parentheses if it takes some. -/
lemma operand_sparely {child : Json} (hinside : child.Inside node) {e : Expr}
    (h : PrintsSparely known s child e) {l : Level} (hprimary : Level.Within .primary l) :
    GivesAmid known s ((partsOf node).wrapped ⟨child, hinside⟩ (!Level.isWithin 22 e.level l))
      (Led (Counts l e (e.pairs + e.wraps l))) := by
  intro q
  obtain ⟨q', _, hgives, gs, ms, rfl, hgs, hcounts⟩ := h q
  have hwrapped : GivesFrom s q
      ((partsOf node).wrapped ⟨child, hinside⟩ (!Level.isWithin 22 e.level l)) _ q' :=
    Render.gives_wrapped hgives _
  by_cases hwithin : Level.isWithin 22 e.level l = true
  · refine ⟨q', gs ++ ms, by simpa [hwithin] using hwrapped, gs, ms, rfl, hgs,
      hcounts.phrase.raise (Level.within_of_isWithin hwithin), ?_⟩
    simp [hcounts.opens_eq, Expr.wraps, hwithin]
  · obtain ⟨ls, hls, hrenders⟩ := counts_parens hgs hcounts hprimary
    have hwraps : e.wraps l = 1 := if_neg hwithin
    have hwrap : (!Level.isWithin 22 e.level l) = true := by simpa using hwithin
    rw [hwrap] at hwrapped ⊢
    exact ⟨q', ls, hwrapped.mono hrenders, [], ls, rfl, isPadding_nil, hwraps.symm ▸ hls⟩

/-- **A binary or logical operation.** -/
lemma printsSparely_operation (hknown : ∀ c, known c → c.IsComment) {family : Family}
    {op : String} {left right : Json} (h : IsOperationAmid known family node op left right)
    (hs : s.noIn = false) {e f : Expr} (hleft : DescribesAmid known left e)
    (hright : DescribesAmid known right f) (he : e.IsOperations) (hf : f.IsOperations)
    (hleft' : PrintsSparely known s left e) (hright' : PrintsSparely known s right f) :
    PrintsSparely known s node (family.expr op e f) := by
  obtain ⟨shape, hlookup⟩ := Family.lookup_of_mem h.isOperator
  have hshape := Family.mem_of_lookup hlookup
  have hprimary (isRight : Bool) : Level.Within .primary (shape.operand isRight) :=
    (Level.within_of_isWithin rfl).trans (operand_least hshape isRight).1
  have hwrap := needsParens_of_isOperations h.toIsNodeAmid h.operator hlookup hleft he false
  have hwrap' := needsParens_of_isOperations h.toIsNodeAmid h.operator hlookup hright hf true
  obtain ⟨hinside, hread⟩ := h.left
  obtain ⟨hinside', hread'⟩ := h.right
  refine (givesAmid_operation hknown h hs ?_).mono fun _ => Led.led
  intro q
  obtain ⟨q', _, hgives, gs, ls, rfl, hgs, hcounts⟩ :=
    operand_sparely hinside hleft' (hprimary false) q
  obtain ⟨q'', _, hgives', hs', ms, rfl, hhs, hcounts'⟩ :=
    operand_sparely hinside' hright' (hprimary true) q'
  have hoperands : GivesFrom s q (Rules.operands (partsOf node) (.str op))
      (gs ++ ls ++ ([.gap false, .token op, .gap false] ++ (hs' ++ ms))) q'' := by
    rw [Rules.operands, read_bind hread, read_bind hread', read_bind hwrap]
    simp only [read_bind hwrap']
    exact hgives.andThen ((gives_operator op).andThen hgives')
  refine ⟨q'', _, hoperands.mono ?_, gs,
    ls ++ .gap false :: .token op :: .gap (gapAfter false hs') :: ms, rfl, hgs, ?_, ?_⟩
  · intro text htext
    simp only [List.append_assoc] at htext ⊢
    obtain ⟨front, rest, rfl, hfront, htext⟩ := renders_append_iff.mp htext
    obtain ⟨first, _, rfl, hfirst, space, _, rfl, hspace, sign, behind, rfl, hsign, hgap⟩ :=
      renders_append_iff.mp htext
    exact hfront.append (hfirst.append ⟨space, _, rfl, hspace, sign, behind, rfl, hsign,
      hhs.renders hgap⟩)
  · rw [Expr.level_operation hlookup]
    exact Phrase.operation hshape hcounts.phrase hcounts'.phrase
  · have hop : op ≠ "(" := ne_open_of_mem h.isOperator
    rw [Expr.pairs_operation hlookup, opens_tokensOf_append]
    simp [tokensOf, opens_cons, hop, opens_tokensOf (gapAfter false hs'), hcounts.opens_eq,
      hcounts'.opens_eq, Shape.operand]

/-- **Operations over names are printed with no more parentheses than they take.** -/
theorem printsSparely_of_describes (hknown : ∀ c, known c → c.IsComment) (hs : s.noIn = false)
    {node : Json} {e : Expr} (h : DescribesAmid known node e) (he : e.IsOperations) :
    PrintsSparely known s node e := by
  induction hn : sizeOf node using Nat.strong_induction_on generalizing node e with
  | _ n ih =>
      subst hn
      have hpart {key : String} {value : Json} (hvalue : node.Has key value) {f : Expr}
          (hdescribes : DescribesAmid known value f) (hf : f.IsOperations) :
          PrintsSparely known s value f :=
        ih _ hvalue.sizeOf_lt hdescribes hf rfl
      cases h with
      | parens hnode hinner h => exact givesAmid_parens hknown hnode hinner (hpart hinner h he)
      | name h hname =>
          refine (givesAmid_identifier hknown h).mono fun _ hled => hled.mono ?_
          rintro _ rfl
          refine ⟨Phrase.name hname, ?_⟩
          simp [tokensOf, opens, Expr.pairs, ne_open_of_isWord hname.1]
      | binary h hleft hright =>
          exact printsSparely_operation hknown h hs hleft hright he.1 he.2
            (hpart h.left hleft he.1) (hpart h.right hright he.2)
      | logical h hleft hright =>
          exact printsSparely_operation hknown h hs hleft hright he.1 he.2
            (hpart h.left hleft he.1) (hpart h.right hright he.2)
      | _ => exact absurd he id

/-! ## No pair can be left out -/

/-- Tokens without one of their pairs of parentheses. -/
lemma opens_without {before inside behind ts us : List Token} {b c : Bool}
    (hts : ts = before ++ ⟨"(", b⟩ :: (inside ++ ⟨")", c⟩ :: behind))
    (hus : us.map Token.text = (before ++ inside ++ behind).map Token.text) :
    opens us < opens ts := by
  have heq : opens us = opens (before ++ inside ++ behind) := by rw [opens, hus, opens]
  rw [heq, hts]
  have hclose : ")" ≠ "(" := by decide
  simp only [opens_append, opens_cons, hclose, if_true, if_false]
  omega

/-- **No pair of parentheses can be left out.**  Whatever the width and the indentation, what is
printed for an operation over names is read as tokens that derive the operation; and if any pair of
parentheses is taken away, with line feeds between the tokens or not, they do not derive it any
more.  Comments may be attached to the nodes; they are read as blanks. -/
theorem handle_minimal (quote : Char) (width : Int) {known : Json → Prop}
    (hknown : ∀ c, known c → c.IsComment) {node : Json} {e : Expr}
    (h : DescribesAmid known node e) (he : e.IsOperations) :
    ∃ after, ({ setting := { quote, width } } : Rendering).handle .value node = .ok after ∧
      ∀ indent, BlankIndent indent → indent ≠ "" →
        Reread known after.draft.commands indent fun read =>
          ∃ tokens, lex false read.toList = some tokens ∧ Derives .expression tokens e ∧
            ∀ before inside behind b c,
              tokens = before ++ ⟨"(", b⟩ :: (inside ++ ⟨")", c⟩ :: behind) →
                ∀ ts, ts.map Token.text = (before ++ inside ++ behind).map Token.text →
                  ¬Derives .expression ts e := by
  obtain ⟨q, _, hgives, gs, ms, rfl, hgs, hcounts⟩ :=
    printsSparely_of_describes (s := { quote, width }) hknown rfl h he .none
  obtain ⟨after, hafter, -, hread⟩ := handle_rereads hknown hgives
  have hlevel := e.level_within_assignment.trans (Level.within_of_isWithin (l := .expression) rfl)
  refine ⟨after, hafter, fun indent hblank hindent => (hread indent hblank hindent).mono ?_⟩
  intro read hrenders
  refine ⟨tokensOf false (gs ++ ms),
    lex_of_renders (hcounts.phrase.separate.behindPadding hgs) hrenders false, ?_⟩
  rw [hgs.tokensOf_eq]
  refine ⟨(hcounts.phrase.raise hlevel).derives _, ?_⟩
  intro before inside behind b c htokens ts hts hderives
  have hopens : opens (tokensOf (gapAfter false gs) ms) = e.pairs := by
    rw [opens_tokensOf, hcounts.opens_eq]
  have hfewer := opens_without htokens hts
  have hneeded := hderives.pairs_le he
  omega

/-- The tree of `a ?? (b || c)`, with a comment before `c`. -/
def guardedChoice : Json :=
  operationNode .logical "??" (nameNode "a")
    (operationNode .logical "||" (nameNode "b") (remarkedNode " at last" "c"))

theorem handle_minimal_guardedChoice :
    ∃ e, DescribesAmid Json.IsComment guardedChoice e ∧ e.IsOperations ∧
      ∃ after, ({ setting := { quote := '"', width := 0 } } : Rendering).handle .value guardedChoice
          = .ok after ∧
        Reread Json.IsComment after.draft.commands "\t" fun read =>
          ∃ tokens, lex false read.toList = some tokens ∧ Derives .expression tokens e ∧
            ∀ before inside behind b c,
              tokens = before ++ ⟨"(", b⟩ :: (inside ++ ⟨")", c⟩ :: behind) →
                ∀ ts, ts.map Token.text = (before ++ inside ++ behind).map Token.text →
                  ¬Derives .expression ts e := by
  obtain ⟨ha, hb, hc⟩ : IsName "a" ∧ IsName "b" ∧ IsName "c" := by
    unfold IsName
    decide
  have h : DescribesAmid Json.IsComment guardedChoice _ :=
    describes_operationNode (by decide : "??" ∈ Family.logical.operators)
      (describes_nameNode ha) (describes_operationNode
        (by decide : "||" ∈ Family.logical.operators) (describes_nameNode hb)
        (.name (isIdentifier_remarkedNode " at last" "c") hc))
  have he : Expr.IsOperations
      (.logical "??" (.name "a") (.logical "||" (.name "b") (.name "c"))) :=
    ⟨trivial, trivial, trivial⟩
  obtain ⟨after, hafter, hcode⟩ := handle_minimal '"' 0 (fun _ => id) h he
  refine ⟨_, h, he, after, hafter, hcode "\t" ?_ (by decide)⟩
  simp [BlankIndent, isBlank]

end Grammar

end EstreePrinter
