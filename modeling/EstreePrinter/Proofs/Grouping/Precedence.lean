import Mathlib
import EstreePrinter.Precedence
import EstreePrinter.Rules.Operator
import EstreePrinter.Proofs.Grouping.Places

/-!
# Binding strengths look through parentheses

What decides about parentheses in the output asks for an expression without the parentheses around
it (`Precedence.unwrap`).  Two values that are the same up to parentheses have cores that are alike
(`Json.Loose.unwrap`), so every question that is asked of the core has the same answer for both.

The questions that go down a chain of heads (`Precedence.hasCall`, `Precedence.startsWith`) take off
the parentheses at every step, and are answered by induction on the tree that has more of them.
-/

namespace EstreePrinter

open Json (Part Alike Loose)

namespace Json

variable {v w : Json}

/-! ## Cores -/

/-- What a step through the parentheses of a tree finds. -/
def CoreRel {v w : Json} (core : { core : Json // sizeOf core ≤ sizeOf v })
    (core' : { core : Json // sizeOf core ≤ sizeOf w }) : Prop :=
  Alike core.1 core'.1

lemma Parenthesizes.sizeOf_lt {u : Json} (h : w.Parenthesizes u) : sizeOf u < sizeOf w := by
  obtain ⟨part, -, rfl⟩ := h.inside
  exact part.2.sizeOf_lt

/-- The core of a node that puts something in parentheses is the core of that. -/
lemma Parenthesizes.unwrap {u : Json} (h : w.Parenthesizes u)
    {core : { core : Json // sizeOf core ≤ sizeOf u }} (hcore : Precedence.unwrap u = .ok core) :
    ∃ core' : { core : Json // sizeOf core ≤ sizeOf w },
      Precedence.unwrap w = .ok core' ∧ core'.1 = core.1 := by
  obtain ⟨part, hpart, rfl⟩ := h.inside
  rw [Precedence.unwrap, h.kind]
  refine ⟨⟨core.1, ?_⟩, ?_, rfl⟩
  · have := core.2
    have := part.2.sizeOf_lt
    omega
  · simp only [ok_bind, isText, BEq.rfl, if_true, hpart, hcore, pure_eq_ok]

/-- **The cores of two values that are the same up to parentheses are alike.** -/
lemma Loose.unwrap {v w : Json} (h : Loose v w) :
    Follows CoreRel (Precedence.unwrap v) (Precedence.unwrap w) := by
  -- by induction on the tree with more parentheses
  obtain ⟨n, hsize⟩ : ∃ n, n = sizeOf w := ⟨_, rfl⟩
  induction n using Nat.strong_induction_on generalizing v w with
  | _ n ih =>
  subst hsize
  obtain ⟨place, h⟩ := h
  cases h with
  | same => exact (Follows.refl _).mono fun core _ hrel => hrel ▸ .refl core.1
  | wrap _ _ hu hw =>
      -- the parentheses are on one side only
      intro core hcore
      obtain ⟨inside, hinside, hrel⟩ := ih _ hw.sizeOf_lt ⟨_, hu⟩ rfl core hcore
      obtain ⟨core', hcore', hsame⟩ := hw.unwrap hinside
      exact ⟨core', hcore', by rw [CoreRel, hsame]; exact hrel⟩
  | parts => exact fun _ h => by rw [Precedence.unwrap] at h; cases h
  | expressions => exact fun _ h => by rw [Precedence.unwrap] at h; cases h
  | node hplace hfields =>
      have h : Alike _ _ := .node (by decide) hfields
      rw [Precedence.unwrap, Precedence.unwrap]
      exact h.type.kind.known fun kind => .ite
        ((h.loose_at "expression").require.bind fun _ part' hrel =>
          (ih _ part'.2.sizeOf_lt hrel rfl).bind fun _ _ hcore => .pure hcore) (.pure h)

end Json

namespace Precedence

open Json (Follows)

variable {v w parent parent' : Json}

/-! ## Strengths -/

lemma follows_strength? (h : Loose v w) : Follows Eq (strength? v) (strength? w) :=
  h.unwrap.bind fun _ _ hcore => (Alike.type hcore).kind.known fun _ => .refl _

lemma follows_bindsLooser (h : Loose v w) (threshold : Nat) :
    Follows Eq (bindsLooser v threshold) (bindsLooser w threshold) :=
  (follows_strength? h).known fun _ => .refl _

lemma follows_wrapsAsHead (h : Loose v w) (threshold : Nat) :
    Follows Eq (wrapsAsHead v threshold) (wrapsAsHead w threshold) := by
  refine (follows_bindsLooser h threshold).known fun loose => .ite (.refl _) ?_
  refine h.unwrap.bind fun core core' hcore => ?_
  exact (Alike.type hcore).kind.known fun kind => .refl _

lemma follows_wrapsAsTest (h : Loose v w) : Follows Eq (wrapsAsTest v) (wrapsAsTest w) :=
  (follows_strength? h).known fun _ => .refl _

/-! ## Operands -/

/-- The operator of a node is not changed by parentheses. -/
lemma follows_operator {α β : Type} {S : α → β → Prop} {f : Part v → Except Fault α}
    {g : Part w → Except Fault β} (h : Alike v w)
    (hf : ∀ part part', part.1 = part'.1 → Follows S (f part) (g part')) :
    Follows S (v.require "operator" >>= f) (w.require "operator" >>= g) :=
  (h.fixed (by decide)).require.bind hf

lemma follows_mixesCoalescing (h : Alike v w) (hparent : Alike parent parent') :
    Follows Eq (mixesCoalescing v parent) (mixesCoalescing w parent') :=
  follows_operator hparent fun _ _ houter => follows_operator h fun _ _ hinner => by
    rw [houter, hinner]
    exact .refl _

lemma follows_needsParensAmongEquals (h : Alike v w) (hparent : Alike parent parent')
    (isRight : Bool) :
    Follows Eq (needsParensAmongEquals v parent isRight)
      (needsParensAmongEquals w parent' isRight) := by
  have hstrengths (inner : Json) (bothPowers : Bool) : Follows Eq
      (if bothPowers then pure !isRight else do
        let innerStrength ← ofOperator inner
        let outerStrength ← ofOperator (← parent.require "operator").1
        pure (decide (if isRight then innerStrength ≤ outerStrength
          else innerStrength < outerStrength)))
      (if bothPowers then pure !isRight else do
        let innerStrength ← ofOperator inner
        let outerStrength ← ofOperator (← parent'.require "operator").1
        pure (decide (if isRight then innerStrength ≤ outerStrength
          else innerStrength < outerStrength))) :=
    .ite (.refl _) <| (Follows.refl _).known fun _ => follows_operator hparent fun _ _ houter => by
      rw [houter]
      exact .refl _
  refine follows_operator h fun inner inner' hinner => ?_
  rw [hinner]
  refine .ite (follows_operator hparent fun _ _ houter => ?_) (.known (.refl _) (hstrengths _))
  rw [houter]
  exact .known (.refl _) (hstrengths _)

lemma follows_needsParensByStrength (kind : Json) (h : Alike v w) (hparent : Alike parent parent')
    (isRight : Bool) (strength outer : Nat) :
    Follows Eq (needsParensByStrength kind v parent isRight strength outer)
      (needsParensByStrength kind w parent' isRight strength outer) := by
  unfold needsParensByStrength
  split
  · exact .ite (follows_operator hparent fun _ _ houter => by rw [houter]; exact .refl _) (.refl _)
  · split
    · exact .refl _
    · exact follows_needsParensAmongEquals h hparent isRight

/-- **Whether an operand is put in parentheses** does not depend on those it had. -/
lemma follows_needsParens (h : Loose v w) (hparent : Alike parent parent') (isRight : Bool) :
    Follows Eq (needsParens v parent isRight) (needsParens w parent' isRight) := by
  refine h.unwrap.bind fun core core' hcore => (Alike.type hcore).kind.known fun kind => ?_
  -- what comes behind a choice is the same for its branches and is shown once (`rest`, `behind`)
  refine .ite (.refl _) (have hrest := ?rest; .ite (hparent.type.requireKind.known fun _ =>
    .ite ((follows_mixesCoalescing hcore hparent).known hrest) (.known (.refl _) hrest))
    (.known (.refl _) hrest))
  refine fun mixed => .ite (.refl _) (have hrest := ?behind;
    .ite (.known (.refl _) hrest) (.known (.refl _) hrest))
  intro strength
  refine hparent.type.requireKind.known fun _ => ?_
  refine (Follows.refl _).known fun outer => ?_
  cases strength with
  | none => exact .refl _
  | some strength =>
      cases outer with
      | none => exact .refl _
      | some outer => exact follows_needsParensByStrength kind hcore hparent isRight strength outer

/-! ## Heads -/

/-- A call along a chain of heads is found on both sides. -/
lemma follows_hasCall {v w : Json} (h : Loose v w) : Follows Eq (hasCall v) (hasCall w) := by
  obtain ⟨n, hsize⟩ : ∃ n, n = sizeOf w := ⟨_, rfl⟩
  induction n using Nat.strong_induction_on generalizing v w with
  | _ n ih =>
  subst hsize
  rw [hasCall, hasCall, h.isNull]
  refine .ite (.refl _) (h.unwrap.bind fun core core' hcore => ?_)
  refine (Alike.type hcore).requireKind.known fun kind => .ite (.refl _) (.ite ?_ (.refl _))
  -- the head of an access stands inside of its core
  refine (Alike.loose_at hcore "object").require.bind fun head head' hrel => ?_
  exact ih _ (head'.2.sizeOf_lt.trans_le core'.2) hrel rfl

/-- What the text of an expression begins with is read from the same field. -/
lemma follows_leftmost (h : Alike v w) (kind : Json) :
    Follows (Option.Rel (Part.Rel Loose)) (leftmost v kind) (leftmost w kind) := by
  have hbare {wrap : Part v → Except Fault Bool} {wrap' : Part w → Except Fault Bool} (key : String)
      (hwrap : ∀ child child', Part.Rel Loose child child' →
        Follows Eq (wrap child) (wrap' child')) :
      Follows (Option.Rel (Part.Rel Loose))
        (do
          let child ← v.require key
          pure (if ← wrap child then none else some child))
        (do
          let child ← w.require key
          pure (if ← wrap' child then none else some child)) :=
    (h.loose_at key).require.bind fun child child' hrel =>
      (hwrap child child' hrel).known fun wraps => by
        cases wraps with
        | true => exact .pure .none
        | false => exact .pure (.some hrel)
  have hopen (key : String) : Follows (Option.Rel (Part.Rel Loose)) (some <$> v.require key)
      (some <$> w.require key) := by
    rw [map_eq_pure_bind, map_eq_pure_bind]
    exact (h.loose_at key).require.bind fun _ _ hrel => .pure (.some hrel)
  unfold leftmost
  split
  · exact hbare "left" fun _ _ hrel => follows_needsParens hrel h false
  · exact hbare "left" fun _ _ hrel => follows_needsParens hrel h false
  · exact hbare "test" fun _ _ hrel => follows_wrapsAsTest hrel
  · exact hbare "object" fun _ _ hrel => follows_wrapsAsHead hrel _
  · exact hbare "callee" fun _ _ hrel => follows_wrapsAsHead hrel _
  · exact hbare "tag" fun _ _ hrel => follows_wrapsAsHead hrel _
  · exact hbare "expression" fun _ _ hrel => follows_bindsLooser hrel _
  · exact hbare "expression" fun _ _ hrel => follows_bindsLooser hrel _
  · exact hbare "expression" fun _ _ hrel => follows_bindsLooser hrel _
  · exact (h.loose_at "prefix").flag.known fun _ => .ite (.pure .none) (hopen "argument")
  · exact hopen "left"
  · exact hopen "expression"
  · exact .pure .none

/-- **What the text of an expression begins with** does not depend on the parentheses it had. -/
lemma follows_startsWith {v w : Json} (h : Loose v w) (options : List String) :
    Follows Eq (startsWith v options) (startsWith w options) := by
  obtain ⟨n, hsize⟩ : ∃ n, n = sizeOf w := ⟨_, rfl⟩
  induction n using Nat.strong_induction_on generalizing v w with
  | _ n ih =>
  subst hsize
  rw [startsWith, startsWith]
  refine h.unwrap.bind fun core core' hcore => (Alike.type hcore).kind.known fun kind => ?_
  refine (Follows.refl _).known fun isOption => .ite (.refl _) ?_
  refine (follows_leftmost hcore kind).bind fun found found' hfound => ?_
  cases hfound with
  | none => exact .refl _
  | @some child child' hrel => exact ih _ (child'.2.sizeOf_lt.trans_le core'.2) hrel rfl

end Precedence

namespace Rules

open Json (Follows)

variable {v w : Json}

/-! ## Signs -/

lemma follows_signsCollide (operator : Json) (h : Loose v w) :
    Follows Eq (signsCollide operator v) (signsCollide operator w) := by
  refine h.unwrap.bind fun core core' hcore => ?_
  refine (Alike.type hcore).requireKind.known fun kind => .ite (.refl _) ?_
  refine Precedence.follows_operator hcore fun _ _ hoperator => ?_
  rw [hoperator]
  refine (Follows.refl _).known fun first => .ite (.refl _) ?_
  exact (Alike.loose_at hcore "prefix").flagUnlessAbsent

/-- Whether a blank stands between a sign and its argument does not depend on parentheses. -/
lemma follows_spacedUnary (operator : Json) (h : Loose v w) :
    Follows Eq (spacedUnary operator v) (spacedUnary operator w) := by
  refine (Follows.refl _).known fun length => .ite (.refl _) ?_
  refine (Follows.refl _).known fun sign => ?_
  exact .ite (follows_signsCollide operator h) (.refl _)

end Rules

end EstreePrinter
