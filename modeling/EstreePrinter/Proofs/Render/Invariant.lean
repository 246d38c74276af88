import Mathlib
import EstreePrinter.Proofs.Render.Correspondence

/-!
# Invariants of rendering

A `Render.Invariant` is a property of rendering steps that is kept by everything a rule can be made
of, whatever comments are around.  It is a correspondence of a rendering with itself
(`Render.Invariant.correspondence`).

* An invariant is about some trees, and with a tree about all that is inside of it: `Applies`.
* The next fields are about single steps and about putting them together.
* The last fields, from `nested` on, are about the few constructs that take a decision after their
  parts have been rendered, or that open and close a level of indentation.  Here is where the proof
  of an invariant has its content.

The rules themselves are gone through in `Proofs/Rules`, and `Render.Invariant.tree` of
`Proofs/Render/Tree` ties the knot.
-/

namespace EstreePrinter

open Json (Part)

/-- Commands that neither move the level of indentation nor hold a placeholder nor tell where they
come from. -/
def Command.IsFlat : Command → Prop
  | .chunk _ _ => False
  | .foreignChunk _ _ => False
  | .indent => False
  | .dedent => False
  | .deferred _ _ => False
  | .pending _ => False
  | _ => True

namespace Render

/-- **An invariant of rendering**: a property of steps that everything a rule is made of keeps. -/
structure Invariant where
  /-- The trees it is about. -/
  Applies : Json → Prop
  applies_inside : ∀ {node part : Json}, Applies node → part.Inside node → Applies part
  /-- The property. -/
  Holds : {α : Type} → Render α → Prop
  pure : ∀ {α : Type} (a : α), Holds (pure a : Render α)
  bind : ∀ {α β : Type} {x : Render α} {f : α → Render β},
    Holds x → (∀ a, Holds (f a)) → Holds (x >>= f)
  read : ∀ {α : Type} (x : Except Fault α), Holds (liftM x : Render α)
  quote : ∀ {α : Type} {f : Char → Render α},
    (∀ c, Holds (f c)) → Holds (setting >>= fun s => f s.quote)
  noIn : ∀ {α : Type} {f : Bool → Render α},
    (∀ b, Holds (f b)) → Holds (setting >>= fun s => f s.noIn)
  withNoIn : ∀ {α : Type} (b : Bool) {x : Render α}, Holds x → Holds (withNoIn b x)
  emit : ∀ {commands : List Command}, (∀ c ∈ commands, c.IsFlat) → Holds (emit commands)
  chunk : ∀ (content : Json) {node : Json}, Applies node → Holds (chunk content node)
  raiseIf : ∀ b : Bool, Holds (raiseIf b)
  enqueue : ∀ comment : Json, Holds (enqueue comment)
  takeQueue : Holds takeQueue
  nested : ∀ (before inside behind : List Command) {x : Render Unit},
    (∀ c ∈ before ++ inside ++ behind, c.IsFlat) → Holds x →
      Holds (do
        Render.emit (before ++ .indent :: inside)
        x
        Render.emit (.dedent :: behind))
  sequence : ∀ {α : Type} (spaces : Bool) (separator : String) {item : α → Render Unit},
    (∀ a, Holds (item a)) → ∀ list, Holds (sequence spaces separator item list)
  body : ∀ {node : Json} {inner : Inner node}, (∀ part, Holds (inner.bare part)) →
    ∀ statements, Holds (body inner statements)
  declarations : ∀ {node : Json} {inner : Inner node}, (∀ part, Holds (inner.value part)) →
    Holds (declarations node inner)
  arguments : ∀ {node : Json} {inner : Inner node}, (∀ part, Holds (inner.value part)) →
    Holds (Rules.callArguments inner)
  branches : ∀ {x y : Render Unit}, Holds x → Holds y →
    Holds (do
      let yes ← fork x
      let no ← fork y
      Render.raiseIf (yes.multiline || no.multiline)
      Render.emit (Rules.branches (yes.multiline || no.multiline) yes.commands no.commands))

/-- An invariant of all trees. -/
class Invariant.IsGlobal (R : Invariant) : Prop where
  applies : ∀ node, R.Applies node

end Render

namespace Render.Invariant

variable (R : Render.Invariant) {α β : Type}

/-! ## Steps one after the other -/

/-- One step, then another that does not use its value. -/
lemma andThen {x : Render α} {y : Render β} (hx : R.Holds x) (hy : R.Holds y) :
    R.Holds (x >>= fun _ => y) :=
  R.bind hx fun _ => hy

/-- Something is read first. -/
lemma reading (x : Except Fault α) {f : α → Render β} (hf : ∀ a, R.Holds (f a)) :
    R.Holds ((liftM x : Render α) >>= f) :=
  R.bind (R.read x) hf

/-- Something is read first; it is enough to look at what can be read. -/
lemma readingOf (x : Except Fault α) {f : α → Render β} (hf : ∀ a, x = .ok a → R.Holds (f a)) :
    R.Holds ((liftM x : Render α) >>= f) := by
  cases x with
  | error fault =>
      -- nothing is rendered, so a reading that fails is all there is
      exact R.read (.error fault : Except Fault β)
  | ok a =>
      have : ((liftM (.ok a : Except Fault α) : Render α) >>= f) = f a := pure_bind a f
      rw [this]
      exact hf a rfl

lemma ite {c : Prop} [Decidable c] {x y : Render α} (hx : R.Holds x) (hy : R.Holds y) :
    R.Holds (if c then x else y) := by
  split
  · exact hx
  · exact hy

/-- A step that is taken only under a condition, before the rest. -/
lemma optional {c : Prop} [Decidable c] {x : Render PUnit} {rest : PUnit → Render β}
    (hx : R.Holds x) (hrest : ∀ u, R.Holds (rest u)) :
    R.Holds (if c then x >>= rest else rest ⟨⟩) :=
  R.ite (R.bind hx hrest) (hrest _)

/-! ## Texts -/

lemma emitOne {c : Command} (hc : c.IsFlat) : R.Holds (Render.emit [c]) := by
  refine R.emit fun d hd => ?_
  rw [List.mem_singleton] at hd
  exact hd ▸ hc

lemma text (s : String) : R.Holds (Render.text s) := R.emitOne trivial

lemma newline : R.Holds (Render.emit [.newline]) := R.emitOne trivial

lemma raise : R.Holds Render.raise := R.raiseIf true

/-! ## Comments -/

lemma isFlat_leading {newlines : Bool} {node : Json} {comments : List Json}
    {commands : List Command} (h : leading newlines node comments = .ok commands) :
    ∀ c ∈ commands, c.IsFlat := by
  induction comments generalizing commands with
  | nil =>
      simp only [leading, Except.ok.injEq] at h
      subst h
      simp
  | cons comment rest ih =>
      obtain ⟨breaks, -, others, hothers, rfl⟩ := leading_cons_eq_ok h
      intro c hc
      rcases List.mem_cons.mp hc with rfl | hc
      · trivial
      · exact ih hothers c hc

lemma isFlat_afterStatement {newline : Bool} {comments : List Json} {commands : List Command}
    (h : afterStatement newline comments = .ok commands) : ∀ c ∈ commands, c.IsFlat := by
  induction comments generalizing newline commands with
  | nil =>
      simp only [afterStatement, Except.ok.injEq] at h
      subst h
      simp
  | cons comment rest ih =>
      rw [afterStatement] at h
      obtain ⟨line, -, h⟩ := EstreePrinter.bind_eq_ok_iff.mp h
      obtain ⟨others, hothers, h⟩ := EstreePrinter.bind_eq_ok_iff.mp h
      rw [pure_eq_ok, Except.ok.injEq] at h
      subst h
      intro c hc
      rcases List.mem_cons.mp hc with rfl | hc
      · cases newline <;> trivial
      · rcases List.mem_cons.mp hc with rfl | hc
        · trivial
        · exact ih hothers c hc

/-- Emitting what reading gives, when that is flat whenever it is read. -/
lemma emitRead {x : Except Fault (List Command)}
    (hx : ∀ commands, x = .ok commands → ∀ c ∈ commands, c.IsFlat) :
    R.Holds ((liftM x : Render (List Command)) >>= Render.emit) := by
  cases x with
  | error fault =>
      -- the emission is never reached, so what follows may be anything
      have : ((liftM (.error fault : Except Fault (List Command)) : Render (List Command)) >>=
          Render.emit) = liftM (.error fault : Except Fault Unit) := rfl
      rw [this]
      exact R.read _
  | ok commands =>
      have : ((liftM (.ok commands : Except Fault (List Command)) : Render (List Command)) >>=
          Render.emit) = Render.emit commands := by
        exact LawfulMonad.pure_bind commands Render.emit
      rw [this]
      exact R.emit (hx commands rfl)

lemma leadingComments (newlines : Bool) (node : Json) (comments : List Json) :
    R.Holds (Render.leadingComments newlines node comments) :=
  R.emitRead fun _ h => isFlat_leading h

lemma queueTrailing (node : Json) : R.Holds (Render.queueTrailing node) := by
  refine R.reading _ fun list => ?_
  cases list with
  | none => exact R.pure _
  | some list => exact R.reading _ fun comment => R.enqueue comment

lemma drainAfterStatement : R.Holds Render.drainAfterStatement :=
  R.bind R.takeQueue fun _ => R.emitRead fun _ h => isFlat_afterStatement h

end Render.Invariant

/-! ## An invariant as a correspondence -/

namespace Render.Invariant

variable (R : Render.Invariant) {node : Json} {inner : Inner node}

lemma caseStatements (hvalue : ∀ part, R.Holds (inner.value part)) (statements : List (Part node)) :
    R.Holds (Rules.caseStatements inner statements) := by
  induction statements with
  | nil => exact R.pure _
  | cons statement rest ih =>
      exact R.andThen R.newline (R.andThen (hvalue _) (R.andThen R.drainAfterStatement ih))

/-- What a case does, one level deeper. -/
lemma consequent (hvalue : ∀ part, R.Holds (inner.value part)) :
    R.Holds (do
      Render.emit [.indent]
      Rules.caseStatements inner (← Json.parts (← node.require "consequent"))
      Render.emit [.dedent]) := by
  -- the statements are read after the indentation, so reading them is part of what is nested
  have h := R.nested [] [] [] (by simp)
    (R.reading (node.require "consequent") fun part =>
      R.reading (Json.parts part) fun list => R.caseStatements hvalue list)
  simpa only [List.nil_append, bind_assoc] using h

lemma switchCase (hvalue : ∀ part, R.Holds (inner.value part)) :
    R.Holds (Rules.switchCase inner) := by
  refine R.reading _ fun comments => R.andThen (R.leadingComments _ _ _) ?_
  refine R.reading _ fun test => ?_
  cases test with
  | none => exact R.andThen (R.text _) (R.consequent hvalue)
  | some test =>
      refine R.andThen (R.text _) (R.andThen (hvalue test) ?_)
      exact R.andThen (R.text _) (R.consequent hvalue)

lemma switchCases (hvalue : ∀ part, R.Holds (inner.value part)) (isFirst : Bool)
    (cases : List (Part node)) : R.Holds (Rules.switchCases inner isFirst cases) := by
  induction cases generalizing isFirst with
  | nil => exact R.pure _
  | cons case rest ih =>
      unfold Rules.switchCases
      refine R.optional (R.text _) fun _ => R.andThen R.newline ?_
      exact R.andThen (R.switchCase fun part => hvalue (case.within part)) (ih _)

lemma switchRule (hvalue : ∀ part, R.Holds (inner.value part)) :
    R.Holds (Rules.switchRule node inner) := by
  refine R.andThen R.raise (R.andThen (R.text _) (R.andThen (R.reading _ hvalue) ?_))
  have h := R.nested [.text ") \x7b"] [] [.newline, .text "\x7d"] (by simp [Command.IsFlat])
    (R.reading (node.require "cases") fun part =>
      R.reading (Json.parts part) fun list => R.switchCases hvalue true list)
  simpa only [List.singleton_append, bind_assoc] using h

/-- **An invariant is a correspondence** that looks at one side only and does not count. -/
def correspondence : Correspondence where
  Applies := R.Applies
  applies_inside := R.applies_inside
  Related _ x _ := R.Holds x
  Bare _ x _ := R.Holds x
  Own _ x _ := R.Holds x
  mono _ h := h
  pure := R.pure
  bind := R.bind
  read := R.read
  quote := R.quote
  noIn := R.noIn
  withNoIn b _ _ h := R.withNoIn b h
  emit hplain := R.emit fun c hc => by
    have := hplain c hc
    cases c <;> trivial
  chunk := R.chunk
  raiseIf := R.raiseIf
  sequence spaces separator _ _ _ hitem := R.sequence spaces separator hitem
  declarations := R.declarations
  arguments := R.arguments
  branches := R.branches
  braced hbare statements :=
    R.nested [.text "\x7b"] [.newline] [.newline, .text "\x7d"] (by simp [Command.IsFlat])
      (R.body hbare statements)
  bareRead hf := R.readingOf _ hf
  own _ _ _ h := h
  program _ _ hbare := R.reading _ fun _ => R.reading _ fun _ => R.body hbare _
  switch _ _ hvalue := R.switchRule hvalue

end Render.Invariant

end EstreePrinter
