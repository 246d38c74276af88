import Mathlib
import EstreePrinter.Proofs.Draft.Growth
import EstreePrinter.Proofs.Render.Layout

/-!
# In place and handed over come to the same

**Two runs.**  `Together` puts the run of a rendering step beside a run in place: they end in the
same fault, or both end and their results belong together.

**The simulation.**  `Builds` says that a step in place does on every draft what a rendering step
does: the draft grows by what the other emits, and the rest of the rendering changes alike.  It
holds of whatever is `InPlace` (`InPlace.builds`).
-/

namespace EstreePrinter

open Json (Part)

/-! ## Runs side by side -/

/-- A run that hands over and a run in place: they end in the same fault, or both end, with results
that belong together. -/
inductive Together {α β : Type} (P : Emission α → β → Rendering → Prop) :
    Except Fault (Emission α) → Except Error (β × Rendering) → Prop
  | fault (fault : Fault) : Together P (.error fault) (.error (.fault fault))
  | done {e : Emission α} {b : β} {after : Rendering} : P e b after →
      Together P (.ok e) (.ok (b, after))

namespace Together

variable {α β γ δ : Type} {r : Rendering} {s : Setting} {q : List Json}

/-- **One step after the other**, on both sides. -/
lemma bind {P : Emission α → γ → Rendering → Prop} {Q : Emission β → δ → Rendering → Prop}
    {x : Render α} {f : α → Render β} {b : Building γ} {c : γ → Building δ}
    (hx : Together P (x s q) (b r))
    (hf : ∀ e v after, P e v after → Together (fun e' => Q (e.andThen e'))
      (f e.value s e.queue) (c v after)) : Together Q ((x >>= f) s q) ((b >>= c) r) := by
  show Together Q (Render.bind x f s q) (b r >>= fun p => c p.1 p.2)
  unfold Render.bind
  generalize x s q = left at hx ⊢
  generalize b r = right at hx ⊢
  cases hx with
  | fault fault => exact .fault fault
  | @done e v after h =>
      have hnext := hf e v after h
      rw [ok_bind]
      dsimp only
      generalize f e.value s e.queue = left at hnext ⊢
      generalize c v after = right at hnext ⊢
      cases hnext with
      | fault fault => exact .fault fault
      | done h => exact .done h

/-- A last step on the side that hands over, which does nothing but put its results together. -/
lemma bindPure {P : Emission α → δ → Rendering → Prop} {Q : Emission β → δ → Rendering → Prop}
    {x : Render α} {f : α → β} {right : Except Error (δ × Rendering)}
    (hx : Together P (x s q) right)
    (hf : ∀ e v after, P e v after → Q { e with value := f e.value } v after) :
    Together Q ((x >>= fun a => pure (f a)) s q) right := by
  show Together Q (Render.bind x _ s q) right
  unfold Render.bind
  generalize x s q = left at hx ⊢
  cases hx with
  | fault fault => exact .fault fault
  | @done e v after h => exact .done (by simpa using hf e v after h)

/-- Reading the same on both sides. -/
lemma read {Q : Emission β → δ → Rendering → Prop} {x : Except Fault α} {f : α → Render β}
    {c : α → Building δ} (hf : ∀ a, Together Q (f a s q) (c a r)) :
    Together Q (((liftM x : Render α) >>= f) s q) ((Building.read x >>= c) r) := by
  cases x with
  | error fault => exact .fault fault
  | ok a =>
      have : ((liftM (.ok a : Except Fault α) : Render α) >>= f) = f a := pure_bind a f
      rw [this]
      exact hf a

/-- **Deciding the same on both sides**, if what is measured has the same width. -/
lemma decide {Q : Emission β → δ → Rendering → Prop} {needed : Bool} {start : Nat}
    {stop : Option Nat} {commands : List Command} {k : Bool → Render β} {c : Bool → Building δ}
    (hmeasure : r.draft.measure start (stop.map Int.ofNat) = Command.totalWidth commands)
    (hsetting : r.setting = s) (hk : ∀ broken, Together Q (k broken s q) (c broken r)) :
    Together Q (((liftM (Render.breaks needed commands s.width) : Render Bool) >>= k) s q)
      ((Building.exceeds needed start stop >>= c) r) := by
  have hright : (Building.exceeds needed start stop >>= c) r =
      (Building.read (Render.breaks needed commands s.width) >>= c) r := by
    show Building.exceeds needed start stop r >>= _ = Building.read _ r >>= _
    congr 1
    unfold Building.exceeds Building.read Render.breaks
    subst hsetting
    rw [hmeasure]
    cases needed with
    | true => rfl
    | false => cases Command.totalWidth commands <;> rfl
  rw [hright]
  exact read hk

end Together

/-- A step that emits nothing, before another one. -/
lemma Render.bind_of_quiet {α β : Type} {x : Render α} {f : α → Render β} {s : Setting}
    {q q' : List Json} {a : α} (h : x s q = .ok ⟨a, [], false, q'⟩) :
    (x >>= f) s q = f a s q' := by
  show Render.bind x f s q = f a s q'
  unfold Render.bind
  rw [h]
  dsimp only
  cases f a s q' with
  | error fault => rfl
  | ok e => simp

/-! ## Steps in place -/

namespace Building

open OpenSlot (opened filled)

variable {β : Type} {r : Rendering}

lemma bind_run {α : Type} (b : Building α) (f : α → Building β) :
    (b >>= f) r = b r >>= fun p => f p.1 p.2 := rfl

lemma push_bind (pieces : List Piece) (f : Unit → Building β) :
    (push pieces >>= f) r = f () (r.push pieces) := rfl

lemma takeQueue_bind (f : List Json → Building β) : (takeQueue >>= f) r =
    f r.draft.queue { r with draft := { r.draft with queue := [] } } := rfl

lemma index_bind (f : Nat → Building β) : (index >>= f) r = f r.draft.pieces.length r := rfl

lemma raiseIf_bind (b : Bool) (f : Unit → Building β) :
    (raiseIf b >>= f) r = f () (r.raise b) := rfl

lemma defer_bind (name : String) (f : Nat → Building β) : (defer name >>= f) r =
    f r.draft.slots.length (r.withSlots (r.draft.slots ++ [opened name])) := rfl

/-- Two slots are made. -/
lemma defer_two (name name' : String) (f : Nat → Nat → Building β) :
    (defer name >>= fun i => defer name' >>= f i : Building β) r =
      f r.draft.slots.length (r.draft.slots.length + 1)
        (r.withSlots (r.draft.slots ++ [opened name, opened name'])) := by
  rw [defer_bind, defer_bind]
  simp

/-- Three slots are made. -/
lemma defer_three (name name' name'' : String) (f : Nat → Nat → Nat → Building β) :
    (defer name >>= fun i => defer name' >>= fun j => defer name'' >>= f i j : Building β) r =
      f r.draft.slots.length (r.draft.slots.length + 1) (r.draft.slots.length + 2)
        (r.withSlots (r.draft.slots ++ [opened name, opened name', opened name''])) := by
  rw [defer_two, defer_bind]
  simp

/-- A slot gets its contents. -/
lemma resolve_run {number : Nat} (old : List OpenSlot) (name : String) (rest : List OpenSlot)
    (h : r.draft.slots = old ++ opened name :: rest) (hnumber : number = old.length)
    (contents : List Command) :
    resolve number contents r = .ok ((), r.withSlots (old ++ filled name contents :: rest)) := by
  subst hnumber
  have hslot : r.draft.slots[old.length]? = some (opened name) := by simp [h]
  rw [resolve, Draft.resolve, hslot]
  simp [h, Rendering.withSlots, OpenSlot.opened, OpenSlot.filled]

/-- Two slots get their contents. -/
lemma resolve_two {name name' : String} {old rest : List OpenSlot}
    (h : r.draft.slots = old ++ ([opened name, opened name'] ++ rest))
    (contents contents' : List Command) (f : Unit → Building β) :
    (do resolve old.length contents
        resolve (old.length + 1) contents' >>= f : Building β) r =
      f () (r.withSlots (old ++ ([filled name contents, filled name' contents'] ++ rest))) := by
  rw [bind_run, resolve_run old name (opened name' :: rest) h rfl, ok_bind, bind_run,
    resolve_run (old ++ [filled name contents]) name' rest (by simp) (by simp),
    ok_bind]
  simp

/-- Three slots get their contents. -/
lemma resolve_three {name name' name'' : String} {old rest : List OpenSlot}
    (h : r.draft.slots = old ++ ([opened name, opened name', opened name''] ++ rest))
    (contents contents' contents'' : List Command) :
    (do resolve old.length contents
        resolve (old.length + 1) contents'
        resolve (old.length + 2) contents'' : Building Unit) r =
      .ok ((), r.withSlots (old ++ ([filled name contents, filled name' contents',
        filled name'' contents''] ++ rest))) := by
  rw [resolve_two h, resolve_run (old ++ [filled name contents, filled name' contents']) name''
    rest (by simp) (by simp)]
  simp

end Building

/-! ## Growing in step -/

/-- **What a step in place does to a rendering**: the draft grows by pieces that come out like
`like`, several lines are needed if they were or if `multiline` says so, and the comments in `queue`
wait. -/
structure Rendering.Grows (r after : Rendering) (like : List Piece) (multiline : Bool)
    (queue : List Json) : Prop where
  setting : after.setting = r.setting
  multiline : after.multiline = (r.multiline || multiline)
  queue : after.draft.queue = queue
  draft : r.draft.Grows after.draft like

namespace Rendering

variable {r r' after : Rendering} {like like' : List Piece} {m m' : Bool} {q q' : List Json}

lemma Grows.trans (h : r.Grows r' like m q) (h' : r'.Grows after like' m' q') :
    r.Grows after (like ++ like') (m || m') q' where
  setting := h'.setting.trans h.setting
  multiline := by rw [h'.multiline, h.multiline, Bool.or_assoc]
  queue := h'.queue
  draft := h.draft.trans h'.draft

lemma grows_refl (r : Rendering) : r.Grows r [] false r.draft.queue where
  setting := rfl
  multiline := by simp
  queue := rfl
  draft := Draft.grows_of_pieces (by simp) rfl (Draft.bound_nil _)

lemma grows_push (r : Rendering) {pieces : List Piece}
    (h : Draft.Bound r.draft.slots.length pieces) :
    r.Grows (r.push pieces) pieces false r.draft.queue where
  setting := rfl
  multiline := by simp
  queue := rfl
  draft := Draft.grows_of_pieces rfl rfl h

lemma Grows.push (h : r.Grows after like m q) {pieces : List Piece}
    (hpieces : Draft.Bound after.draft.slots.length pieces) :
    r.Grows (after.push pieces) (like ++ pieces) m q := by
  have hall := h.trans (after.grows_push hpieces)
  rwa [Bool.or_false, h.queue] at hall

lemma isBound_withSlots (hr : r.draft.IsBound) (opened : List OpenSlot) :
    (r.withSlots (r.draft.slots ++ opened)).draft.IsBound :=
  hr.mono (by simp)

/-- Slots are made, and pieces put behind what is there. -/
lemma grows_open (r : Rendering) (opened : List OpenSlot) {pieces : List Piece}
    (h : Draft.Bound (r.draft.slots.length + opened.length) pieces) :
    (r.withSlots (r.draft.slots ++ opened)).Grows
      ((r.withSlots (r.draft.slots ++ opened)).push pieces) pieces false r.draft.queue :=
  grows_push _ (by simpa using h)

/-- **Slots of its own**, which get their contents in the end. -/
lemma Grows.sealed {opened : List OpenSlot} (filled : List OpenSlot) {commands : List Command}
    (h : (r.withSlots (r.draft.slots ++ opened)).Grows after like m q)
    (hfilled : filled.length = opened.length) (hlength : commands.length = like.length)
    (hcommands : ∀ old rest depth, old.length = r.draft.slots.length →
      Draft.expand (old ++ filled ++ rest) (depth + 2) like = commands) :
    ∃ made, ∀ raised : Bool,
      (after.raise raised).draft.slots = r.draft.slots ++ (opened ++ made) ∧
      r.Grows ((after.raise raised).withSlots (r.draft.slots ++ (filled ++ made)))
        (commands.map .command) (m || raised) q := by
  obtain ⟨made, hmade, hsealed⟩ :=
    h.draft.sealed (d := r.draft) rfl rfl hfilled hlength hcommands
  refine ⟨made, fun raised => ⟨hmade, h.setting, ?_, h.queue, hsealed _ rfl rfl⟩⟩
  show (after.multiline || raised) = _
  rw [h.multiline, Bool.or_assoc]
  rfl

end Rendering

/-- A rendering has gone on as an emission says, and the step gave its value. -/
def Rendering.Does {α : Type} (r : Rendering) (e : Emission α) (v : α) (after : Rendering) : Prop :=
  v = e.value ∧ r.Grows after (e.commands.map .command) e.multiline e.queue

/-- **A step in place does what a rendering step does**, on every draft. -/
def Builds {α : Type} (b : Building α) (x : Render α) : Prop :=
  ∀ r : Rendering, r.draft.IsBound → Together r.Does (x r.setting r.draft.queue) (b r)

/-- **One step after the other.** -/
lemma Together.andThen {α β : Type} {r r' : Rendering} {q : List Json} {x : Render α}
    {f : α → Render β} {b : Building α} {c : α → Building β} (hr : r.draft.IsBound)
    (hx : Together r.Does (x r.setting q) (b r')) (hf : ∀ a, Builds (c a) (f a)) :
    Together r.Does ((x >>= f) r.setting q) ((b >>= c) r') := by
  refine hx.bind ?_
  rintro e v after ⟨rfl, hgrows⟩
  have hnext := hf e.value after (hgrows.draft.isBound hr)
  rw [hgrows.setting, hgrows.queue] at hnext
  generalize f e.value r.setting e.queue = left at hnext ⊢
  generalize c e.value after = right at hnext ⊢
  cases hnext with
  | fault fault => exact .fault fault
  | done h => exact .done ⟨h.1, by simpa [Emission.andThen] using hgrows.trans h.2⟩

lemma Builds.bind {α β : Type} {x : Render α} {f : α → Render β} {b : Building α}
    {c : α → Building β} (hx : Builds b x) (hf : ∀ a, Builds (c a) (f a)) :
    Builds (b >>= c) (x >>= f) :=
  fun r hr => (hx r hr).andThen hr hf

lemma builds_read {α : Type} (x : Except Fault α) : Builds (Building.read x) (liftM x) := by
  intro r hr
  cases x with
  | error fault => exact .fault fault
  | ok a => exact .done ⟨rfl, r.grows_refl⟩

lemma builds_emit (commands : List Command) :
    Builds (Building.push (commands.map .command)) (Render.emit commands) :=
  fun r _ => .done ⟨rfl, r.grows_push (Draft.bound_commands _ _)⟩

lemma builds_takeQueue : Builds Building.takeQueue Render.takeQueue :=
  fun _ _ => .done ⟨rfl, rfl, by simp, rfl,
    Draft.grows_of_pieces (by simp) rfl (Draft.bound_nil _)⟩

/-- What is rendered in a fork, without its need for several lines being noted: handed over it is
held back, in place it is there already. -/
lemma Builds.fork {b : Building Unit} {x : Render Unit} (h : Builds b x) {r : Rendering}
    (hr : r.draft.IsBound) :
    Together (fun e v after => v = e.value.multiline ∧ e.commands = [] ∧ e.multiline = false ∧
        r.Grows after (e.value.commands.map .command) false e.queue)
      (Render.fork x r.setting r.draft.queue) (Building.fork b r) := by
  have hx := h { r with multiline := false } hr
  unfold Render.fork Building.fork
  dsimp only at hx
  generalize x r.setting r.draft.queue = left at hx ⊢
  generalize b { r with multiline := false } = right at hx ⊢
  cases hx with
  | fault fault => exact .fault fault
  | @done e v after h =>
      obtain ⟨-, hgrows⟩ := h
      refine .done ⟨by simpa using hgrows.multiline, rfl, rfl, ?_⟩
      exact ⟨hgrows.setting, by simp, hgrows.queue, hgrows.draft⟩

end EstreePrinter
