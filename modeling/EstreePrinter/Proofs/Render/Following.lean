import Mathlib
import EstreePrinter.Render.Tree
import EstreePrinter.Proofs.Render.Steps

/-!
# Renderings that follow one another

Two nodes that differ here and there are read and rendered by two runs of the same rules.  One run
*follows* the other if it succeeds whenever the other does, with a value that is related to the
value of the other and, where something is rendered, with the same commands, the same need for lines
and the same comments left waiting.

* `Json.Follows`, `Render.Follows` — for readings and for renderings.
* `Json.Meets` — what two nodes have in common: the values under a key are related, or there are
  none.
* `Inner.Follows` — the parts of two nodes are rendered alike if they are related.

A rule that reads a node in fields that meet, and renders its parts alike, follows itself.  The
lemmas on steps (`Render.Follows.bind`, `Render.Follows.reading`) take it apart, and those on lists
at the end do so for the lists that may break.
-/

namespace EstreePrinter

open Json (Part)

variable {α β α' β' : Type}

namespace Json

/-! ## Readings -/

/-- Whatever one reading gives, the other one gives something that is related to it. -/
def Follows (R : α → β → Prop) (x : Except Fault α) (y : Except Fault β) : Prop :=
  ∀ a, x = .ok a → ∃ b, y = .ok b ∧ R a b

namespace Follows

variable {R : α → β → Prop} {S : α' → β' → Prop}

lemma refl (x : Except Fault α) : Follows Eq x x := fun a h => ⟨a, h, rfl⟩

lemma of_eq {x y : Except Fault α} (h : x = y) : Follows Eq x y := h ▸ refl x

lemma ok {a : α} {b : β} (h : R a b) : Follows R (.ok a) (.ok b) := by
  rintro _ ⟨⟩
  exact ⟨b, rfl, h⟩

lemma pure {a : α} {b : β} (h : R a b) : Follows R (pure a) (pure b) := ok h

lemma bind {x : Except Fault α} {y : Except Fault β} {f : α → Except Fault α'}
    {g : β → Except Fault β'} (hx : Follows R x y) (hf : ∀ a b, R a b → Follows S (f a) (g b)) :
    Follows S (x >>= f) (y >>= g) := by
  intro a' h
  obtain ⟨a, ha, ha'⟩ := EstreePrinter.bind_eq_ok_iff.mp h
  obtain ⟨b, hb, hab⟩ := hx a ha
  obtain ⟨b', hb', hab'⟩ := hf a b hab a' ha'
  exact ⟨b', EstreePrinter.bind_eq_ok_iff.mpr ⟨b, hb, hb'⟩, hab'⟩

/-- A reading that gives the same value, and the value that it gives. -/
lemma knowing {x y : Except Fault α} {f : α → Except Fault α'} {g : α → Except Fault β'}
    (hx : Follows Eq x y) (hf : ∀ a, x = .ok a → Follows S (f a) (g a)) :
    Follows S (x >>= f) (y >>= g) := by
  intro a' h
  obtain ⟨a, ha, ha'⟩ := EstreePrinter.bind_eq_ok_iff.mp h
  obtain ⟨_, hb, rfl⟩ := hx a ha
  obtain ⟨b', hb', hab'⟩ := hf a ha a' ha'
  exact ⟨b', EstreePrinter.bind_eq_ok_iff.mpr ⟨a, hb, hb'⟩, hab'⟩

/-- A reading of the same value, whatever is done with it. -/
lemma known {x y : Except Fault α} {f : α → Except Fault α'} {g : α → Except Fault β'}
    (hx : Follows Eq x y) (hf : ∀ a, Follows S (f a) (g a)) : Follows S (x >>= f) (y >>= g) :=
  hx.knowing fun a _ => hf a

/-- A choice, where each branch is taken for a reason. -/
lemma branch {c : Prop} [Decidable c] {x x' : Except Fault α} {y y' : Except Fault β}
    (hx : c → Follows R x y) (hx' : ¬c → Follows R x' y') :
    Follows R (if c then x else x') (if c then y else y') := by
  by_cases h : c
  · rw [if_pos h, if_pos h]
    exact hx h
  · rw [if_neg h, if_neg h]
    exact hx' h

lemma ite {c : Prop} [Decidable c] {x x' : Except Fault α} {y y' : Except Fault β}
    (hx : Follows R x y) (hx' : Follows R x' y') :
    Follows R (if c then x else x') (if c then y else y') := branch (fun _ => hx) fun _ => hx'

lemma mono {R' : α → β → Prop} {x : Except Fault α} {y : Except Fault β} (h : Follows R x y)
    (hR : ∀ a b, R a b → R' a b) : Follows R' x y := fun a ha => by
  obtain ⟨b, hb, hab⟩ := h a ha
  exact ⟨b, hb, hR a b hab⟩

end Follows

/-! ## Fields -/

/-- A relation that keeps whether a value is null and whether it counts as given. -/
class Discreet (ρ : Json → Json → Prop) : Prop where
  null : ρ .null .null
  isNull {v w : Json} : ρ v w → v.isNull = w.isNull
  isGiven {v w : Json} : ρ v w → v.isGiven = w.isGiven

instance : Discreet Eq := ⟨rfl, fun h => h ▸ rfl, fun h => h ▸ rfl⟩

variable {ρ σ : Json → Json → Prop} {node node' : Json} {key other : String}

/-- Parts of two nodes that are related as values. -/
def Part.Rel (ρ : Json → Json → Prop) (part : Part node) (part' : Part node') : Prop :=
  ρ part.1 part'.1

/-- **Two nodes meet under a key**: they have related values there, or none. -/
def Meets (ρ : Json → Json → Prop) (node node' : Json) (key : String) : Prop :=
  Follows (Option.Rel (Part.Rel ρ)) (node.get key) (node'.get key)

namespace Meets

lemma mono (h : Meets ρ node node' key) (hρ : ∀ v w, ρ v w → σ v w) : Meets σ node node' key :=
  Follows.mono h fun _ _ hrel => by
    cases hrel with
    | some hrel => exact .some (hρ _ _ hrel)
    | none => exact .none

lemma get (h : Meets ρ node node' key) :
    Follows (Option.Rel (Part.Rel ρ)) (node.get key) (node'.get key) := h

lemma require (h : Meets ρ node node' key) :
    Follows (Part.Rel ρ) (node.require key) (node'.require key) := by
  unfold Meets at h
  unfold Json.get at h
  unfold Json.require
  intro part hpart
  split at hpart
  · rename_i hobject
    split at hpart
    · rename_i hfield
      obtain rfl := Except.ok.inj hpart
      obtain ⟨_, hfound, hrel⟩ := h _ (if_pos hobject)
      rw [hfield] at hrel
      cases hrel with
      | some hrel =>
          split at hfound
          · rename_i hobject'
            exact ⟨_, by rw [if_pos hobject', Except.ok.inj hfound], hrel⟩
          · cases hfound
    · cases hpart
  · cases hpart

lemma getValue [Discreet ρ] (h : Meets ρ node node' key) :
    Follows ρ (node.getValue key) (node'.getValue key) :=
  Follows.bind h fun _ _ hrel => by
    cases hrel with
    | some hrel => exact .pure hrel
    | none => exact .pure Discreet.null

/-- A question about the value that has the same answer for related values. -/
lemma filter (h : Meets ρ node node' key) {p : Json → Bool} (hp : ∀ {v w}, ρ v w → p v = p w) :
    Follows (Option.Rel (Part.Rel ρ)) (do pure ((← node.get key).filter fun part => p part.1))
      (do pure ((← node'.get key).filter fun part => p part.1)) :=
  Follows.bind h fun _ _ hrel => by
    cases hrel with
    | none => exact .pure .none
    | @some part part' hrel =>
        refine .pure ?_
        rw [Option.filter_some, Option.filter_some, hp hrel]
        split
        · exact .some hrel
        · exact .none

lemma given [Discreet ρ] (h : Meets ρ node node' key) :
    Follows (Option.Rel (Part.Rel ρ)) (node.given key) (node'.given key) :=
  h.filter Discreet.isGiven

lemma present [Discreet ρ] (h : Meets ρ node node' key) :
    Follows (Option.Rel (Part.Rel ρ)) (node.present key) (node'.present key) :=
  h.filter fun hrel => congrArg not (Discreet.isNull hrel)

lemma givenOr [Discreet ρ] (h : Meets ρ node node' key) (h' : Meets ρ node node' other) :
    Follows (Option.Rel (Part.Rel ρ)) (node.givenOr key other) (node'.givenOr key other) :=
  h.given.bind fun _ _ hrel => by
    cases hrel with
    | some hrel => exact .pure (.some hrel)
    | none => exact h'.given

lemma flag [Discreet ρ] (h : Meets ρ node node' key) :
    Follows Eq (node.flag key) (node'.flag key) :=
  h.getValue.bind fun _ _ hrel => .pure (Discreet.isGiven hrel)

lemma flagUnlessAbsent [Discreet ρ] (h : Meets ρ node node' key) :
    Follows Eq (node.flagUnlessAbsent key) (node'.flagUnlessAbsent key) :=
  Follows.bind h fun _ _ hrel => by
    cases hrel with
    | some hrel => exact .pure (Discreet.isGiven hrel)
    | none => exact .pure rfl

lemma requireKind (h : Meets Eq node node' "type") :
    Follows Eq node.requireKind node'.requireKind := h.require.bind fun _ _ hrel => .pure hrel

lemma kind (h : Meets Eq node node' "type") : Follows Eq node.kind node'.kind := h.getValue

lemma comments (h : Meets Eq node node' key) :
    Follows Eq (node.comments key) (node'.comments key) :=
  h.given.bind fun _ _ hrel => by
    cases hrel with
    | some hrel => exact .of_eq (congrArg (fun v => orMalformed v.elements?) hrel)
    | none => exact .refl _

/-- Nodes with the same field `loc` stand in the same place. -/
lemma span (h : Meets Eq node node' "loc") : Follows Eq node.span node'.span :=
  h.given.bind fun found found' hrel => by
    cases hrel with
    | none => exact .refl _
    | @some loc loc' hrel =>
        obtain ⟨v, hv⟩ := loc
        obtain ⟨w, hw⟩ := loc'
        obtain rfl : v = w := hrel
        exact (Follows.refl (v.given "start")).known fun start =>
          (Follows.refl (v.given "end")).known fun stop => by
            cases start with
            | none => exact .refl _
            | some start => exact .refl _

end Meets

end Json

namespace Render

/-! ## Renderings -/

/-- Whenever one rendering succeeds, the other one does with a related value, and with the same
commands, the same need for lines and the same comments left waiting. -/
def Follows (R : α → β → Prop) (x : Render α) (y : Render β) : Prop :=
  ∀ s q e, x s q = .ok e → ∃ b, R e.value b ∧ y s q = .ok ⟨b, e.commands, e.multiline, e.queue⟩

namespace Follows

variable {R : α → β → Prop} {S : α' → β' → Prop}

lemma refl (x : Render α) : Follows Eq x x := fun _ _ e h => ⟨e.value, rfl, h⟩

lemma of_eq {x y : Render α} (h : x = y) : Follows Eq x y := h ▸ refl x

/-- Where there is but one value, the other rendering gives the very emission. -/
lemma run {x y : Render Unit} (h : Follows Eq x y) {s : Setting} {q : List Json}
    {e : Emission Unit} (he : x s q = .ok e) : y s q = .ok e := by
  obtain ⟨_, rfl, hy⟩ := h s q e he
  exact hy

lemma pure {a : α} {b : β} (h : R a b) : Follows R (pure a) (pure b) := by
  intro s q e he
  obtain rfl := Except.ok.inj he
  exact ⟨b, h, rfl⟩

lemma bind {x : Render α} {y : Render β} {f : α → Render α'} {g : β → Render β'}
    (hx : Follows R x y) (hf : ∀ a b, R a b → Follows S (f a) (g b)) :
    Follows S (x >>= f) (y >>= g) := by
  intro s q e he
  obtain ⟨first, hfirst, second, hsecond, rfl⟩ := bind_eq_ok_iff.mp he
  obtain ⟨b, hab, hy⟩ := hx s q first hfirst
  obtain ⟨b', hab', hg⟩ := hf _ _ hab _ _ second hsecond
  exact ⟨b', hab', bind_eq_of_ok hy hg⟩

/-- One step after the other. -/
lemma andThen {x y : Render Unit} {x' : Render α'} {y' : Render β'} (hx : Follows Eq x y)
    (hx' : Follows S x' y') : Follows S (do x; x') (do y; y') :=
  hx.bind fun _ _ _ => hx'

/-- A step that is the same on both sides, and gives the same value. -/
lemma known {x y : Render α} {f : α → Render α'} {g : α → Render β'} (hx : Follows Eq x y)
    (hf : ∀ a, Follows S (f a) (g a)) : Follows S (x >>= f) (y >>= g) :=
  hx.bind fun a b hab => by
    subst hab
    exact hf a

lemma read {x : Except Fault α} {y : Except Fault β} (h : Json.Follows R x y) :
    Follows R (liftM x : Render α) (liftM y : Render β) := by
  intro s q e he
  obtain ⟨a, ha, rfl⟩ := read_eq_ok_iff.mp he
  obtain ⟨b, hb, hab⟩ := h a ha
  exact ⟨b, hab, read_eq_ok_iff.mpr ⟨b, hb, rfl⟩⟩

/-- A reading, and what is done with its value. -/
lemma reading {x : Except Fault α} {y : Except Fault β} {f : α → Render α'} {g : β → Render β'}
    (h : Json.Follows R x y) (hf : ∀ a b, R a b → Follows S (f a) (g b)) :
    Follows S ((liftM x : Render α) >>= f) ((liftM y : Render β) >>= g) :=
  (read h).bind hf

/-- A reading, with the value that it gives. -/
lemma readingKnowing {x : Except Fault α} {y : Except Fault β} {f : α → Render α'}
    {g : β → Render β'} (h : Json.Follows R x y)
    (hf : ∀ a b, x = .ok a → R a b → Follows S (f a) (g b)) :
    Follows S ((liftM x : Render α) >>= f) ((liftM y : Render β) >>= g) := by
  intro s q e he
  obtain ⟨a, ha, hrest⟩ := read_bind_eq_ok_iff.mp he
  obtain ⟨b, hb, hab⟩ := h a ha
  obtain ⟨b', hab', hg⟩ := hf a b ha hab s q e hrest
  exact ⟨b', hab', read_bind_eq_ok_iff.mpr ⟨b, hb, hg⟩⟩

/-- A reading of the same value on both sides. -/
lemma readingSame {x y : Except Fault α} {f : α → Render α'} {g : α → Render β'}
    (h : Json.Follows Eq x y) (hf : ∀ a, Follows S (f a) (g a)) :
    Follows S ((liftM x : Render α) >>= f) ((liftM y : Render α) >>= g) :=
  (read h).known hf

/-- A text, and what comes after it. -/
lemma textThen (content : String) {x : Render α'} {y : Render β'} (h : Follows S x y) :
    Follows S (do text content; x) (do text content; y) :=
  (refl (text content)).andThen h

/-- A choice, where each branch is taken for a reason. -/
lemma branch {c : Prop} [Decidable c] {x x' : Render α} {y y' : Render β}
    (hx : c → Follows R x y) (hx' : ¬c → Follows R x' y') :
    Follows R (if c then x else x') (if c then y else y') := by
  by_cases h : c
  · rw [if_pos h, if_pos h]
    exact hx h
  · rw [if_neg h, if_neg h]
    exact hx' h

lemma ite {c : Prop} [Decidable c] {x x' : Render α} {y y' : Render β} (hx : Follows R x y)
    (hx' : Follows R x' y') : Follows R (if c then x else x') (if c then y else y') := by
  by_cases h : c
  · rwa [if_pos h, if_pos h]
  · rwa [if_neg h, if_neg h]

/-- A step that is taken only under a condition, before the rest. -/
lemma optional {b : Bool} {x y : Render PUnit} {f : PUnit → Render α'} {g : PUnit → Render β'}
    (hx : Follows Eq x y) (hf : ∀ u, Follows S (f u) (g u)) :
    Follows S (if b then x >>= f else f ⟨⟩) (if b then y >>= g else g ⟨⟩) :=
  ite (hx.known hf) (hf _)

lemma fork {x y : Render Unit} (h : Follows Eq x y) : Follows Eq (fork x) (fork y) := by
  intro s q e he
  obtain ⟨inner, hinner, rfl⟩ := fork_eq_ok_iff.mp he
  exact ⟨_, rfl, fork_eq_ok_iff.mpr ⟨inner, h.run hinner, rfl⟩⟩

lemma withNoIn {x y : Render Unit} (noIn : Bool) (h : Follows Eq x y) :
    Follows Eq (withNoIn noIn x) (withNoIn noIn y) := fun s q e he =>
  h { s with noIn := noIn } q e he

end Follows

variable {ρ : Json → Json → Prop} {node node' : Json} {key : String}

lemma follows_textIf [Json.Discreet ρ] (h : Json.Meets ρ node node' key) (content : String) :
    Follows Eq (textIf node key content) (textIf node' key content) :=
  .readingSame h.flag fun _ => .ite (.refl _) (.refl _)

/-- Comments before nodes that stand in the same place. -/
lemma follows_leading (h : Json.Meets Eq node node' "loc") (hnull : node.isNull = node'.isNull)
    (newlines : Bool) (comments : List Json) :
    Json.Follows Eq (leading newlines node comments) (leading newlines node' comments) := by
  have hspan : Json.Follows Eq node.spanOrNull node'.spanOrNull := by
    rw [Json.spanOrNull, Json.spanOrNull, hnull]
    exact .ite (.refl _) h.span
  have hends (comment : Json) : Json.Follows Eq (endsLine comment node) (endsLine comment node') :=
    (Json.Follows.refl comment.spansLines).known fun _ =>
      .ite (.refl _) ((Json.Follows.refl comment.span).known fun _ => hspan.known fun _ => .refl _)
  induction comments with
  | nil => exact .refl _
  | cons comment rest ih =>
      exact .ite (Json.Follows.known (.refl _) fun _ => ih.known fun _ => .refl _)
        ((hends comment).known fun _ => ih.known fun _ => .refl _)

end Render

/-! ## Parts -/

/-- Parts of two nodes are rendered alike if they are related: by `ρ` as values that come with their
comments, and by `σ` as statements and types. -/
structure Inner.Follows (ρ σ : Json → Json → Prop) {node node' : Json} (inner : Inner node)
    (inner' : Inner node') : Prop where
  value {part : Part node} {part' : Part node'} : Part.Rel ρ part part' →
    Render.Follows Eq (inner.value part) (inner'.value part')
  bare {part : Part node} {part' : Part node'} : Part.Rel σ part part' →
    Render.Follows Eq (inner.bare part) (inner'.bare part')
  type {part : Part node} {part' : Part node'} : Part.Rel σ part part' →
    Render.Follows Eq (inner.type part) (inner'.type part')
  either {part : Part node} {part' : Part node'} : Part.Rel σ part part' →
    Render.Follows Eq (inner.either part) (inner'.either part')

namespace Inner.Follows

open Render (text)

variable {ρ σ : Json → Json → Prop} {node node' : Json} {inner : Inner node} {inner' : Inner node'}
  {key : String}

lemma under (h : inner.Follows ρ σ inner') (part : Part node) (part' : Part node') :
    (inner.under part).Follows ρ σ (inner'.under part') where
  value hrel := h.value hrel
  bare hrel := h.bare hrel
  type hrel := h.type hrel
  either hrel := h.either hrel

lemma wrapped (h : inner.Follows ρ σ inner') {part : Part node} {part' : Part node'}
    (hrel : Part.Rel ρ part part') (wrap : Bool) :
    Render.Follows Eq (inner.wrapped part wrap) (inner'.wrapped part' wrap) :=
  .ite (.textThen _ ((h.value hrel).andThen (.refl _))) (h.value hrel)

lemma wrappedType (h : inner.Follows ρ σ inner') {part : Part node} {part' : Part node'}
    (hrel : Part.Rel σ part part') (wrap : Bool) :
    Render.Follows Eq (inner.wrappedType part wrap) (inner'.wrappedType part' wrap) :=
  .ite (.textThen _ ((h.type hrel).andThen (.refl _))) (h.type hrel)

lemma valueAfter (h : inner.Follows ρ σ inner') (lead : String) {found : Option (Part node)}
    {found' : Option (Part node')} (hrel : Option.Rel (Part.Rel ρ) found found') :
    Render.Follows Eq (inner.valueAfter lead found) (inner'.valueAfter lead found') := by
  cases hrel with
  | some hrel => exact .textThen _ (h.value hrel)
  | none => exact .refl _

lemma typeAfter (h : inner.Follows ρ σ inner') (lead : String) {found : Option (Part node)}
    {found' : Option (Part node')} (hrel : Option.Rel (Part.Rel σ) found found') :
    Render.Follows Eq (inner.typeAfter lead found) (inner'.typeAfter lead found') := by
  cases hrel with
  | some hrel => exact .textThen _ (h.type hrel)
  | none => exact .refl _

lemma typeIf (h : inner.Follows ρ σ inner') {found : Option (Part node)}
    {found' : Option (Part node')} (hrel : Option.Rel (Part.Rel σ) found found') :
    Render.Follows Eq (inner.typeIf found) (inner'.typeIf found') := by
  cases hrel with
  | some hrel => exact h.type hrel
  | none => exact .refl _

lemma field (h : inner.Follows ρ σ inner') (hkey : Json.Meets ρ node node' key) :
    Render.Follows Eq (inner.field key) (inner'.field key) :=
  .reading hkey.require fun _ _ hrel => h.value hrel

lemma typeField (h : inner.Follows ρ σ inner') (hkey : Json.Meets σ node node' key) :
    Render.Follows Eq (inner.typeField key) (inner'.typeField key) :=
  .reading hkey.require fun _ _ hrel => h.type hrel

end Inner.Follows

namespace Render

/-! ## Lists that may break -/

section Lists

variable {R : α → β → Prop} {item : α → Render Unit} {item' : β → Render Unit}

lemma isEmpty_eq_of_forall₂ {S : α → β → Prop} {list : List α} {list' : List β}
    (h : List.Forall₂ S list list') : list.isEmpty = list'.isEmpty := by
  cases h <;> rfl

lemma follows_items (hitem : ∀ a b, R a b → Follows Eq (item a) (item' b)) (separator : String)
    (afterHole : Bool) {list : List (Option α)} {list' : List (Option β)}
    (h : List.Forall₂ (Option.Rel R) list list') :
    Follows Eq (items separator item afterHole list) (items separator item' afterHole list') := by
  induction h generalizing afterHole with
  | nil => exact .refl _
  | @cons a b rest rest' hhead htail ih =>
      cases hhead with
      | none => exact (ih true).known fun _ => .refl _
      | some hrel =>
          rw [items, items, isEmpty_eq_of_forall₂ htail]
          exact (hitem _ _ hrel).fork.known fun _ => (Follows.refl takeQueue).known fun _ =>
            (ih false).known fun _ => .refl _

lemma follows_sequence (hitem : ∀ a b, R a b → Follows Eq (item a) (item' b)) (spaces : Bool)
    (separator : String) {list : List (Option α)} {list' : List (Option β)}
    (h : List.Forall₂ (Option.Rel R) list list') :
    Follows Eq (sequence spaces separator item list) (sequence spaces separator item' list') := by
  rw [sequence, sequence, isEmpty_eq_of_forall₂ h]
  exact .ite (.refl _) ((follows_items hitem separator false h).known fun _ => .refl _)

lemma follows_joined (hitem : ∀ a b, R a b → Follows Eq (item a) (item' b)) {list : List α}
    {list' : List β} (h : List.Forall₂ R list list') :
    Follows Eq (joined item list) (joined item' list') := by
  induction h with
  | nil => exact .refl _
  | @cons a b rest rest' hhead htail ih =>
      rw [joined, joined, isEmpty_eq_of_forall₂ htail]
      exact (hitem _ _ hhead).fork.known fun _ => ih.known fun _ => .refl _

end Lists

section Parts

variable {ρ σ : Json → Json → Prop} {node node' : Json} {inner : Inner node} {inner' : Inner node'}

/-- Statements of the same kinds, without comments of different texts. -/
lemma follows_bodyAfter (hinner : inner.Follows ρ σ inner')
    (hkind : ∀ {v w}, σ v w → Json.Meets Eq v w "type")
    (hcomments : ∀ {v w}, σ v w → Json.Meets Eq v w "leadingComments") (before : Option Printed)
    {list : List (Part node)} {list' : List (Part node')}
    (h : List.Forall₂ (Part.Rel σ) list list') :
    Follows Eq (bodyAfter inner before list) (bodyAfter inner' before list') := by
  induction h generalizing before with
  | nil => exact .refl _
  | cons hhead htail ih =>
      refine .readingSame (hkind hhead).requireKind fun kind => .ite (ih before) ?_
      refine .readingSame (hcomments hhead).comments fun list => ?_
      refine .readingSame (.refl _) fun comments => (hinner.bare hhead).fork.known fun held => ?_
      exact (Follows.refl _).andThen ((Follows.refl _).andThen (ih _))

end Parts

end Render

end EstreePrinter
