import Mathlib
import EstreePrinter.Render.Tree
import EstreePrinter.Proofs.Json.Nodes
import EstreePrinter.Proofs.Render.Steps

/-!
# Two renderings side by side

There are more than a hundred rules, and almost all of them do nothing but put steps one after the
other.  What is to hold of every rendering is therefore said once of the steps: a
`Render.Correspondence` is a relation between rendering steps that is kept by everything a rule can
be made of.  A rule is then run twice, with two ways to render the parts of its node, and if these
correspond so do the two runs (`Render.Correspondence.KeptBy`).  A property of single renderings is
the case in which both sides are the same.

**Counting.**  A correspondence comes with a bound on the nodes that are rendered: `Related u x y`
allows `x` and `y` to render the nodes in `u`, each as often as it occurs there.  A step after
another one has a bound of its own, so the bounds of the parts of a rule add up, and for the rule to
stay within its node it has to take its parts from different fields.

**Decisions.**  The fields from `sequence` on are about the few constructs that take a decision
after their parts have been rendered, and about the three rules that deal with comments themselves:
blocks, programs and `switch` statements.  Here is where the proof of a correspondence has its
content.

The rules are gone through in `Proofs/Rules`, and `Proofs/Render/Tree` ties the knot.
-/

namespace EstreePrinter

open Json (Part)

/-- Commands that are no comment, no placeholder, no change of the level, and do not tell where they
come from. -/
def Command.IsPlain : Command → Prop
  | .text _ => True
  | .newline => True
  | .foreign _ => True
  | _ => False

namespace Render

/-- The statements of a block between its braces. -/
def braced (x : Render Unit) : Render Unit := do
  emit [.text "\x7b", .indent, .newline]
  x
  emit [.dedent, .newline, .text "\x7d"]

/-- **A correspondence of renderings**: a relation between steps that everything a rule is made of
keeps. -/
structure Correspondence where
  /-- The trees it is about. -/
  Applies : Json → Prop
  applies_inside : ∀ {node part : Json}, Applies node → part.Inside node → Applies part
  /-- Two steps correspond and render no more than some nodes. -/
  Related : {α : Type} → Multiset Json → Render α → Render α → Prop
  /-- Two ways to render a node without the comments before it correspond. -/
  Bare : Json → Render Unit → Render Unit → Prop
  /-- Two runs of the rule for a node correspond. -/
  Own : Json → Render Unit → Render Unit → Prop
  mono : ∀ {α : Type} {u v : Multiset Json} {x y : Render α}, u ≤ v → Related u x y → Related v x y
  pure : ∀ {α : Type} (a : α), Related 0 (pure a : Render α) (pure a)
  bind : ∀ {α β : Type} {u v : Multiset Json} {x y : Render α} {f g : α → Render β},
    Related u x y → (∀ a, Related v (f a) (g a)) → Related (u + v) (x >>= f) (y >>= g)
  read : ∀ {α : Type} (x : Except Fault α), Related 0 (liftM x : Render α) (liftM x)
  quote : ∀ {α : Type} {u : Multiset Json} {f g : Char → Render α},
    (∀ c, Related u (f c) (g c)) →
      Related u (setting >>= fun s => f s.quote) (setting >>= fun s => g s.quote)
  noIn : ∀ {α : Type} {u : Multiset Json} {f g : Bool → Render α},
    (∀ b, Related u (f b) (g b)) →
      Related u (setting >>= fun s => f s.noIn) (setting >>= fun s => g s.noIn)
  withNoIn : ∀ {α : Type} {u : Multiset Json} (b : Bool) {x y : Render α},
    Related u x y → Related u (withNoIn b x) (withNoIn b y)
  emit : ∀ {commands : List Command}, (∀ c ∈ commands, c.IsPlain) →
    Related 0 (emit commands) (emit commands)
  chunk : ∀ (content : Json) {node : Json}, Applies node →
    Related 0 (chunk content node) (chunk content node)
  raiseIf : ∀ b : Bool, Related 0 (raiseIf b) (raiseIf b)
  sequence : ∀ {α : Type} (spaces : Bool) (separator : String) (nodes : α → Multiset Json)
    {item item' : α → Render Unit}, (∀ a, Related (nodes a) (item a) (item' a)) →
      ∀ list : List (Option α), Related (list.map fun a => a.elim 0 nodes).sum
        (sequence spaces separator item list) (sequence spaces separator item' list)
  declarations : ∀ {node : Json} {inner inner' : Inner node},
    (∀ part, Related part.1.nodes (inner.value part) (inner'.value part)) →
      Related (node.under "declarations") (declarations node inner) (declarations node inner')
  arguments : ∀ {node : Json} {inner inner' : Inner node},
    (∀ part, Related part.1.nodes (inner.value part) (inner'.value part)) →
      Related (node.under "arguments") (Rules.callArguments inner) (Rules.callArguments inner')
  branches : ∀ {u v : Multiset Json} {x y x' y' : Render Unit},
    Related u x x' → Related v y y' →
      Related (u + v)
        (do
          let yes ← fork x
          let no ← fork y
          Render.raiseIf (yes.multiline || no.multiline)
          Render.emit (Rules.branches (yes.multiline || no.multiline) yes.commands no.commands))
        (do
          let yes ← fork x'
          let no ← fork y'
          Render.raiseIf (yes.multiline || no.multiline)
          Render.emit (Rules.branches (yes.multiline || no.multiline) yes.commands no.commands))
  braced : ∀ {node : Json} {inner inner' : Inner node},
    (∀ part, Bare part.1 (inner.bare part) (inner'.bare part)) →
      ∀ statements, Related (Json.nodesAll statements)
        (braced (body inner statements)) (braced (body inner' statements))
  bareRead : ∀ {α : Type} {node : Json} {x : Except Fault α} {f g : α → Render Unit},
    (∀ a, x = .ok a → Bare node (f a) (g a)) →
      Bare node ((liftM x : Render α) >>= f) ((liftM x : Render α) >>= g)
  own : ∀ {node : Json} {name : String} {x y : Render Unit}, Applies node →
    node.kind = .ok (.str name) → name ≠ "SwitchStatement" → Related node.within x y → Own node x y
  program : ∀ {node : Json} {inner inner' : Inner node}, Applies node →
    node.kind = .ok (.str "Program") →
    (∀ part, Bare part.1 (inner.bare part) (inner'.bare part)) →
      Own node (Rules.program node inner) (Rules.program node inner')
  switch : ∀ {node : Json} {inner inner' : Inner node}, Applies node →
    node.kind = .ok (.str "SwitchStatement") →
    (∀ part, Related part.1.nodes (inner.value part) (inner'.value part)) →
      Own node (Rules.switchRule node inner) (Rules.switchRule node inner')

end Render

/-- A correspondence is about a node, and the parts of the node are rendered by steps that
correspond. -/
structure Inner.Matches {node : Json} (inner inner' : Inner node) (C : Render.Correspondence) :
    Prop where
  applies : C.Applies node
  value : ∀ part, C.Related part.1.nodes (inner.value part) (inner'.value part)
  bare : ∀ part, C.Bare part.1 (inner.bare part) (inner'.bare part)
  type : ∀ part, C.Related part.1.nodes (inner.type part) (inner'.type part)
  either : ∀ part, C.Related part.1.nodes (inner.either part) (inner'.either part)

namespace Render.Correspondence

variable (C : Render.Correspondence) {α β : Type} {u v : Multiset Json}

/-! ## Steps one after the other -/

/-- A step that renders no node, and another one after it. -/
lemma after {x y : Render α} {f g : α → Render β} (hx : C.Related 0 x y)
    (hf : ∀ a, C.Related u (f a) (g a)) : C.Related u (x >>= f) (y >>= g) := by
  simpa using C.bind hx hf

/-- The same if the value of the first step is not used. -/
lemma say {x y : Render α} {x' y' : Render β} (hx : C.Related 0 x y) (hx' : C.Related u x' y') :
    C.Related u (x >>= fun _ => x') (y >>= fun _ => y') :=
  C.after hx fun _ => hx'

/-- One step, then another that does not use its value. -/
lemma andThen {x y : Render α} {x' y' : Render β} (hx : C.Related u x y)
    (hx' : C.Related v x' y') : C.Related (u + v) (x >>= fun _ => x') (y >>= fun _ => y') :=
  C.bind hx fun _ => hx'

/-- A step, and another one after it that renders no node. -/
lemma ending {x y : Render α} {x' y' : Render β} (hx : C.Related u x y)
    (hx' : C.Related 0 x' y') : C.Related u (x >>= fun _ => x') (y >>= fun _ => y') := by
  simpa using C.bind hx fun _ => hx'

/-- Something is read first; it is enough to look at what can be read. -/
lemma reading {x : Except Fault α} {f g : α → Render β}
    (hf : ∀ a, x = .ok a → C.Related u (f a) (g a)) :
    C.Related u ((liftM x : Render α) >>= f) ((liftM x : Render α) >>= g) := by
  cases x with
  | error fault =>
      -- nothing is rendered, so a reading that fails is all there is
      exact C.mono (Multiset.zero_le u) (C.read (.error fault : Except Fault β))
  | ok a =>
      have hleft : ((liftM (.ok a : Except Fault α) : Render α) >>= f) = f a := pure_bind a f
      have hright : ((liftM (.ok a : Except Fault α) : Render α) >>= g) = g a := pure_bind a g
      rw [hleft, hright]
      exact hf a rfl

/-- The same if what is read does not matter. -/
lemma skip {x : Except Fault α} {f g : α → Render β} (hf : ∀ a, C.Related u (f a) (g a)) :
    C.Related u ((liftM x : Render α) >>= f) ((liftM x : Render α) >>= g) :=
  C.reading fun a _ => hf a

lemma ite {c : Prop} [Decidable c] {x y x' y' : Render α} (hx : C.Related u x x')
    (hy : C.Related u y y') : C.Related u (if c then x else y) (if c then x' else y') := by
  split
  · exact hx
  · exact hy

/-- A step that is taken only under a condition, before the rest. -/
lemma optional {c : Prop} [Decidable c] {x x' : Render PUnit} {rest rest' : PUnit → Render β}
    (hx : C.Related 0 x x') (hrest : ∀ a, C.Related u (rest a) (rest' a)) :
    C.Related u (if c then x >>= rest else rest ⟨⟩) (if c then x' >>= rest' else rest' ⟨⟩) :=
  C.ite (C.after hx hrest) (hrest _)

/-- The parts are taken from different fields of a node. -/
lemma within {node : Json} (keys : List String) (hkeys : keys.Nodup) {x y : Render α}
    (h : C.Related u x y) (hu : u ≤ node.underAll keys) : C.Related node.within x y :=
  C.mono (hu.trans (node.underAll_le hkeys)) h

/-- The parts are taken from different fields of a part. -/
lemma inside {node : Json} (keys : List String) (hkeys : keys.Nodup) {x y : Render α}
    (h : C.Related u x y) (hu : u ≤ node.underAll keys) : C.Related node.nodes x y :=
  C.mono node.within_le (C.within keys hkeys h hu)

/-- No part is rendered. -/
lemma none {x y : Render α} (h : C.Related 0 x y) : C.Related u x y :=
  C.mono (Multiset.zero_le u) h

/-! ## Texts -/

lemma emitOne {c : Command} (hc : c.IsPlain) :
    C.Related 0 (Render.emit [c]) (Render.emit [c]) := by
  refine C.emit fun d hd => ?_
  rw [List.mem_singleton] at hd
  exact hd ▸ hc

lemma text (s : String) : C.Related 0 (Render.text s) (Render.text s) := C.emitOne trivial

lemma newline : C.Related 0 (Render.emit [.newline]) (Render.emit [.newline]) := C.emitOne trivial

lemma raise : C.Related 0 Render.raise Render.raise := C.raiseIf true

lemma ofValue (w : Json) : C.Related 0 (Render.emit [.ofValue w]) (Render.emit [.ofValue w]) :=
  C.emitOne (by cases w <;> trivial)

lemma textIf (node : Json) (key word : String) :
    C.Related 0 (Render.textIf node key word) (Render.textIf node key word) :=
  C.skip fun _ => C.ite (C.text word) (C.pure _)

end Render.Correspondence

/-! ## Parts of a node -/

namespace Inner.Matches

variable {C : Render.Correspondence} {node : Json} {inner inner' : Inner node}

lemma applies_part (h : inner.Matches inner' C) (part : Part node) : C.Applies part.1 :=
  C.applies_inside h.applies part.2

lemma under (h : inner.Matches inner' C) (part : Part node) :
    (inner.under part).Matches (inner'.under part) C :=
  ⟨h.applies_part part, fun p => h.value (part.within p), fun p => h.bare (part.within p),
    fun p => h.type (part.within p), fun p => h.either (part.within p)⟩

/-- A part that was read from a field. -/
lemma valueOf (h : inner.Matches inner' C) {key : String} {part : Part node}
    (hpart : node.require key = .ok part) :
    C.Related (node.under key) (inner.value part) (inner'.value part) :=
  Json.under_of_require hpart ▸ h.value part

lemma typeOf (h : inner.Matches inner' C) {key : String} {part : Part node}
    (hpart : node.require key = .ok part) :
    C.Related (node.under key) (inner.type part) (inner'.type part) :=
  Json.under_of_require hpart ▸ h.type part

lemma wrapped (h : inner.Matches inner' C) (part : Part node) (wrap : Bool) :
    C.Related part.1.nodes (inner.wrapped part wrap) (inner'.wrapped part wrap) :=
  C.ite (C.say (C.text _) (C.ending (h.value part) (C.text _))) (h.value part)

lemma wrappedOf (h : inner.Matches inner' C) {key : String} {part : Part node}
    (hpart : node.require key = .ok part) (wrap : Bool) :
    C.Related (node.under key) (inner.wrapped part wrap) (inner'.wrapped part wrap) :=
  Json.under_of_require hpart ▸ h.wrapped part wrap

lemma wrappedType (h : inner.Matches inner' C) (part : Part node) (wrap : Bool) :
    C.Related part.1.nodes (inner.wrappedType part wrap) (inner'.wrappedType part wrap) :=
  C.ite (C.say (C.text _) (C.ending (h.type part) (C.text _))) (h.type part)

lemma valueAfter (h : inner.Matches inner' C) (lead : String) (part : Option (Part node)) :
    C.Related (Json.nodesIn part) (inner.valueAfter lead part) (inner'.valueAfter lead part) := by
  cases part with
  | none => exact C.pure _
  | some part => exact C.say (C.text _) (h.value part)

lemma typeAfter (h : inner.Matches inner' C) (lead : String) (part : Option (Part node)) :
    C.Related (Json.nodesIn part) (inner.typeAfter lead part) (inner'.typeAfter lead part) := by
  cases part with
  | none => exact C.pure _
  | some part => exact C.say (C.text _) (h.type part)

lemma typeIf (h : inner.Matches inner' C) (part : Option (Part node)) :
    C.Related (Json.nodesIn part) (inner.typeIf part) (inner'.typeIf part) := by
  cases part with
  | none => exact C.pure _
  | some part => exact h.type part

/-- A field that may be missing, after a text. -/
lemma givenAfter (h : inner.Matches inner' C) (lead : String) {key : String}
    {part : Option (Part node)} (hpart : node.given key = .ok part) :
    C.Related (node.under key) (inner.valueAfter lead part) (inner'.valueAfter lead part) :=
  C.mono (Json.nodesIn_le_of_given hpart) (h.valueAfter lead part)

lemma givenTypeAfter (h : inner.Matches inner' C) (lead : String) {key : String}
    {part : Option (Part node)} (hpart : node.given key = .ok part) :
    C.Related (node.under key) (inner.typeAfter lead part) (inner'.typeAfter lead part) :=
  C.mono (Json.nodesIn_le_of_given hpart) (h.typeAfter lead part)

lemma givenType (h : inner.Matches inner' C) (key : String) :
    C.Related (node.under key) (do inner.typeIf (← node.given key))
      (do inner'.typeIf (← node.given key)) :=
  C.reading fun part hpart => C.mono (Json.nodesIn_le_of_given hpart) (h.typeIf part)

lemma field (h : inner.Matches inner' C) (key : String) :
    C.Related (node.under key) (inner.field key) (inner'.field key) :=
  C.reading fun _ hpart => h.valueOf hpart

lemma typeField (h : inner.Matches inner' C) (key : String) :
    C.Related (node.under key) (inner.typeField key) (inner'.typeField key) :=
  C.reading fun _ hpart => h.typeOf hpart

end Inner.Matches

end EstreePrinter
