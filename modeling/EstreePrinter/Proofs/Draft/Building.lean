import Mathlib
import EstreePrinter.Draft
import EstreePrinter.Proofs.Command.Nesting
import EstreePrinter.Proofs.Render.Tree

/-!
# Rendering in place

A rule hands its commands over, and the lists that may break put them together once their decision
is taken.  The same can be done in place, on a draft that everybody shares: what is rendered goes
behind what is there at once, an open place is a slot of the draft, widths are measured between two
indices of the whole sequence, and the slots get their contents last.

* `Building` — a step that is taken in place, with the few things it can do to a draft;
* `Building.sequence`, `Building.bodyAfter`, `Building.declarations`, `Building.callArguments`,
  `Building.branches` — what is decided late, done in place;
* **`InPlace`** — a rendering step and a way to take it in place, all the way down: nothing with a
  placeholder in it is emitted in one piece;
* `exists_inPlace` — every node can be rendered so.
-/

namespace EstreePrinter

open Json (Part)

/-- A step that is taken in place: it works on a rendering under way. -/
abbrev Building := StateT Rendering (Except Error)

/-- A slot of a list that is built in place, with the number of what goes between the items. -/
def Slot.piece (join : Nat) : Slot → Piece
  | .own c => .command c
  | .join => .slot join

namespace Rendering

variable (r : Rendering)

/-- The same rendering with pieces behind it. -/
def push (pieces : List Piece) : Rendering := { r with draft := r.draft.push pieces }

@[simp] lemma push_pieces (pieces : List Piece) :
    (r.push pieces).draft.pieces = r.draft.pieces ++ pieces := rfl

@[simp] lemma push_slots (pieces : List Piece) : (r.push pieces).draft.slots = r.draft.slots := rfl

@[simp] lemma push_queue (pieces : List Piece) : (r.push pieces).draft.queue = r.draft.queue := rfl

@[simp] lemma push_setting (pieces : List Piece) : (r.push pieces).setting = r.setting := rfl

@[simp] lemma push_multiline (pieces : List Piece) : (r.push pieces).multiline = r.multiline := rfl

@[simp] lemma push_nil : r.push [] = r := by simp [push, Draft.push]

/-- The same rendering with other slots. -/
def withSlots (slots : List OpenSlot) : Rendering := { r with draft := { r.draft with slots } }

@[simp] lemma withSlots_slots (slots : List OpenSlot) : (r.withSlots slots).draft.slots = slots :=
  rfl

@[simp] lemma withSlots_withSlots (slots slots' : List OpenSlot) :
    (r.withSlots slots).withSlots slots' = r.withSlots slots' := rfl

@[simp] lemma withSlots_self : r.withSlots r.draft.slots = r := rfl

/-- The same rendering, with several lines needed if `b` says so. -/
def raise (b : Bool) : Rendering := { r with multiline := r.multiline || b }

@[simp] lemma raise_false : r.raise false = r := by simp [raise]

end Rendering

namespace Building

/-! ## Single steps -/

/-- Put pieces behind what is there. -/
def push (pieces : List Piece) : Building Unit := fun r => .ok ((), r.push pieces)

/-- The index behind what is there. -/
def index : Building Nat := fun r => .ok (r.draft.pieces.length, r)

/-- Make a slot. -/
def defer (name : String) : Building Nat := fun r =>
  .ok ((r.draft.defer name).1, { r with draft := (r.draft.defer name).2 })

/-- Give a slot its contents. -/
def resolve (number : Nat) (contents : List Command) : Building Unit := fun r =>
  match r.draft.resolve number (contents.map .command) with
  | .ok draft => .ok ((), { r with draft })
  | .error e => .error (.layout e)

/-- Note that the output needs several lines, if it does. -/
def raiseIf (b : Bool) : Building Unit := fun r => .ok ((), r.raise b)

/-- The setting. -/
def setting : Building Setting := fun r => .ok (r.setting, r)

/-- Let a comment wait for its place. -/
def enqueue (comment : Json) : Building Unit := fun r =>
  .ok ((), { r with draft := r.draft.enqueue [comment] })

/-- Take all comments that wait for their place. -/
def takeQueue : Building (List Json) := fun r =>
  .ok (r.draft.queue, { r with draft := { r.draft with queue := [] } })

/-- A fault found while reading ends the rendering. -/
def read {α : Type} (x : Except Fault α) : Building α := fun r =>
  match x with
  | .ok a => .ok (a, r)
  | .error fault => .error (.fault fault)

/-- Run a step with the reading of `in` changed. -/
def withNoIn {α : Type} (noIn : Bool) (x : Building α) : Building α := fun r =>
  match x { r with setting := { r.setting with noIn := noIn } } with
  | .ok (a, after) => .ok (a, { after with setting := r.setting })
  | .error e => .error e

/-- Run a step and tell whether it needs several lines, without noting it. -/
def fork (x : Building Unit) : Building Bool := fun r =>
  match x { r with multiline := false } with
  | .ok (_, after) => .ok (after.multiline, { after with multiline := r.multiline })
  | .error e => .error e

/-- Whether what stands between two indices is too wide; not asked if several lines are needed
anyway. -/
def exceeds (needed : Bool) (start : Nat) (stop : Option Nat) : Building Bool := fun r =>
  if needed then .ok (true, r)
  else
    match r.draft.measure start (stop.map Int.ofNat) with
    | .ok n => .ok (decide (r.setting.width < n), r)
    | .error fault => .error (.fault fault)

/-- Put a word behind what is there if the field `key` of a node counts as given. -/
def textIf (node : Json) (key word : String) : Building Unit := do
  let given ← read (node.flag key)
  push (if given then [.command (.text word)] else [])

/-! ## Separated lists -/

/-- What goes between an item with its separator and the next one. -/
def itemGap (isLast : Bool) (comments : List Json) : List Slot :=
  if comments.isEmpty then (if isLast then [] else [.join])
  else .own (.text " ") :: Render.itemComments isLast comments

/-- Put what follows an item behind it, and tell whether there are comments in it. -/
def afterItem (separator : String) (join : Nat) (isLast : Bool) : Building Bool := do
  push (if isLast then [] else [.command (.text separator)])
  let comments ← takeQueue
  push ((itemGap isLast comments).map (Slot.piece join))
  pure !comments.isEmpty

/-- Put the items of a separated list behind what is there, with the slot `join` between them, and
tell whether they need several lines. -/
def items {α : Type} (separator : String) (item : α → Building Unit) (join : Nat)
    (afterHole : Bool) : List (Option α) → Building Bool
  | [] => pure false
  | none :: rest => do
    push [.command (.text separator)]
    items separator item join true rest
  | some a :: rest => do
    push (if afterHole then [.slot join] else [])
    let multiline ← fork (item a)
    let noted ← afterItem separator join rest.isEmpty
    let broken ← items separator item join false rest
    pure (multiline || noted || broken)

/-- A separated list. -/
def sequence {α : Type} (spaces : Bool) (separator : String) (item : α → Building Unit)
    (list : List (Option α)) : Building Unit :=
  if list.isEmpty then pure ()
  else do
    let start ← index
    let opening ← defer "sequence-open"
    let join ← defer "sequence-join"
    let closing ← defer "sequence-close"
    push [.slot opening]
    let needed ← items separator item join false list
    push [.slot closing]
    let broken ← exceeds needed start none
    raiseIf broken
    let pad : List Command := if spaces then [.text " "] else []
    resolve opening (if broken then [.indent, .newline] else pad)
    resolve join (if broken then [.newline] else [.text " "])
    resolve closing (if broken then [.dedent, .newline] else pad)

/-! ## Statements -/

/-- Put the waiting comments behind a statement. -/
def drain : Building Unit := do
  let queue ← takeQueue
  let commands ← read (Render.afterStatement false queue)
  push (commands.map .command)

/-- Leave room before a statement that is not the first one. -/
def openMargin : Option Render.Printed → Building Nat
  | none => pure 0
  | some _ => do
    let margin ← defer "margin"
    push [.slot margin, .command .newline]
    pure margin

/-- Decide about the room before a statement, once it is rendered. -/
def closeMargin (margin : Nat) (before : Option Render.Printed) (here : Render.Printed) :
    Building Unit :=
  match before with
  | none => pure ()
  | some before => resolve margin (if Render.separates before here then [.text "\n"] else [])

/-- Statements one to a line, after the statement `before`. -/
def bodyAfter {node : Json} (bare : Part node → Building Unit) (before : Option Render.Printed) :
    List (Part node) → Building Unit
  | [] => pure ()
  | statement :: rest => do
    let kind ← read statement.1.requireKind
    if kind.isText "EmptyStatement" then bodyAfter bare before rest
    else
      let margin ← openMargin before
      let list ← read (statement.1.comments "leadingComments")
      let comments ← read (Render.leading true .null list)
      push (comments.map .command)
      let multiline ← fork (bare statement)
      closeMargin margin before ⟨kind.display, multiline⟩
      drain
      bodyAfter bare (some ⟨kind.display, multiline⟩) rest

/-! ## Declarators -/

/-- Put items behind what is there, with the slot `join` between them, and tell whether they need
several lines. -/
def joined {α : Type} (item : α → Building Unit) (join : Nat) : List α → Building Bool
  | [] => pure false
  | a :: rest => do
    let multiline ← fork (item a)
    push (if rest.isEmpty then [] else [.slot join])
    let broken ← joined item join rest
    pure (multiline || broken)

/-- A variable declaration without its semicolon. -/
def declarations (node : Json) (value : Part node → Building Unit) : Building Unit := do
  let list ← read (node.require "declarations")
  let declarators ← read (Json.parts list)
  textIf node "declare" "declare "
  let kind ← read (node.require "kind")
  let start ← index
  let opening ← defer "declarations-open"
  let join ← defer "declarations-join"
  push [.command (.text (kind.1.display ++ " ")), .slot opening]
  let needed ← joined value join declarators
  let several := decide (1 < declarators.length)
  let broken ← if several then exceeds needed start none else pure needed
  raiseIf broken
  resolve opening (if broken && several then [.indent] else [])
  resolve join (if broken then [.text ",", .newline] else [.text ", "])
  push (if broken && several then [.command .dedent] else [])

/-! ## Arguments -/

/-- Put what goes between two arguments behind what is there: a slot, or the comments that wait for
one.  Tells whether one of them is a line comment. -/
def argumentGap (join : Nat) : Building Bool := do
  let comments ← takeQueue
  if comments.isEmpty then
    push [.slot join]
    pure false
  else
    let found ← read (Render.betweenArguments comments)
    push (.command (.text ", ") :: found.1.map .command)
    pure found.2

/-- What is known of the arguments of a call once they are there. -/
structure Placed where
  /-- Whether the arguments before the last one need several lines. -/
  front : Bool
  /-- Whether the last one does. -/
  last : Bool
  /-- The index of the last one. -/
  stop : Nat

/-- Put the arguments of a call behind what is there. -/
def arguments {node : Json} (value : Part node → Building Unit) (join : Nat) :
    List (Part node) → Building Placed
  | [] => do
    let stop ← index
    pure ⟨false, false, stop⟩
  | [last] => do
    let stop ← index
    let multiline ← fork (value last)
    pure ⟨false, multiline, stop⟩
  | argument :: rest => do
    let multiline ← fork (value argument)
    let line ← argumentGap join
    let others ← arguments value join rest
    pure { others with front := multiline || line || others.front }

/-- The argument list of a call: measured is what stands behind the opening and before the last
argument. -/
def callArguments {node : Json} (value : Part node → Building Unit) : Building Unit := do
  let list ← read (node.require "arguments")
  let parts ← read (Json.parts list)
  let opening ← defer "arguments-open"
  let join ← defer "arguments-join"
  let closing ← defer "arguments-close"
  push [.command (.text "("), .slot opening]
  let start ← index
  let placed ← arguments value join parts
  push [.slot closing, .command (.text ")")]
  let broken ← exceeds placed.front start (some placed.stop)
  raiseIf (broken || placed.last)
  resolve opening (if broken then [.indent, .newline] else [])
  resolve join (if broken then [.text ",", .newline] else [.text ", "])
  resolve closing (if broken then [.dedent, .newline] else [])

/-! ## Branches -/

/-- The two branches of a conditional expression. -/
def branches (x y : Building Unit) : Building Unit := do
  let yes ← defer "conditional-consequent"
  let no ← defer "conditional-alternate"
  push [.slot yes]
  let first ← fork x
  push [.slot no]
  let second ← fork y
  raiseIf (first || second)
  resolve yes (if first || second then [.indent, .newline, .text "? "] else [.text " ? "])
  resolve no (if first || second then [.newline, .text ": "] else [.text " : "])
  push (if first || second then [.command .dedent] else [])

end Building

/-! ## Rendering steps in place -/

/-- **A rendering step and a way to take it in place.** -/
inductive InPlace : {α : Type} → Render α → Building α → Prop
  | pure {α : Type} (a : α) : InPlace (pure a) (pure a)
  | bind {α β : Type} {x : Render α} {f : α → Render β} {b : Building α} {c : α → Building β} :
      InPlace x b → (∀ a, InPlace (f a) (c a)) → InPlace (x >>= f) (b >>= c)
  | read {α : Type} (x : Except Fault α) : InPlace (liftM x) (Building.read x)
  | setting : InPlace Render.setting Building.setting
  | withNoIn {α : Type} (noIn : Bool) {x : Render α} {b : Building α} :
      InPlace x b → InPlace (Render.withNoIn noIn x) (Building.withNoIn noIn b)
  | emit {commands : List Command} : Command.placeholdersAll commands = [] →
      InPlace (Render.emit commands) (Building.push (commands.map .command))
  | raiseIf (b : Bool) : InPlace (Render.raiseIf b) (Building.raiseIf b)
  | enqueue (comment : Json) : InPlace (Render.enqueue comment) (Building.enqueue comment)
  | takeQueue : InPlace Render.takeQueue Building.takeQueue
  | sequence {α : Type} (spaces : Bool) (separator : String) {item : α → Render Unit}
      {place : α → Building Unit} (list : List (Option α)) : (∀ a, InPlace (item a) (place a)) →
      InPlace (Render.sequence spaces separator item list)
        (Building.sequence spaces separator place list)
  | body {node : Json} {inner : Inner node} {bare : Part node → Building Unit}
      (statements : List (Part node)) : (∀ part, InPlace (inner.bare part) (bare part)) →
      InPlace (Render.body inner statements) (Building.bodyAfter bare none statements)
  | declarations {node : Json} {inner : Inner node} {value : Part node → Building Unit} :
      (∀ part, InPlace (inner.value part) (value part)) →
      InPlace (Render.declarations node inner) (Building.declarations node value)
  | arguments {node : Json} {inner : Inner node} {value : Part node → Building Unit} :
      (∀ part, InPlace (inner.value part) (value part)) →
      InPlace (Rules.callArguments inner) (Building.callArguments value)
  | branches {x y : Render Unit} {b c : Building Unit} : InPlace x b → InPlace y c →
      InPlace (do
        let yes ← Render.fork x
        let no ← Render.fork y
        Render.raiseIf (yes.multiline || no.multiline)
        Render.emit (Rules.branches (yes.multiline || no.multiline) yes.commands no.commands))
        (Building.branches b c)

/-! ## Every node -/

/-- Flat commands hold no placeholder. -/
lemma placeholdersAll_of_isFlat {commands : List Command} (h : ∀ c ∈ commands, c.IsFlat) :
    Command.placeholdersAll commands = [] := by
  induction commands with
  | nil => simp
  | cons c rest ih =>
      have hc : Command.placeholders c = [] := by
        have hflat := h c (by simp)
        cases c with
        | deferred name contents => exact absurd hflat id
        | pending name => exact absurd hflat id
        | _ => simp [Command.placeholders]
      rw [Command.placeholdersAll_cons, hc, ih fun d hd => h d (by simp [hd])]
      rfl

namespace Render

lemma exists_inPlace_bind {α β : Type} {x : Render α} {f : α → Render β} (hx : ∃ b, InPlace x b)
    (hf : ∀ a, ∃ c, InPlace (f a) c) : ∃ b, InPlace (x >>= f) b := by
  obtain ⟨b, hb⟩ := hx
  choose c hc using hf
  exact ⟨_, hb.bind hc⟩

lemma exists_inPlace_emit {commands : List Command}
    (h : Command.placeholdersAll commands = []) : ∃ b, InPlace (emit commands) b :=
  ⟨_, .emit h⟩

/-- Everything a rule is made of can be done in place. -/
def inPlace : Invariant where
  Applies _ := True
  applies_inside _ _ := trivial
  Holds x := ∃ b, InPlace x b
  pure a := ⟨_, .pure a⟩
  bind := exists_inPlace_bind
  read x := ⟨_, .read x⟩
  quote h := exists_inPlace_bind ⟨_, .setting⟩ fun s => h s.quote
  noIn h := exists_inPlace_bind ⟨_, .setting⟩ fun s => h s.noIn
  withNoIn b _ := fun ⟨_, h⟩ => ⟨_, h.withNoIn b⟩
  emit h := exists_inPlace_emit (placeholdersAll_of_isFlat h)
  chunk content _ _ := exists_inPlace_bind ⟨_, .read _⟩ fun span => exists_inPlace_emit (by
    cases content <;> simp [Command.chunkOf, Command.placeholders])
  raiseIf b := ⟨_, .raiseIf b⟩
  enqueue comment := ⟨_, .enqueue comment⟩
  takeQueue := ⟨_, .takeQueue⟩
  nested before inside behind _ hflat hx := by
    have hnone (cs : List Command) (hcs : cs ⊆ before ++ inside ++ behind) :
        Command.placeholdersAll cs = [] :=
      placeholdersAll_of_isFlat fun c hc => hflat c (hcs hc)
    refine exists_inPlace_bind (exists_inPlace_emit ?_) fun _ =>
      exists_inPlace_bind hx fun _ => exists_inPlace_emit ?_
    · simp [hnone before (by simp), hnone inside (by simp), Command.placeholders]
    · simp [hnone behind (by simp), Command.placeholders]
  sequence spaces separator item hitem list := by
    choose place hplace using hitem
    exact ⟨_, .sequence spaces separator list hplace⟩
  body hinner statements := by
    choose bare hbare using hinner
    exact ⟨_, .body statements hbare⟩
  declarations hinner := by
    choose value hvalue using hinner
    exact ⟨_, .declarations hvalue⟩
  arguments hinner := by
    choose value hvalue using hinner
    exact ⟨_, .arguments hvalue⟩
  branches := fun ⟨_, hx⟩ ⟨_, hy⟩ => ⟨_, hx.branches hy⟩

instance : inPlace.IsGlobal := ⟨fun _ => trivial⟩

/-- **Every node can be rendered in place.** -/
theorem exists_inPlace (role : Role) (node : Json) : ∃ b, InPlace (tree role node) b :=
  inPlace.tree role node

end Render

end EstreePrinter
