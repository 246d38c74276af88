import Mathlib
import EstreePrinter.Draft
import EstreePrinter.Printer
import EstreePrinter.Proofs.Draft.Lists
import EstreePrinter.Proofs.Linearizer.Success
import EstreePrinter.Proofs.Render.Plain
import EstreePrinter.Proofs.Render.Settled

/-!
# Printing never runs into its own layout rules

A layout error would say that a placeholder was left without contents, or that levels of indentation
were not closed as they were opened.  No tree, however malformed, leads to one: what a rendering
adds to the commands is finished in itself (`Rendering.Extends`), and that is all a print consists
of.

* `Rendering.run_extends` — what one step adds to a rendering under way;
* `Rendering.inPlace_cases` — what it adds if it is taken in place, where slots are made and filled
  among those of others;
* **`print_settled`** — the same for whole prints.
-/

namespace EstreePrinter

namespace Draft

/-- Commands that are added behind a draft come out behind it, as they are. -/
lemma commands_append (d : Draft) (added : List Command) (queue : List Json) :
    ({ d with pieces := d.pieces ++ added.map .command, queue := queue } : Draft).commands =
      d.commands ++ added := by
  have hadded : ∀ inside, (added.map Piece.command).flatMap (place d.slots inside) = added := by
    intro inside
    induction added with
    | nil => rfl
    | cons c rest ih => simp [place, ih]
  simp only [commands, expand, List.flatMap_append, hadded]

end Draft

namespace Rendering

/-- **What a step does to a rendering under way**: the commands so far stay, and in front of the new
ones; no slot is made, filled or changed; the new commands are finished in themselves; the setting
is the same; and if several lines were needed, they still are.  A step that hands its commands over
cannot do otherwise with slots and setting; for one in place there is `Builds`. -/
structure Extends (before after : Rendering) (added : List Command) : Prop where
  pieces : after.draft.pieces = before.draft.pieces ++ added.map .command
  commands : after.draft.commands = before.draft.commands ++ added
  slots : after.draft.slots = before.draft.slots
  settled : Command.Settled added
  setting : after.setting = before.setting
  multiline : before.multiline = true → after.multiline = true

lemma run_eq_ok_iff {α : Type} {before after : Rendering} {x : Render α} {a : α} :
    before.run x = .ok (a, after) ↔
      ∃ e, x before.setting before.draft.queue = .ok e ∧ e.value = a ∧
        after = { before with
          multiline := before.multiline || e.multiline
          draft := { before.draft with
            pieces := before.draft.pieces ++ e.commands.map .command
            queue := e.queue } } := by
  rw [run, Draft.render]
  cases x before.setting before.draft.queue with
  | error fault => simp
  | ok e => simp [eq_comm]

lemma run_extends {α : Type} {before after : Rendering} {x : Render α} {a : α}
    (hx : Render.Settles x) (h : before.run x = .ok (a, after)) :
    ∃ added, before.Extends after added := by
  obtain ⟨e, he, -, rfl⟩ := run_eq_ok_iff.mp h
  exact ⟨e.commands,
    { pieces := rfl
      commands := Draft.commands_append _ _ _
      slots := rfl
      settled := hx _ _ _ he
      setting := rfl
      multiline := fun hmultiline => by simp [hmultiline] }⟩

lemma handle_eq_ok_iff {before after : Rendering} {role : Role} {node : Json} :
    before.handle role node = .ok after ↔ before.run (Render.tree role node) = .ok ((), after) := by
  rw [handle, bind_eq_ok_iff]
  constructor
  · rintro ⟨⟨_, r⟩, hr, hafter⟩
    obtain rfl : r = after := Except.ok.inj hafter
    exact hr
  · intro h
    exact ⟨((), after), h, rfl⟩

/-! ## In place -/

/-- **What a step in place does to a rendering under way**: the pieces and slots so far stay as they
are; the pieces behind them come out as commands that are finished in themselves, whatever the slots
so far hold; the setting is the same; and if several lines were needed, they still are. -/
structure Builds (before built : Rendering) (added : List Command) : Prop where
  draft : before.draft.Grows built.draft (added.map .command)
  settled : Command.Settled added
  setting : built.setting = before.setting
  multiline : before.multiline = true → built.multiline = true

section

variable {r : Rendering} {role : Role} {node : Json}

lemma handle_of_error {fault : Fault}
    (h : Render.tree role node r.setting r.draft.queue = .error fault) :
    r.handle role node = .error fault := by
  rw [handle, run, Draft.render, h]
  rfl

lemma handle_of_ok {e : Emission Unit}
    (h : Render.tree role node r.setting r.draft.queue = .ok e) :
    ∃ after, r.handle role node = .ok after ∧ r.Extends after e.commands ∧
      after.multiline = (r.multiline || e.multiline) ∧ after.draft.queue = e.queue := by
  have hrun := run_eq_ok_iff.mpr ⟨e, h, rfl, rfl⟩
  refine ⟨_, handle_eq_ok_iff.mpr hrun, ?_, rfl, rfl⟩
  obtain ⟨added, hextends⟩ := run_extends (Render.settled.tree role node) hrun
  have hsame : added.map Piece.command = e.commands.map .command :=
    List.append_cancel_left (hextends.pieces.symm.trans rfl)
  have hinjective : Function.Injective Piece.command := fun c d hcd => Piece.command.inj hcd
  exact hinjective.list_map hsame ▸ hextends

variable {b : Building Unit} (hb : InPlace (Render.tree role node) b) (hr : r.draft.IsBound)

include hb hr

lemma inPlace_of_error {fault : Fault}
    (h : Render.tree role node r.setting r.draft.queue = .error fault) :
    b r = .error (.fault fault) := by
  have hboth := hb.builds r hr
  rw [h] at hboth
  generalize b r = right at hboth ⊢
  cases hboth with
  | fault => rfl

lemma inPlace_of_ok {e : Emission Unit}
    (h : Render.tree role node r.setting r.draft.queue = .ok e) :
    ∃ after, b r = .ok ((), after) ∧
      r.Grows after (e.commands.map .command) e.multiline e.queue := by
  have hboth := hb.builds r hr
  rw [h] at hboth
  generalize b r = right at hboth ⊢
  cases hboth with
  | @done _ v after h => exact ⟨after, rfl, h.2⟩

/-- **A node in place** fails with the fault it has, and with no layout error, or it adds what it
adds anyway. -/
lemma inPlace_cases :
    (∃ fault, r.handle role node = .error fault ∧ b r = .error (.fault fault)) ∨
      ∃ after built added, r.handle role node = .ok after ∧ b r = .ok ((), built) ∧
        r.Extends after added ∧ r.Builds built added := by
  cases htree : Render.tree role node r.setting r.draft.queue with
  | error fault =>
      exact Or.inl ⟨fault, handle_of_error htree, inPlace_of_error hb hr htree⟩
  | ok e =>
      obtain ⟨after, hafter, hextends, -⟩ := handle_of_ok htree
      obtain ⟨built, hbuilt, hgrows⟩ := inPlace_of_ok hb hr htree
      refine Or.inr ⟨after, built, e.commands, hafter, hbuilt, hextends,
        { draft := hgrows.draft
          settled := hextends.settled
          setting := hgrows.setting
          multiline := fun hmultiline => ?_ }⟩
      rw [hgrows.multiline, hmultiline, Bool.true_or]

end

end Rendering

/-! ## Whole prints -/

/-- No comment waits behind a statement any more. -/
lemma Render.drainAfterStatement_queue {s : Setting} {q : List Json} {e : Emission Unit}
    (h : Render.drainAfterStatement s q = .ok e) : e.queue = [] := by
  obtain ⟨commands, -, rfl⟩ := Render.drainAfterStatement_eq_ok_iff.mp h
  rfl

/-- The whole rendering of a tree, with the comments that still wait behind it. -/
def renderWhole (root : Json) : Render Unit := do
  Render.tree .value root
  Render.drainAfterStatement

lemma commandsOf_eq (options : Options) (root : Json) :
    commandsOf options root =
      match renderWhole root options.setting [] with
      | .error fault => .error (.fault (fault.withSource options.content))
      | .ok emission =>
        match Command.checkResolved emission.commands with
        | .error e => .error (.layout e)
        | .ok () => pure emission.commands := rfl

lemma renderWhole_settles (root : Json) : Render.Settles (renderWhole root) :=
  Render.settles_bind (Render.settled.tree .value root) fun _ => Render.settles_drainAfterStatement

/-- The commands of a tree are finished, and nothing else keeps them from being given. -/
lemma commandsOf_of_render {options : Options} {root : Json} {e : Emission Unit}
    (h : renderWhole root options.setting [] = .ok e) :
    commandsOf options root = .ok e.commands := by
  have hsettled := renderWhole_settles root _ _ _ h
  rw [commandsOf_eq, h]
  simp [(Command.checkResolved_eq_ok_iff e.commands).mpr hsettled.resolved]

/-- Commands that are given are what the whole rendering emits. -/
lemma exists_render_of_commandsOf {options : Options} {root : Json} {commands : List Command}
    (h : commandsOf options root = .ok commands) :
    ∃ e, renderWhole root options.setting [] = .ok e ∧ e.commands = commands := by
  cases hwhole : renderWhole root options.setting [] with
  | error fault =>
      rw [commandsOf_eq, hwhole] at h
      cases h
  | ok e => exact ⟨e, rfl, Except.ok.inj ((commandsOf_of_render hwhole).symm.trans h)⟩

/-- A tree whose rendering ends has finished commands; otherwise the tree has a fault. -/
lemma commandsOf_cases (options : Options) (root : Json) :
    (∃ commands, commandsOf options root = .ok commands ∧ Command.Settled commands) ∨
      ∃ fault, commandsOf options root = .error (.fault fault) := by
  cases h : renderWhole root options.setting [] with
  | ok e =>
      exact Or.inl ⟨e.commands, commandsOf_of_render h, renderWhole_settles root _ _ _ h⟩
  | error fault =>
      refine Or.inr ⟨fault.withSource options.content, ?_⟩
      rw [commandsOf_eq, h]

lemma Options.indent_ne_empty (options : Options) : options.indent ≠ "" := by
  intro h
  exact options.indent_ne_nil (by rw [h]; rfl)

/-- Writing the map down has its own errors, none of which is about the layout. -/
lemma mapOf_ne_layout (options : Options) (marks : List (List Mark)) (e : LayoutError) :
    mapOf options marks ≠ .error (.layout e) := by
  unfold mapOf
  split
  · exact bind_ne_layout (ofFault_ne_layout _ e) fun lines _ => by simp
  · simp

/-- A print never ends in a layout error. -/
lemma printTree_ne_layout (options : Options) (tree : Json) (e : LayoutError) :
    printTree options tree ≠ .error (.layout e) := by
  refine bind_ne_layout (ofFault_ne_layout _ e) fun root _ => ?_
  rcases commandsOf_cases options root with ⟨commands, hcommands, hsettled⟩ | ⟨fault, hfault⟩
  · rw [hcommands, ok_bind]
    refine bind_ne_layout (linearize_ne_layout options.indent_ne_empty hsettled.balanced e) ?_
    rintro ⟨code, marks⟩ -
    exact bind_ne_layout (mapOf_ne_layout options marks e) fun map _ => by simp
  · rw [hfault]
    simp

/-- **Printing keeps the rules of layout.**  No print ends in a layout error.  Whenever the
rendering of the root and the final drain of the waiting comments end, no comment waits any more,
and the commands of the print are finished: each placeholder in them has its contents, no beginning
of their leaves closes more levels than it opens, and all levels are closed.  In whatever state the
rendering of a node starts, what it does is described by `Rendering.Extends`.  Done in place, where
a slot could be left open or filled twice, it has no layout error either, and does what
`Rendering.Builds` says. -/
theorem print_settled :
    (∀ (options : Options) (tree : Json) (e : LayoutError),
      printTree options tree ≠ .error (.layout e)) ∧
    (∀ (options : Options) (root : Json) (rendered drained : Rendering),
      ({ setting := options.setting } : Rendering).handle .value root = .ok rendered →
      rendered.run Render.drainAfterStatement = .ok ((), drained) →
        drained.draft.queue = [] ∧
        commandsOf options root = .ok drained.draft.commands ∧
        Command.Settled drained.draft.commands ∧
        Command.checkResolved drained.draft.commands = .ok () ∧
        ∀ e, linearize drained.draft.commands options.indent ≠ .error (.layout e)) ∧
    (∀ (role : Role) (node : Json) (before after : Rendering),
      before.handle role node = .ok after → ∃ added, before.Extends after added) ∧
    (∀ (role : Role) (node : Json), ∃ b, InPlace (Render.tree role node) b) ∧
    ∀ (role : Role) (node : Json) (before : Rendering) (b : Building Unit),
      InPlace (Render.tree role node) b → before.draft.IsBound →
        (∃ fault, before.handle role node = .error fault ∧ b before = .error (.fault fault)) ∨
          ∃ after built added, before.handle role node = .ok after ∧ b before = .ok ((), built) ∧
            before.Extends after added ∧ before.Builds built added := by
  refine ⟨printTree_ne_layout, ?_, ?_, Render.exists_inPlace,
    fun role node before b hb hbound => Rendering.inPlace_cases hb hbound⟩
  · intro options root rendered drained hrendered hdrained
    obtain ⟨first, hfirst, -, rfl⟩ := Rendering.run_eq_ok_iff.mp
      (Rendering.handle_eq_ok_iff.mp hrendered)
    obtain ⟨last, hlast, -, rfl⟩ := Rendering.run_eq_ok_iff.mp hdrained
    have hwhole : renderWhole root options.setting [] = .ok (first.andThen last) :=
      Render.bind_eq_of_ok hfirst hlast
    have hsettled := renderWhole_settles root _ _ _ hwhole
    -- what the draft holds in the end is what the two steps have emitted
    have hcommands : ∀ (queue : List Json), Draft.commands
        { pieces := first.commands.map .command ++ last.commands.map .command, queue := queue } =
          (first.andThen last).commands := by
      intro queue
      have h := Draft.commands_append {} (first.andThen last).commands queue
      simpa [Emission.andThen, Draft.commands, Draft.expand] using h
    have hqueue : last.queue = [] := Render.drainAfterStatement_queue hlast
    simp only [List.nil_append, hcommands]
    exact ⟨hqueue, commandsOf_of_render hwhole, hsettled,
      (Command.checkResolved_eq_ok_iff _).mpr hsettled.resolved,
      linearize_ne_layout options.indent_ne_empty hsettled.balanced⟩
  · intro role node before after h
    exact Rendering.run_extends (Render.settled.tree role node) (Rendering.handle_eq_ok_iff.mp h)

/-- A statement with a comment behind it, which waits until the end. -/
def notedStatement : Json :=
  .obj [("type", .str "DebuggerStatement"),
    ("trailingComments", .arr [.obj [("type", .str "Line"), ("value", .str "x")]])]

/-- The comment behind the statement waits after the rendering and has its place after the drain.
The second part starts from a draft with an open slot. -/
theorem print_settled_notedStatement :
    (∃ rendered drained,
      ({ setting := ({} : Options).setting } : Rendering).handle .value notedStatement
          = .ok rendered ∧
        rendered.draft.queue.length = 1 ∧
        rendered.run Render.drainAfterStatement = .ok ((), drained) ∧
        drained.draft.queue = [] ∧
        commandsOf {} notedStatement = .ok drained.draft.commands ∧
        drained.draft.commands.length = 4) ∧
    ∃ after added,
      ({ setting := {}, draft := { pieces := [.slot 0], slots := [{ name := "outer" }] } } :
          Rendering).handle .bare notedStatement = .ok after ∧
        after.draft.commands = .pending "outer" :: added ∧ Command.Settled added ∧
        ∃ b built, InPlace (Render.tree .bare notedStatement) b ∧
          b { setting := {}, draft := { pieces := [.slot 0], slots := [{ name := "outer" }] } } =
            .ok ((), built) ∧
          ∃ made, built.draft.slots = { name := "outer" } :: made := by
  obtain ⟨-, hwhole, hlocal, hexists, hplace⟩ := print_settled
  have htree (role : Role) (hrole : role ≠ .type) (s : Setting) :
      Render.tree role notedStatement s [] = .ok ⟨(), [.chunk "debugger" none, .text ";"], false,
        [.obj [("type", .str "Line"), ("value", .str "x")]]⟩ := by
    rw [Render.tree_eq]
    cases role with
    | value => rfl
    | bare => rfl
    | type => exact absurd rfl hrole
  have hhandle (role : Role) (hrole : role ≠ .type) (before : Rendering)
      (hqueue : before.draft.queue = []) :=
    Rendering.handle_eq_ok_iff.mpr (Rendering.run_eq_ok_iff.mpr
      ⟨_, hqueue ▸ htree role hrole before.setting, rfl, rfl⟩)
  refine ⟨⟨_, _, hhandle .value (by decide) _ rfl, rfl, rfl, ?_⟩, ?_⟩
  · obtain ⟨hqueue, hcommands, -⟩ := hwhole {} _ _ _ (hhandle .value (by decide) _ rfl) rfl
    exact ⟨hqueue, hcommands, rfl⟩
  · have hafter := hhandle .bare (by decide)
      { setting := {}, draft := { pieces := [.slot 0], slots := [{ name := "outer" }] } } rfl
    obtain ⟨added, hadded⟩ := hlocal _ _ _ _ hafter
    obtain ⟨b, hb⟩ := hexists .bare notedStatement
    obtain ⟨fault, hfault, -⟩ | ⟨after, built, more, -, hbuilt, -, hbuilds⟩ :=
      hplace .bare notedStatement
        { setting := {}, draft := { pieces := [.slot 0], slots := [{ name := "outer" }] } } b hb
        (by simp [Draft.IsBound, Draft.Bound])
    · rw [hafter] at hfault
      cases hfault
    · obtain ⟨new, made, hgrowth⟩ := hbuilds.draft
      exact ⟨_, added, hafter, hadded.commands, hadded.settled, b, built, hb, hbuilt, made,
        hgrowth.slots⟩

end EstreePrinter
