import Mathlib
import EstreePrinter.Proofs.Printer.Finished
import EstreePrinter.Proofs.Printer.Whitespace

/-!
# Rendering does not look back

All that is rendered goes behind the same commands, and nothing that was emitted earlier has an
influence on what is emitted later.

For a rule that hands its commands over this is so because it cannot see what it will stand behind.
Done in place it is another matter: there are indices into the common sequence, a width measured
between them, and slots by number among the slots of all others.  An index taken too early, or a
measure that goes too far, would let a text change the layout of a list behind it.  That it does not
is `InPlace.builds`, and **`handle_independent`** says it of every node, rendered either way in two
renderings whose commands and slots may be anything.
-/

namespace EstreePrinter

namespace Rendering

/-- Two renderings that agree on all that a node may depend on: the setting, whether several lines
are needed, and the comments that wait.  What has been emitted may be different in the two. -/
structure Agree (r r' : Rendering) : Prop where
  setting : r.setting = r'.setting
  multiline : r.multiline = r'.multiline
  queue : r.draft.queue = r'.draft.queue

end Rendering

/-- **Rendering does not look back.**  In two renderings that agree on the setting, on the need for
several lines and on the waiting comments, but have emitted whatever commands and made whatever
slots, the rendering of a node fails with the same fault, or it adds the same commands with the same
contents of their placeholders, leaves all that was there before as it was, and the two agree again
afterwards.

The node can also be rendered in place, and however that is done it comes to the same: the same
fault, or new pieces behind the old ones which come out as these commands, whatever the slots of
before hold. -/
theorem handle_independent (role : Role) (node : Json) (r r' : Rendering) (h : r.Agree r') :
    (∃ b, InPlace (Render.tree role node) b) ∧
    ((∃ fault, r.handle role node = .error fault ∧ r'.handle role node = .error fault ∧
      ∀ b, InPlace (Render.tree role node) b → r.draft.IsBound → r'.draft.IsBound →
        b r = .error (.fault fault) ∧ b r' = .error (.fault fault)) ∨
    ∃ after after' added,
      r.handle role node = .ok after ∧ r'.handle role node = .ok after' ∧
      r.Extends after added ∧ r'.Extends after' added ∧ after.Agree after' ∧
      ∀ b, InPlace (Render.tree role node) b → r.draft.IsBound → r'.draft.IsBound →
        ∃ built built', b r = .ok ((), built) ∧ b r' = .ok ((), built') ∧
          r.draft.Grows built.draft (added.map .command) ∧
          r'.draft.Grows built'.draft (added.map .command) ∧
          built.Agree after ∧ built'.Agree after') := by
  refine ⟨Render.exists_inPlace role node, ?_⟩
  obtain ⟨hsetting, hmultiline, hqueue⟩ := h
  cases hx : Render.tree role node r.setting r.draft.queue with
  | error fault =>
      have hx' : Render.tree role node r'.setting r'.draft.queue = .error fault := by
        rw [← hsetting, ← hqueue, hx]
      exact Or.inl ⟨fault, Rendering.handle_of_error hx, Rendering.handle_of_error hx',
        fun b hb hr hr' => ⟨Rendering.inPlace_of_error hb hr hx,
          Rendering.inPlace_of_error hb hr' hx'⟩⟩
  | ok e =>
      have hx' : Render.tree role node r'.setting r'.draft.queue = .ok e := by
        rw [← hsetting, ← hqueue, hx]
      obtain ⟨after, hafter, hextends, hlines, hwaiting⟩ := Rendering.handle_of_ok hx
      obtain ⟨after', hafter', hextends', hlines', hwaiting'⟩ := Rendering.handle_of_ok hx'
      refine Or.inr ⟨after, after', e.commands, hafter, hafter', hextends, hextends', ?_, ?_⟩
      · exact ⟨by rw [hextends.setting, hsetting, hextends'.setting],
          by rw [hlines, hmultiline, hlines'], by rw [hwaiting, hwaiting']⟩
      · intro b hb hr hr'
        obtain ⟨built, hbuilt, hgrows⟩ := Rendering.inPlace_of_ok hb hr hx
        obtain ⟨built', hbuilt', hgrows'⟩ := Rendering.inPlace_of_ok hb hr' hx'
        exact ⟨built, built', hbuilt, hbuilt', hgrows.draft, hgrows'.draft,
          ⟨hgrows.setting.trans hextends.setting.symm, hgrows.multiline.trans hlines.symm,
            hgrows.queue.trans hwaiting.symm⟩,
          ⟨hgrows'.setting.trans hextends'.setting.symm, hgrows'.multiline.trans hlines'.symm,
            hgrows'.queue.trans hwaiting'.symm⟩⟩

/-- A draft with an open slot and a text in it. -/
def wordyDraft : Draft where
  pieces := [.slot 0, .command (.text "something else")]
  slots := [{ name := "outer" }]

/-- A list that fills the width, behind nothing, and behind an open slot and a text: it stays on one
line in both cases, and also in place. -/
theorem handle_independent_holedArray :
    ∃ after after' b built built',
      ({ setting := { width := 8 } } : Rendering).handle .value holedArray = .ok after ∧
      ({ setting := { width := 8 }, draft := wordyDraft } : Rendering).handle .value holedArray
        = .ok after' ∧
      after.draft.commands = holedCommands false ∧
      after'.draft.commands = [.pending "outer", .text "something else"] ++ holedCommands false ∧
      InPlace (Render.tree .value holedArray) b ∧
      b { setting := { width := 8 } } = .ok ((), built) ∧
      b { setting := { width := 8 }, draft := wordyDraft } = .ok ((), built') ∧
      Draft.Grows {} built.draft ((holedCommands false).map .command) ∧
      wordyDraft.Grows built'.draft ((holedCommands false).map .command) := by
  have htree : Render.tree .value holedArray { width := 8 } [] =
      .ok ⟨(), holedCommands false, false, []⟩ := tree_holedArray _
  obtain ⟨last, hlast, hlastextends, -⟩ :=
    Rendering.handle_of_ok (r := { setting := { width := 8 } }) htree
  obtain ⟨⟨b, hb⟩, ⟨fault, hfault, -⟩ | ⟨after, after', added, hafter, hafter', hextends,
      hextends', hagree, hplace⟩⟩ := handle_independent .value holedArray
    { setting := { width := 8 } } { setting := { width := 8 }, draft := wordyDraft } ⟨rfl, rfl, rfl⟩
  · rw [hlast] at hfault
    cases hfault
  · obtain rfl : last = after := Except.ok.inj (hlast.symm.trans hafter)
    obtain rfl : holedCommands false = added :=
      List.append_cancel_left (hlastextends.commands.symm.trans hextends.commands)
    obtain ⟨built, built', hbuilt, hbuilt', hgrows, hgrows', -⟩ := hplace b hb
      (by simp [Draft.IsBound]) (by simp [Draft.IsBound, wordyDraft])
    exact ⟨last, after', b, built, built', hafter, hafter', hextends.commands, hextends'.commands,
      hb, hbuilt, hbuilt', hgrows, hgrows'⟩

end EstreePrinter
