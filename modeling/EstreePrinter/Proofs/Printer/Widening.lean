import Mathlib
import EstreePrinter.Proofs.Printer.Composition
import EstreePrinter.Proofs.Render.Widening

/-!
# Layout is monotone in the width

Of two prints of a tree the one with more width has its lists, calls, declarations and conditional
expressions broken in no more places, and has no more line feeds (`print_widens`).

The places are compared in the renderings in which every node is announced (`announcedWhole`): the
commands of a print are those without the notes, and the notes tell to which node a place belongs.
-/

namespace EstreePrinter

open Render (treeWith announced)

/-- The whole rendering of a tree, with every node announced. -/
def announcedWhole (root : Json) : Render Unit := do
  treeWith announced .value root
  Render.drainAfterStatement

lemma mirrors_announcedWhole (root : Json) :
    Render.Mirrors Eq (renderWhole root) (announcedWhole root) :=
  (Render.mirrors_tree_announced .value root).bind fun _ _ _ => Render.mirrors_drainAfterStatement

/-- The commands of a tree are those of its announced rendering without the notes. -/
lemma announcedWhole_of_commandsOf {options : Options} {root : Json} {commands : List Command}
    (h : commandsOf options root = .ok commands) :
    ∃ e, announcedWhole root options.setting [] = .ok e ∧ Command.unnoted e.commands = commands := by
  obtain ⟨e, he, rfl⟩ := exists_render_of_commandsOf h
  obtain ⟨e', he', -, hcommands, -⟩ := mirrors_announcedWhole root _ _ _ he
  exact ⟨e', he', hcommands⟩

lemma eased_announcedWhole (root : Json) : Render.Eased (announcedWhole root) :=
  Render.eased_bind (Render.eased_announced .value root) fun _ => Render.eased_drainAfterStatement

/-- Notes write no line feed. -/
lemma lineFeedsAll_unnoted (commands : List Command) :
    Command.lineFeedsAll (Command.unnoted commands) = Command.lineFeedsAll commands := by
  induction commands with
  | nil => rfl
  | cons c rest ih =>
      rw [Command.unnoted_cons, Command.lineFeedsAll_cons, ← ih]
      cases h : c.noted? with
      | none => exact Command.lineFeedsAll_cons _ _
      | some node =>
          cases c with
          | foreignChunk v span =>
              simp [Command.leaves, Command.lineFeeds, Command.textAt]
          | _ => cases h

/-- **Layout is monotone in the width.**  If a tree can be printed under two options that agree on
the quotes, the second with no less width, then the announced renderings behind the two prints have
the same sites, each of which is broken under less width if it is under more; and the code has at
most as many line feeds under more width as it has under less. -/
theorem print_widens (o o' : Options) (hquotes : o.quotes = o'.quotes) (hwidth : o.width ≤ o'.width)
    (tree : Json) (out out' : Output) (h : printTree o tree = .ok out)
    (h' : printTree o' tree = .ok out') :
    (∃ root narrow wide, asProgram tree = .ok root ∧
      announcedWhole root o.setting [] = .ok narrow ∧
      commandsOf o root = .ok (Command.unnoted narrow.commands) ∧
      announcedWhole root o'.setting [] = .ok wide ∧
      commandsOf o' root = .ok (Command.unnoted wide.commands) ∧
      (Command.sites [] narrow.commands).Forall₂ Command.Site.Widens
        (Command.sites [] wide.commands)) ∧
    out'.code.toList.count '\n' ≤ out.code.toList.count '\n' := by
  obtain ⟨root, commands, marks, hroot, hcommands, hlinear⟩ := stages_of_print h
  obtain ⟨root', commands', marks', hroot', hcommands', hlinear'⟩ := stages_of_print h'
  obtain rfl : root = root' := Except.ok.inj (hroot.symm.trans hroot')
  obtain ⟨narrow, hnarrow, rfl⟩ := announcedWhole_of_commandsOf hcommands
  obtain ⟨wide, hwide, rfl⟩ := announcedWhole_of_commandsOf hcommands'
  have hsetting : o.setting.Widens o'.setting :=
    ⟨by simp [Options.setting, hquotes], rfl, by simpa [Options.setting] using hwidth⟩
  have hwidened := (eased_announcedWhole root _ _ _ _ _ hsetting hnarrow hwide).commands
  refine ⟨⟨root, narrow, wide, hroot, hnarrow, hcommands, hwide, hcommands', hwidened.sites []⟩, ?_⟩
  rw [count_of_linearize o.lineFeed_notMem_indent hlinear,
    count_of_linearize o'.lineFeed_notMem_indent hlinear', lineFeedsAll_unnoted,
    lineFeedsAll_unnoted]
  exact hwidened.lineFeedsAll_le

/-- The array of a name behind a hole, with every item on a line of its own under a width of one,
and on one line under the width that is usual. -/
theorem print_widens_holedArray :
    ∃ out out', printTree { encode := false, width := 1 } holedArray = .ok out ∧
      printTree { encode := false } holedArray = .ok out' ∧
      out.code.toList.count '\n' = 3 ∧ out'.code.toList.count '\n' = 0 ∧
      out'.code.toList.count '\n' ≤ out.code.toList.count '\n' := by
  obtain ⟨out, hout, hcode⟩ := printTree_holedArray { encode := false, width := 1 } rfl
  obtain ⟨out', hout', hcode'⟩ := printTree_holedArray { encode := false } rfl
  have hwidens := print_widens { encode := false, width := 1 } { encode := false } rfl (by decide)
    holedArray out out' hout hout'
  refine ⟨out, out', hout, hout', ?_, ?_, hwidens.2⟩
  · rw [hcode]
    rfl
  · rw [hcode']
    rfl

end EstreePrinter
