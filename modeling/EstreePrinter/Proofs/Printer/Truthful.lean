import Mathlib
import EstreePrinter.Proofs.Printer.Finished
import EstreePrinter.Proofs.Printer.Leaving
import EstreePrinter.Proofs.Render.Truthful

/-!
# Whether several lines are needed

A rendering under way carries a flag that tells whether what was rendered needs several lines.  It
tells the truth: after a node was handled the flag is set just if the text of the new commands has a
line feed in it (`handle_tells_lines`).

It does not tell of a block comment with a line feed in it that was waiting when a call was handled,
and that goes between two arguments (`arguments_hide_lineFeed`).
-/

namespace EstreePrinter

/-- **The flag tells the truth.**  Let a node without comments, programs and decorators, whose texts
other than those of literals and templates have no line feed, be handled from a state whose flag is
not set, and in which every waiting comment with a line feed in it is a line comment.  If that
succeeds, the flag is set just if the text of the commands that were added has a line feed in it. -/
theorem handle_tells_lines {before after : Rendering} {role : Role} {node : Json}
    (hinline : node.isInline = true) (hplain : ∀ owner ∈ node.nodes, owner.IsUnadorned)
    (hqueue : ∀ comment ∈ before.draft.queue, comment.IsBrief) (hflag : before.multiline = false)
    (h : before.handle role node = .ok after) :
    ∃ added, after.draft.commands = before.draft.commands ++ added ∧
      ∀ (indent code : String) (marks : List (List Mark)), '\n' ∉ indent.toList →
        linearize added indent = .ok (code, marks) →
          (after.multiline = true ↔ '\n' ∈ code.toList) := by
  obtain ⟨e, he, -, rfl⟩ := Rendering.run_eq_ok_iff.mp (Rendering.handle_eq_ok_iff.mp h)
  have htells := (Render.truthful_tree role (Or.inr hinline) hplain _ _ _ hqueue he).2 rfl
  refine ⟨e.commands, Draft.commands_append _ _ _, fun indent code marks hindent hwritten => ?_⟩
  rw [hflag, Bool.false_or, htells, ← count_of_linearize hindent hwritten]
  rw [Ne, List.count_eq_zero, not_not]

/-- A string literal that goes on behind the end of its line. -/
def continuedLiteral : Json :=
  .obj [("type", .str "Literal"), ("value", .str "ab"), ("raw", .str "'a\\\nb'")]

/-- It sets the flag, and its text has a line feed, while a line comment is waiting. -/
theorem handle_tells_lines_continuedLiteral :
    ∃ after code marks,
      ({ setting := {}, draft := { queue := [placelessComment "Line" " c"] } } : Rendering).handle
          .value continuedLiteral = .ok after ∧
        linearize after.draft.commands "\t" = .ok (code, marks) ∧
        after.multiline = true ∧ '\n' ∈ code.toList := by
  have htree (s : Setting) (q : List Json) : Render.tree .value continuedLiteral s q =
      .ok ⟨(), [.chunk "'a\\\nb'" none], true, q⟩ := by
    rw [Render.tree_of_isPlain "Literal" ⟨rfl, rfl⟩ rfl rfl]
    rfl
  have hplain : ∀ owner ∈ continuedLiteral.nodes, owner.IsUnadorned := by
    intro owner howner
    obtain rfl : owner = continuedLiteral := by
      simpa [continuedLiteral, Json.nodes, Json.nodesAmong] using howner
    exact ⟨rfl, rfl, fun kind hkind => by obtain rfl := Except.ok.inj hkind; rfl⟩
  have hqueue : ∀ comment ∈ [placelessComment "Line" " c"], comment.IsBrief := by
    intro comment hcomment
    obtain rfl := List.mem_singleton.mp hcomment
    exact fun _ => rfl
  let before : Rendering := { setting := {}, draft := { queue := [placelessComment "Line" " c"] } }
  have hhandle := Rendering.handle_eq_ok_iff.mpr (Rendering.run_eq_ok_iff.mpr
    ⟨_, htree before.setting before.draft.queue, rfl, rfl⟩)
  obtain ⟨added, hadded, htells⟩ := handle_tells_lines rfl hplain hqueue rfl hhandle
  have hchunk :
      before.draft.commands ++ [.chunk "'a\\\nb'" none] = before.draft.commands ++ added :=
    (Draft.commands_append _ _ _).symm.trans hadded
  obtain rfl := List.append_cancel_left hchunk
  have hwritable : ∀ c ∈ Command.leavesAll [.chunk "'a\\\nb'" none], c.IsWritable := by
    simp [Command.leaves, Command.IsWritable]
  have hbalanced : Command.Balanced (Command.leavesAll [.chunk "'a\\\nb'" none]) := by
    rw [Command.balanced_iff_levels]
    rfl
  obtain ⟨⟨code, marks⟩, hlinear⟩ | ⟨e, he⟩ := linearize_of_isWritable "\t" hwritable
  · exact ⟨_, code, marks, hhandle, hadded ▸ hlinear, rfl,
      (htells "\t" code marks (by decide) hlinear).mp rfl⟩
  · exact absurd he (linearize_ne_layout (by decide) hbalanced e)

/-- The call `f(a, b)`. -/
def callOfTwo : Json :=
  let name (s : String) : Json := .obj [("type", .str "Identifier"), ("name", .str s)]
  .obj [("type", .str "CallExpression"), ("callee", name "f"),
    ("arguments", .arr [name "a", name "b"])]

/-- A block comment with a line feed in it goes between the arguments of a call, and the flag stays
as it was. -/
theorem arguments_hide_lineFeed :
    (({ setting := {}, draft := { queue := [placelessComment "Block" "x\ny"] } } :
        Rendering).handle .value callOfTwo).toOption.map (fun after =>
          (after.multiline, (linearize after.draft.commands "\t").toOption.map Prod.fst)) =
      some (false, some "f(a, /*x\ny*/ b)") := by
  decide +kernel

end EstreePrinter
