import Mathlib
import EstreePrinter.Proofs.Printer.Total
import EstreePrinter.Proofs.Render.Accounts

/-!
# Comments are conserved

A print emits the comments of the nodes that it handles, all of them and nothing else
(`print_conserves`).  Which nodes are handled is read off a second rendering of the same tree that
leaves a note of each (`notedWhole`); with the notes taken out it is the rendering of the print.

Each node is handled at most as often as it occurs in the tree.  So no comment is emitted twice,
unless the tree has it twice, and a tree without two equal nodes has every node handled at most
once.
-/

namespace EstreePrinter

open Command (events unnoted)
open Render (treeWith noted)

/-! ## Comments and notes -/

/-- The comments among the leaves of commands. -/
lemma commentsIn_events (commands : List Command) :
    commentsIn (events commands) = (Command.leavesAll commands).filterMap Command.comment? := by
  rw [commentsIn, events, List.filterMap_filterMap]
  congr 1
  funext c
  have hnote : ∀ node : Option Json, (node.map Event.handled).bind Event.comment? = none := by
    rintro (_ | node) <;> rfl
  cases c with
  | comment c after => rfl
  | _ => simp [Command.event?, Command.comment?, hnote]

/-- Notes are no comments. -/
lemma commentsIn_unnoted (commands : List Command) :
    commentsIn (events (unnoted commands)) = commentsIn (events commands) := by
  induction commands with
  | nil => rfl
  | cons c rest ih =>
      cases h : c.noted? with
      | none => simp [Command.events_cons, h, ih]
      | some node =>
          have hc : commentsIn ((Command.leaves c).filterMap Command.event?) = [] := by
            cases c with
            | foreignChunk v span =>
                simp [Command.leaves, Command.event?, h, commentsIn, Event.comment?]
            | _ => cases h
          simp [Command.events_cons, h, ih, hc]

/-- Comments that come in from two sides are the comments of one side and those of the other. -/
lemma perm_sides (emitted : List (Json ⊕ Json)) :
    (emitted.map (Sum.elim id id)).Perm
      (emitted.filterMap Sum.getLeft? ++ emitted.filterMap Sum.getRight?) := by
  induction emitted with
  | nil => rfl
  | cons comment rest ih =>
      cases comment with
      | inl c => simpa [List.filterMap_cons] using ih
      | inr c => simpa [List.filterMap_cons] using (ih.cons c).trans List.perm_middle.symm

/-! ## Whole prints -/

/-- The whole rendering of a tree, with a note of each node that is handled. -/
def notedWhole (root : Json) : Render Unit := do
  treeWith noted .value root
  Render.drainAfterStatement

lemma mirrors_renderWhole (root : Json) :
    Render.Mirrors Eq (renderWhole root) (notedWhole root) :=
  (Render.mirrors_tree .value root).bind fun _ _ _ => Render.mirrors_drainAfterStatement

lemma accounted_notedWhole (root : Json) : Render.Accounted root.nodes 0 0 (notedWhole root) :=
  (Render.accounted_tree root).ending Render.accounted_drainAfterStatement

/-- **Comments are conserved.**  Whenever a tree is printed, the rendering with notes succeeds too
and emits, but for the notes, the commands of the print.  Let `handled` be the nodes noted, in the
order in which they were done with.  Then each node is handled at most as often as it occurs in the
tree, and the comments in the print are the comments before the handled nodes and before the cases
of handled `switch` statements, and the first comments behind handled nodes.  The latter come in the
order in which they were queued: the comments can be told apart into `emitted`, with what comes
before a node on the left and what comes behind one on the right. -/
theorem print_conserves (options : Options) (tree : Json) (out : Output)
    (h : printTree options tree = .ok out) :
    ∃ root commands e, asProgram tree = .ok root ∧ commandsOf options root = .ok commands ∧
      notedWhole root options.setting [] = .ok e ∧ unnoted e.commands = commands ∧
      ∃ handled, handledIn (events e.commands) = handled ∧
        (handled : Multiset Json) ≤ root.nodes ∧
        ((Command.leavesAll commands).filterMap Command.comment?).Perm
          (handled.flatMap Json.commentsOn ++ handled.filterMap Json.commentBehind) ∧
        ∃ emitted : List (Json ⊕ Json),
          emitted.map (Sum.elim id id) =
            (Command.leavesAll commands).filterMap Command.comment? ∧
          (emitted.filterMap Sum.getLeft?).Perm (handled.flatMap Json.commentsOn) ∧
          emitted.filterMap Sum.getRight? = handled.filterMap Json.commentBehind := by
  obtain ⟨root, commands, marks, hroot, hcommands, -⟩ := stages_of_print h
  obtain ⟨e, he, rfl⟩ := exists_render_of_commandsOf hcommands
  obtain ⟨e', he', -, hunnoted, -, hqueue⟩ := mirrors_renderWhole root _ _ _ he
  obtain ⟨hhandled, emitted, hemitted, hbefore, hbehind⟩ := accounted_notedWhole root _ _ _ he'
  have hempty : e.queue = [] := by
    obtain ⟨first, -, second, hsecond, rfl⟩ := Render.bind_eq_ok_iff.mp he
    show second.queue = []
    exact Render.drainAfterStatement_queue hsecond
  have hcomments : commentsIn (events e'.commands) =
      (Command.leavesAll e.commands).filterMap Command.comment? := by
    rw [← commentsIn_events, ← hunnoted, commentsIn_unnoted]
  have hleft : (emitted.filterMap Sum.getLeft?).Perm
      ((handledIn (events e'.commands)).flatMap Json.commentsOn) := by
    simpa using hbefore
  have hright : emitted.filterMap Sum.getRight? =
      (handledIn (events e'.commands)).filterMap Json.commentBehind := by
    simpa [hqueue, hempty] using hbehind.symm
  refine ⟨root, e.commands, e', hroot, hcommands, he', hunnoted, _, rfl, hhandled, ?_, emitted,
    hemitted.trans hcomments, hleft, hright⟩
  rw [← hcomments, ← hemitted, ← hright]
  exact (perm_sides emitted).trans (hleft.append_right _)

/-- A `switch` statement with comments before it, behind its discriminant, before a case and behind
the statement of the case. -/
def annotatedSwitch : Json :=
  let node (kind : String) (fields : List (String × Json)) : Json :=
    .obj (("type", .str kind) :: fields)
  let comment (key kind value : String) : String × Json :=
    (key, .arr [node kind [("value", .str value)]])
  .arr [node "SwitchStatement"
    [comment "leadingComments" "Block" "first",
      ("discriminant", node "Identifier"
        [("name", .str "a"), comment "trailingComments" "Block" "second"]),
      ("cases", .arr [node "SwitchCase"
        [("test", .null), comment "leadingComments" "Line" "third",
          ("consequent", .arr [node "DebuggerStatement"
            [comment "trailingComments" "Line" "fourth"]])]])]]

theorem print_conserves_annotatedSwitch :
    ∃ out, printTree {} annotatedSwitch = .ok out ∧
      ∃ root commands e, asProgram annotatedSwitch = .ok root ∧
        commandsOf {} root = .ok commands ∧
        notedWhole root ({} : Options).setting [] = .ok e ∧ unnoted e.commands = commands ∧
        ∃ handled, handledIn (events e.commands) = handled ∧
          (handled : Multiset Json) ≤ root.nodes ∧
          ((Command.leavesAll commands).filterMap Command.comment?).Perm
            (handled.flatMap Json.commentsOn ++ handled.filterMap Json.commentBehind) ∧
          ∃ emitted : List (Json ⊕ Json),
            emitted.map (Sum.elim id id) =
              (Command.leavesAll commands).filterMap Command.comment? ∧
            (emitted.filterMap Sum.getLeft?).Perm (handled.flatMap Json.commentsOn) ∧
            emitted.filterMap Sum.getRight? = handled.filterMap Json.commentBehind := by
  have hestree : annotatedSwitch.isEstree = true := by decide
  obtain ⟨out, hout⟩ := exists_print {} hestree
  exact ⟨out, hout, print_conserves {} annotatedSwitch out hout⟩

end EstreePrinter
