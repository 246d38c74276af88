import Mathlib
import EstreePrinter.Proofs.Printer.Leaving
import EstreePrinter.Proofs.Render.Guarded

/-!
# The head of a loop

In the head of a loop with three parts `in` would make a loop over the keys of something out of it.
What is emitted for the first part has its outermost `in` expressions in parentheses
(`handle_guards_start`), however deep they are in it: `Command.Nested Json.isInExpression`.  The
state in which the loop was handled still tells afterwards whether `in` would be misread around the
loop.
-/

namespace EstreePrinter

open Json (Part)

namespace Render

variable {s : Setting} {q : List Json} {e : Emission Unit} {node : Json}

/-- Where `in` would be misread, each `in` expression goes in parentheses. -/
lemma guards_withNoIn (s : Setting) : { s with noIn := true }.guards = Json.isInExpression :=
  funext fun _ => Bool.true_and _

/-- What a loop emits before its test. -/
lemma forRule_eq_ok {inner : Inner node} {start : Part node}
    (hstart : node.given "init" = .ok (some start)) (h : Rules.forRule node inner s q = .ok e) :
    ∃ heads rest, Rules.loopHead inner start { s with noIn := true } q = .ok heads ∧
      e.commands = .text "for (" :: (heads.commands ++ .text ";" :: rest) := by
  obtain ⟨_, hopen, second, hsecond, rfl⟩ := bind_eq_ok_iff.mp h
  obtain rfl := Except.ok.inj hopen
  obtain ⟨found, hfound, hsecond⟩ := read_bind_eq_ok_iff.mp hsecond
  obtain rfl := Except.ok.inj (hfound.symm.trans hstart)
  obtain ⟨heads, hheads, third, hthird, rfl⟩ := bind_eq_ok_iff.mp hsecond
  obtain ⟨_, hsemicolon, last, -, rfl⟩ := bind_eq_ok_iff.mp hthird
  obtain rfl := Except.ok.inj hsemicolon
  exact ⟨heads, last.commands, hheads, by simp [Emission.andThen]⟩

end Render

/-- **A bare `in` cannot turn a loop into another one.**  Let a loop with three parts be handled
that has a first part, and let it succeed.  Then the setting is afterwards as it was before, and the
added commands are, but for the notes where a node begins and ends, those of a rendering in which
the first part is between `for (` and a semicolon.  In this part all `in` expressions that are not
inside of another one emit an opening parenthesis first and a closing one last, and only the
comments before such an expression are outside of its parentheses. -/
theorem handle_guards_start {before after : Rendering} {role : Role} {node : Json}
    (hkind : node.kind = .ok (.str "ForStatement")) {start : Part node}
    (hstart : node.given "init" = .ok (some start)) (h : before.handle role node = .ok after) :
    after.setting = before.setting ∧
      ∃ e head leads rest,
        Render.treeWith Render.announced role node before.setting before.draft.queue = .ok e ∧
        after.draft.commands = before.draft.commands ++ Command.unnoted e.commands ∧
        Rules.loopHead (Render.partsWith Render.announced node) start
          { before.setting with noIn := true } before.draft.queue = .ok head ∧
        e.commands = .bracket node true ::
          (leads ++ .text "for (" :: (head.commands ++ .text ";" :: rest)) ∧
        (∀ c ∈ leads, c.comment?.isSome) ∧
        Command.Nested Json.isInExpression (Command.leavesAll head.commands) := by
  obtain ⟨plain, hplain, -, rfl⟩ := Rendering.run_eq_ok_iff.mp (Rendering.handle_eq_ok_iff.mp h)
  obtain ⟨e, he, -, hcommands, -⟩ :=
    Render.mirrors_tree_announced role node before.setting before.draft.queue plain hplain
  obtain ⟨hrole, hrun⟩ := Render.valueRule_of_treeWith hkind rfl rfl he
  obtain ⟨_, leads, own, -, hleads, hown, hwhole⟩ := Render.announced_eq_ok hrole hrun
  obtain ⟨head, rest, hhead, hparts⟩ := Render.forRule_eq_ok hstart hown
  have hguards : { before.setting with noIn := true }.Guards head.commands :=
    (Made.loopHead start : Made _ true _).guards
      (Render.guards_partsWith fun role part s => Render.guards_tree role part.1 s) _ _ _ hhead
  rw [Setting.Guards, Render.guards_withNoIn] at hguards
  refine ⟨rfl, e, head, leads, rest ++ [.bracket node false], he, ?_, hhead, ?_,
    Render.isSome_comment?_of_leading hleads, hguards⟩
  · rw [Draft.commands_append, hcommands]
  · simp [hwhole, hparts]

/-- The loop `for (var x = (a in b);;) ;`. -/
def loopOfIn : Json :=
  let name (s : String) : Json := .obj [("type", .str "Identifier"), ("name", .str s)]
  .obj [("type", .str "ForStatement"),
    ("init", .obj [("type", .str "VariableDeclaration"), ("kind", .str "var"),
      ("declarations", .arr [.obj [("type", .str "VariableDeclarator"), ("id", name "x"),
        ("init", .obj [("type", .str "BinaryExpression"), ("left", name "a"),
          ("operator", .str "in"), ("right", name "b")])]])]),
    ("test", .null), ("update", .null), ("body", .obj [("type", .str "EmptyStatement")])]

/-- The `in` expression in this loop is in parentheses. -/
theorem handle_guards_start_loopOfIn :
    ∃ after start head, ({ setting := {}, draft := {} } : Rendering).handle .value loopOfIn =
        .ok after ∧
      loopOfIn.given "init" = .ok (some start) ∧ after.setting = {} ∧
      Rules.loopHead (Render.partsWith Render.announced loopOfIn) start { noIn := true } [] =
        .ok head ∧
      Command.Nested Json.isInExpression (Command.leavesAll head.commands) := by
  have hfits : loopOfIn.fits (.node ["ForStatement"]) = true := by decide
  obtain ⟨kind, -, hkind⟩ := Json.isA_of_fits hfits
  obtain ⟨e, he, -⟩ := Render.safe_tree .value (by decide) hkind {} [] (by simp)
  let before : Rendering := { setting := {}, draft := {} }
  have htree : Render.tree .value loopOfIn before.setting before.draft.queue = .ok e := he
  have hhandle := Rendering.handle_eq_ok_iff.mpr (Rendering.run_eq_ok_iff.mpr ⟨e, htree, rfl, rfl⟩)
  have hgiven : ∃ start, loopOfIn.given "init" = .ok (some start) := ⟨_, rfl⟩
  obtain ⟨start, hstart⟩ := hgiven
  obtain ⟨hsetting, -, head, -, -, -, -, hhead, -, -, hnested⟩ :=
    handle_guards_start rfl hstart hhandle
  exact ⟨_, start, head, hhandle, hstart, hsetting, hhead, hnested⟩

end EstreePrinter
