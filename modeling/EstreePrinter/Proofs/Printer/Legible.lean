import Mathlib
import EstreePrinter.Proofs.Printer.Total
import EstreePrinter.Proofs.Render.Lines

/-!
# A line comment never swallows code

In a print, nothing that is not a comment stands behind a line comment on the same line
(`print_legible`), as long as there is no program in the tree but at its root.  A program further
inside may end with a line comment, and then nobody breaks the line behind it.

The commands of a print are readable (`isReadable_commandsOf`): the rendering of the root writes no
code behind a line comment, and what comes behind the root are comments.
-/

namespace EstreePrinter

open Render (Leads)

/-! ## What is inside the root -/

namespace Json

lemma isObject_of_inside_str {s : String} {v : Json} (h : v.Inside (.str s)) :
    v.isObject = false := by
  obtain ⟨child, hchild, -⟩ := inside_iff.mp h
  cases hchild

/-- What is inside of the statements of a program is inside of the tree, or is no node. -/
lemma inside_of_elements? {tree : Json} (htree : tree.isObject = false) {list : List Json}
    (hlist : tree.elements? = some list) {v : Json} (h : v.Inside (.arr list)) :
    v.Inside tree ∨ v.isObject = false := by
  cases tree with
  | arr items =>
      obtain rfl := Option.some.inj hlist
      exact Or.inl h
  | str s =>
      -- a text is taken for the list of its characters
      obtain rfl := Option.some.inj hlist
      obtain ⟨child, hchild, h⟩ := inside_iff.mp h
      cases hchild with
      | element hchild =>
          obtain ⟨c, -, rfl⟩ := List.mem_map.mp hchild
          exact Or.inr (h.elim (fun heq => heq ▸ rfl) isObject_of_inside_str)
  | obj fields => cases htree
  | _ => cases hlist

/-- What is inside of the root of a print is inside of the tree, or is no node. -/
lemma inside_of_asProgram {tree root part : Json} (hroot : asProgram tree = .ok root)
    (h : part.Inside root) : part.Inside tree ∨ part.isObject = false := by
  cases htree : tree.isObject with
  | true =>
      cases tree with
      | obj fields =>
          obtain rfl := Except.ok.inj hroot
          exact Or.inl h
      | _ => cases htree
  | false =>
      obtain ⟨list, hlist, rfl⟩ : ∃ list, tree.elements? = some list ∧ programOf list = root := by
        cases tree with
        | obj fields => cases htree
        | _ =>
            obtain ⟨list, hlist, hroot⟩ := bind_eq_ok_iff.mp hroot
            exact ⟨list, orMalformed_eq_ok_iff.mp hlist, Except.ok.inj hroot⟩
      obtain ⟨child, hchild, h⟩ := inside_iff.mp h
      cases hchild with
      | key hfield => exact Or.inr (h.elim (fun heq => heq ▸ rfl) isObject_of_inside_str)
      | field hfield =>
          simp only [List.mem_cons, Prod.mk.injEq, List.not_mem_nil, or_false] at hfield
          rcases hfield with ⟨-, rfl⟩ | ⟨-, rfl⟩ | ⟨-, rfl⟩
          · exact Or.inr (h.elim (fun heq => heq ▸ rfl) isObject_of_inside_str)
          · rcases h with rfl | h
            · exact Or.inr rfl
            · exact inside_of_elements? htree hlist h
          · exact Or.inr (h.elim (fun heq => heq ▸ rfl) isObject_of_inside_str)

/-- If there is no program inside of the tree, there is none inside of the root of a print. -/
lemma kind_ne_program_of_asProgram {tree root : Json}
    (htree : ∀ node : Json, node.Inside tree → node.kind ≠ .ok (.str "Program"))
    (hroot : asProgram tree = .ok root) (part : Json) (hpart : part.Inside root) :
    part.kind ≠ .ok (.str "Program") := by
  rcases inside_of_asProgram hroot hpart with hpart | hobject
  · exact htree part hpart
  · intro hkind
    rw [Render.isObject_of_kind hkind] at hobject
    cases hobject

end Json

/-! ## Whole prints -/

/-- The commands of a print write no code behind a line comment. -/
lemma isReadable_commandsOf {options : Options} {root : Json} {commands : List Command}
    (hroot : ∀ part : Json, part.Inside root → part.kind ≠ .ok (.str "Program"))
    (h : commandsOf options root = .ok commands) : Command.IsReadable commands := by
  obtain ⟨e, he, rfl⟩ := exists_render_of_commandsOf h
  have hwhole : Leads Command.lineWatch false (renderWhole root) fun _ => True :=
    (Render.leads_tree Command.allows_lineWatch hroot).bind fun _ o _ => Render.leads_drained o
  obtain ⟨o, ho, -⟩ := hwhole _ _ _ he
  rw [Command.IsReadable, ← Command.scan_lineWatch, ho]
  rfl

/-- **A line comment never swallows code.**  If a tree holds no program but at its root and can be
printed, under whatever options, then the code is written by the leaves of its commands letter by
letter, and every letter that is not blank, was not written by a comment, and stands behind the text
of a line comment, has a line feed between the two. -/
theorem print_legible (options : Options) (tree : Json) (out : Output)
    (htree : ∀ node : Json, node.Inside tree → node.kind ≠ .ok (.str "Program"))
    (h : printTree options tree = .ok out) :
    ∃ root commands, asProgram tree = .ok root ∧ commandsOf options root = .ok commands ∧
      (letters options.indent 0 (Command.leavesAll commands)).map Prod.snd = out.code.toList ∧
      Legible (letters options.indent 0 (Command.leavesAll commands)) := by
  obtain ⟨root, commands, marks, hroot, hcommands, hlinear⟩ := stages_of_print h
  have hinside := Json.kind_ne_program_of_asProgram htree hroot
  refine ⟨root, commands, hroot, hcommands, ?_, ?_⟩
  · rw [letters_map_snd, (linearize_eq_ok hlinear).1]
  · exact Command.legible_letters (isReadable_commandsOf hinside hcommands) _ _

/-- Statements with line comments at three places where nobody breaks the line at once: behind an
item of a list, behind its last item and behind a statement. -/
def remarkedStatements : Json :=
  let node (kind : String) (fields : List (String × Json)) : Json :=
    .obj (("type", .str kind) :: fields)
  let remark (s : String) : String × Json :=
    ("trailingComments", .arr [node "Line" [("value", .str s)]])
  let name (s : String) (fields : List (String × Json)) : Json :=
    node "Identifier" (("name", .str s) :: fields)
  .arr
    [node "ExpressionStatement"
      [("expression", node "ArrayExpression"
        [("elements", .arr [name "a" [remark "first"], name "b" [remark "second"]])]),
        remark "third"],
      node "ExpressionStatement" [("expression", name "c" [])]]

theorem print_legible_remarkedStatements :
    ∃ out, printTree {} remarkedStatements = .ok out ∧
      (∀ node : Json, node.Inside remarkedStatements → node.kind ≠ .ok (.str "Program")) ∧
      ∃ root commands, asProgram remarkedStatements = .ok root ∧
        commandsOf {} root = .ok commands ∧
        (letters ({} : Options).indent 0 (Command.leavesAll commands)).map Prod.snd =
          out.code.toList ∧
        Legible (letters ({} : Options).indent 0 (Command.leavesAll commands)) := by
  have hprograms : ∀ node ∈ remarkedStatements.nodes, node.kind ≠ .ok (.str "Program") := by
    simp [remarkedStatements, Json.nodes, Json.nodesOf, Json.nodesAmong, Json.kind, Json.getValue,
      Json.get, Json.field?, Json.lookup, Json.isObject]
  have htree : ∀ node : Json, node.Inside remarkedStatements →
      node.kind ≠ .ok (.str "Program") := fun node hnode hkind =>
    hprograms node (Json.mem_nodes_of_inside (Render.isObject_of_kind hkind) hnode) hkind
  have hestree : remarkedStatements.isEstree = true := by decide
  obtain ⟨out, hout⟩ := exists_print {} hestree
  exact ⟨out, hout, htree, print_legible {} remarkedStatements out htree hout⟩

end EstreePrinter
