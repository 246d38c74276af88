import Mathlib
import EstreePrinter.Proofs.Words.Exchange
import EstreePrinter.Proofs.Printer.Total

/-!
# The leaves of a tree are printed once each and in order

Every kind of node in `Estree.forms` has a rule that says the words of its nodes
(`Rules.isSpoken_forms`).  By induction on the size of the tree the rendering of a node says the
words of the node (`Render.says_tree`), so that the texts with a place among the commands of a print
are the words of the tree, and the leaves among them are the leaves of the tree
(`print_leaves`).  The trees are those that a source can have; what is printed of others stands at
the end.
-/

namespace EstreePrinter

open Command (observed chunkText?)
open Render (Says says_leadingComments says_queueTrailing)

/-! ## The table -/

namespace Rules

variable {quote : Char}

/-- A kind has a rule, and the rule says the words of its nodes. -/
def IsSpoken (quote : Char) (kind : String) : Prop :=
  ∃ rule, valueRules.lookup kind = some rule ∧ SpeaksOn quote kind rule

lemma isSpoken_primaryForms : ∀ entry ∈ Estree.primaryForms, IsSpoken quote entry.1 := by
  simp only [Estree.primaryForms, List.forall_mem_cons]
  exact ⟨⟨_, rfl, speaks_identifier⟩, ⟨_, rfl, speaks_privateIdentifier⟩, ⟨_, rfl, speaks_this⟩,
    ⟨_, rfl, speaks_super⟩, ⟨_, rfl, speaks_literal⟩, ⟨_, rfl, speaks_template⟩,
    ⟨_, rfl, speaks_taggedTemplate⟩, ⟨_, rfl, speaks_transparent rfl rfl (by decide) rfl⟩,
    ⟨_, rfl, speaks_metaProperty⟩, ⟨_, rfl, speaks_importCall⟩, List.forall_mem_nil _⟩

lemma isSpoken_collectionForms : ∀ entry ∈ Estree.collectionForms, IsSpoken quote entry.1 := by
  simp only [Estree.collectionForms, List.forall_mem_cons]
  exact ⟨⟨_, rfl, speaks_array rfl rfl (by decide) rfl⟩,
    ⟨_, rfl, speaks_array rfl rfl (by decide) rfl⟩, ⟨_, rfl, speaks_object⟩,
    ⟨_, rfl, speaks_objectPattern⟩, ⟨_, rfl, speaks_property⟩, ⟨_, rfl, speaks_defaulted⟩,
    ⟨_, rfl, speaks_spread rfl rfl (by decide) rfl⟩,
    ⟨_, rfl, speaks_spread rfl rfl (by decide) rfl⟩, List.forall_mem_nil _⟩

lemma isSpoken_operatorForms : ∀ entry ∈ Estree.operatorForms, IsSpoken quote entry.1 := by
  simp only [Estree.operatorForms, List.forall_mem_cons]
  exact ⟨⟨_, rfl, speaks_binary (by decide)⟩, ⟨_, rfl, speaks_binary (by decide)⟩,
    ⟨_, rfl, speaks_unary⟩, ⟨_, rfl, speaks_update⟩, ⟨_, rfl, speaks_assignment⟩,
    ⟨_, rfl, speaks_conditional⟩, ⟨_, rfl, speaks_commaExpression⟩, ⟨_, rfl, speaks_await⟩,
    ⟨_, rfl, speaks_yield⟩, ⟨_, rfl, speaks_member⟩,
    ⟨_, rfl, speaks_transparent rfl rfl (by decide) rfl⟩,
    ⟨_, rfl, speaks_call _ rfl rfl rfl (by decide) rfl⟩,
    ⟨_, rfl, speaks_call _ rfl rfl rfl (by decide) rfl⟩, List.forall_mem_nil _⟩

lemma isSpoken_statementForms : ∀ entry ∈ Estree.statementForms, IsSpoken quote entry.1 := by
  simp only [Estree.statementForms, List.forall_mem_cons]
  exact ⟨⟨_, rfl, speaks_program⟩, ⟨_, rfl, speaks_block rfl rfl (by decide) rfl⟩,
    ⟨_, rfl, speaks_empty⟩, ⟨_, rfl, speaks_debuggerStatement⟩,
    ⟨_, rfl, speaks_expressionStatement⟩, ⟨_, rfl, speaks_headed _ _ rfl rfl rfl (by decide) rfl⟩,
    ⟨_, rfl, speaks_leave _ rfl rfl (by decide) rfl⟩,
    ⟨_, rfl, speaks_leave _ rfl rfl (by decide) rfl⟩, ⟨_, rfl, speaks_labeled⟩,
    ⟨_, rfl, speaks_jump _ rfl (by decide) rfl⟩, ⟨_, rfl, speaks_jump _ rfl (by decide) rfl⟩,
    ⟨_, rfl, speaks_ifRule⟩, ⟨_, rfl, speaks_switchRule⟩, ⟨_, rfl, speaks_tryRule⟩,
    ⟨_, rfl, speaks_headed _ _ rfl rfl rfl (by decide) rfl⟩, ⟨_, rfl, speaks_doWhile⟩,
    ⟨_, rfl, speaks_forRule⟩, ⟨_, rfl, speaks_forEach _ rfl (by decide) rfl⟩,
    ⟨_, rfl, speaks_forEach _ rfl (by decide) rfl⟩, ⟨_, rfl, speaks_variableDeclaration⟩,
    ⟨_, rfl, speaks_declarator⟩, List.forall_mem_nil _⟩

lemma isSpoken_functionForms : ∀ entry ∈ Estree.functionForms, IsSpoken quote entry.1 := by
  simp only [Estree.functionForms, List.forall_mem_cons]
  exact ⟨⟨_, rfl, speaks_function rfl (by decide) rfl⟩,
    ⟨_, rfl, speaks_function rfl (by decide) rfl⟩, ⟨_, rfl, speaks_arrow⟩,
    ⟨_, rfl, speaks_decorator⟩, ⟨_, rfl, speaks_classRule rfl (by decide) rfl⟩,
    ⟨_, rfl, speaks_classRule rfl (by decide) rfl⟩,
    ⟨_, rfl, speaks_block rfl rfl (by decide) rfl⟩, ⟨_, rfl, speaks_classMethod⟩,
    ⟨_, rfl, speaks_classProperty⟩, ⟨_, rfl, speaks_staticBlock⟩, List.forall_mem_nil _⟩

lemma isSpoken_exchangeForms : ∀ entry ∈ Estree.exchangeForms, IsSpoken quote entry.1 := by
  simp only [Estree.exchangeForms, List.forall_mem_cons]
  exact ⟨⟨_, rfl, speaks_importRule⟩, ⟨_, rfl, speaks_exportNamed⟩, ⟨_, rfl, speaks_exportDefault⟩,
    ⟨_, rfl, speaks_exportAll⟩, ⟨_, rfl, speaks_importAttribute⟩, List.forall_mem_nil _⟩

/-- **Every kind of node has a rule that says the words of its nodes.** -/
lemma isSpoken_forms : ∀ entry ∈ Estree.forms, IsSpoken quote entry.1 := by
  simp only [Estree.forms, List.forall_mem_append]
  exact ⟨⟨⟨⟨⟨isSpoken_primaryForms, isSpoken_collectionForms⟩, isSpoken_operatorForms⟩,
    isSpoken_statementForms⟩, isSpoken_functionForms⟩, isSpoken_exchangeForms⟩

lemma isSpoken_of_isA {node : Json} {kind : String} (h : node.IsA kind) : IsSpoken quote kind := by
  obtain ⟨form, hform, -⟩ := h.form
  obtain ⟨before, behind, htable, -⟩ := List.lookup_eq_some_iff.mp hform
  exact isSpoken_forms (kind, form) (by simp [htable])

end Rules

/-! ## Trees -/

namespace Render

variable {quote : Char} {ws : List Word}

lemma says_dressed (role : Role) (node : Json) {x : Render Unit} (hx : Says quote ws x) :
    Says quote ws (dressed role node x) := by
  cases role with
  | type => exact hx
  | value =>
      exact .read fun _ => (says_leadingComments _ _ _).skip fun _ =>
        hx.ending (says_queueTrailing node)
  | bare => exact hx.ending (says_queueTrailing node)

/-- **The rendering of a node says the words of the node.** -/
theorem says_tree (quote : Char) (role : Role) (hrole : role ≠ .type) {node : Json}
    {kinds : List String} (h : node.fits (.node kinds) = true) (hcoherent : node.Coherent) :
    Says quote (node.words quote) (tree role node) := by
  induction hn : sizeOf node using Nat.strong_induction_on generalizing role node kinds with
  | h n ih =>
      have hparts : (partsOf node).Speaks quote :=
        ⟨fun {part _} hpart => ih _ (hn ▸ part.2.sizeOf_lt) .value (by decide) hpart
            (hcoherent.part part) rfl,
          fun {part _} hpart => ih _ (hn ▸ part.2.sizeOf_lt) .bare (by decide) hpart
            (hcoherent.part part) rfl⟩
      obtain ⟨kind, -, hkind⟩ := Json.isA_of_fits h
      have hspoken : Rules.IsSpoken quote kind := Rules.isSpoken_of_isA hkind
      obtain ⟨rule, hrule, hspeaks⟩ := hspoken
      have hfind : Rules.find role.rules (.str kind) = .ok (some rule) := by
        have hrules : role.rules = Rules.valueRules := by
          cases role with
          | type => exact absurd rfl hrole
          | _ => rfl
        simp [Rules.find, hkind.isGiven_kind, Json.key, hrules, hrule]
      rw [tree_eq]
      exact .known hkind.kind_eq <| .known hfind <| says_dressed role node <|
        hspeaks node _ hkind (Json.isEven_of_fits h) hcoherent hparts

end Render

/-! ## Whole prints -/

/-- A well-formed tree is a node once it is made a program. -/
lemma exists_root_fits {tree : Json} (h : tree.isEstree = true) :
    ∃ root kinds, asProgram tree = .ok root ∧ root.fits (.node kinds) = true := by
  rcases Bool.or_eq_true_iff.mp h with hnode | hlist
  · obtain ⟨kind, -, hkind⟩ := Json.isA_of_fits hnode
    have hobject := hkind.isObject
    cases tree with
    | obj fields => exact ⟨_, _, rfl, hnode⟩
    | _ => cases hobject
  · obtain ⟨items, rfl, -⟩ := Json.list_of_fits hlist
    exact ⟨_, _, rfl, fits_programOf hlist⟩

/-- **No leaf is lost, doubled or moved.**  A well-formed tree that a source can have is printed
under all options.  The texts with a place among the commands of the print are those of the words of
the tree, in the order of the source and each once; without the two keywords that may be among them,
the words are the leaves of the tree.  Names that are written once for two are the only ones that
count once (`Json.spoken`). -/
theorem print_leaves (options : Options) (tree : Json) (htree : tree.isEstree = true)
    (hcoherent : ∀ root, asProgram tree = .ok root → root.Coherent) :
    ∃ root commands out, asProgram tree = .ok root ∧ commandsOf options root = .ok commands ∧
      printTree options tree = .ok out ∧
      observed chunkText? commands = (root.words options.setting.quote).map Word.printed ∧
      (root.words options.setting.quote).filterMap Word.leaf? =
        root.leafTexts options.setting.quote := by
  obtain ⟨root, kinds, hroot, hfits⟩ := exists_root_fits htree
  obtain ⟨out, hout⟩ := exists_print options htree
  obtain ⟨root', commands, marks, hroot', hcommands, -⟩ := stages_of_print hout
  obtain rfl : root = root' := Except.ok.inj (hroot.symm.trans hroot')
  obtain ⟨e, he, rfl⟩ := exists_render_of_commandsOf hcommands
  have hsays : Says options.setting.quote (root.words options.setting.quote) (renderWhole root) :=
    (Render.says_tree _ .value (by decide) hfits (hcoherent root hroot)).ending
      Render.says_drainAfterStatement
  exact ⟨root, e.commands, out, hroot, hcommands, hout, hsays _ _ _ rfl he, rfl⟩

/-- A module that brings in two names and exports an object with a shorthand, a method and a
template in it. -/
def namingModule : Json :=
  let node (kind : String) (fields : List (String × Json)) : Json :=
    .obj (("type", .str kind) :: fields)
  let name (s : String) : Json := node "Identifier" [("name", .str s)]
  let text (raw : String) : Json := node "TemplateElement" [("value", .obj [("raw", .str raw)])]
  .obj [("type", .str "Program"), ("body", .arr
    [node "ImportDeclaration"
      [("specifiers", .arr [node "ImportDefaultSpecifier" [("local", name "a")],
          node "ImportSpecifier" [("imported", name "b"), ("local", name "c")]]),
        ("source", node "Literal" [("value", .str "m")])],
      node "ExportDefaultDeclaration" [("declaration", node "ObjectExpression"
        [("properties", .arr
          [node "Property" [("kind", .str "init"), ("key", name "a"), ("value", name "a")],
            node "Property" [("kind", .str "init"), ("key", name "d"),
              ("value", node "FunctionExpression" [("params", .arr [name "e"]),
                ("body", node "BlockStatement" [("body", .arr [node "ReturnStatement"
                  [("argument", node "TemplateLiteral" [("quasis", .arr [text "x", text "y"]),
                    ("expressions", .arr [node "ThisExpression" []])])]])])])]])])]])]

theorem print_leaves_namingModule : namingModule.isEstree = true ∧ namingModule.Coherent ∧
    (namingModule.leafTexts '"' =
      ["a", "b", "c", "\"m\"", "a", "d", "e", "x", "this", "y"]) ∧
    ∃ root commands out, asProgram namingModule = .ok root ∧
      commandsOf { quotes := .double } root = .ok commands ∧
      printTree { quotes := .double } namingModule = .ok out ∧
      observed chunkText? commands = (root.words '"').map Word.printed ∧
      (root.words '"').filterMap Word.leaf? = root.leafTexts '"' := by
  have htree : namingModule.isEstree = true := by decide
  have hcoherent : namingModule.Coherent := by
    unfold Json.Coherent
    decide
  refine ⟨htree, hcoherent, ?_,
    print_leaves { quotes := .double } namingModule htree fun root hroot => ?_⟩
  · decide +kernel
  · obtain rfl : namingModule = root := Except.ok.inj hroot
    exact hcoherent

/-! ## Trees that no source has

`Json.Coherent` leaves out the trees of which a source cannot say everything.  They are printed too,
and this is what becomes of their leaves.

* The names that an import brings in are printed in their places, whatever their order in the tree;
  of several defaults, or several names for everything, the last one is printed.
* A method is printed under its key.  A name of the function that is its value is left out.
* Of two fields that stand for one another (`options` or `attributes`, `attributes` or `assertions`)
  the first is printed.  A declaration that is exported is printed without names and source beside
  it, and the attributes of an export only behind a source. -/

/-- A tree with two names to bring in, the default behind the one in braces. -/
def unsortedImport : Json :=
  let node (kind : String) (fields : List (String × Json)) : Json :=
    .obj (("type", .str kind) :: fields)
  let name (s : String) : Json := node "Identifier" [("name", .str s)]
  node "ImportDeclaration" [
    ("specifiers", .arr [node "ImportSpecifier" [("imported", name "b"), ("local", name "b")],
      node "ImportDefaultSpecifier" [("local", name "a")]]),
    ("source", node "Literal" [("value", .str "m")])]

/-- A class with a method `m` whose function is named `n`. -/
def misnamedMethod : Json :=
  let node (kind : String) (fields : List (String × Json)) : Json :=
    .obj (("type", .str kind) :: fields)
  let name (s : String) : Json := node "Identifier" [("name", .str s)]
  let function := node "FunctionExpression" [("id", name "n"), ("params", .arr []),
    ("body", node "BlockStatement" [("body", .arr [])])]
  node "ClassDeclaration" [("id", name "A"), ("body", node "ClassBody" [("body", .arr
    [node "MethodDefinition" [("kind", .str "method"), ("key", name "m"), ("value", function)]])])]

example : unsortedImport.isEstree = true ∧ ¬unsortedImport.Coherent ∧
    (printTree {} unsortedImport).toOption.map Output.code =
      some "import a, \x7b b \x7d from 'm';" := by
  unfold Json.Coherent
  refine ⟨?_, ?_, ?_⟩ <;> decide +kernel

example : misnamedMethod.isEstree = true ∧ ¬misnamedMethod.Coherent ∧
    (printTree {} misnamedMethod).toOption.map Output.code =
      some "class A \x7b\n\tm() \x7b\x7d\n\x7d" := by
  unfold Json.Coherent
  refine ⟨?_, ?_, ?_⟩ <;> decide +kernel

end EstreePrinter
