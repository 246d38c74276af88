import Mathlib
import EstreePrinter.Proofs.Estree.Statement
import EstreePrinter.Proofs.Printer.Composition

/-!
# Every well-formed tree is printed

Every kind of node in `Estree.forms` has a rule, and the rule ends on the nodes of its kind
(`Rules.ends_forms`).  By induction on the size of the tree the rendering of a well-formed node ends
(`Render.safe_tree`), with commands that can be written down and places that are whole numbers;
these are all the reasons for which a print could fail (`print_total`).
-/

namespace EstreePrinter

open Render (Ends Safe safe_pure)

/-! ## The table -/

namespace Rules

/-- A kind has a rule, and the rule ends on its nodes. -/
def IsCovered (kind : String) : Prop :=
  ∃ rule, valueRules.lookup kind = some rule ∧ EndsOn kind rule

lemma isCovered_primaryForms : ∀ entry ∈ Estree.primaryForms, IsCovered entry.1 := by
  simp only [Estree.primaryForms, List.forall_mem_cons]
  exact ⟨⟨_, rfl, ends_identifier⟩, ⟨_, rfl, ends_privateIdentifier⟩, ⟨_, rfl, ends_word _⟩,
    ⟨_, rfl, ends_word _⟩, ⟨_, rfl, ends_literal⟩, ⟨_, rfl, ends_template⟩,
    ⟨_, rfl, ends_taggedTemplate⟩, ⟨_, rfl, ends_transparent rfl rfl⟩, ⟨_, rfl, ends_metaProperty⟩,
    ⟨_, rfl, ends_importCall⟩, List.forall_mem_nil _⟩

lemma isCovered_collectionForms : ∀ entry ∈ Estree.collectionForms, IsCovered entry.1 := by
  simp only [Estree.collectionForms, List.forall_mem_cons]
  exact ⟨⟨_, rfl, ends_array rfl rfl⟩, ⟨_, rfl, ends_array rfl rfl⟩, ⟨_, rfl, ends_object⟩,
    ⟨_, rfl, ends_objectPattern⟩, ⟨_, rfl, ends_property⟩, ⟨_, rfl, ends_defaulted⟩,
    ⟨_, rfl, ends_spread rfl rfl⟩, ⟨_, rfl, ends_spread rfl rfl⟩, List.forall_mem_nil _⟩

lemma isCovered_operatorForms : ∀ entry ∈ Estree.operatorForms, IsCovered entry.1 := by
  simp only [Estree.operatorForms, List.forall_mem_cons]
  exact ⟨⟨_, rfl, ends_binary (by decide)⟩, ⟨_, rfl, ends_binary (by decide)⟩, ⟨_, rfl, ends_unary⟩,
    ⟨_, rfl, ends_update⟩, ⟨_, rfl, ends_assignment⟩, ⟨_, rfl, ends_conditional⟩,
    ⟨_, rfl, ends_commaExpression⟩, ⟨_, rfl, ends_await⟩, ⟨_, rfl, ends_yield⟩,
    ⟨_, rfl, ends_member⟩, ⟨_, rfl, ends_transparent rfl rfl⟩, ⟨_, rfl, ends_call _ rfl rfl rfl⟩,
    ⟨_, rfl, ends_call _ rfl rfl rfl⟩, List.forall_mem_nil _⟩

lemma isCovered_statementForms : ∀ entry ∈ Estree.statementForms, IsCovered entry.1 := by
  simp only [Estree.statementForms, List.forall_mem_cons]
  exact ⟨⟨_, rfl, ends_program⟩, ⟨_, rfl, ends_block rfl rfl⟩, ⟨_, rfl, ends_empty⟩,
    ⟨_, rfl, ends_debuggerStatement⟩, ⟨_, rfl, ends_expressionStatement⟩,
    ⟨_, rfl, ends_headed _ _ rfl rfl rfl⟩, ⟨_, rfl, ends_leave _ rfl rfl⟩,
    ⟨_, rfl, ends_leave _ rfl rfl⟩, ⟨_, rfl, ends_labeled⟩, ⟨_, rfl, ends_jump _ rfl⟩,
    ⟨_, rfl, ends_jump _ rfl⟩, ⟨_, rfl, ends_ifRule⟩, ⟨_, rfl, ends_switchRule⟩,
    ⟨_, rfl, ends_tryRule⟩, ⟨_, rfl, ends_headed _ _ rfl rfl rfl⟩, ⟨_, rfl, ends_doWhile⟩,
    ⟨_, rfl, ends_forRule⟩, ⟨_, rfl, ends_forEach _ rfl⟩, ⟨_, rfl, ends_forEach _ rfl⟩,
    ⟨_, rfl, ends_variableDeclaration⟩, ⟨_, rfl, ends_declarator⟩, List.forall_mem_nil _⟩

lemma isCovered_functionForms : ∀ entry ∈ Estree.functionForms, IsCovered entry.1 := by
  simp only [Estree.functionForms, List.forall_mem_cons]
  exact ⟨⟨_, rfl, ends_function rfl⟩, ⟨_, rfl, ends_function rfl⟩, ⟨_, rfl, ends_arrow⟩,
    ⟨_, rfl, ends_decorator⟩, ⟨_, rfl, ends_classRule rfl⟩, ⟨_, rfl, ends_classRule rfl⟩,
    ⟨_, rfl, ends_block rfl rfl⟩, ⟨_, rfl, ends_classMethod⟩, ⟨_, rfl, ends_classProperty⟩,
    ⟨_, rfl, ends_staticBlock⟩, List.forall_mem_nil _⟩

lemma isCovered_exchangeForms : ∀ entry ∈ Estree.exchangeForms, IsCovered entry.1 := by
  simp only [Estree.exchangeForms, List.forall_mem_cons]
  exact ⟨⟨_, rfl, ends_importRule⟩, ⟨_, rfl, ends_exportNamed⟩, ⟨_, rfl, ends_exportDefault⟩,
    ⟨_, rfl, ends_exportAll⟩, ⟨_, rfl, ends_importAttribute⟩, List.forall_mem_nil _⟩

/-- **Every kind of node has a rule that ends on its nodes.** -/
lemma isCovered_forms : ∀ entry ∈ Estree.forms, IsCovered entry.1 := by
  simp only [Estree.forms, List.forall_mem_append]
  exact ⟨⟨⟨⟨⟨isCovered_primaryForms, isCovered_collectionForms⟩, isCovered_operatorForms⟩,
    isCovered_statementForms⟩, isCovered_functionForms⟩, isCovered_exchangeForms⟩

lemma isCovered_of_isA {node : Json} {kind : String} (h : node.IsA kind) : IsCovered kind := by
  obtain ⟨form, hform, -⟩ := h.form
  obtain ⟨before, behind, htable, -⟩ := List.lookup_eq_some_iff.mp hform
  exact isCovered_forms (kind, form) (by simp [htable])

end Rules

/-! ## Trees -/

namespace Render

lemma safe_queueTrailing {node : Json} {kind : String} (h : node.IsA kind) :
    Safe (queueTrailing node) := by
  obtain ⟨form, -, hform⟩ := h.form
  obtain ⟨found, hfound, hfits⟩ := hform.given "trailingComments" rfl
  refine .read hfound ?_
  cases found with
  | none => exact safe_pure _
  | some list =>
      obtain ⟨hlist, hgiven⟩ := hfits list rfl
      obtain ⟨items, hitems, hall⟩ := Json.list_of_fits hlist
      cases items with
      | nil => simp [hitems, Json.isGiven] at hgiven
      | cons comment rest =>
          refine .read (a := comment) (by rw [hitems]; rfl) (safe_enqueue ?_)
          exact (hall comment (by simp)).resolve_left (by simp)

lemma safe_dressed {role : Role} (hrole : role ≠ .type) {node : Json} {kind : String}
    (h : node.IsA kind) {x : Render Unit} (hx : Safe x) : Safe (dressed role node x) := by
  obtain ⟨comments, hcomments, hprintable⟩ := h.exists_comments
  cases role with
  | value =>
      exact .read hcomments ((safe_leadingComments false (Or.inr h.hasPlace) hprintable).andThen
        (hx.andThen (safe_queueTrailing h)))
  | bare => exact hx.andThen (safe_queueTrailing h)
  | type => exact absurd rfl hrole

/-- **The rendering of a well-formed node ends.** -/
theorem safe_tree (role : Role) (hrole : role ≠ .type) {node : Json} {kind : String}
    (h : node.IsA kind) : Safe (tree role node) := by
  induction hn : sizeOf node using Nat.strong_induction_on generalizing role node kind with
  | h n ih =>
      have hparts : (partsOf node).Ends :=
        ⟨fun {part _} hpart => ih _ (hn ▸ part.2.sizeOf_lt) .value (by decide) hpart rfl,
          fun {part _} hpart => ih _ (hn ▸ part.2.sizeOf_lt) .bare (by decide) hpart rfl⟩
      obtain ⟨rule, hrule, hends⟩ := Rules.isCovered_of_isA h
      have hfind : Rules.find role.rules (.str kind) = .ok (some rule) := by
        have hrules : role.rules = Rules.valueRules := by
          cases role with
          | type => exact absurd rfl hrole
          | _ => rfl
        simp [Rules.find, h.isGiven_kind, Json.key, hrules, hrule]
      rw [tree_eq]
      exact .read h.kind_eq (.read hfind (safe_dressed hrole h (hends node _ h hparts)))

end Render

/-! ## Whole prints -/

lemma Command.IsPrintable.isPlaced {c : Command} (h : c.IsPrintable) : c.IsPlaced := by
  cases c with
  | chunk s span =>
      cases span with
      | none => trivial
      | some span => exact h
  | _ => trivial

/-- A list of statements is a program. -/
lemma fits_programOf {items : List Json}
    (h : (Json.arr items).fits (.list false (.node (Estree.statements ++ Estree.exchanges)))
      = true) : (programOf items).fits (.node ["Program"]) = true := by
  have hform : (Shape.node ["Program"]).form? (programOf items) = some (Estree.common ++
      [Estree.required "body" (.list false (.node (Estree.statements ++ Estree.exchanges)))]) := rfl
  rw [programOf, Json.fits, ← programOf, hform]
  simp only [Bool.and_eq_true]
  refine ⟨⟨rfl, ?_⟩, rfl⟩
  -- the fields are the kind, the statements and one that the form does not list
  rw [Json.fieldsMeet, Json.fieldsMeet, Json.fieldsMeet, Json.fieldsMeet]
  show (true && ((false && _ || Json.fits _ (.arr items)) && (true && true))) = true
  simpa using h

/-- What is to be printed is a well-formed node, also if it was given as a list of statements. -/
lemma exists_root {tree : Json} (h : tree.isEstree = true) :
    ∃ root, asProgram tree = .ok root ∧ ∃ kind, root.IsA kind := by
  rcases Bool.or_eq_true_iff.mp h with hnode | hlist
  · obtain ⟨kind, -, hkind⟩ := Json.isA_of_fits hnode
    have hobject := hkind.isObject
    cases tree with
    | obj fields => exact ⟨_, rfl, kind, hkind⟩
    | _ => cases hobject
  · obtain ⟨items, rfl, -⟩ := Json.list_of_fits hlist
    obtain ⟨kind, -, hkind⟩ := Json.isA_of_fits (fits_programOf hlist)
    exact ⟨_, rfl, kind, hkind⟩

/-- What can be printed and is finished is written down. -/
lemma exists_linearize {commands : List Command} {indent : String} (hindent : indent ≠ "")
    (hprintable : Command.AllLeaves Command.IsPrintable commands)
    (hsettled : Command.Settled commands) : ∃ result, linearize commands indent = .ok result := by
  rcases linearize_of_isWritable indent fun c hc => (hprintable c hc).isWritable with hok | ⟨e, he⟩
  · exact hok
  · exact absurd he (linearize_ne_layout hindent hsettled.balanced e)

/-- A well-formed tree can be printed under all options. -/
lemma exists_print (options : Options) {tree : Json} (htree : tree.isEstree = true) :
    ∃ out, printTree options tree = .ok out := by
  obtain ⟨root, hroot, kind, hkind⟩ := exists_root htree
  have hrender := (Render.safe_tree .value (by decide) hkind).andThen
    Render.safe_drainAfterStatement
  obtain ⟨e, he, -, hprintable, -⟩ := hrender options.setting [] (by simp)
  obtain ⟨⟨code, marks⟩, hlinear⟩ := exists_linearize options.indent_ne_empty hprintable
    (renderWhole_settles root _ _ _ he)
  obtain ⟨map, hmap⟩ := exists_mapOf options
    (isWhole_of_linearize (fun c hc => (hprintable c hc).isPlaced) hlinear)
  have hwrite : writeTree options tree = .ok (code, marks) :=
    bind_eq_ok_iff.mpr ⟨root, ofFault_eq_ok_iff.mpr hroot,
      bind_eq_ok_iff.mpr ⟨e.commands, commandsOf_of_render he, hlinear⟩⟩
  exact ⟨{ code, map }, printTree_eq_ok_iff.mpr ⟨marks, hwrite, hmap⟩⟩

/-- **Every well-formed tree is printed**, under all options: the print gives code and a map, and
ends in no error of any kind. -/
theorem print_total (tree : Json) (htree : tree.isEstree = true) :
    (∀ options : Options, ∃ out, printTree options tree = .ok out) ∧
    ∀ base overrides options,
      Options.resolveBeside ["node", "options"] base overrides = .ok options →
        ∃ out, printWith base overrides tree = .ok out := by
  have hprint (options : Options) := exists_print options htree
  exact ⟨hprint, fun base overrides options hoptions => by
    obtain ⟨out, hout⟩ := hprint options
    exact ⟨out, by rw [printWith, hoptions]; exact hout⟩⟩

/-- A module that has pieces of several kinds in it: a name from another module, a private name as
an operand, a tagged template, and a `switch` statement in a `try` block with a comment whose place
is known. -/
def busyModule : Json :=
  let node (kind : String) (fields : List (String × Json)) : Json :=
    .obj (("type", .str kind) :: fields)
  let name (s : String) : Json := node "Identifier" [("name", .str s)]
  let place (line column : Int) : Json := .obj [("line", .int line), ("column", .int column)]
  let text (raw : String) : Json := node "TemplateElement" [("value", .obj [("raw", .str raw)])]
  .arr
    [node "ImportDeclaration"
      [("specifiers", .arr [node "ImportSpecifier" [("imported", name "a"), ("local", name "b")]]),
        ("source", node "Literal" [("value", .str "m")])],
      node "ExpressionStatement" [("expression", node "BinaryExpression"
        [("left", node "PrivateIdentifier" [("name", .str "p")]), ("operator", .str "in"),
          ("right", node "TaggedTemplateExpression" [("tag", name "b"),
            ("quasi", node "TemplateLiteral" [("quasis", .arr [text "x", text ""]),
              ("expressions", .arr [node "ThisExpression" []])])])])],
      node "TryStatement"
        [("block", node "BlockStatement" [("body", .arr [node "SwitchStatement"
          [("discriminant", name "c"), ("cases", .arr [node "SwitchCase"
            [("test", .null), ("consequent", .arr [node "BreakStatement" [("label", .null)]]),
              ("leadingComments", .arr [.obj [("type", .str "Line"), ("value", .str "last"),
                ("loc", .obj [("start", place 4 0), ("end", place 4 6)])]])]])]])]),
          ("handler", node "CatchClause" [("param", .null),
            ("body", node "BlockStatement" [("body", .arr [])])]),
          ("finalizer", .null)]]

theorem print_total_busyModule : busyModule.isEstree = true ∧
    (∃ out, printTree {} busyModule = .ok out) ∧
    ∃ out, printWith none [("width", .int 20)] busyModule = .ok out := by
  have htree : busyModule.isEstree = true := by decide
  obtain ⟨hprint, hwith⟩ := print_total busyModule htree
  exact ⟨htree, hprint {}, hwith none [("width", .int 20)] _ rfl⟩

end EstreePrinter
