import Mathlib
import EstreePrinter.Proofs.Estree.Statement
import EstreePrinter.Proofs.Words.Expression

/-!
# The rules for statements, classes, imports and exports say the words of their nodes

A list of statements, of cases or of names says the words of its elements.  The pieces of a node are
said by the rule of the node around them, with the words that they have for themselves.
-/

namespace EstreePrinter

open Json (Part)
open Render (Says says_text says_textIf says_pure says_chunk says_newline says_markers wordsOf)

namespace Rules

variable {node : Json} {inner : Inner node} {quote : Char} {kind : String} {form : Form}

/-! ## Blocks and simple statements -/

/-- The nodes of a list, with their words. -/
lemma exists_nodes_words (quote : Char) (hform : node.Conforms form) (key : String)
    {options : List String}
    (hneed : form.lookup key = some ⟨.list false (.node options), false⟩) :
    ∃ list, node.require key = .ok list ∧ ∃ parts, Json.parts list = .ok parts ∧
      (∀ part ∈ parts, part.1.fits (.node options) = true) ∧
        wordsOf quote parts = node.wordsAt quote key := by
  obtain ⟨list, hlist, hfits, parts, hparts, hall⟩ := hform.parts key hneed
  obtain ⟨items, hitems, -⟩ := Json.list_of_fits hfits
  exact ⟨list, hlist, parts, hparts, fun part hpart => (hall part hpart).resolve_left (by simp),
    (Json.wordsAt_of_parts quote (Json.field?_of_require hlist) ⟨items, hitems⟩ hparts).symm⟩

/-- An empty statement has no words. -/
lemma words_empty {statement : Json} (h : statement.IsA "EmptyStatement") :
    statement.words quote = [] := by
  have hkeys : Estree.nodeKeys "EmptyStatement" = [] := rfl
  rw [h.words_eq (by decide), hkeys, Json.wordsUnder_nil]

lemma says_body (h : inner.Speaks quote) {options : List String} {statements : List (Part node)}
    (hall : ∀ part ∈ statements, part.1.fits (.node options) = true) :
    Says quote (wordsOf quote statements) (Render.body inner statements) := by
  refine Render.says_bodyAfter (fun part hpart name hname hempty => ?_)
    (fun part hpart => h.bare (hall part hpart)) none
  obtain ⟨kind, -, hkind⟩ := Json.isA_of_fits (hall part hpart)
  obtain rfl : .str kind = name := Except.ok.inj (hkind.requireKind_eq.symm.trans hname)
  obtain rfl : kind = "EmptyStatement" := by simpa [Json.isText] using hempty
  exact words_empty hkind

lemma speaks_program : SpeaksOn quote "Program" program := fun _ _ hnode _ _ h => by
  have hkeys : Estree.nodeKeys "Program" = ["body"] := rfl
  obtain ⟨list, hlist, parts, hparts, hall, hwords⟩ :=
    exists_nodes_words quote (hnode.conforms rfl) "body" rfl
  refine .known hlist (.known hparts ?_)
  exact (says_body h hall).of_eq (by simp [hnode.words_eq (by decide), hkeys, hwords])

/-- A list all of whose statements are empty has no words. -/
lemma words_of_allEmpty {statements : List (Part node)}
    (hall : ∀ part ∈ statements, ∃ kind, part.1.IsA kind)
    (h : allEmpty statements = .ok true) : wordsOf quote statements = [] := by
  induction statements with
  | nil => rfl
  | cons statement rest ih =>
      obtain ⟨kind, hkind⟩ := hall statement (by simp)
      rw [allEmpty, hkind.requireKind_eq, ok_bind] at h
      split at h
      · rename_i hempty
        obtain rfl : kind = "EmptyStatement" := by simpa [Json.isText] using hempty
        rw [wordsOf, List.flatMap_cons, words_empty hkind, List.nil_append]
        exact ih (fun part hpart => hall part (by simp [hpart])) h
      · cases h

/-- A list of nodes in braces. -/
lemma says_block (h : inner.Speaks quote) (hform : node.Conforms form) {options : List String}
    (hneed : form.lookup "body" = some ⟨.list false (.node options), false⟩) :
    Says quote (node.wordsAt quote "body") (block node inner) := by
  obtain ⟨list, hlist, parts, hparts, hall, hwords⟩ :=
    exists_nodes_words quote hform "body" hneed
  rw [← hwords]
  refine .known hlist <| .known hparts <| .readOf fun empty hempty => ?_
  cases empty with
  | true =>
      rw [words_of_allEmpty (fun part hpart => ?_) hempty]
      · exact says_text _
      · obtain ⟨kind, -, hkind⟩ := Json.isA_of_fits (hall part hpart)
        exact ⟨kind, hkind⟩
  | false =>
      refine Render.says_raise.skip fun _ => ?_
      refine (says_markers (by simp [Command.chunkText?, Command.leaves])).skip fun _ => ?_
      refine (says_body h hall).ending ?_
      exact says_markers (by simp [Command.chunkText?, Command.leaves])

lemma speaks_block (hkind : Estree.forms.lookup kind = some form) {options : List String}
    (hneed : (Estree.common ++ form).lookup "body" = some ⟨.list false (.node options), false⟩)
    (hplain : kind ∉ Json.speakingKinds ++ Json.rearrangedKinds)
    (hkeys : Estree.nodeKeys kind = ["body"]) : SpeaksOn quote kind block :=
  fun _ _ hnode _ _ h => (says_block h (hnode.conforms hkind) hneed).of_eq (by
    simp [hnode.words_eq hplain, hkeys])

lemma speaks_staticBlock : SpeaksOn quote "StaticBlock" staticBlock := fun _ _ hnode _ _ h => by
  have hkeys : Estree.nodeKeys "StaticBlock" = ["body"] := rfl
  refine ((says_text _).skip fun _ => says_block h (hnode.conforms rfl) rfl).of_eq ?_
  simp [hnode.words_eq (by decide), hkeys]

lemma speaks_empty : SpeaksOn quote "EmptyStatement" empty := fun _ _ hnode _ _ _ => by
  rw [words_empty hnode]
  exact says_text _

lemma speaks_expressionStatement : SpeaksOn quote "ExpressionStatement" expressionStatement := by
  intro node inner hnode _ _ h
  have hkeys : Estree.nodeKeys "ExpressionStatement" = ["expression"] := rfl
  rw [hnode.words_eq (by decide), hkeys, Json.wordsUnder_cons, Json.wordsUnder_nil, List.append_nil]
  refine (hnode.conforms rfl).says_require "expression" rfl fun part hfield hpart => ?_
  refine .read fun wrap => (Inner.Speaks.wrapped ?_ wrap).ending (says_text _)
  exact h.partAt hfield hpart

lemma speaks_debuggerStatement : SpeaksOn quote "DebuggerStatement" debuggerStatement :=
  fun node _ hnode _ _ _ => by
    have hkeys : Estree.nodeKeys "DebuggerStatement" = [] := rfl
    have hwords : node.words quote = [.keyword "debugger"] := by
      simp [hnode.words_own (by decide), Json.ownWords, hnode.kindName, hkeys]
    rw [hwords]
    exact (says_chunk rfl).ending (says_text _)

/-- A part between two texts. -/
lemma says_between {ws : List Word} {part : Part node} (hpart : Says quote ws (inner.value part))
    (start stop : String) :
    Says quote ws (do
      Render.text start
      inner.value part
      Render.text stop) :=
  (says_text _).skip fun _ => hpart.ending (says_text _)

lemma speaks_jump (keyword : String) (hkind : Estree.forms.lookup kind = some Estree.jumpForm)
    (hplain : kind ∉ Json.speakingKinds ++ Json.rearrangedKinds)
    (hkeys : Estree.nodeKeys kind = ["label"]) : SpeaksOn quote kind (jump keyword) :=
  fun node inner hnode _ _ h => by
    rw [hnode.words_eq hplain, hkeys, Json.wordsUnder_cons, Json.wordsUnder_nil]
    refine (hnode.conforms hkind).says_given "label" rfl (says_text _) fun _ hfield hlabel => ?_
    rw [List.append_nil]
    exact says_between (h.partAt hfield hlabel) _ _

lemma speaks_labeled : SpeaksOn quote "LabeledStatement" labeled := fun _ _ hnode _ _ h => by
  have hkeys : Estree.nodeKeys "LabeledStatement" = ["label", "body"] := rfl
  rw [hnode.words_eq (by decide), hkeys]
  exact says_twoFields h (hnode.conforms rfl) _ _ _ rfl rfl

lemma speaks_leave (keyword : String) (hkind : Estree.forms.lookup kind = some form)
    {options : List String} {isOptional : Bool}
    (hneed : (Estree.common ++ form).lookup "argument" = some ⟨.node options, isOptional⟩)
    (hplain : kind ∉ Json.speakingKinds ++ Json.rearrangedKinds)
    (hkeys : Estree.nodeKeys kind = ["argument"]) : SpeaksOn quote kind (leave keyword) :=
  fun node inner hnode _ _ h => by
    rw [hnode.words_eq hplain, hkeys, Json.wordsUnder_cons, Json.wordsUnder_nil]
    refine (hnode.conforms hkind).says_present "argument" hneed (says_text _)
      fun _ hfield hargument => .read fun _ => .read fun _ => ?_
    rw [List.append_nil]
    have hpart := h.partAt hfield hargument
    exact .ite (says_between hpart _ _) (says_between hpart _ _)

lemma words_declaration (hnode : node.IsA "VariableDeclaration") :
    node.words quote = node.wordsAt quote "declarations" := by
  have hkeys : Estree.nodeKeys "VariableDeclaration" = ["declarations"] := rfl
  simp [hnode.words_eq (by decide), hkeys]

lemma says_declarations (hnode : node.IsA "VariableDeclaration") (h : inner.Speaks quote) :
    Says quote (node.words quote) (Render.declarations node inner) := by
  obtain ⟨list, hlist, parts, hparts, hall, hwords⟩ :=
    exists_nodes_words quote (hnode.conforms rfl) "declarations" rfl
  rw [words_declaration hnode, ← hwords]
  exact Render.says_declarations hlist hparts fun part hpart => h.value (hall part hpart)

lemma speaks_variableDeclaration : SpeaksOn quote "VariableDeclaration" variableDeclaration :=
  fun _ _ hnode _ _ h => (says_declarations hnode h).ending (says_text _)

lemma speaks_declarator : SpeaksOn quote "VariableDeclarator" declarator := by
  intro node inner hnode _ _ h
  have hform := hnode.conforms rfl
  have hkeys : Estree.nodeKeys "VariableDeclarator" = ["id", "init"] := rfl
  rw [hnode.words_eq (by decide), hkeys]
  simp only [Json.wordsUnder_cons, Json.wordsUnder_nil, List.append_nil]
  refine (h.field hform "id" rfl).andThen ?_
  exact h.valueAfter hform _ "init" rfl

/-! ## Branches and loops -/

lemma speaks_ifRule : SpeaksOn quote "IfStatement" ifRule := by
  intro node inner hnode _ _ h
  have hform := hnode.conforms rfl
  have hkeys : Estree.nodeKeys "IfStatement" = ["test", "consequent", "alternate"] := rfl
  rw [hnode.words_eq (by decide), hkeys]
  simp only [Json.wordsUnder_cons, Json.wordsUnder_nil, List.append_nil]
  refine (says_text _).skip fun _ => (h.field hform "test" rfl).andThen ?_
  refine (says_text _).skip fun _ => (h.field hform "consequent" rfl).andThen ?_
  exact h.valueAfter hform _ "alternate" rfl

lemma says_loopHead (h : inner.Speaks quote) {key : String} {head : Part node}
    (hfield : node.field? key = some head) {kinds : List String}
    (hhead : head.1.fits (.node kinds) = true) :
    Says quote (node.wordsAt quote key) (loopHead inner head) := by
  obtain ⟨kind, -, hkind⟩ := Json.isA_of_fits hhead
  refine .known hkind.requireKind_eq ?_
  split
  · rename_i hdeclaration
    obtain rfl : kind = "VariableDeclaration" := by simpa [Json.isText] using hdeclaration
    rw [Json.wordsAt_of_isObject hfield hkind.isObject]
    exact says_declarations hkind (h.under head)
  · exact h.partAt hfield hhead

lemma speaks_forRule : SpeaksOn quote "ForStatement" forRule := by
  intro node inner hnode _ _ h
  have hform := hnode.conforms rfl
  have hkeys : Estree.nodeKeys "ForStatement" = ["init", "test", "update", "body"] := rfl
  have hrest : Says quote (node.wordsUnder quote ["test", "update", "body"]) (do
      Render.text ";"
      inner.valueAfter " " (← node.given "test")
      Render.text ";"
      inner.valueAfter " " (← node.given "update")
      Render.text ") "
      inner.field "body") := by
    simp only [Json.wordsUnder_cons, Json.wordsUnder_nil, List.append_nil]
    refine (says_text _).skip fun _ => h.valueAfterThen hform _ "test" rfl ?_
    refine (says_text _).skip fun _ => h.valueAfterThen hform _ "update" rfl ?_
    exact (says_text _).skip fun _ => h.field hform "body" rfl
  rw [hnode.words_eq (by decide), hkeys]
  refine (says_text _).skip fun _ => ?_
  refine hform.says_given "init" rfl hrest fun start hfield hstart => ?_
  exact ((says_loopHead h hfield hstart).withNoIn true).andThen hrest

lemma speaks_forEach (keyword : String) (hkind : Estree.forms.lookup kind = some Estree.loopForm)
    (hplain : kind ∉ Json.speakingKinds ++ Json.rearrangedKinds)
    (hkeys : Estree.nodeKeys kind = ["left", "right", "body"]) :
    SpeaksOn quote kind (forEach keyword) := by
  intro node inner hnode _ _ h
  have hform := hnode.conforms hkind
  rw [hnode.words_eq hplain, hkeys]
  simp only [Json.wordsUnder_cons, Json.wordsUnder_nil, List.append_nil]
  refine (says_text _).skip fun _ => ?_
  refine (says_textIf _ _ _).skip fun _ => ?_
  refine (says_text _).skip fun _ => ?_
  refine hform.says_require "left" rfl fun head hfield hhead => ?_
  refine (says_loopHead h hfield hhead).andThen ?_
  refine (says_text _).skip fun _ => (h.field hform "right" rfl).andThen ?_
  exact (says_text _).skip fun _ => h.field hform "body" rfl

lemma speaks_headed (keyword key : String) (hkind : Estree.forms.lookup kind = some form)
    {options options' : List String}
    (hkey : (Estree.common ++ form).lookup key = some ⟨.node options, false⟩)
    (hbody : (Estree.common ++ form).lookup "body" = some ⟨.node options', false⟩)
    (hplain : kind ∉ Json.speakingKinds ++ Json.rearrangedKinds)
    (hkeys : Estree.nodeKeys kind = [key, "body"]) :
    SpeaksOn quote kind (headed keyword key) := by
  intro node inner hnode _ _ h
  have hform := hnode.conforms hkind
  rw [hnode.words_eq hplain, hkeys]
  simp only [Json.wordsUnder_cons, Json.wordsUnder_nil, List.append_nil]
  refine (says_text _).skip fun _ => (h.field hform key hkey).andThen ?_
  exact (says_text _).skip fun _ => h.field hform "body" hbody

lemma speaks_doWhile : SpeaksOn quote "DoWhileStatement" doWhile := by
  intro node inner hnode _ _ h
  have hform := hnode.conforms rfl
  have hkeys : Estree.nodeKeys "DoWhileStatement" = ["body", "test"] := rfl
  rw [hnode.words_eq (by decide), hkeys]
  simp only [Json.wordsUnder_cons, Json.wordsUnder_nil, List.append_nil]
  refine (says_text _).skip fun _ => (h.field hform "body" rfl).andThen ?_
  exact (says_text _).skip fun _ => (h.field hform "test" rfl).ending (says_text _)

lemma says_catchClause (hnode : node.IsPiece "CatchClause") (h : inner.Speaks quote) :
    Says quote (node.words quote) (catchClause inner) := by
  have hform := hnode.conforms rfl
  have hkeys : Estree.nodeKeys "CatchClause" = ["param", "body"] := rfl
  have hbody (lead : String) : Says quote (node.wordsAt quote "body") (do
      Render.text lead
      inner.field "body") :=
    (says_text _).skip fun _ => h.field hform "body" rfl
  rw [hnode.words_eq (by decide), hkeys]
  simp only [Json.wordsUnder_cons, Json.wordsUnder_nil, List.append_nil]
  refine hform.says_given "param" rfl (hbody _) fun parameter hfield hparameter => ?_
  refine (says_text _).skip fun _ => (h.partAt hfield hparameter).andThen ?_
  exact hbody _

lemma speaks_tryRule : SpeaksOn quote "TryStatement" tryRule := by
  intro node inner hnode _ _ h
  have hform := hnode.conforms rfl
  have hkeys : Estree.nodeKeys "TryStatement" = ["block", "handler", "finalizer"] := rfl
  have hrest := h.valueAfter hform " finally " "finalizer" rfl
  rw [hnode.words_eq (by decide), hkeys]
  simp only [Json.wordsUnder_cons, Json.wordsUnder_nil, List.append_nil]
  refine (says_text _).skip fun _ => (h.field hform "block" rfl).andThen ?_
  refine hform.says_given "handler" rfl hrest fun handler hfield hfits => ?_
  obtain ⟨kind, hmem, hkind⟩ := Json.isPiece_of_fits hfits
  obtain rfl : kind = "CatchClause" := List.mem_singleton.mp hmem
  rw [Json.wordsAt_of_isObject hfield hkind.isObject]
  exact (says_catchClause hkind (h.under handler)).andThen hrest

/-! ## Switch statements -/

lemma says_caseStatements (h : inner.Speaks quote) {options : List String}
    {statements : List (Part node)}
    (hall : ∀ part ∈ statements, part.1.fits (.node options) = true) :
    Says quote (wordsOf quote statements) (caseStatements inner statements) := by
  induction statements with
  | nil => exact says_pure _
  | cons statement rest ih =>
      refine says_newline.skip fun _ => (h.value (hall statement (by simp))).andThen ?_
      refine Render.says_drainAfterStatement.skip fun _ => ?_
      exact ih fun part hpart => hall part (by simp [hpart])

lemma says_switchCase (hnode : node.IsPiece "SwitchCase") (h : inner.Speaks quote) :
    Says quote (node.words quote) (switchCase inner) := by
  have hform := hnode.conforms rfl
  have hkeys : Estree.nodeKeys "SwitchCase" = ["test", "consequent"] := rfl
  obtain ⟨list, hlist, parts, hparts, hall, hwords⟩ :=
    exists_nodes_words quote hform "consequent" rfl
  have hrest : Says quote (node.wordsAt quote "consequent") (do
      Render.emit [.indent]
      caseStatements inner (← Json.parts (← node.require "consequent"))
      Render.emit [.dedent]) := by
    rw [← hwords]
    refine (says_markers (by simp [Command.chunkText?, Command.leaves])).skip fun _ => ?_
    refine .known hlist (.known hparts ?_)
    refine (says_caseStatements h hall).ending ?_
    exact says_markers (by simp [Command.chunkText?, Command.leaves])
  rw [hnode.words_eq (by decide), hkeys]
  simp only [Json.wordsUnder_cons, Json.wordsUnder_nil, List.append_nil]
  refine .read fun comments => (Render.says_leadingComments _ _ _).skip fun _ => ?_
  refine hform.says_given "test" rfl ((says_text _).skip fun _ => hrest) fun test hfield htest => ?_
  refine (says_text _).skip fun _ => (h.partAt hfield htest).andThen ?_
  exact (says_text _).skip fun _ => hrest

lemma says_switchCases (h : inner.Speaks quote) (isFirst : Bool) {cases : List (Part node)}
    (hall : ∀ case ∈ cases, case.1.IsPiece "SwitchCase") :
    Says quote (wordsOf quote cases) (switchCases inner isFirst cases) := by
  induction cases generalizing isFirst with
  | nil => exact says_pure _
  | cons case rest ih =>
      unfold switchCases
      refine .optional (says_text _) fun _ => says_newline.skip fun _ => ?_
      exact (says_switchCase (hall case (by simp)) (h.under case)).andThen
        (ih false fun c hc => hall c (by simp [hc]))

lemma speaks_switchRule : SpeaksOn quote "SwitchStatement" switchRule := by
  intro node inner hnode _ _ h
  have hform := hnode.conforms rfl
  have hkeys : Estree.nodeKeys "SwitchStatement" = ["discriminant", "cases"] := rfl
  obtain ⟨list, hlist, hfits, parts, hparts, hall⟩ := hform.parts "cases" rfl
  obtain ⟨items, hitems, -⟩ := Json.list_of_fits hfits
  have hwords := Json.wordsAt_of_parts quote (Json.field?_of_require hlist)
    ⟨items, hitems⟩ hparts
  have hpieces : ∀ case ∈ parts, case.1.IsPiece "SwitchCase" := fun case hcase => by
    obtain ⟨kind, hmem, hkind⟩ := Json.isPiece_of_fits ((hall case hcase).resolve_left (by simp))
    exact List.mem_singleton.mp hmem ▸ hkind
  have hcases : Says quote (node.wordsAt quote "cases") (do
      Render.emit [.text ") \x7b", .indent]
      switchCases inner true (← Json.parts (← node.require "cases"))
      Render.emit [.dedent, .newline, .text "\x7d"]) := by
    rw [hwords]
    refine (says_markers (by simp [Command.chunkText?, Command.leaves])).skip fun _ => ?_
    refine .known hlist (.known hparts ?_)
    refine (says_switchCases h true hpieces).ending ?_
    exact says_markers (by simp [Command.chunkText?, Command.leaves])
  rw [hnode.words_eq (by decide), hkeys]
  simp only [Json.wordsUnder_cons, Json.wordsUnder_nil, List.append_nil]
  refine Render.says_raise.skip fun _ => (says_text _).skip fun _ => ?_
  exact (h.field hform "discriminant" rfl).andThen hcases

/-! ## Classes -/

lemma says_each {render : Part node → Render Unit} {parts : List (Part node)}
    (hall : ∀ part ∈ parts, Says quote (part.1.words quote) (render part)) :
    Says quote (wordsOf quote parts) (each render parts) := by
  induction parts with
  | nil => exact says_pure _
  | cons part rest ih =>
      exact (hall part (by simp)).andThen (ih fun p hp => hall p (by simp [hp]))

lemma says_decorators (h : inner.Speaks quote) (hform : node.Conforms form)
    (hneed : form.lookup "decorators" = some Estree.decorators.2) :
    Says quote (node.wordsAt quote "decorators") (decorators inner) := by
  rw [← List.append_nil (node.wordsAt quote "decorators")]
  refine hform.says_given "decorators" hneed (says_pure _) fun list hfield hfits => ?_
  obtain ⟨parts, hparts, hall⟩ := Json.parts_of_fits hfits
  obtain ⟨items, hitems, -⟩ := Json.list_of_fits hfits
  rw [List.append_nil, Json.wordsAt_of_parts quote hfield ⟨items, hitems⟩ hparts]
  exact .known hparts (says_each fun part hpart =>
    h.value ((hall part hpart).resolve_left (by simp)))

lemma speaks_decorator : SpeaksOn quote "Decorator" decorator := by
  intro node inner hnode _ _ h
  have hkeys : Estree.nodeKeys "Decorator" = ["expression"] := rfl
  rw [hnode.words_eq (by decide), hkeys, Json.wordsUnder_cons, Json.wordsUnder_nil, List.append_nil]
  refine (hnode.conforms rfl).says_require "expression" rfl fun part hfield hpart => ?_
  refine (says_text _).skip fun _ => .read fun wrap => ?_
  exact (Inner.Speaks.wrapped (h.partAt hfield hpart) wrap).ending says_newline

lemma says_className (h : inner.Speaks quote)
    (hform : node.Conforms (Estree.common ++ Estree.classForm)) :
    Says quote (node.wordsAt quote "id") (className inner) := by
  rw [← List.append_nil (node.wordsAt quote "id")]
  refine hform.says_given "id" rfl (says_pure _) fun name hfield hname => ?_
  refine (h.partAt hfield hname).andThen ?_
  exact (Inner.Speaks.typeParameters hform).skip fun _ => says_text _

lemma says_superClass (h : inner.Speaks quote)
    (hform : node.Conforms (Estree.common ++ Estree.classForm)) :
    Says quote (node.wordsAt quote "superClass") (superClass inner) := by
  have hread : node.givenOr "superTypeArguments" "superTypeParameters" = .ok none := by
    rw [Json.givenOr, hform.given_unused "superTypeArguments" rfl, ok_bind]
    exact hform.given_unused "superTypeParameters" rfl
  rw [← List.append_nil (node.wordsAt quote "superClass")]
  refine hform.says_given "superClass" rfl (says_pure _) fun parent hfield hparent => ?_
  refine (says_text _).skip fun _ => .read fun wrap => ?_
  refine (Inner.Speaks.wrapped (h.partAt hfield hparent) wrap).andThen (.known hread ?_)
  exact (says_pure _).skip fun _ => says_text _

lemma speaks_classRule (hkind : Estree.forms.lookup kind = some Estree.classForm)
    (hplain : kind ∉ Json.speakingKinds ++ Json.rearrangedKinds)
    (hkeys : Estree.nodeKeys kind = ["decorators", "id", "superClass", "body"]) :
    SpeaksOn quote kind classRule := by
  intro node inner hnode _ _ h
  have hform := hnode.conforms hkind
  have himplemented : Says quote [] (implemented inner) :=
    hform.says_unused "implements" rfl (says_pure _)
  rw [hnode.words_eq hplain, hkeys]
  simp only [Json.wordsUnder_cons, Json.wordsUnder_nil, List.append_nil]
  refine (says_decorators h hform rfl).andThen ?_
  refine (says_textIf _ _ _).skip fun _ => (says_textIf _ _ _).skip fun _ => ?_
  refine (says_text _).skip fun _ => (says_className h hform).andThen ?_
  refine (says_superClass h hform).andThen (himplemented.skip fun _ => ?_)
  exact h.field hform "body" rfl

lemma says_modifiers (node : Json) : Says quote [] (modifiers node) := by
  refine .read fun kind => .read fun name => (says_textIf _ _ _).skip fun _ => ?_
  refine .read fun access => .optional (says_text _) fun _ => (says_textIf _ _ _).skip fun _ => ?_
  refine .read fun isAbstract => .optional (says_text _) fun _ => ?_
  exact (says_textIf _ _ _).skip fun _ => says_textIf _ _ _

lemma speaks_classMethod : SpeaksOn quote "MethodDefinition" classMethod := by
  intro node inner hnode _ hcoherent h
  have hform := hnode.conforms rfl
  have hkeys : Estree.nodeKeys "MethodDefinition" = ["decorators", "key", "value"] := rfl
  obtain ⟨function, hread, name, hmem, hfunction⟩ := hform.requireNode "value" rfl
  obtain rfl : name = "FunctionExpression" := List.mem_singleton.mp hmem
  have hfield := Json.field?_of_require hread
  have hunnamed : function.1.has "id" = false := by
    have hself := hcoherent.self hnode.isObject
    rw [Json.isCoherent, hnode.kindName] at hself
    have hvalue : [function].all (fun value => !value.1.has "id") = true := by
      rwa [← Json.held_of_isObject hfield hfunction.isObject]
    simpa using hvalue
  have hfunctionform := hfunction.conforms rfl
  have hunder := h.under function
  have hvalue : node.wordsAt quote "value" =
      function.1.wordsAt quote "params" ++ function.1.wordsAt quote "body" := by
    rw [Json.wordsAt_of_isObject hfield hfunction.isObject, words_function hfunction hunnamed]
  have hbody : Says quote (node.wordsAt quote "key" ++ node.wordsAt quote "value") (do
      key inner
      Render.textIf node "optional" "?"
      signature (inner.under function)
      functionBody (inner.under function)) := by
    rw [hvalue]
    refine (h.key hform rfl).andThen ((says_textIf _ _ _).skip fun _ => ?_)
    refine (hunder.signature hfunctionform rfl).andThen ?_
    exact says_functionBody hunder hfunctionform rfl
  rw [hnode.words_eq (by decide), hkeys]
  simp only [Json.wordsUnder_cons, Json.wordsUnder_nil, List.append_nil]
  refine (says_decorators h hform rfl).andThen ((says_modifiers node).skip fun _ => ?_)
  refine .known hread ((says_accessor node).skip fun _ => ?_)
  exact (says_textIf _ _ _).skip fun _ => (says_textIf _ _ _).skip fun _ => hbody

lemma speaks_classProperty : SpeaksOn quote "PropertyDefinition" (classProperty false) := by
  intro node inner hnode _ _ h
  have hform := hnode.conforms rfl
  have hkeys : Estree.nodeKeys "PropertyDefinition" = ["decorators", "key", "value"] := rfl
  have hvalue : Says quote (node.wordsAt quote "value") (do
      inner.valueAfter " = " (← node.given "value")
      Render.text ";") :=
    (h.valueAfterThen hform " = " "value" rfl (says_text _)).of_eq (List.append_nil _)
  rw [hnode.words_eq (by decide), hkeys]
  simp only [Json.wordsUnder_cons, Json.wordsUnder_nil, List.append_nil]
  refine (says_decorators h hform rfl).andThen ((says_modifiers node).skip fun _ => ?_)
  refine (h.key hform rfl).andThen ?_
  refine (says_textIf _ _ _).skip fun _ => (says_textIf _ _ _).skip fun _ => ?_
  exact (Inner.Speaks.ascription hform).skip fun _ => hvalue

end Rules

end EstreePrinter
