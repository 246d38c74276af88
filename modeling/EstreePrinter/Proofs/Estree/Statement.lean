import Mathlib
import EstreePrinter.Proofs.Estree.Expression

/-!
# The rules for statements, classes, imports and exports end on well-formed nodes

The pieces of a node, such as the cases of a `switch` statement or the names in an import, have no
rule of their own: the rule of the node around them reads them, and only the nodes inside of them
are rendered as nodes.
-/

namespace EstreePrinter

open Json (Part)
open Render (Ends Safe safe_text safe_textIf safe_chunk safe_pure safe_newline safe_markers)

namespace Rules

variable {node : Json} {inner : Inner node} {kind : String} {form : Form}

/-! ## Blocks and simple statements -/

/-- The nodes of a list. -/
lemma exists_nodes (hform : node.Conforms form) (key : String) {options : List String}
    (hneed : form.lookup key = some ⟨.list false (.node options), false⟩) :
    ∃ list, node.require key = .ok list ∧ ∃ parts, Json.parts list = .ok parts ∧
      ∀ part ∈ parts, ∃ kind, part.1.IsA kind := by
  obtain ⟨list, hlist, -, parts, hparts, hall⟩ := hform.parts key hneed
  refine ⟨list, hlist, parts, hparts, fun part hpart => ?_⟩
  obtain ⟨kind, -, hkind⟩ := Json.isA_of_fits ((hall part hpart).resolve_left (by simp))
  exact ⟨kind, hkind⟩

lemma safe_body (h : inner.Ends) {statements : List (Part node)}
    (hall : ∀ part ∈ statements, ∃ kind, part.1.IsA kind) : Safe (Render.body inner statements) :=
  Render.ends_bodyAfter hall (fun part hpart => by
    obtain ⟨kind, hkind⟩ := hall part hpart
    exact h.bare hkind) none

lemma ends_program : EndsOn "Program" program := fun _ _ hnode h => by
  obtain ⟨list, hlist, parts, hparts, hall⟩ := exists_nodes (hnode.conforms rfl) "body" rfl
  exact .read hlist (.read hparts (safe_body h hall))

lemma exists_allEmpty {statements : List (Part node)}
    (hall : ∀ part ∈ statements, ∃ kind, part.1.IsA kind) : ∃ b, allEmpty statements = .ok b := by
  induction statements with
  | nil => exact ⟨_, rfl⟩
  | cons statement rest ih =>
      obtain ⟨kind, hkind⟩ := hall statement (by simp)
      rw [allEmpty, hkind.requireKind_eq, ok_bind]
      split
      · exact ih fun part hpart => hall part (by simp [hpart])
      · exact ⟨_, rfl⟩

/-- A list of nodes in braces. -/
lemma ends_block (hkind : Estree.forms.lookup kind = some form) {options : List String}
    (hneed : (Estree.common ++ form).lookup "body" = some ⟨.list false (.node options), false⟩) :
    EndsOn kind block := fun _ _ hnode h => by
  obtain ⟨list, hlist, parts, hparts, hall⟩ := exists_nodes (hnode.conforms hkind) "body" hneed
  refine .read hlist (.read hparts (.reading (exists_allEmpty hall) fun _ =>
    .ite (safe_text _) (Render.safe_raise.andThen ?_)))
  exact (safe_markers (by simp)).andThen ((safe_body h hall).andThen (safe_markers (by simp)))

lemma ends_staticBlock : EndsOn "StaticBlock" staticBlock := fun node inner hnode h =>
  (safe_text _).andThen (ends_block rfl rfl node inner hnode h)

lemma ends_empty : EndsOn kind empty := fun _ _ _ _ => safe_text _

lemma ends_expressionStatement : EndsOn "ExpressionStatement" expressionStatement := by
  intro node inner hnode h
  refine (hnode.conforms rfl).ends_require "expression" rfl fun _ _ _ hexpression => ?_
  refine .reading (Precedence.exists_startsWith hexpression _) fun wrap => ?_
  exact (h.wrapped hexpression wrap).andThen (safe_text _)

lemma ends_debuggerStatement : EndsOn kind debuggerStatement := fun _ _ hnode _ =>
  (safe_chunk ⟨_, rfl⟩ hnode.hasPlace).andThen (safe_text _)

/-- A part between two texts. -/
lemma safe_between (h : inner.Ends) {part : Part node} (hpart : part.1.IsA kind)
    (start stop : String) :
    Safe (do
      Render.text start
      inner.value part
      Render.text stop) :=
  (safe_text _).andThen ((h.value hpart).andThen (safe_text _))

lemma ends_jump (keyword : String) (hkind : Estree.forms.lookup kind = some Estree.jumpForm) :
    EndsOn kind (jump keyword) := fun _ _ hnode h =>
  (hnode.conforms hkind).ends_given "label" rfl (safe_text _) fun _ _ _ hlabel =>
    safe_between h hlabel _ _

lemma ends_labeled : EndsOn "LabeledStatement" labeled := fun _ _ hnode h =>
  safe_twoFields h (hnode.conforms rfl) _ _ _ rfl rfl

lemma exists_anySpansLines {comments : List Json} (h : ∀ c ∈ comments, c.IsComment) :
    ∃ b, anySpansLines comments = .ok b := by
  induction comments with
  | nil => exact ⟨_, rfl⟩
  | cons comment rest ih =>
      obtain ⟨b, hb⟩ := Json.IsComment.exists_spansLines (h comment (by simp))
      rw [anySpansLines, hb, ok_bind]
      split
      · exact ⟨_, rfl⟩
      · exact ih fun c hc => h c (by simp [hc])

lemma ends_leave (keyword : String) (hkind : Estree.forms.lookup kind = some form)
    {options : List String} {isOptional : Bool}
    (hneed : (Estree.common ++ form).lookup "argument" = some ⟨.node options, isOptional⟩) :
    EndsOn kind (leave keyword) := by
  intro node inner hnode h
  refine (hnode.conforms hkind).ends_present "argument" hneed (safe_text _)
    fun argument _ _ hargument => ?_
  obtain ⟨comments, hcomments, hprintable⟩ := hargument.exists_comments
  refine .read hcomments (.reading (exists_anySpansLines hprintable) fun breaks => ?_)
  exact .ite (safe_between h hargument _ _) (safe_between h hargument _ _)

lemma safe_declarations (hnode : node.IsA "VariableDeclaration") (h : inner.Ends) :
    Safe (Render.declarations node inner) := by
  have hform := hnode.conforms rfl
  obtain ⟨list, hlist, parts, hparts, hall⟩ := exists_nodes hform "declarations" rfl
  obtain ⟨word, hword, -⟩ := hform.require "kind" rfl
  refine Render.ends_declarations hform.isObject hlist hparts ⟨word, hword⟩ fun part hpart => ?_
  obtain ⟨kind, hkind⟩ := hall part hpart
  exact h.value hkind

lemma ends_variableDeclaration : EndsOn "VariableDeclaration" variableDeclaration :=
  fun _ _ hnode h => (safe_declarations hnode h).andThen (safe_text _)

lemma ends_declarator : EndsOn "VariableDeclarator" declarator := fun _ _ hnode h =>
  (h.field (hnode.conforms rfl) "id" rfl).andThen (h.valueAfter (hnode.conforms rfl) _ "init" rfl)

/-! ## Branches and loops -/

lemma ends_ifRule : EndsOn "IfStatement" ifRule := by
  intro node inner hnode h
  have hform := hnode.conforms rfl
  refine (safe_text _).andThen ((h.field hform "test" rfl).andThen ?_)
  refine (safe_text _).andThen ((h.field hform "consequent" rfl).andThen ?_)
  exact h.valueAfter hform _ "alternate" rfl

lemma safe_loopHead (h : inner.Ends) {head : Part node} (hhead : head.1.IsA kind) :
    Safe (loopHead inner head) := by
  refine .read hhead.requireKind_eq ?_
  split
  · rename_i hdeclaration
    obtain rfl : kind = "VariableDeclaration" := by simpa [Json.isText] using hdeclaration
    exact safe_declarations hhead (h.under head)
  · exact h.value hhead

lemma ends_forRule : EndsOn "ForStatement" forRule := by
  intro node inner hnode h
  have hform := hnode.conforms rfl
  have hrest : Safe (do
      Render.text ";"
      inner.valueAfter " " (← node.given "test")
      Render.text ";"
      inner.valueAfter " " (← node.given "update")
      Render.text ") "
      inner.field "body") := by
    refine (safe_text _).andThen (h.valueAfterThen hform _ "test" rfl ?_)
    refine (safe_text _).andThen (h.valueAfterThen hform _ "update" rfl ?_)
    exact (safe_text _).andThen (h.field hform "body" rfl)
  refine (safe_text _).andThen (hform.ends_given "init" rfl hrest fun _ _ _ hstart => ?_)
  exact ((safe_loopHead h hstart).withNoIn true).andThen hrest

lemma ends_forEach (keyword : String) (hkind : Estree.forms.lookup kind = some Estree.loopForm) :
    EndsOn kind (forEach keyword) := by
  intro node inner hnode h
  have hform := hnode.conforms hkind
  refine (safe_text _).andThen ((safe_textIf hform.isObject _ _).andThen ((safe_text _).andThen ?_))
  refine hform.ends_require "left" rfl fun head _ _ hhead => ?_
  refine (safe_loopHead h hhead).andThen ((safe_text _).andThen ?_)
  refine (h.field hform "right" rfl).andThen ((safe_text _).andThen ?_)
  exact h.field hform "body" rfl

lemma ends_headed (keyword key : String) (hkind : Estree.forms.lookup kind = some form)
    {options options' : List String}
    (hkey : (Estree.common ++ form).lookup key = some ⟨.node options, false⟩)
    (hbody : (Estree.common ++ form).lookup "body" = some ⟨.node options', false⟩) :
    EndsOn kind (headed keyword key) := by
  intro node inner hnode h
  have hform := hnode.conforms hkind
  refine (safe_text _).andThen ((h.field hform key hkey).andThen ?_)
  exact (safe_text _).andThen (h.field hform "body" hbody)

lemma ends_doWhile : EndsOn "DoWhileStatement" doWhile := by
  intro node inner hnode h
  have hform := hnode.conforms rfl
  refine (safe_text _).andThen ((h.field hform "body" rfl).andThen ?_)
  exact (safe_text _).andThen ((h.field hform "test" rfl).andThen (safe_text _))

lemma safe_catchClause (hnode : node.IsPiece "CatchClause") (h : inner.Ends) :
    Safe (catchClause inner) := by
  have hform := hnode.conforms rfl
  have hbody (lead : String) : Safe (do
      Render.text lead
      inner.field "body") :=
    (safe_text _).andThen (h.field hform "body" rfl)
  refine hform.ends_given "param" rfl (hbody _) fun _ _ _ hparameter => ?_
  exact (safe_text _).andThen ((h.value hparameter).andThen (hbody _))

lemma ends_tryRule : EndsOn "TryStatement" tryRule := fun node inner hnode h => by
  have hform := hnode.conforms rfl
  have hrest := h.valueAfter hform " finally " "finalizer" rfl
  obtain ⟨handler, hhandler, hfits⟩ := hform.given "handler" rfl
  refine (safe_text _).andThen ((h.field hform "block" rfl).andThen (.read hhandler ?_))
  cases handler with
  | none => exact hrest
  | some handler =>
      obtain ⟨kind, hmem, hkind⟩ := Json.isPiece_of_fits (hfits handler rfl).1
      obtain rfl : kind = "CatchClause" := List.mem_singleton.mp hmem
      exact (safe_catchClause hkind (h.under handler)).andThen hrest

/-! ## Switch statements -/

lemma safe_caseStatements (h : inner.Ends) {statements : List (Part node)}
    (hall : ∀ part ∈ statements, ∃ kind, part.1.IsA kind) :
    Safe (caseStatements inner statements) := by
  induction statements with
  | nil => exact safe_pure _
  | cons statement rest ih =>
      obtain ⟨kind, hkind⟩ := hall statement (by simp)
      refine safe_newline.andThen ((h.value hkind).andThen ?_)
      exact Render.safe_drainAfterStatement.andThen (ih fun part hpart => hall part (by simp [hpart]))

lemma safe_switchCase (hnode : node.IsPiece "SwitchCase") (h : inner.Ends) :
    Safe (switchCase inner) := by
  have hform := hnode.conforms rfl
  obtain ⟨comments, hcomments, hprintable⟩ := hnode.exists_comments
  obtain ⟨list, hlist, parts, hparts, hall⟩ := exists_nodes hform "consequent" rfl
  have hrest : Safe (do
      Render.emit [.indent]
      caseStatements inner (← Json.parts (← node.require "consequent"))
      Render.emit [.dedent]) := by
    refine (safe_markers (by simp)).andThen (.read hlist (.read hparts ?_))
    exact (safe_caseStatements h hall).andThen (safe_markers (by simp))
  refine .read hcomments ((Render.safe_leadingComments true (Or.inl rfl) hprintable).andThen ?_)
  refine hform.ends_given "test" rfl ((safe_text _).andThen hrest) fun _ _ _ htest => ?_
  exact (safe_text _).andThen ((h.value htest).andThen ((safe_text _).andThen hrest))

lemma safe_switchCases (h : inner.Ends) (isFirst : Bool) {cases : List (Part node)}
    (hall : ∀ case ∈ cases, case.1.IsPiece "SwitchCase") :
    Safe (switchCases inner isFirst cases) := by
  induction cases generalizing isFirst with
  | nil => exact safe_pure _
  | cons case rest ih =>
      unfold switchCases
      refine .optional (safe_text _) fun _ => safe_newline.andThen ?_
      exact (safe_switchCase (hall case (by simp)) (h.under case)).andThen
        (ih false fun c hc => hall c (by simp [hc]))

lemma ends_switchRule : EndsOn "SwitchStatement" switchRule := by
  intro node inner hnode h
  have hform := hnode.conforms rfl
  obtain ⟨list, hlist, -, parts, hparts, hall⟩ := hform.parts "cases" rfl
  have hpieces : ∀ case ∈ parts, case.1.IsPiece "SwitchCase" := fun case hcase => by
    obtain ⟨kind, hmem, hkind⟩ := Json.isPiece_of_fits ((hall case hcase).resolve_left (by simp))
    exact List.mem_singleton.mp hmem ▸ hkind
  refine Render.safe_raise.andThen ((safe_text _).andThen ?_)
  refine (h.field hform "discriminant" rfl).andThen ((safe_markers (by simp)).andThen ?_)
  refine .read hlist (.read hparts ?_)
  exact (safe_switchCases h true hpieces).andThen (safe_markers (by simp))

/-! ## Classes -/

lemma safe_decorators (hform : node.Conforms form) (h : inner.Ends)
    (hneed : form.lookup "decorators" = some Estree.decorators.2) :
    Safe (decorators inner) := by
  obtain ⟨found, hfound, hfits⟩ := hform.given "decorators" hneed
  refine .read hfound ?_
  cases found with
  | none => exact safe_pure _
  | some list =>
      obtain ⟨parts, hparts, hall⟩ := Json.parts_of_fits (hfits list rfl).1
      refine .read hparts ?_
      clear hparts
      induction parts with
      | nil => exact safe_pure _
      | cons part rest ih =>
          obtain ⟨kind, -, hkind⟩ :=
            Json.isA_of_fits ((hall part (by simp)).resolve_left (by simp))
          exact (h.value hkind).andThen (ih fun p hp => hall p (by simp [hp]))

lemma ends_decorator : EndsOn "Decorator" decorator := by
  intro node inner hnode h
  refine (hnode.conforms rfl).ends_require "expression" rfl fun _ _ _ hexpression => ?_
  refine (safe_text _).andThen (.reading (Precedence.exists_bindsLooser hexpression _) fun wrap => ?_)
  exact (h.wrapped hexpression wrap).andThen safe_newline

lemma safe_className (hform : node.Conforms (Estree.common ++ Estree.classForm)) (h : inner.Ends) :
    Safe (className inner) :=
  hform.ends_given "id" rfl (safe_pure _) fun _ _ _ hname =>
    (h.value hname).andThen ((Inner.Ends.typeParameters hform).andThen (safe_text _))

lemma safe_superClass (hform : node.Conforms (Estree.common ++ Estree.classForm))
    (h : inner.Ends) : Safe (superClass inner) := by
  have hread : node.givenOr "superTypeArguments" "superTypeParameters" = .ok none := by
    rw [Json.givenOr, hform.given_unused "superTypeArguments" rfl, ok_bind]
    exact hform.given_unused "superTypeParameters" rfl
  refine hform.ends_given "superClass" rfl (safe_pure _) fun _ _ _ hparent => ?_
  refine (safe_text _).andThen (.reading (Precedence.exists_bindsLooser hparent _) fun wrap => ?_)
  exact (h.wrapped hparent wrap).andThen (.read hread ((safe_pure _).andThen (safe_text _)))

lemma ends_classRule (hkind : Estree.forms.lookup kind = some Estree.classForm) :
    EndsOn kind classRule := by
  intro node inner hnode h
  have hform := hnode.conforms hkind
  have himplemented : Safe (implemented inner) :=
    .read (hform.given_unused "implements" rfl) (safe_pure _)
  refine (safe_decorators hform h rfl).andThen ((safe_textIf hform.isObject _ _).andThen ?_)
  refine (safe_textIf hform.isObject _ _).andThen ((safe_text _).andThen ?_)
  refine (safe_className hform h).andThen ((safe_superClass hform h).andThen ?_)
  exact himplemented.andThen (h.field hform "body" rfl)

lemma safe_modifiers (hnode : node.IsA kind) : Safe (modifiers node) := by
  have hobject := hnode.isObject
  refine .read hnode.requireKind_eq (.read (a := kind) rfl ((safe_textIf hobject _ _).andThen ?_))
  refine .reading (Json.exists_getValue hobject _) fun access => .optional (safe_text _) fun _ => ?_
  refine (safe_textIf hobject _ _).andThen ?_
  refine .reading (Json.exists_flag hobject _) fun isAbstract => .optional (safe_text _) fun _ => ?_
  exact (safe_textIf hobject _ _).andThen (safe_textIf hobject _ _)

lemma ends_classMethod : EndsOn "MethodDefinition" classMethod := by
  intro node inner hnode h
  have hform := hnode.conforms rfl
  obtain ⟨function, hread, k, hmem, hfunction⟩ := hform.requireNode "value" rfl
  obtain rfl : k = "FunctionExpression" := List.mem_singleton.mp hmem
  have hfunctionform := hfunction.conforms rfl
  have hunder := h.under function
  refine (safe_decorators hform h rfl).andThen ((safe_modifiers hnode).andThen ?_)
  refine .read hread ((safe_accessor hform.isObject).bind fun _ _ => ?_)
  refine (safe_textIf hfunctionform.isObject _ _).andThen ?_
  refine (safe_textIf hfunctionform.isObject _ _).andThen ((h.key hform rfl).andThen ?_)
  refine (safe_textIf hform.isObject _ _).andThen ?_
  exact (hunder.signature hfunctionform rfl).andThen (safe_functionBody hunder hfunctionform rfl)

lemma ends_classProperty : EndsOn "PropertyDefinition" (classProperty false) := by
  intro node inner hnode h
  have hform := hnode.conforms rfl
  refine (safe_decorators hform h rfl).andThen ((safe_modifiers hnode).andThen ?_)
  refine (h.key hform rfl).andThen ((safe_textIf hform.isObject _ _).andThen ?_)
  refine (safe_textIf hform.isObject _ _).andThen ((Inner.Ends.ascription hform).andThen ?_)
  exact h.valueAfterThen hform _ "value" rfl (safe_text _)

/-! ## Imports and exports -/

lemma safe_importAttributes (hform : node.Conforms form) (h : inner.Ends)
    {isOptional isOptional' : Bool}
    (hneed : form.lookup "attributes" =
      some ⟨.list false (.node ["ImportAttribute"]), isOptional⟩)
    (hneed' : form.lookup "assertions" =
      some ⟨.list false (.node ["ImportAttribute"]), isOptional'⟩) :
    Safe (importAttributes inner) := by
  obtain ⟨found, hfound, hfits⟩ := hform.givenOr "attributes" "assertions" hneed hneed' rfl
  refine .read hfound ?_
  cases found with
  | none => exact safe_pure _
  | some list =>
      exact (safe_text _).andThen ((h.list true (hfits list rfl)).andThen (safe_text _))

/-- Where something comes from, if it is told. -/
lemma safe_origin (hsource : Safe (inner.field "source"))
    (hattributes : Safe (importAttributes inner)) : Safe (origin inner) :=
  (safe_text _).andThen (hsource.andThen hattributes)

lemma ends_importAttribute : EndsOn "ImportAttribute" importAttribute := fun _ _ hnode h =>
  safe_twoFields h (hnode.conforms rfl) _ _ _ rfl rfl

lemma safe_typeWord (h : node.isObject = true) (key : String) : Safe (typeWord node key) :=
  .reading (Json.exists_getValue h key) fun _ => .ite (safe_text _) (safe_pure _)

lemma exists_nameOf (hnode : node.IsA kind) : ∃ v, node.nameOf = .ok v := by
  obtain ⟨name, hname⟩ := Json.exists_getValue hnode.isObject "name"
  obtain ⟨value, hvalue⟩ := Json.exists_getValue hnode.isObject "value"
  rw [Json.nameOf, hnode.kind_eq, ok_bind, hname, hvalue]
  split
  · exact ⟨_, rfl⟩
  · split
    · cases value <;> exact ⟨_, rfl⟩
    · exact ⟨_, rfl⟩

lemma safe_importSpecifier (hnode : node.IsPiece "ImportSpecifier") (h : inner.Ends) :
    Safe (importSpecifier inner) := by
  have hform := hnode.conforms rfl
  refine (safe_typeWord hform.isObject _).andThen ?_
  refine hform.ends_require "imported" rfl fun _ _ _ himported => ?_
  refine hform.ends_require "local" rfl fun _ _ _ hlocal => ?_
  refine .reading (exists_nameOf himported) fun name => ?_
  refine .reading (exists_nameOf hlocal) fun name' => ?_
  refine .ite ((h.value himported).andThen ?_) (h.value hlocal)
  exact (safe_text _).andThen (h.value hlocal)

/-- The local name of a specifier. -/
lemma exists_localName (hnode : node.IsPiece kind) (hkind : Estree.pieces.lookup kind = some form)
    (hneed : (Estree.common ++ form).lookup "local" = some ⟨Estree.name, false⟩) :
    ∃ s, localName node = .ok (.str s) := by
  obtain ⟨part, hpart, k, hmem, hk⟩ := (hnode.conforms hkind).requireNode "local" hneed
  obtain rfl : k = "Identifier" := List.mem_singleton.mp hmem
  obtain ⟨name, hname, hfits⟩ := (hk.conforms rfl).require "name" rfl
  obtain ⟨s, hs⟩ := Json.text_of_fits hfits
  exact ⟨s, by simp [localName, hpart, hname, hs]⟩

/-- The names an import brings in, each of the kind for its place. -/
structure Imported.IsSorted (found : Imported node) : Prop where
  byDefault : ∀ part ∈ found.byDefault, part.1.IsPiece "ImportDefaultSpecifier"
  everything : ∀ part ∈ found.everything, part.1.IsPiece "ImportNamespaceSpecifier"
  named : ∀ part ∈ found.named, part.1.IsPiece "ImportSpecifier"

lemma exists_ofSpecifiers {specifiers : List (Part node)} (hall : ∀ part ∈ specifiers,
      ∃ kind ∈ ["ImportSpecifier", "ImportDefaultSpecifier", "ImportNamespaceSpecifier"],
        part.1.IsPiece kind) (found : Imported node) (hfound : found.IsSorted) :
    ∃ result, Imported.ofSpecifiers found specifiers = .ok result ∧ result.IsSorted := by
  induction specifiers generalizing found with
  | nil => exact ⟨found, rfl, hfound⟩
  | cons specifier rest ih =>
      obtain ⟨kind, hmem, hkind⟩ := hall specifier (by simp)
      have hrest {next : Imported node} (hnext : next.IsSorted) :=
        ih (fun part hpart => hall part (by simp [hpart])) next hnext
      rw [Imported.ofSpecifiers, hkind.requireKind_eq, ok_bind]
      simp only [List.mem_cons, List.not_mem_nil, or_false] at hmem
      rcases hmem with rfl | rfl | rfl
      · refine hrest { hfound with named := fun part hpart => ?_ }
        rcases List.mem_append.mp hpart with hpart | hpart
        · exact hfound.named part hpart
        · exact List.mem_singleton.mp hpart ▸ hkind
      · refine hrest { hfound with byDefault := fun part hpart => ?_ }
        cases hpart
        exact hkind
      · refine hrest { hfound with everything := fun part hpart => ?_ }
        cases hpart
        exact hkind

lemma safe_importedNames (h : inner.Ends) {found : Imported node} (hfound : found.IsSorted) :
    Safe (importedNames inner found) := by
  obtain ⟨byDefault, everything, named⟩ := found
  have hnamed : Safe (if !named.isEmpty then do
      Render.text "\x7b"
      Render.sequence true "," (fun specifier => importSpecifier (inner.under specifier))
        (named.map some)
      Render.text "\x7d"
      else pure ()) := by
    refine .ite ((safe_text _).andThen ((Render.ends_sequence true "," fun part hpart => ?_).andThen
      (safe_text _))) (safe_pure _)
    obtain ⟨specifier, hmem, heq⟩ := List.mem_map.mp hpart
    obtain rfl : specifier = part := Option.some.inj heq
    exact safe_importSpecifier (hfound.named specifier hmem) (h.under specifier)
  have heverything : Safe (importedNames inner ⟨none, everything, named⟩) := by
    cases everything with
    | none => exact hnamed
    | some specifier =>
        have hspecifier := hfound.everything specifier rfl
        obtain ⟨s, hs⟩ := exists_localName hspecifier rfl rfl
        exact .read hs (.read (a := s) rfl
          ((safe_chunk ⟨_, rfl⟩ hspecifier.hasPlace).andThen hnamed))
  cases byDefault with
  | none => exact heverything
  | some specifier =>
      have hspecifier := hfound.byDefault specifier rfl
      obtain ⟨s, hs⟩ := exists_localName hspecifier rfl rfl
      exact .read hs ((safe_chunk ⟨s, rfl⟩ hspecifier.hasPlace).andThen
        (.optional (safe_text _) fun _ => heverything))

lemma ends_importRule : EndsOn "ImportDeclaration" importRule := fun node inner hnode h => by
  have hform := hnode.conforms rfl
  have hsource := h.field hform "source" rfl
  have hattributes := safe_importAttributes hform h rfl rfl
  obtain ⟨found, hfound, hfits⟩ := hform.given "specifiers" rfl
  refine (safe_text _).andThen ((safe_typeWord hform.isObject _).andThen (.read hfound ?_))
  cases found with
  | none => exact hsource.andThen (hattributes.andThen (safe_text _))
  | some specifiers =>
      obtain ⟨parts, hparts, hall⟩ := Json.parts_of_fits (hfits specifiers rfl).1
      obtain ⟨names, hnames, hsorted⟩ := exists_ofSpecifiers
        (fun part hpart => Json.isPiece_of_fits ((hall part hpart).resolve_left (by simp))) {}
        ⟨by simp, by simp, by simp⟩
      refine .read hparts (.read hnames ((safe_importedNames h hsorted).andThen ?_))
      exact (safe_origin hsource hattributes).andThen (safe_text _)

lemma safe_exportSpecifier (hnode : node.IsPiece "ExportSpecifier") (h : inner.Ends) :
    Safe (exportSpecifier inner) := by
  have hform := hnode.conforms rfl
  refine (safe_typeWord hform.isObject _).andThen ?_
  refine hform.ends_require "local" rfl fun _ _ _ hlocal => ?_
  refine hform.ends_require "exported" rfl fun _ _ _ hexported => (h.value hlocal).andThen ?_
  refine .reading (exists_nameOf hlocal) fun name => ?_
  refine .reading (exists_nameOf hexported) fun name' => ?_
  exact .ite ((safe_text _).andThen (h.value hexported)) (safe_pure _)

lemma safe_exportedNames (hnode : node.IsA "ExportNamedDeclaration") (h : inner.Ends) :
    Safe (exportedNames inner) := by
  have hform := hnode.conforms rfl
  have horigin (hsource : node.flag "source" = .ok true) : Safe (origin inner) := by
    obtain ⟨source, hread, hfits⟩ := hform.require_of_flag "source" rfl hsource
    obtain ⟨kind, -, hkind⟩ := Json.isA_of_fits hfits
    exact safe_origin (.read hread (h.value hkind)) (safe_importAttributes hform h rfl rfl)
  have hrest : Safe (do
      Render.text "\x7d"
      if ← node.flag "source" then origin inner
      Render.text ";") := by
    obtain ⟨hasSource, hsource⟩ := Json.exists_flag hform.isObject "source"
    refine (safe_text _).andThen (.read hsource ?_)
    cases hasSource with
    | false => exact safe_text _
    | true => exact (horigin hsource).andThen (safe_text _)
  obtain ⟨found, hfound, hfits⟩ := hform.given "specifiers" rfl
  refine (safe_typeWord hform.isObject _).andThen ((safe_text _).andThen (.read hfound ?_))
  cases found with
  | none => exact hrest
  | some specifiers =>
      obtain ⟨items, hitems, hall⟩ := Json.itemsOf_of_fits (hfits specifiers rfl).1
      refine .read hitems ((Render.ends_sequence true "," fun part hpart => ?_).andThen hrest)
      obtain ⟨kind, hmem, hkind⟩ := Json.isPiece_of_fits (hall part hpart)
      obtain rfl : kind = "ExportSpecifier" := List.mem_singleton.mp hmem
      exact safe_exportSpecifier hkind (h.under part)

lemma ends_exportNamed : EndsOn "ExportNamedDeclaration" exportNamed := fun _ _ hnode h =>
  (safe_text _).andThen ((hnode.conforms rfl).ends_given "declaration" rfl
    (safe_exportedNames hnode h) fun _ _ _ hdeclaration => h.value hdeclaration)

lemma ends_exportDefault : EndsOn "ExportDefaultDeclaration" exportDefault := by
  intro node inner hnode h
  refine (hnode.conforms rfl).ends_require "declaration" rfl fun _ _ _ hdeclaration => ?_
  refine (safe_text _).andThen (.reading (Precedence.exists_startsWith hdeclaration _) fun wrap => ?_)
  refine (h.wrapped hdeclaration wrap).andThen (.read hdeclaration.requireKind_eq (.read rfl ?_))
  exact .ite (safe_text _) (safe_pure _)

lemma ends_exportAll : EndsOn "ExportAllDeclaration" exportAll := by
  intro node inner hnode h
  have hform := hnode.conforms rfl
  have horigin := safe_origin (h.field hform "source" rfl) (safe_importAttributes hform h rfl rfl)
  refine (safe_text _).andThen ((safe_typeWord hform.isObject _).andThen ((safe_text _).andThen ?_))
  exact h.valueAfterThen hform _ "exported" rfl (horigin.andThen (safe_text _))

end Rules

end EstreePrinter
