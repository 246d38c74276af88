import Mathlib
import EstreePrinter.Proofs.Grouping.Expression

/-!
# The rules for functions, classes, statements and modules look through parentheses

Statements are never put in parentheses, so lists of them have the same kinds on both sides and the
blank lines between them are the same (`Rules.follows_body`).

Some rules ask for the kind of a part as it stands in the tree: an arrow for a block in place of an
expression, a loop for a declaration in its head, an export for a declaration that needs no
semicolon.  None of these kinds is that of an expression (`Json.Loose.requireKind`).  The one rule
that asks for the comments of an expression is that for `return` and `throw`, and what is put in
parentheses has none (`Json.Loose.comments`).
-/

namespace EstreePrinter

open Json (Part Alike Loose Listed Meets)

variable {node node' : Json} {inner : Inner node} {inner' : Inner node'} {key kind : String}

namespace Rules

open Render (Follows text textIf chunk follows_fixed follows_flag follows_chunk)

/-! ## Functions -/

section Function

variable (h : Alike node node') (hinner : inner.Regrouped inner')
include h hinner

lemma follows_functionBody : Follows Eq (functionBody inner) (functionBody inner') := by
  refine .reading (h.loose_at _).present fun _ _ hbody => ?_
  cases hbody with
  | none => exact .refl _
  | some hbody => exact .textThen _ (hinner.value hbody)

end Function

lemma blind_function : Blind kind function := by
  intro node node' inner inner' _ h hinner
  have hrest := (follows_signature h hinner).andThen (follows_functionBody h hinner)
  refine (follows_flag h _ _).andThen ((follows_flag h _ _).andThen ?_)
  refine .readingSame (h.loose_at _).flag fun generator => .textThen _ ?_
  refine .reading (h.loose_at _).given fun _ _ hname => ?_
  cases hname with
  | none => exact hrest
  | some hname => exact (hinner.value hname).andThen hrest

/-- The body of an arrow is a block on both sides or on neither. -/
lemma blind_arrow : Blind kind arrow := by
  intro node node' inner inner' _ h hinner
  refine (follows_flag h _ _).andThen ((follows_signature h hinner).andThen (.textThen _ ?_))
  refine .reading (h.loose_at _).require fun _ _ hbody => ?_
  refine .reading (Json.Loose.requireKind hbody) fun _ _ hkind => ?_
  rw [hkind.isText (by decide)]
  refine .ite (hinner.value hbody) ?_
  exact .readingSame (Precedence.follows_startsWith hbody _) fun wraps => hinner.wrapped hbody wraps

/-! ## Classes -/

lemma follows_each {R : Json → Json → Prop} {render : Part node → Render Unit}
    {render' : Part node' → Render Unit}
    (hrender : ∀ part part', Part.Rel R part part' → Follows Eq (render part) (render' part'))
    {list : List (Part node)} {list' : List (Part node')}
    (h : List.Forall₂ (Part.Rel R) list list') :
    Follows Eq (each render list) (each render' list') := by
  induction h with
  | nil => exact .refl _
  | cons hhead _ ih => exact (hrender _ _ hhead).andThen ih

section Class

variable (h : Alike node node') (hinner : inner.Regrouped inner')
include h hinner

lemma follows_decorators : Follows Eq (decorators inner) (decorators inner') := by
  refine .reading (h.closed (by decide)).given fun _ _ hlist => ?_
  cases hlist with
  | none => exact .refl _
  | some hlist =>
      refine .reading (Alike.sameList hlist).parts fun _ _ hparts => ?_
      exact follows_each (fun _ _ hrel => hinner.value (Alike.loose hrel)) hparts

lemma follows_className : Follows Eq (className inner) (className inner') := by
  refine .reading (h.loose_at _).given fun _ _ hname => ?_
  cases hname with
  | none => exact .refl _
  | some hname =>
      exact (hinner.value hname).andThen ((follows_typeParameters h hinner).andThen (.refl _))

lemma follows_superClass : Follows Eq (superClass inner) (superClass inner') := by
  refine .reading (h.loose_at _).given fun _ _ hparent => ?_
  cases hparent with
  | none => exact .refl _
  | some hparent =>
      refine .textThen _ (.readingSame (Precedence.follows_bindsLooser hparent _) fun wraps => ?_)
      refine (hinner.wrapped hparent wraps).andThen ?_
      refine .reading ((h.closed (by decide)).givenOr (h.closed (by decide))) fun _ _ htypes => ?_
      exact (hinner.typeIf htypes).andThen (.refl _)

lemma follows_implemented : Follows Eq (implemented inner) (implemented inner') := by
  refine .reading (h.closed (by decide)).given fun _ _ htypes => ?_
  cases htypes with
  | none => exact .refl _
  | some htypes => exact .textThen _ ((follows_typeList hinner false "," htypes).andThen (.refl _))

end Class

lemma blind_decorator : Blind kind decorator := by
  intro node node' inner inner' _ h hinner
  refine .reading (h.loose_at _).require fun _ _ hrel => .textThen _ ?_
  refine .readingSame (Precedence.follows_bindsLooser hrel _) fun wraps => ?_
  exact (hinner.wrapped hrel wraps).andThen (.refl _)

lemma blind_classRule : Blind kind classRule := by
  intro node node' inner inner' _ h hinner
  refine (follows_decorators h hinner).andThen ?_
  refine (follows_flag h _ _).andThen ((follows_flag h _ _).andThen (.textThen _ ?_))
  refine (follows_className h hinner).andThen ?_
  refine (follows_superClass h hinner).andThen ?_
  refine (follows_implemented h hinner).andThen ?_
  exact follows_field h hinner _

/-- The function of a method is read from its own node, so it cannot be put in parentheses. -/
lemma blind_classMethod (hplace : ∀ isComputed, Grouping.placeIn isComputed kind "value" = .part) :
    Blind kind classMethod := by
  intro node node' inner inner' hkind h hinner
  refine (follows_decorators h hinner).andThen ((follows_modifiers h).andThen ?_)
  refine .reading (h.part_at hkind hplace).require fun value value' hvalue => ?_
  have hunder := hinner.under value value'
  refine (follows_accessor h).known fun _ => ?_
  refine (follows_flag hvalue _ _).andThen ((follows_flag hvalue _ _).andThen ?_)
  refine (follows_key h hinner).andThen ((follows_flag h _ _).andThen ?_)
  exact (follows_signature hvalue hunder).andThen (follows_functionBody hvalue hunder)

lemma blind_classProperty (isAccessor : Bool) : Blind kind (classProperty isAccessor) := by
  intro node node' inner inner' _ h hinner
  refine (follows_decorators h hinner).andThen ((follows_modifiers h).andThen ?_)
  refine .optional (.refl _) fun _ => (follows_key h hinner).andThen ?_
  refine (follows_flag h _ _).andThen ((follows_flag h _ _).andThen ?_)
  refine (follows_ascription h hinner).andThen ?_
  refine .reading (h.loose_at _).given fun _ _ hvalue => ?_
  exact (hinner.valueAfter _ hvalue).andThen (.refl _)

lemma blind_parameterProperty : Blind kind parameterProperty := fun _ h hinner =>
  (follows_modifiers h).andThen (follows_field h hinner _)

/-! ## Blocks -/

/-- Statements stand in the same groups on both sides. -/
lemma follows_body (hinner : inner.Regrouped inner') {list : List (Part node)}
    {list' : List (Part node')} (h : List.Forall₂ (Part.Rel Alike) list list') :
    Follows Eq (Render.body inner list) (Render.body inner' list') :=
  Render.follows_bodyAfter hinner.toFollows (fun hrel => hrel.type)
    (fun hrel => hrel.fixed (by decide)) none h

lemma blind_program : Blind "Program" program := by
  intro node node' inner inner' hkind h hinner
  refine .reading (h.part_at hkind (by decide)).require fun _ _ hlist => ?_
  exact .reading (Alike.sameList hlist).parts fun _ _ hparts => follows_body hinner hparts

lemma follows_allEmpty {list : List (Part node)} {list' : List (Part node')}
    (h : List.Forall₂ (Part.Rel Alike) list list') :
    Json.Follows Eq (allEmpty list) (allEmpty list') := by
  induction h with
  | nil => exact .refl _
  | cons hhead _ ih => exact (Alike.type hhead).requireKind.known fun _ => .ite ih (.refl _)

lemma blind_block (hplace : ∀ isComputed, Grouping.placeIn isComputed kind "body" = .part) :
    Blind kind block := by
  intro node node' inner inner' hkind h hinner
  refine .reading (h.part_at hkind hplace).require fun _ _ hlist => ?_
  refine .reading (Alike.sameList hlist).parts fun _ _ hparts => ?_
  refine .readingSame (follows_allEmpty hparts) fun empty => .ite (.refl _) ?_
  refine (Follows.refl _).andThen ((Follows.refl _).andThen ?_)
  exact (follows_body hinner hparts).andThen (.refl _)

lemma blind_staticBlock : Blind "StaticBlock" staticBlock := fun hkind h hinner =>
  .textThen _ (blind_block (by decide) hkind h hinner)

/-! ## Plain statements -/

lemma blind_empty : Blind kind empty := fun _ _ _ => .refl _

lemma blind_expressionStatement : Blind kind expressionStatement := fun _ h hinner =>
  follows_wrapped h hinner "expression" (Precedence.follows_startsWith · _) (.refl _)

lemma blind_debuggerStatement : Blind kind debuggerStatement := fun _ h _ =>
  (follows_chunk h rfl).andThen (.refl _)

lemma blind_jump (keyword : String) : Blind kind (jump keyword) := by
  intro node node' inner inner' _ h hinner
  refine .reading (h.loose_at _).given fun _ _ hlabel => ?_
  cases hlabel with
  | none => exact .refl _
  | some hlabel => exact .textThen _ ((hinner.value hlabel).andThen (.refl _))

lemma blind_labeled : Blind kind labeled := fun _ h hinner =>
  (follows_field h hinner _).andThen (.textThen _ (follows_field h hinner _))

/-- What is put in parentheses has no comments that would end a line behind the keyword. -/
lemma blind_leave (keyword : String) : Blind kind (leave keyword) := by
  intro node node' inner inner' _ h hinner
  refine .reading (h.loose_at _).present fun _ _ hargument => ?_
  cases hargument with
  | none => exact .refl _
  | some hargument =>
      refine .readingSame (Json.Loose.comments hargument) fun notes => ?_
      refine .readingSame (.refl _) fun breaks => .ite ?_ ?_
      · exact .textThen _ ((hinner.value hargument).andThen (.refl _))
      · exact .textThen _ ((hinner.value hargument).andThen (.refl _))

lemma follows_declarations (h : Alike node node') (hinner : inner.Regrouped inner') :
    Follows Eq (Render.declarations node inner) (Render.declarations node' inner') := by
  refine .reading (h.closed (by decide)).require fun _ _ hlist => ?_
  refine .reading (Alike.sameList hlist).parts fun _ _ hparts => (follows_flag h _ _).andThen ?_
  refine follows_fixed h (by decide) fun _ _ hkind => ?_
  rw [hkind, hparts.length_eq]
  refine .known (Render.follows_joined (fun _ _ hrel => ?_) hparts) fun _ => .refl _
  exact hinner.value (Alike.loose hrel)

lemma blind_variableDeclaration : Blind kind variableDeclaration := fun _ h hinner =>
  (follows_declarations h hinner).andThen (.refl _)

lemma blind_declarator : Blind kind declarator := fun _ h hinner =>
  (follows_field h hinner _).andThen (follows_after h hinner _ _)

/-! ## Control flow -/

lemma blind_ifRule : Blind kind ifRule := by
  intro node node' inner inner' _ h hinner
  refine .textThen _ ((follows_field h hinner _).andThen ?_)
  refine .textThen _ ((follows_field h hinner _).andThen ?_)
  exact follows_after h hinner _ _

/-- A declaration in the head of a loop stands there on both sides. -/
lemma follows_loopHead (hinner : inner.Regrouped inner') {head : Part node} {head' : Part node'}
    (h : Part.Rel Loose head head') :
    Follows Eq (loopHead inner head) (loopHead inner' head') := by
  refine .readingKnowing (Json.Loose.requireKind h) fun kind kind' hfound hkind => ?_
  rw [← hkind.isText (by decide)]
  refine .branch (fun hdeclaration => ?_) fun _ => hinner.value h
  have hfound := Json.kind_of_requireKind (Json.eq_str_of_isText hdeclaration ▸ hfound)
  exact follows_declarations (Json.Loose.alike h hfound (by decide)) (hinner.under head head')

lemma blind_forRule : Blind kind forRule := by
  intro node node' inner inner' _ h hinner
  have hrest : Follows Eq
      (do
        text ";"
        inner.valueAfter " " (← node.given "test")
        text ";"
        inner.valueAfter " " (← node.given "update")
        text ") "
        inner.field "body")
      (do
        text ";"
        inner'.valueAfter " " (← node'.given "test")
        text ";"
        inner'.valueAfter " " (← node'.given "update")
        text ") "
        inner'.field "body") := by
    refine .textThen _ (.reading (h.loose_at _).given fun _ _ htest => ?_)
    refine (hinner.valueAfter _ htest).andThen (.textThen _ ?_)
    refine .reading (h.loose_at _).given fun _ _ hupdate => ?_
    refine (hinner.valueAfter _ hupdate).andThen (.textThen _ ?_)
    exact follows_field h hinner _
  refine .textThen _ (.reading (h.loose_at _).given fun _ _ hstart => ?_)
  cases hstart with
  | none => exact hrest
  | some hstart => exact ((follows_loopHead hinner hstart).withNoIn true).andThen hrest

lemma blind_forEach (word : String) : Blind kind (forEach word) := by
  intro node node' inner inner' _ h hinner
  refine .textThen _ ((follows_flag h _ _).andThen (.textThen _ ?_))
  refine .reading (h.loose_at _).require fun _ _ hhead => ?_
  refine (follows_loopHead hinner hhead).andThen (.textThen _ ?_)
  refine (follows_field h hinner _).andThen (.textThen _ ?_)
  exact follows_field h hinner _

lemma blind_headed (keyword key : String) : Blind kind (headed keyword key) := by
  intro node node' inner inner' _ h hinner
  refine .textThen _ ((follows_field h hinner _).andThen (.textThen _ ?_))
  exact follows_field h hinner _

lemma blind_doWhile : Blind kind doWhile := by
  intro node node' inner inner' _ h hinner
  refine .textThen _ ((follows_field h hinner _).andThen (.textThen _ ?_))
  exact (follows_field h hinner _).andThen (.refl _)

lemma follows_catchClause (h : Alike node node') (hinner : inner.Regrouped inner') :
    Follows Eq (catchClause inner) (catchClause inner') := by
  refine .reading (h.loose_at _).given fun _ _ hparameter => ?_
  cases hparameter with
  | none => exact .textThen _ (follows_field h hinner _)
  | some hparameter =>
      refine .textThen _ ((hinner.value hparameter).andThen (.textThen _ ?_))
      exact follows_field h hinner _

lemma blind_tryRule : Blind kind tryRule := by
  intro node node' inner inner' _ h hinner
  have hfinalizer := follows_after h hinner " finally " "finalizer"
  refine .textThen _ ((follows_field h hinner _).andThen ?_)
  refine .reading (h.closed (by decide)).given fun _ _ hhandler => ?_
  cases hhandler with
  | none => exact hfinalizer
  | @some handler handler' hhandler =>
      exact (follows_catchClause hhandler (hinner.under handler handler')).andThen hfinalizer

lemma follows_caseStatements (hinner : inner.Regrouped inner') {list : List (Part node)}
    {list' : List (Part node')} (h : List.Forall₂ (Part.Rel Loose) list list') :
    Follows Eq (caseStatements inner list) (caseStatements inner' list') := by
  induction h with
  | nil => exact .refl _
  | cons hhead _ ih =>
      refine (Follows.refl _).andThen ((hinner.value hhead).andThen ?_)
      exact (Follows.refl _).andThen ih

/-- The statements of a case.  They are a list, or nothing is rendered. -/
lemma follows_statementsOf (hinner : inner.Regrouped inner') {list : Part node} {list' : Part node'}
    (h : Part.Rel Loose list list') :
    Follows Eq (do caseStatements inner (← Json.parts list))
      (do caseStatements inner' (← Json.parts list')) := by
  obtain hlist | hexpression := Json.Loose.sameList_or h
  · exact .reading hlist.parts fun _ _ hparts => follows_caseStatements hinner hparts
  · -- an expression is gone through key by key, and a key is no statement
    intro s q e he
    obtain ⟨parts, hparts, hrun⟩ := Render.read_bind_eq_ok_iff.mp he
    obtain ⟨first, rest, hrest, hfirst⟩ := Json.parts_of_isExpression hexpression hparts
    rw [hrest, caseStatements] at hrun
    obtain ⟨_, -, _, hrun, -⟩ := Render.bind_eq_ok_iff.mp hrun
    obtain ⟨_, hvalue, -⟩ := Render.bind_eq_ok_iff.mp hrun
    exact absurd (hinner.isObject hvalue) (by simp [hfirst])

lemma follows_switchCase (h : Alike node node') (hinner : inner.Regrouped inner') :
    Follows Eq (switchCase inner) (switchCase inner') := by
  have hstatements : Follows Eq
      (do
        Render.emit [.indent]
        caseStatements inner (← Json.parts (← node.require "consequent"))
        Render.emit [.dedent])
      (do
        Render.emit [.indent]
        caseStatements inner' (← Json.parts (← node'.require "consequent"))
        Render.emit [.dedent]) := by
    refine (Follows.refl _).andThen (.reading (h.loose_at _).require fun _ _ hlist => ?_)
    simpa only [bind_assoc] using (follows_statementsOf hinner hlist).andThen (.refl _)
  refine .readingSame (h.fixed (by decide)).comments fun notes => (Follows.refl _).andThen ?_
  refine .reading (h.loose_at _).given fun _ _ htest => ?_
  cases htest with
  | none => exact .textThen _ hstatements
  | some htest => exact .textThen _ ((hinner.value htest).andThen (.textThen _ hstatements))

lemma follows_switchCases (hinner : inner.Regrouped inner') (isFirst : Bool)
    {list : List (Part node)} {list' : List (Part node')}
    (h : List.Forall₂ (Part.Rel Alike) list list') :
    Follows Eq (switchCases inner isFirst list) (switchCases inner' isFirst list') := by
  induction h generalizing isFirst with
  | nil => exact .refl _
  | @cons case case' _ _ hhead _ ih =>
      refine .optional (.refl _) fun _ => (Follows.refl _).andThen ?_
      exact (follows_switchCase hhead (hinner.under case case')).andThen (ih false)

lemma blind_switchRule : Blind kind switchRule := by
  intro node node' inner inner' _ h hinner
  refine (Follows.refl _).andThen (.textThen _ ((follows_field h hinner _).andThen ?_))
  refine (Follows.refl _).andThen (.reading (h.closed (by decide)).require fun _ _ hlist => ?_)
  refine .reading (Alike.sameList hlist).parts fun _ _ hparts => ?_
  exact (follows_switchCases hinner true hparts).andThen (.refl _)

/-! ## Imports and exports -/

lemma follows_typeWord (h : Alike node node') (hkey : key ∈ Grouping.fixedFields) :
    Follows Eq (typeWord node key) (typeWord node' key) :=
  .readingSame (h.fixed hkey).getValue fun _ => .refl _

lemma follows_nameOf {v w : Json} (h : Alike v w) : Json.Follows Eq v.nameOf w.nameOf := by
  refine h.type.kind.knowing fun kind hkind => ?_
  refine .ite (h.fixed (by decide)).getValue (.branch (fun hliteral => ?_) fun _ => .refl _)
  have hvalue : Meets Eq v w "value" :=
    (h.at_kind (Json.eq_str_of_isText hliteral ▸ hkind) fun _ => rfl).mono fun _ _ => Json.Regroups.eq
  exact hvalue.getValue.known fun _ => .refl _

lemma blind_importAttribute : Blind kind importAttribute := fun _ h hinner =>
  (follows_field h hinner _).andThen (.textThen _ (follows_field h hinner _))

section Exchange

variable (h : Alike node node') (hinner : inner.Regrouped inner')
include h hinner

/-- The attributes of an import are a list of nodes; those of an import that is an expression are
one expression. -/
lemma follows_importAttributes (hattributes : Meets Alike node node' "attributes") :
    Follows Eq (importAttributes inner) (importAttributes inner') := by
  refine .reading (hattributes.givenOr (h.closed (by decide))) fun _ _ hlist => ?_
  cases hlist with
  | none => exact .refl _
  | some hlist =>
      exact .textThen _ ((follows_list hinner true (Alike.listed hlist)).andThen (.refl _))

lemma follows_origin (hattributes : Meets Alike node node' "attributes") :
    Follows Eq (origin inner) (origin inner') :=
  .textThen _ <| (follows_field h hinner _).andThen (follows_importAttributes h hinner hattributes)

end Exchange

/-- The names that two imports bring in are alike. -/
structure Imported.Rel (found : Imported node) (found' : Imported node') : Prop where
  byDefault : Option.Rel (Part.Rel Alike) found.byDefault found'.byDefault
  everything : Option.Rel (Part.Rel Alike) found.everything found'.everything
  named : List.Forall₂ (Part.Rel Alike) found.named found'.named

lemma follows_ofSpecifiers {found : Imported node} {found' : Imported node'}
    (hfound : found.Rel found') {list : List (Part node)} {list' : List (Part node')}
    (h : List.Forall₂ (Part.Rel Alike) list list') :
    Json.Follows Imported.Rel (Imported.ofSpecifiers found list)
      (Imported.ofSpecifiers found' list') := by
  induction h generalizing found found' with
  | nil => exact .pure hfound
  | cons hhead _ ih =>
      exact (Alike.type hhead).requireKind.known fun _ =>
        .ite (ih { hfound with byDefault := .some hhead }) <|
          .ite (ih { hfound with everything := .some hhead })
            (ih { hfound with named := List.rel_append hfound.named (.cons hhead .nil) })

lemma follows_localName {v w : Json} (h : Alike v w) :
    Json.Follows Eq (localName v) (localName w) :=
  (h.closed (by decide)).require.bind fun _ _ hrel =>
    (Alike.fixed hrel (by decide)).require.bind fun _ _ hname => .pure hname

lemma follows_importSpecifier (h : Alike node node') (hinner : inner.Regrouped inner') :
    Follows Eq (importSpecifier inner) (importSpecifier inner') := by
  refine (follows_typeWord h (by decide)).andThen ?_
  refine .reading (h.closed (by decide)).require fun _ _ houtside => ?_
  refine .reading (h.closed (by decide)).require fun _ _ hinside => ?_
  have hvalue := hinner.value (Alike.loose hinside)
  refine .readingSame (follows_nameOf houtside) fun name => ?_
  refine .readingSame (follows_nameOf hinside) fun name' => .ite ?_ hvalue
  exact (hinner.value (Alike.loose houtside)).andThen (.textThen _ hvalue)

lemma isSome_eq_of_rel {α β : Type} {S : α → β → Prop} {found : Option α} {found' : Option β}
    (h : Option.Rel S found found') : found.isSome = found'.isSome := by
  cases h <;> rfl

/-- The names in braces. -/
lemma follows_namedImports (hinner : inner.Regrouped inner') {named : List (Part node)}
    {named' : List (Part node')} (h : List.Forall₂ (Part.Rel Alike) named named') :
    Follows Eq
      (do
        if !named.isEmpty then
          Render.text "\x7b"
          Render.sequence true "," (fun specifier => importSpecifier (inner.under specifier))
            (named.map some)
          Render.text "\x7d")
      (do
        if !named'.isEmpty then
          Render.text "\x7b"
          Render.sequence true "," (fun specifier => importSpecifier (inner'.under specifier))
            (named'.map some)
          Render.text "\x7d") := by
  rw [Render.isEmpty_eq_of_forall₂ h]
  refine .ite (.textThen _ ?_) (.refl _)
  refine (Render.follows_sequence (R := Part.Rel Alike) (fun specifier specifier' hrel =>
    follows_importSpecifier hrel (hinner.under specifier specifier')) true "," ?_).andThen (.refl _)
  rw [List.forall₂_map_left_iff, List.forall₂_map_right_iff]
  exact h.imp fun _ _ hrel => .some hrel

lemma follows_importedNames (hinner : inner.Regrouped inner') {found : Imported node}
    {found' : Imported node'} (h : found.Rel found') :
    Follows Eq (importedNames inner found) (importedNames inner' found') := by
  obtain ⟨byDefault, everything, named⟩ := found
  obtain ⟨byDefault', everything', named'⟩ := found'
  obtain ⟨hdefault, heverything, hnamed⟩ := h
  have hbehind : Follows Eq
      (importedNames inner { everything := everything, named := named })
      (importedNames inner' { everything := everything', named := named' }) := by
    cases heverything with
    | none => exact follows_namedImports hinner hnamed
    | some hrel =>
        exact .readingSame (follows_localName hrel) fun _ => .readingSame (.refl _) fun _ =>
          (follows_chunk hrel rfl).known fun _ => follows_namedImports hinner hnamed
  cases hdefault with
  | none => exact hbehind
  | some hrel =>
      have hmore : (everything.isSome || !named.isEmpty) =
          (everything'.isSome || !named'.isEmpty) := by
        rw [isSome_eq_of_rel heverything, Render.isEmpty_eq_of_forall₂ hnamed]
      refine .readingSame (follows_localName hrel) fun _ => (follows_chunk hrel rfl).andThen ?_
      show Follows Eq (if (everything.isSome || !named.isEmpty) = true then _ else _) _
      rw [hmore]
      exact .optional (.refl _) fun _ => hbehind

lemma blind_importRule : Blind "ImportDeclaration" importRule := by
  intro node node' inner inner' hkind h hinner
  have hattributes : Meets Alike _ _ "attributes" := h.part_at hkind (by decide)
  refine .textThen _ ((follows_typeWord h (by decide)).andThen ?_)
  refine .reading (h.closed (by decide)).given fun _ _ hspecifiers => ?_
  cases hspecifiers with
  | none =>
      refine (follows_field h hinner _).andThen ?_
      exact (follows_importAttributes h hinner hattributes).andThen (.refl _)
  | some hlist =>
      refine .reading (Alike.sameList hlist).parts fun _ _ hparts => ?_
      refine .reading (follows_ofSpecifiers ⟨.none, .none, .nil⟩ hparts) fun _ _ hfound => ?_
      refine (follows_importedNames hinner hfound).andThen ?_
      exact (follows_origin h hinner hattributes).andThen (.refl _)

lemma follows_exportSpecifier (h : Alike node node') (hinner : inner.Regrouped inner') :
    Follows Eq (exportSpecifier inner) (exportSpecifier inner') := by
  refine (follows_typeWord h (by decide)).andThen ?_
  refine .reading (h.closed (by decide)).require fun _ _ hinside => ?_
  refine .reading (h.closed (by decide)).require fun _ _ houtside => ?_
  refine (hinner.value (Alike.loose hinside)).andThen ?_
  refine .readingSame (follows_nameOf hinside) fun name => ?_
  refine .readingSame (follows_nameOf houtside) fun name' => .ite ?_ (.refl _)
  exact .textThen _ (hinner.value (Alike.loose houtside))

lemma follows_exportedNames (h : Alike node node') (hinner : inner.Regrouped inner')
    (hattributes : Meets Alike node node' "attributes") :
    Follows Eq (exportedNames inner) (exportedNames inner') := by
  have hrest : Follows Eq
      (do
        Render.text "\x7d"
        if ← node.flag "source" then origin inner
        Render.text ";")
      (do
        Render.text "\x7d"
        if ← node'.flag "source" then origin inner'
        Render.text ";") := by
    refine .textThen _ (.readingSame (h.loose_at _).flag fun again => ?_)
    exact .optional (follows_origin h hinner hattributes) fun _ => .refl _
  refine (follows_typeWord h (by decide)).andThen (.textThen _ ?_)
  refine .reading (h.closed (by decide)).given fun _ _ hspecifiers => ?_
  cases hspecifiers with
  | none => exact hrest
  | some hlist =>
      have hitem (specifier specifier') (hrel : Part.Rel Alike specifier specifier') :=
        follows_exportSpecifier hrel (hinner.under specifier specifier')
      refine .reading ((Alike.sameList hlist).itemsOf (Alike.loose hlist).isGiven) fun _ _ hitems => ?_
      exact (Render.follows_sequence hitem true "," hitems).andThen hrest

lemma blind_exportNamed : Blind "ExportNamedDeclaration" exportNamed := by
  intro node node' inner inner' hkind h hinner
  refine .textThen _ (.reading (h.loose_at _).given fun _ _ hdeclaration => ?_)
  cases hdeclaration with
  | none => exact follows_exportedNames h hinner (h.part_at hkind (by decide))
  | some hdeclaration => exact hinner.value hdeclaration

/-- A declaration that needs no semicolon is exported on both sides or on neither. -/
lemma blind_exportDefault : Blind kind exportDefault := by
  intro node node' inner inner' _ h hinner
  refine .reading (h.loose_at _).require fun _ _ hrel => .textThen _ ?_
  refine .readingSame (Precedence.follows_startsWith hrel _) fun wraps => ?_
  refine (hinner.wrapped hrel wraps).andThen ?_
  refine .reading (Json.Loose.requireKind hrel) fun _ _ hkind => ?_
  exact .readingSame (hkind.isIn (by decide)) fun bare => .refl _

lemma blind_exportAll : Blind "ExportAllDeclaration" exportAll := by
  intro node node' inner inner' hkind h hinner
  refine .textThen _ ((follows_typeWord h (by decide)).andThen (.textThen _ ?_))
  refine .reading (h.loose_at _).given fun _ _ hexported => ?_
  refine (hinner.valueAfter _ hexported).andThen ?_
  exact (follows_origin h hinner (h.part_at hkind (by decide))).andThen (.refl _)

end Rules

end EstreePrinter
