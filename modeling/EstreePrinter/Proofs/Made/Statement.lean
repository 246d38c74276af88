import Mathlib
import EstreePrinter.Proofs.Made.Expression

/-!
# What the rules for statements, classes, imports and exports are made of

Programs and decorators are not made strictly, since they break lines without a note.
-/

namespace EstreePrinter

open Json (Part)

variable {node : Json} {inner : Inner node} {strict : Bool}

namespace Rules

/-! ## Blocks and simple statements -/

lemma isMade_program : IsMade false program := fun _ inner =>
  Made.skip fun _ => .skip fun list => .body inner list

lemma isMade_block : IsMade strict block := by
  intro node inner
  refine Made.skip fun nodes => Made.skip fun list => Made.skip fun empty => ?_
  refine Made.ite (Made.word "\x7b\x7d" (by decide)) (Made.raised ?_ ?_)
  · refine (Made.lines (by simp [Command.IsSpacing])).andThen ?_
    exact (Made.body inner list).andThen (Made.lines (by simp [Command.IsSpacing]))
  · exact (Render.breaks_emit (by simp)).first

lemma isMade_staticBlock : IsMade strict staticBlock := fun node inner =>
  (Made.word "static " (by decide)).andThen (isMade_block node inner)

lemma isMade_empty : IsMade strict empty := fun _ _ => Made.word ";" (by decide)

lemma isMade_expressionStatement : IsMade strict expressionStatement := by
  intro node inner
  refine Made.skip fun expression => Made.skip fun wraps => ?_
  exact (Made.wrapped expression wraps).andThen (Made.word ";" (by decide))

lemma isMade_debuggerStatement : IsMade strict debuggerStatement := fun _ _ =>
  (Made.chunk _ fun _ => by decide).andThen (Made.word ";" (by decide))

lemma isMade_jump (keyword : String) (h : '\n' ∉ keyword.toList) :
    IsMade strict (jump keyword) := by
  intro node inner
  refine Made.skip fun label => ?_
  cases label with
  | none => exact Made.word _ (by simpa using h)
  | some label => exact (Made.value label).between _ ";" (by simpa using h) (by decide)

lemma isMade_labeled : IsMade strict labeled := fun _ _ => Made.twoFields _ _ _ (by decide)

lemma isMade_leave (keyword : String) (h : '\n' ∉ keyword.toList) :
    IsMade strict (leave keyword) := by
  intro node inner
  refine Made.skip fun argument => ?_
  cases argument with
  | none => exact Made.word _ (by simpa using h)
  | some argument =>
      refine Made.skip fun notes => Made.skip fun breaks => Made.ite ?_ ?_
      · exact (Made.value argument).between _ ");" (by simpa using h) (by decide)
      · exact (Made.value argument).between _ ";" (by simpa using h) (by decide)

lemma isMade_variableDeclaration : IsMade strict variableDeclaration := fun _ inner =>
  (Made.declarations inner).andThen (Made.word ";" (by decide))

lemma isMade_declarator : IsMade strict declarator := fun _ _ =>
  (Made.field _).andThen <| Made.skip fun part => Made.valueAfter " = " part (by decide)

/-! ## Branches and loops -/

lemma isMade_ifRule : IsMade strict ifRule := by
  intro node inner
  refine (Made.word "if (" (by decide)).andThen ((Made.field "test").andThen ?_)
  refine (Made.word ") " (by decide)).andThen ((Made.field "consequent").andThen ?_)
  exact Made.skip fun alternate => Made.valueAfter " else " alternate (by decide)

end Rules

lemma Made.loopHead (head : Part node) : Made inner strict (Rules.loopHead inner head) :=
  skip fun _ => ite (under head (declarations _)) (value head)

namespace Rules

lemma isMade_forRule : IsMade strict forRule := by
  intro node inner
  have htail : Made inner strict (do
      Render.text ";"
      inner.valueAfter " " (← node.given "test")
      Render.text ";"
      inner.valueAfter " " (← node.given "update")
      Render.text ") "
      inner.field "body") := by
    refine (Made.word ";" (by decide)).andThen (Made.skip fun test => ?_)
    refine (Made.valueAfter " " test (by decide)).andThen ?_
    refine (Made.word ";" (by decide)).andThen (Made.skip fun update => ?_)
    refine (Made.valueAfter " " update (by decide)).andThen ?_
    exact (Made.word ") " (by decide)).andThen (Made.field "body")
  refine (Made.word "for (" (by decide)).andThen (Made.skip fun start => ?_)
  cases start with
  | none => exact htail
  | some start => exact (Made.loopHead start).withNoIn.andThen htail

lemma isMade_forEach (word : String) (h : '\n' ∉ word.toList) :
    IsMade strict (forEach word) := by
  intro node inner
  refine (Made.word "for " (by decide)).andThen ?_
  refine (Made.textIf _ "await" "await " (by decide)).andThen ?_
  refine (Made.word "(" (by decide)).andThen (Made.skip fun head => ?_)
  refine (Made.loopHead head).andThen ((Made.word word h).andThen ?_)
  refine (Made.field "right").andThen ((Made.word ") " (by decide)).andThen ?_)
  exact Made.field "body"

lemma isMade_headed (keyword key : String) (h : '\n' ∉ keyword.toList) :
    IsMade strict (headed keyword key) := by
  intro node inner
  refine (Made.word _ (by simpa using h)).andThen ((Made.field key).andThen ?_)
  exact (Made.word ") " (by decide)).andThen (Made.field "body")

lemma isMade_doWhile : IsMade strict doWhile := by
  intro node inner
  refine (Made.word "do " (by decide)).andThen ((Made.field "body").andThen ?_)
  refine (Made.word " while (" (by decide)).andThen ?_
  exact (Made.field "test").andThen (Made.word ");" (by decide))

end Rules

lemma Made.catchClause : Made inner strict (Rules.catchClause inner) := by
  refine skip fun parameter => ?_
  cases parameter with
  | none => exact (word " catch " (by decide)).andThen (field "body")
  | some parameter =>
      refine (word " catch (" (by decide)).andThen ((value parameter).andThen ?_)
      exact (word ") " (by decide)).andThen (field "body")

namespace Rules

lemma isMade_tryRule : IsMade strict tryRule := by
  intro node inner
  have hfinalizer : Made inner strict (do
      inner.valueAfter " finally " (← node.given "finalizer")) :=
    Made.skip fun part => Made.valueAfter " finally " part (by decide)
  refine (Made.word "try " (by decide)).andThen ((Made.field "block").andThen ?_)
  refine Made.skip fun handler => ?_
  cases handler with
  | none => exact hfinalizer
  | some handler => exact (Made.under handler Made.catchClause).andThen hfinalizer

end Rules

/-! ## Cases

A `switch` statement notes first that it needs several lines, and its cases break them. -/

namespace Made

lemma newline : Made inner false (Render.emit [.newline]) := lines (by simp [Command.IsSpacing])

lemma caseStatements (statements : List (Part node)) :
    Made inner false (Rules.caseStatements inner statements) := by
  induction statements with
  | nil => exact pure _
  | cons statement rest ih =>
      refine newline.andThen ((value statement).andThen ?_)
      exact drainAfterStatement.andThen ih

lemma switchCase : Made inner false (Rules.switchCase inner) := by
  have hstatements : Made inner false (do
      Render.emit [.indent]
      Rules.caseStatements inner (← Json.parts (← node.require "consequent"))
      Render.emit [.dedent]) := by
    refine (lines (by simp [Command.IsSpacing])).andThen (skip fun nodes => skip fun list => ?_)
    exact (caseStatements list).andThen (lines (by simp [Command.IsSpacing]))
  refine skip fun comments => (leadingComments true .null comments).andThen (skip fun test => ?_)
  cases test with
  | none => exact (word "default:" (by decide)).andThen hstatements
  | some test =>
      refine (word "case " (by decide)).andThen ((value test).andThen ?_)
      exact (word ":" (by decide)).andThen hstatements

lemma switchCases (isFirst : Bool) (cases : List (Part node)) :
    Made inner false (Rules.switchCases inner isFirst cases) := by
  induction cases generalizing isFirst with
  | nil => exact pure _
  | cons case rest ih =>
      unfold Rules.switchCases
      refine optional (lines (by simp [Command.IsSpacing])) fun _ => newline.andThen ?_
      exact (under case switchCase).andThen (ih false)

end Made

namespace Rules

lemma isMade_switchRule : IsMade strict switchRule := by
  intro node inner
  refine Made.raised ?_ ?_
  · refine (Made.word "switch (" (by decide)).andThen ((Made.field "discriminant").andThen ?_)
    refine (Made.lines (by simp [Command.IsSpacing])).andThen ?_
    refine Made.skip fun nodes => Made.skip fun list => (Made.switchCases true list).andThen ?_
    exact Made.lines (by simp [Command.IsSpacing])
  · -- the last of its steps breaks a line
    refine .last fun _ => .last fun _ => .last fun _ => .last fun _ => .last fun _ => .last fun _ => ?_
    exact Render.breaks_emit (by simp)

end Rules

/-! ## Classes -/

namespace Made

lemma each {render : Part node → Render Unit} (hrender : ∀ part, Made inner strict (render part))
    (list : List (Part node)) : Made inner strict (Rules.each render list) := by
  induction list with
  | nil => exact pure _
  | cons part rest ih => exact (hrender part).andThen ih

lemma decorators : Made inner strict (Rules.decorators inner) := by
  refine skip fun list => ?_
  cases list with
  | none => exact pure _
  | some list => exact skip fun parts => each value parts

lemma className : Made inner strict (Rules.className inner) := by
  refine skip fun name => ?_
  cases name with
  | none => exact pure _
  | some name => exact (value name).andThen (typeParameters.andThen (word " " (by decide)))

lemma superClass : Made inner strict (Rules.superClass inner) := by
  refine skip fun parent => ?_
  cases parent with
  | none => exact pure _
  | some parent =>
      refine (word "extends " (by decide)).andThen (skip fun wraps => ?_)
      refine (wrapped parent wraps).andThen (skip fun types => ?_)
      exact (typeIf types).andThen (word " " (by decide))

lemma implemented : Made inner strict (Rules.implemented inner) := by
  refine skip fun types => ?_
  cases types with
  | none => exact pure _
  | some types =>
      exact (typeList false "," types (by decide)).between "implements " " " (by decide) (by decide)

end Made

namespace Rules

lemma isMade_decorator : IsMade false decorator := by
  intro node inner
  refine Made.skip fun expression => (Made.word "@" (by decide)).andThen ?_
  exact Made.skip fun wraps => (Made.wrapped expression wraps).andThen Made.newline

lemma isMade_classRule : IsMade strict classRule := by
  intro node inner
  refine Made.decorators.andThen ?_
  refine (Made.textIf _ "declare" "declare " (by decide)).andThen ?_
  refine (Made.textIf _ "abstract" "abstract " (by decide)).andThen ?_
  refine (Made.word "class " (by decide)).andThen (Made.className.andThen ?_)
  exact Made.superClass.andThen (Made.implemented.andThen (Made.field "body"))

lemma isMade_classMethod : IsMade strict classMethod := by
  intro node inner
  refine Made.decorators.andThen (Made.modifiers.andThen (Made.skip fun function => ?_))
  refine (Made.accessor _).bind fun _ => (Made.textIf _ "async" "async " (by decide)).andThen ?_
  refine (Made.textIf _ "generator" "*" (by decide)).andThen (Made.key.andThen ?_)
  refine (Made.textIf _ "optional" "?" (by decide)).andThen ?_
  exact Made.under function (Made.signature.andThen Made.functionBody)

lemma isMade_classProperty (isAccessor : Bool) : IsMade strict (classProperty isAccessor) := by
  intro node inner
  refine Made.decorators.andThen (Made.modifiers.andThen ?_)
  refine Made.optional (Made.word "accessor " (by decide)) fun _ => Made.key.andThen ?_
  refine (Made.textIf _ "optional" "?" (by decide)).andThen ?_
  refine (Made.textIf _ "definite" "!" (by decide)).andThen (Made.ascription.andThen ?_)
  refine Made.skip fun value => (Made.valueAfter " = " value (by decide)).andThen ?_
  exact Made.word ";" (by decide)

lemma isMade_parameterProperty : IsMade strict parameterProperty := fun _ _ =>
  Made.modifiers.andThen (Made.field _)

end Rules

/-! ## Imports and exports -/

namespace Made

lemma importAttributes : Made inner strict (Rules.importAttributes inner) := by
  refine skip fun attributes => ?_
  cases attributes with
  | none => exact pure _
  | some attributes =>
      exact (list true attributes).between " with \x7b" "\x7d" (by decide) (by decide)

lemma origin : Made inner strict (Rules.origin inner) :=
  (word " from " (by decide)).andThen ((field _).andThen importAttributes)

lemma typeWord (place : Json) (key : String) : Made inner strict (Rules.typeWord place key) :=
  skip fun _ => ite (word "type " (by decide)) (pure _)

lemma importSpecifier : Made inner strict (Rules.importSpecifier inner) := by
  refine (typeWord _ _).andThen (skip fun imported => skip fun localPart => ?_)
  refine skip fun name => skip fun name' => ite ?_ (value localPart)
  exact (value imported).andThen ((word " as " (by decide)).andThen (value localPart))

/-- The local name of a specifier stays on its line. -/
lemma isInline_of_localName (hnode : node.IsTidy) (specifier : Part node) {name : Json}
    (h : Rules.localName specifier.1 = .ok name) : name.isInline = true := by
  obtain ⟨inside, hinside, h⟩ := bind_eq_ok_iff.mp h
  obtain ⟨found, hfound, h⟩ := bind_eq_ok_iff.mp h
  obtain rfl : found.1 = name := Except.ok.inj h
  exact Json.isInline_of_require ((hnode.inside specifier.2).inside inside.2) (by decide) hfound

lemma importedNames (found : Rules.Imported node) :
    Made inner strict (Rules.importedNames inner found) := by
  obtain ⟨byDefault, everything, named⟩ := found
  have hnamed : Made inner strict (if !named.isEmpty then do
      Render.text "\x7b"
      Render.sequence true "," (fun specifier => Rules.importSpecifier (inner.under specifier))
        (named.map some)
      Render.text "\x7d"
    else Pure.pure ()) :=
    ite ((sequence true (by decide) (fun part => under part importSpecifier) _).between
      "\x7b" "\x7d" (by decide) (by decide)) (pure _)
  have heverything : Made inner strict
      (Rules.importedNames inner ⟨none, everything, named⟩) := by
    cases everything with
    | none => exact hnamed
    | some specifier =>
        refine reading fun name hname => reading fun text htext => ?_
        refine (chunk _ fun hnode => Rules.isInline_str ?_).andThen hnamed
        have hinline := Rules.isInline_of_text (isInline_of_localName hnode specifier hname) htext
        simpa using hinline
  cases byDefault with
  | none => exact heverything
  | some specifier =>
      exact reading fun name hname =>
        (chunk _ fun hnode => isInline_of_localName hnode specifier hname).andThen <|
          optional (word ", " (by decide)) fun _ => heverything

lemma exportSpecifier : Made inner strict (Rules.exportSpecifier inner) := by
  refine (typeWord _ _).andThen (skip fun localPart => skip fun exported => ?_)
  refine (value localPart).andThen (skip fun name => skip fun name' => ite ?_ (pure _))
  exact (word " as " (by decide)).andThen (value exported)

lemma exportedNames : Made inner strict (Rules.exportedNames inner) := by
  have htail : Made inner strict (do
      Render.text "\x7d"
      if ← node.flag "source" then Rules.origin inner
      Render.text ";") := by
    refine (word "\x7d" (by decide)).andThen (skip fun again => ?_)
    exact optional origin fun _ => word ";" (by decide)
  refine (typeWord _ _).andThen ((word "\x7b" (by decide)).andThen (skip fun specifiers => ?_))
  cases specifiers with
  | none => exact htail
  | some specifiers =>
      refine skip fun items => .andThen ?_ htail
      exact sequence true (by decide) (fun part => under part exportSpecifier) items

end Made

namespace Rules

lemma isMade_importAttribute : IsMade strict importAttribute := fun _ _ =>
  Made.twoFields _ _ _ (by decide)

lemma isMade_importRule : IsMade strict importRule := by
  intro node inner
  refine (Made.word "import " (by decide)).andThen ((Made.typeWord _ _).andThen ?_)
  refine Made.skip fun specifiers => ?_
  cases specifiers with
  | none =>
      refine (Made.field "source").andThen ?_
      exact Made.importAttributes.andThen (Made.word ";" (by decide))
  | some specifiers =>
      refine Made.skip fun list => Made.skip fun found => (Made.importedNames found).andThen ?_
      exact Made.origin.andThen (Made.word ";" (by decide))

lemma isMade_exportNamed : IsMade strict exportNamed := by
  intro node inner
  refine (Made.word "export " (by decide)).andThen (Made.skip fun declaration => ?_)
  cases declaration with
  | none => exact Made.exportedNames
  | some declaration => exact Made.value declaration

lemma isMade_exportDefault : IsMade strict exportDefault := by
  intro node inner
  refine Made.skip fun declaration => (Made.word "export default " (by decide)).andThen ?_
  refine Made.skip fun wraps => (Made.wrapped declaration wraps).andThen ?_
  exact Made.skip fun kind => Made.skip fun bare => Made.ite (Made.word ";" (by decide)) (.pure _)

lemma isMade_exportAll : IsMade strict exportAll := by
  intro node inner
  refine (Made.word "export " (by decide)).andThen ((Made.typeWord _ _).andThen ?_)
  refine (Made.word "*" (by decide)).andThen (Made.skip fun exported => ?_)
  refine (Made.valueAfter " as " exported (by decide)).andThen ?_
  exact Made.origin.andThen (Made.word ";" (by decide))

end Rules

end EstreePrinter
