import Mathlib
import EstreePrinter.Proofs.Rules.Expression

/-!
# The rules for statements, classes, imports and exports keep every correspondence

Programs and `switch` statements are not among them: what a correspondence says of these two is part
of it (`Render.Correspondence.program`, `Render.Correspondence.switch`).
-/

namespace EstreePrinter

open Json (Part)

variable {C : Render.Correspondence} {node : Json} {inner inner' : Inner node}

namespace Rules

/-! ## Blocks and simple statements -/

lemma keptBy_block : C.KeptBy block := by
  intro node inner inner' h
  refine C.within ["body"] (by decide) (u := node.under "body") ?_ (by simp)
  refine C.reading fun list hlist => C.reading fun parts hparts => C.skip fun empty => ?_
  refine C.mono (Json.under_of_require hlist).ge (C.mono (Json.nodesAll_le_of_parts hparts) ?_)
  exact C.ite (C.none (C.text _)) (C.say C.raise (C.braced h.bare parts))

lemma keptBy_staticBlock : C.KeptBy staticBlock := fun _ _ _ h =>
  C.say (C.text _) (keptBy_block _ _ _ h)

lemma keptBy_empty : C.KeptBy empty := fun _ _ _ _ => C.none (C.text _)

lemma keptBy_expressionStatement : C.KeptBy expressionStatement := by
  intro node inner inner' h
  refine C.within ["expression"] (by decide) (u := node.under "expression") ?_ (by simp)
  refine C.reading fun expression hexpression => C.skip fun wraps => ?_
  exact C.ending (h.wrappedOf hexpression wraps) (C.text _)

lemma keptBy_debuggerStatement : C.KeptBy debuggerStatement := fun _ _ _ h =>
  C.none (C.say (C.chunk _ h.applies) (C.text _))

/-- A part between two texts. -/
lemma valueBetween (h : inner.Matches inner' C) (start stop : String) (part : Part node) :
    C.Related part.1.nodes
      (do
        Render.text start
        inner.value part
        Render.text stop)
      (do
        Render.text start
        inner'.value part
        Render.text stop) :=
  C.say (C.text _) (C.ending (h.value _) (C.text _))

lemma keptBy_jump (keyword : String) : C.KeptBy (jump keyword) := by
  intro node inner inner' h
  refine C.within ["label"] (by decide) (u := node.under "label") ?_ (by simp)
  refine C.reading fun label hlabel => C.mono (Json.nodesIn_le_of_given hlabel) ?_
  cases label with
  | none => exact C.text _
  | some label => exact valueBetween h _ _ _

lemma keptBy_labeled : C.KeptBy labeled := fun _ _ _ h => twoFields h _ _ _ (by decide)

lemma keptBy_leave (keyword : String) : C.KeptBy (leave keyword) := by
  intro node inner inner' h
  refine C.within ["argument"] (by decide) (u := node.under "argument") ?_ (by simp)
  refine C.reading fun argument hargument => C.mono (Json.nodesIn_le_of_present hargument) ?_
  cases argument with
  | none => exact C.text _
  | some argument =>
      refine C.skip fun first => C.skip fun breaks => ?_
      exact C.ite (valueBetween h _ _ _) (valueBetween h _ _ _)

lemma keptBy_variableDeclaration : C.KeptBy variableDeclaration := fun _ _ _ h =>
  C.within ["declarations"] (by decide) (C.ending (C.declarations h.value) (C.text _)) (by simp)

lemma keptBy_declarator : C.KeptBy declarator := by
  intro node inner inner' h
  refine C.within ["id", "init"] (by decide) (u := node.under "id" + node.under "init") ?_ (by simp)
  refine C.andThen (h.field "id") ?_
  exact C.reading fun start hstart => h.givenAfter _ hstart

/-! ## Branches and loops -/

lemma keptBy_ifRule : C.KeptBy ifRule := by
  intro node inner inner' h
  refine C.within ["test", "consequent", "alternate"] (by decide)
    (u := node.under "test" + (node.under "consequent" + node.under "alternate")) ?_ (by simp)
  refine C.say (C.text _) (C.andThen (h.field "test") ?_)
  refine C.say (C.text _) (C.andThen (h.field "consequent") ?_)
  exact C.reading fun alternate halternate => h.givenAfter _ halternate

lemma loopHead_related (h : inner.Matches inner' C) (head : Part node) :
    C.Related head.1.nodes (loopHead inner head) (loopHead inner' head) :=
  C.skip fun _ => C.ite
    (C.inside ["declarations"] (by decide) (C.declarations (h.under head).value) (by simp))
    (h.value head)

lemma keptBy_forRule : C.KeptBy forRule := by
  intro node inner inner' h
  let tail : Multiset Json := node.under "test" + (node.under "update" + node.under "body")
  have htail : C.Related tail
      (do
        Render.text ";"
        inner.valueAfter " " (← node.given "test")
        Render.text ";"
        inner.valueAfter " " (← node.given "update")
        Render.text ") "
        inner.field "body")
      (do
        Render.text ";"
        inner'.valueAfter " " (← node.given "test")
        Render.text ";"
        inner'.valueAfter " " (← node.given "update")
        Render.text ") "
        inner'.field "body") := by
    refine C.say (C.text _) (C.reading fun test htest => C.andThen (h.givenAfter _ htest) ?_)
    refine C.say (C.text _) (C.reading fun update hupdate => C.andThen (h.givenAfter _ hupdate) ?_)
    exact C.say (C.text _) (h.field "body")
  refine C.within ["init", "test", "update", "body"] (by decide) (u := node.under "init" + tail) ?_
    (by simp [tail])
  refine C.say (C.text _) (C.reading fun start hstart => ?_)
  cases start with
  | none => exact C.mono (Multiset.le_add_left _ _) htail
  | some start =>
      have hhead := C.withNoIn true (loopHead_related h start)
      exact C.andThen (C.mono (Json.nodesIn_le_of_given hstart) hhead) htail

lemma keptBy_forEach (word : String) : C.KeptBy (forEach word) := by
  intro node inner inner' h
  refine C.within ["left", "right", "body"] (by decide)
    (u := node.under "left" + (node.under "right" + node.under "body")) ?_ (by simp)
  refine C.say (C.text _) (C.say (C.textIf _ _ _) (C.say (C.text _) ?_))
  refine C.reading fun head hhead => ?_
  refine C.andThen (C.mono (Json.under_of_require hhead).ge (loopHead_related h head)) ?_
  refine C.say (C.text _) (C.andThen (h.field "right") ?_)
  exact C.say (C.text _) (h.field "body")

lemma keptBy_headed (keyword key : String) (hkeys : [key, "body"].Nodup) :
    C.KeptBy (headed keyword key) := by
  intro node inner inner' h
  refine C.within [key, "body"] hkeys (u := node.under key + node.under "body") ?_ (by simp)
  refine C.say (C.text _) (C.andThen (h.field key) ?_)
  exact C.say (C.text _) (h.field "body")

lemma keptBy_doWhile : C.KeptBy doWhile := by
  intro node inner inner' h
  refine C.within ["body", "test"] (by decide) (u := node.under "body" + node.under "test") ?_
    (by simp)
  refine C.say (C.text _) (C.andThen (h.field "body") (C.say (C.text _) ?_))
  exact C.ending (h.field "test") (C.text _)

lemma catchClause_related (h : inner.Matches inner' C) :
    C.Related node.within (catchClause inner) (catchClause inner') := by
  refine C.within ["param", "body"] (by decide) (u := node.under "param" + node.under "body") ?_
    (by simp)
  refine C.reading fun parameter hparameter => ?_
  cases parameter with
  | none => exact C.mono (Multiset.le_add_left _ _) (C.say (C.text _) (h.field "body"))
  | some parameter =>
      have hvalue := C.mono (Json.nodesIn_le_of_given hparameter) (h.value parameter)
      refine C.say (C.text _) (C.andThen hvalue ?_)
      exact C.say (C.text _) (h.field "body")

lemma keptBy_tryRule : C.KeptBy tryRule := by
  intro node inner inner' h
  have hfinalizer : C.Related (node.under "finalizer")
      (do inner.valueAfter " finally " (← node.given "finalizer"))
      (do inner'.valueAfter " finally " (← node.given "finalizer")) :=
    C.reading fun _ hpart => h.givenAfter _ hpart
  refine C.within ["block", "handler", "finalizer"] (by decide)
    (u := node.under "block" + (node.under "handler" + node.under "finalizer")) ?_ (by simp)
  refine C.say (C.text _) (C.andThen (h.field "block") (C.reading fun handler hhandler => ?_))
  cases handler with
  | none => exact C.mono (Multiset.le_add_left _ _) hfinalizer
  | some handler =>
      have hclause := C.mono handler.1.within_le (catchClause_related (h.under handler))
      exact C.andThen (C.mono (Json.nodesIn_le_of_given hhandler) hclause) hfinalizer

/-! ## Classes -/

lemma each_related {render render' : Part node → Render Unit}
    (hrender : ∀ part, C.Related part.1.nodes (render part) (render' part))
    (list : List (Part node)) :
    C.Related (Json.nodesAll list) (each render list) (each render' list) := by
  induction list with
  | nil => exact C.pure _
  | cons part rest ih =>
      rw [Json.nodesAll_cons]
      exact C.andThen (hrender part) ih

lemma decorators_related (h : inner.Matches inner' C) :
    C.Related (node.under "decorators") (decorators inner) (decorators inner') := by
  refine C.reading fun list hlist => C.mono (Json.nodesIn_le_of_given hlist) ?_
  cases list with
  | none => exact C.pure _
  | some list =>
      exact C.reading fun parts hparts =>
        C.mono (Json.nodesAll_le_of_parts hparts) (each_related h.value parts)

lemma keptBy_decorator : C.KeptBy decorator := by
  intro node inner inner' h
  refine C.within ["expression"] (by decide) (u := node.under "expression") ?_ (by simp)
  refine C.reading fun expression hexpression => C.say (C.text _) (C.skip fun wraps => ?_)
  exact C.ending (h.wrappedOf hexpression wraps) C.newline

lemma className_related (h : inner.Matches inner' C) :
    C.Related (node.under "id" + node.under "typeParameters") (className inner)
      (className inner') := by
  refine C.reading fun name hname => ?_
  cases name with
  | none => exact C.none (C.pure _)
  | some name =>
      exact C.andThen (C.mono (Json.nodesIn_le_of_given hname) (h.value name))
        (C.ending h.typeParameters (C.text _))

lemma superClass_related (h : inner.Matches inner' C) :
    C.Related (node.under "superClass" +
      (node.under "superTypeArguments" + node.under "superTypeParameters"))
        (superClass inner) (superClass inner') := by
  refine C.reading fun parent hparent => ?_
  cases parent with
  | none => exact C.none (C.pure _)
  | some parent =>
      refine C.say (C.text _) (C.skip fun wraps => ?_)
      refine C.andThen (C.mono (Json.nodesIn_le_of_given hparent) (h.wrapped parent wraps)) ?_
      refine C.reading fun arguments harguments => C.ending ?_ (C.text _)
      exact C.mono (Json.nodesIn_le_of_givenOr harguments) (h.typeIf arguments)

lemma implemented_related (h : inner.Matches inner' C) :
    C.Related (node.under "implements") (implemented inner) (implemented inner') := by
  refine C.reading fun types htypes => C.mono (Json.nodesIn_le_of_given htypes) ?_
  cases types with
  | none => exact C.pure _
  | some types => exact C.say (C.text _) (C.ending (h.typeList _ _ _) (C.text _))

lemma keptBy_classRule : C.KeptBy classRule := by
  intro node inner inner' h
  let parents : Multiset Json := node.under "superClass" +
    (node.under "superTypeArguments" + node.under "superTypeParameters")
  refine C.within ["decorators", "id", "typeParameters", "superClass", "superTypeArguments",
      "superTypeParameters", "implements", "body"] (by decide)
    (u := node.under "decorators" + ((node.under "id" + node.under "typeParameters") +
      (parents + (node.under "implements" + node.under "body")))) ?_ (by simp [parents, add_assoc])
  refine C.andThen (decorators_related h) ?_
  refine C.say (C.textIf _ _ _) (C.say (C.textIf _ _ _) (C.say (C.text _) ?_))
  refine C.andThen (className_related h) ?_
  refine C.andThen (superClass_related h) ?_
  exact C.andThen (implemented_related h) (h.field "body")

lemma keptBy_classMethod : C.KeptBy classMethod := by
  intro node inner inner' h
  refine C.within ["decorators", "key", "value"] (by decide)
    (u := node.under "decorators" + (node.under "key" + node.under "value")) ?_ (by simp)
  refine C.andThen (decorators_related h) (C.say (modifiers_related _) ?_)
  refine C.reading fun function hfunction => C.after (accessor_related _) fun _ => ?_
  have htail := functionTail (h.under function) (functionBody_related (h.under function))
  refine C.say (C.textIf _ _ _) (C.say (C.textIf _ _ _) ?_)
  refine C.andThen h.key (C.say (C.textIf _ _ _) ?_)
  exact C.mono (Json.under_of_require hfunction).ge htail

lemma keptBy_classProperty (isAccessor : Bool) : C.KeptBy (classProperty isAccessor) := by
  intro node inner inner' h
  refine C.within ["decorators", "key", "typeAnnotation", "value"] (by decide)
    (u := node.under "decorators" + (node.under "key" +
      (node.under "typeAnnotation" + node.under "value"))) ?_ (by simp)
  refine C.andThen (decorators_related h) (C.say (modifiers_related _) ?_)
  refine C.optional (C.text _) fun _ => C.andThen h.key ?_
  refine C.say (C.textIf _ _ _) (C.say (C.textIf _ _ _) (C.andThen h.ascription ?_))
  refine C.reading fun value hvalue => ?_
  exact C.ending (h.givenAfter _ hvalue) (C.text _)

lemma keptBy_parameterProperty : C.KeptBy parameterProperty := fun _ _ _ h =>
  C.within ["parameter"] (by decide) (C.say (modifiers_related _) (h.field _)) (by simp)

/-! ## Imports and exports -/

/-- The nodes in the attributes of an import, which stand in either of two fields. -/
abbrev underAttributes (node : Json) : Multiset Json :=
  node.under "attributes" + node.under "assertions"

lemma importAttributes_related (h : inner.Matches inner' C) :
    C.Related (underAttributes node) (importAttributes inner) (importAttributes inner') := by
  refine C.reading fun attributes hattributes =>
    C.mono (Json.nodesIn_le_of_givenOr hattributes) ?_
  cases attributes with
  | none => exact C.pure _
  | some attributes => exact C.say (C.text _) (C.ending (h.list _ _) (C.text _))

lemma origin_related (h : inner.Matches inner' C) :
    C.Related (node.under "source" + underAttributes node) (origin inner) (origin inner') :=
  C.say (C.text _) (C.andThen (h.field _) (importAttributes_related h))

lemma keptBy_importAttribute : C.KeptBy importAttribute := fun _ _ _ h =>
  twoFields h _ _ _ (by decide)

lemma typeWord_related (node : Json) (key : String) :
    C.Related 0 (typeWord node key) (typeWord node key) :=
  C.skip fun _ => C.ite (C.text _) (C.pure _)

lemma importSpecifier_related (h : inner.Matches inner' C) :
    C.Related node.within (importSpecifier inner) (importSpecifier inner') := by
  refine C.within ["imported", "local"] (by decide)
    (u := node.under "imported" + node.under "local") ?_ (by simp)
  refine C.say (typeWord_related _ _) (C.reading fun outside houtside => ?_)
  refine C.reading fun inside hinside => C.skip fun name => C.skip fun name' => C.ite ?_ ?_
  · exact C.andThen (h.valueOf houtside) (C.say (C.text _) (h.valueOf hinside))
  · exact C.mono (Multiset.le_add_left _ _) (h.valueOf hinside)

/-- The names in braces are some of the specifiers of an import. -/
lemma nodesAll_named_le {specifiers : List (Part node)} {found sorted : Imported node}
    (h : Imported.ofSpecifiers found specifiers = .ok sorted) :
    Json.nodesAll sorted.named ≤ Json.nodesAll found.named + Json.nodesAll specifiers := by
  induction specifiers generalizing found with
  | nil =>
      obtain rfl := Except.ok.inj h
      exact Multiset.le_add_right _ _
  | cons specifier rest ih =>
      have hmore {found : Imported node} : Json.nodesAll found.named + Json.nodesAll rest ≤
          Json.nodesAll found.named + Json.nodesAll (specifier :: rest) := by
        rw [Json.nodesAll_cons]
        exact add_le_add le_rfl (Multiset.le_add_left _ _)
      obtain ⟨kind, -, h⟩ := bind_eq_ok_iff.mp h
      split at h
      · exact (ih h).trans hmore
      · split at h
        · exact (ih h).trans hmore
        · refine (ih h).trans (le_of_eq ?_)
          simp [Json.nodesAll, add_assoc]

lemma importedNames_related (h : inner.Matches inner' C) (found : Imported node) :
    C.Related (Json.nodesAll found.named) (importedNames inner found)
      (importedNames inner' found) := by
  obtain ⟨byDefault, everything, named⟩ := found
  let braces (inner : Inner node) : Render Unit :=
    if !named.isEmpty then do
      Render.text "\x7b"
      Render.sequence true "," (fun specifier => importSpecifier (inner.under specifier))
        (named.map some)
      Render.text "\x7d"
    else pure ()
  have hnamed : C.Related (Json.nodesAll named) (braces inner) (braces inner') := by
    refine C.ite (C.say (C.text _) (C.ending ?_ (C.text _))) (C.none (C.pure _))
    refine C.mono (le_of_eq ?_) (C.sequence _ _ (fun part : Part node => part.1.nodes)
      (fun part => C.mono part.1.within_le (importSpecifier_related (h.under part))) _)
    simp [Json.nodesAll, Function.comp_def]
  have heverything : C.Related (Json.nodesAll named) (importedNames inner ⟨none, everything, named⟩)
      (importedNames inner' ⟨none, everything, named⟩) := by
    cases everything with
    | none => exact hnamed
    | some specifier =>
        exact C.skip fun _ => C.skip fun _ =>
          C.say (C.chunk _ (h.applies_part specifier)) hnamed
  cases byDefault with
  | none => exact heverything
  | some specifier =>
      exact C.skip fun _ => C.say (C.chunk _ (h.applies_part specifier))
        (C.optional (C.text _) fun _ => heverything)

lemma keptBy_importRule : C.KeptBy importRule := by
  intro node inner inner' h
  refine C.within ["specifiers", "source", "attributes", "assertions"] (by decide)
    (u := node.under "specifiers" + (node.under "source" + underAttributes node)) ?_ (by simp)
  refine C.say (C.text _) (C.say (typeWord_related _ _) ?_)
  refine C.reading fun specifiers hspecifiers => ?_
  cases specifiers with
  | none =>
      refine C.mono (Multiset.le_add_left _ _) (C.andThen (h.field "source") ?_)
      exact C.ending (importAttributes_related h) (C.text _)
  | some specifiers =>
      refine C.reading fun parts hparts => C.reading fun found hfound => ?_
      have hnamed := nodesAll_named_le hfound
      rw [show Json.nodesAll ({} : Imported node).named = 0 from rfl, zero_add] at hnamed
      have hall : Json.nodesAll found.named ≤ node.under "specifiers" :=
        hnamed.trans ((Json.nodesAll_le_of_parts hparts).trans
          (Json.nodesIn_le_of_given hspecifiers))
      refine C.andThen (C.mono hall (importedNames_related h found)) ?_
      exact C.ending (origin_related h) (C.text _)

lemma exportSpecifier_related (h : inner.Matches inner' C) :
    C.Related node.within (exportSpecifier inner) (exportSpecifier inner') := by
  refine C.within ["local", "exported"] (by decide)
    (u := node.under "local" + node.under "exported") ?_ (by simp)
  refine C.say (typeWord_related _ _) (C.reading fun inside hinside => ?_)
  refine C.reading fun outside houtside => C.andThen (h.valueOf hinside) ?_
  refine C.skip fun name => C.skip fun name' => C.ite ?_ (C.none (C.pure _))
  exact C.say (C.text _) (h.valueOf houtside)

lemma exportedNames_related (h : inner.Matches inner' C) :
    C.Related (node.under "specifiers" + (node.under "source" + underAttributes node))
      (exportedNames inner) (exportedNames inner') := by
  let tail (inner : Inner node) : Render Unit := do
    Render.text "\x7d"
    if ← node.flag "source" then origin inner
    Render.text ";"
  have htail : C.Related (node.under "source" + underAttributes node) (tail inner)
      (tail inner') := by
    refine C.say (C.text _) (C.skip fun again => C.ite ?_ (C.none (C.text _)))
    exact C.ending (origin_related h) (C.text _)
  refine C.say (typeWord_related _ _) (C.say (C.text _) ?_)
  refine C.reading fun specifiers hspecifiers => ?_
  cases specifiers with
  | none => exact C.mono (Multiset.le_add_left _ _) htail
  | some specifiers =>
      have hlist := Inner.Matches.sequenceOf true ","
        (fun part => C.mono part.1.within_le (exportSpecifier_related (h.under part))) specifiers
      simpa only [bind_assoc] using
        C.andThen (C.mono (Json.nodesIn_le_of_given hspecifiers) hlist) htail

lemma keptBy_exportNamed : C.KeptBy exportNamed := by
  intro node inner inner' h
  refine C.within ["declaration", "specifiers", "source", "attributes", "assertions"] (by decide)
    (u := node.under "declaration" +
      (node.under "specifiers" + (node.under "source" + underAttributes node))) ?_ (by simp)
  refine C.say (C.text _) (C.reading fun declaration hdeclaration => ?_)
  cases declaration with
  | none => exact C.mono (Multiset.le_add_left _ _) (exportedNames_related h)
  | some declaration =>
      refine C.mono ?_ (h.value declaration)
      exact (Json.nodesIn_le_of_given hdeclaration).trans (Multiset.le_add_right _ _)

lemma keptBy_exportDefault : C.KeptBy exportDefault := by
  intro node inner inner' h
  refine C.within ["declaration"] (by decide) (u := node.under "declaration") ?_ (by simp)
  refine C.reading fun declaration hdeclaration => C.say (C.text _) (C.skip fun wraps => ?_)
  refine C.ending (h.wrappedOf hdeclaration wraps) ?_
  exact C.skip fun kind => C.skip fun bare => C.ite (C.text _) (C.pure _)

lemma keptBy_exportAll : C.KeptBy exportAll := by
  intro node inner inner' h
  refine C.within ["exported", "source", "attributes", "assertions"] (by decide)
    (u := node.under "exported" + (node.under "source" + underAttributes node)) ?_ (by simp)
  refine C.say (C.text _) (C.say (typeWord_related _ _) (C.say (C.text _) ?_))
  refine C.reading fun exported hexported => C.andThen (h.givenAfter _ hexported) ?_
  exact C.ending (origin_related h) (C.text _)

end Rules

end EstreePrinter
