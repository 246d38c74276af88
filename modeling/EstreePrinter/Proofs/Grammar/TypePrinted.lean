import Mathlib
import EstreePrinter.Proofs.Grammar.Printed
import EstreePrinter.Proofs.Grammar.TypeNode
import EstreePrinter.Printer

/-!
# Printed types are read back

**The invariant.**  `PrintsType s node e` says that what is printed for a node is a passage from
which the type `e` is derived at its level, perhaps with line breaks around it.  There are none
around a type that is no list, or a list that is not broken, and that fits before the word
`extends`.

**The result.**  `handle_types`: what is printed for a tree of types is read as tokens, and the
tokens derive the type, if the type is grouped as `TypeTree.groups` says and no list before the word
`extends` is broken.  Otherwise it need not be so: `operator_misses_union`, `bound_misses_result`,
`check_leaves_line`.
-/

namespace EstreePrinter

namespace Grammar

open Json (Part)
open Render (Gives read_bind tree_of_isPlain tree_type partsOf)

/-! ## Levels -/

namespace TypeTree

variable {e : TypeTree}

/-- Between two neighbouring levels are the types of the upper one only. -/
lemma fits_union_eq (h : e.level ≠ .union) : e.fits .union = e.fits .intersection := by
  unfold TypeTree.fits
  cases hlevel : e.level <;> first | rfl | exact absurd hlevel h

lemma fits_intersection_eq (h : e.level ≠ .intersection) :
    e.fits .intersection = e.fits .operator := by
  unfold TypeTree.fits
  cases hlevel : e.level <;> first | rfl | exact absurd hlevel h

lemma fits_mono {l m : TypeLevel} (hlm : l.rank ≤ m.rank) (h : e.fits l = true) :
    e.fits m = true :=
  decide_eq_true ((of_decide_eq_true h).trans hlm)

/-- A type that operators can stand before is no list. -/
lemma isList_of_fits (h : e.fits .operator = true) : e.isList = false := by
  have hrank := of_decide_eq_true h
  unfold TypeTree.isList
  cases hlevel : e.level <;> simp_all [TypeLevel.rank]

end TypeTree

/-! ## The invariant -/

/-- A type that is rendered on one line. -/
def StaysOnLine (s : Setting) (node : Json) : Prop :=
  ∀ em, Render.tree .type node s [] = .ok em → em.multiline = false

/-- A passage of a type at a level. -/
abbrev TypePassage (l : TypeLevel) (e : TypeTree) : List Lexeme → Prop :=
  Passage typeAlphabet (DerivesType l · e)

/-- The same with gaps around it. -/
abbrev TypePadded (l : TypeLevel) (e : TypeTree) : List Lexeme → Prop :=
  Padded typeAlphabet (DerivesType l · e)

/-- **A node that is printed as a type.** -/
def PrintsType (s : Setting) (node : Json) (e : TypeTree) : Prop :=
  ∃ ls, Gives s (Render.tree .type node) ls ∧ TypePadded e.level e ls ∧
    (e.fits .union = true → (e.isList = true → StaysOnLine s node) → TypePassage e.level e ls)

section Printed

variable {s : Setting} {node : Json} {e : TypeTree}

/-- What is printed as a passage. -/
lemma printsType_of_passage {ls : List Lexeme} (hgives : Gives s (Render.tree .type node) ls)
    (h : TypePassage e.level e ls) : PrintsType s node e :=
  ⟨ls, hgives, h.padded, fun _ _ => h⟩

/-- What is printed with gaps around it and fits nowhere below `bound`. -/
lemma printsType_of_padded {ls : List Lexeme} (hgives : Gives s (Render.tree .type node) ls)
    (h : TypePadded e.level e ls) (hloose : e.fits .union = false) : PrintsType s node e :=
  ⟨ls, hgives, h, fun hfits => absurd hfits (by simp [hloose])⟩

/-- A type inside of another one, as it is. -/
lemma PrintsType.whole {child : Json} (h : PrintsType s child e) :
    ∃ ls, Gives s (Render.tree .type child) ls ∧ TypePadded .type e ls := by
  obtain ⟨ls, hgives, hpadded, -⟩ := h
  exact ⟨ls, hgives, hpadded.mono fun _ => .ofFits e.fits_type⟩

/-- **A type in parentheses if `wrap` says so**, at a level that it fits otherwise. -/
lemma PrintsType.part {child : Json} (hinside : child.Inside node) (h : PrintsType s child e)
    (wrap : Bool) {l : TypeLevel} (hfits : wrap = false → e.fits l = true) :
    ∃ ls, Gives s ((partsOf node).wrappedType ⟨child, hinside⟩ wrap) ls ∧ TypePadded l e ls ∧
      (wrap = true ∨ e.fits .union = true ∧ (e.isList = true → StaysOnLine s child) →
        TypePassage l e ls) := by
  obtain ⟨ls, hgives, hpadded, hpassage⟩ := h
  refine ⟨_, Render.gives_wrappedType hgives wrap, ?_⟩
  cases wrap with
  | false =>
      refine ⟨hpadded.mono fun _ => .ofFits (hfits rfl), fun h => ?_⟩
      obtain ⟨hunion, hline⟩ := h.resolve_left (by simp)
      exact (hpassage hunion hline).mono fun _ => .ofFits (hfits rfl)
  | true =>
      have hparens : TypePassage l e (between "(" ")" ls) :=
        hpadded.content.bracketed (by decide) (by decide) (by decide) (by decide) fun _ _ _ hts =>
          .raise (m := .primary) (by simp [TypeLevel.rank]) (.parens (hts.ofFits e.fits_type))
      exact ⟨hparens.padded, fun _ => hparens⟩

/-- The kinds that are asked about tell whether a type fits a level. -/
def Tells (kinds : List String) (l : TypeLevel) (child : Json) (e : TypeTree) : Prop :=
  ∃ kind, child.kind = .ok (.str kind) ∧ kinds.contains kind = !e.fits l

/-- Levels that a type fits alike are told alike. -/
lemma Tells.alike {kinds : List String} {l m : TypeLevel} {child : Json} (h : Tells kinds l child e)
    (hlm : e.fits l = e.fits m) : Tells kinds m child e := by
  obtain ⟨kind, hkind, htells⟩ := h
  exact ⟨kind, hkind, hlm ▸ htells⟩

lemma wrappedIfKind_eq {kinds : List String} {l : TypeLevel} {child : Json}
    (hinside : child.Inside node) (h : Tells kinds l child e) :
    Rules.wrappedIfKind (partsOf node) kinds ⟨child, hinside⟩ =
      (partsOf node).wrappedType ⟨child, hinside⟩ (!e.fits l) := by
  obtain ⟨kind, hkind, htells⟩ := h
  have hin : (Json.str kind).isIn kinds = .ok (!e.fits l) := htells ▸ rfl
  rw [Rules.wrappedIfKind, read_bind (Json.requireKind_of_kind hkind), read_bind hin]

/-! ## Names -/

/-- Each of the types that are a single word is rendered as it. -/
lemma gives_keyword {known : Json → Prop} {q : Render.Waiting known} {kind word : String}
    (hnode : node.kind = .ok (.str kind)) (hkind : (kind, word) ∈ Rules.keywordTypes) :
    Render.GivesFrom s q (Render.tree .type node) [.token word] q ∧ word ∈ typeKeywords ∧
      IsWord word := by
  have hwords : ∀ entry ∈ Rules.keywordTypes, entry.2 ∈ typeKeywords ∧ IsWord entry.2 := by
    decide
  refine ⟨?_, hwords _ hkind⟩
  rw [tree_type kind hnode (Rules.find_keywordType hkind), Rules.keywordType]
  exact Render.givesFrom_text _ (by simp [Command.plainly]) (by simp)

lemma printsType_keyword {kind word : String} (hnode : node.kind = .ok (.str kind))
    (hkind : (kind, word) ∈ Rules.keywordTypes) : PrintsType s node (.keyword word) := by
  obtain ⟨hgives, hmem, hword⟩ := gives_keyword (s := s) hnode hkind
  exact printsType_of_passage hgives (Passage.word hword fun _ => .keyword hmem)

/-- The name of a type is printed as one. -/
lemma gives_path {path : List String} (h : NamesType node path) :
    ∃ ls, Gives s (Render.tree .value node) ls ∧ Passage typeAlphabet (DerivesPath · path) ls ∧
      ∃ t, ls.getLast? = some (.token t) ∧ IsWord t := by
  induction h with
  | @name node t h ht =>
      exact ⟨_, gives_identifier h, Passage.word ht fun _ => .one ht, t, rfl, ht⟩
  | @qualified node left right path t hnode hleft hright h hname ht ih =>
      obtain ⟨ls, hgives, hpassage, u, hlast, hu⟩ := ih
      have hdot := Render.gives_text (s := s) (t := ".") [.token "."] rfl (by simp)
      refine ⟨ls ++ [Lexeme.token ".", .token t], ?_, ?_, t, by simp [List.getLast?_append], ht⟩
      · rw [tree_of_isPlain "TSQualifiedName" hnode.toIsPlain hnode.kind_eq rfl,
          Rules.qualifiedName, field_eq hleft, field_eq hright]
        exact hgives.andThen (hdot.andThen (gives_identifier hname))
      · exact hpassage.behindWord hlast hu (legible_signWord (by decide) ht) rfl (by decide)
          ⟨t, rfl, Or.inl ht⟩ fun _ hts => .more hts ht

/-- A type by its name alone. -/
lemma printsType_reference {name : Json} {path : List String}
    (hnode : node.kind = .ok (.str "TSTypeReference")) (hname : node.Has "typeName" name)
    (h : NamesType name path) (hpath : IsTypePath path)
    (hargs : node.givenOr "typeArguments" "typeParameters" = .ok none) :
    PrintsType s node (.reference path []) := by
  obtain ⟨ls, hgives, hpassage, -⟩ := gives_path (s := s) h
  have hnothing := hgives.andThen Render.gives_pure
  rw [List.append_nil] at hnothing
  refine printsType_of_passage ?_ (hpassage.mono fun _ => .reference hpath)
  rw [tree_type "TSTypeReference" hnode rfl, Rules.typeReference, field_eq hname,
    Rules.typeArguments, read_bind hargs]
  exact hnothing

/-! ## Type arguments -/

/-- Types with commas between them. -/
lemma gives_commaTypes {list : List (Part node)} {lss : List (List Lexeme)}
    (h : List.Forall₂ (fun a ls => Gives s ((partsOf node).type a) ls) list lss) (isFirst : Bool) :
    Gives s (Rules.commaTypes (partsOf node) isFirst list)
      (if isFirst || list.isEmpty then separated false "," false lss
        else .token "," :: .gap false :: separated false "," false lss) := by
  have hcomma := Render.gives_text (s := s) (t := ", ") [.token ",", .gap false] rfl (by simp)
  induction h generalizing isFirst with
  | nil => simpa [separated, Rules.commaTypes] using Render.gives_pure
  | @cons a ls list lss ha hlist ih =>
      have hrest : Gives s ((partsOf node).type a >>= fun _ =>
          Rules.commaTypes (partsOf node) false list) (separated false "," false (ls :: lss)) := by
        have hboth := ha.andThen (ih false)
        cases hlist with
        | nil => simpa [separated] using hboth
        | cons hb hrest => simpa [separated, marked] using hboth
      cases isFirst with
      | true => exact hrest
      | false => exact hcomma.andThen hrest

/-- Items that are printed as types. -/
lemma exists_types {items : List Json} {es : List TypeTree}
    (h : List.Forall₂ (PrintsType s) items es) :
    ∃ lss, List.Forall₂ (fun item ls => Gives s (Render.tree .type item) ls) items lss ∧
      List.Forall₂ (fun ls e => TypePadded .type e ls) lss es := by
  induction h with
  | nil => exact ⟨[], .nil, .nil⟩
  | cons hitem hitems ih =>
      obtain ⟨ls, hgives, hpadded⟩ := hitem.whole
      obtain ⟨lss, hall, hpaddeds⟩ := ih
      exact ⟨ls :: lss, .cons hgives hall, .cons hpadded hpaddeds⟩

/-- A type by its name, with arguments. -/
lemma printsType_generic {name list : Json} {hinside : list.Inside node} {items : List Json}
    {path : List String} {args : List TypeTree}
    (hnode : node.kind = .ok (.str "TSTypeReference")) (hname : node.Has "typeName" name)
    (h : NamesType name path) (hpath : IsTypePath path)
    (hlist : node.givenOr "typeArguments" "typeParameters" = .ok (some ⟨list, hinside⟩))
    (hkind : list.kind = .ok (.str "TSTypeParameterInstantiation"))
    (hitems : list.Has "params" (.arr items)) (hne : args ≠ [])
    (hprints : List.Forall₂ (PrintsType s) items args) :
    PrintsType s node (.reference path args) := by
  obtain ⟨ls, hgives, hpassage, -⟩ := gives_path (s := s) h
  obtain ⟨lss, hall, hpaddeds⟩ := exists_types hprints
  obtain ⟨hinside', hread⟩ := hitems
  obtain ⟨parts, hparts, rfl⟩ := parts_arr hinside'
  have hne' : lss ≠ [] := by
    rintro rfl
    cases hpaddeds
    exact hne rfl
  have hparts' := List.forall₂_map_left_iff.mp hall
  have hcommas : Gives s (Rules.commaTypes (partsOf list) true parts)
      (separated false "," false lss) := gives_commaTypes hparts' true
  have hopen := Render.gives_text (s := s) (t := "<") [.token "<"] rfl (by simp)
  have hclose := Render.gives_text (s := s) (t := ">") [.token ">"] rfl (by simp)
  have hlist' : Gives s (Render.tree .type list)
      (between "<" ">" (separated false "," false lss)) := by
    rw [tree_type "TSTypeParameterInstantiation" hkind rfl, Rules.angleBrackets, read_bind hread,
      read_bind hparts]
    exact hopen.andThen (hcommas.andThen hclose)
  have hseparated : Padded typeAlphabet (DerivesSeparated (DerivesType .type) "," · args)
      (separated false "," false lss) :=
    Padded.separated hpaddeds hne' (Alphabet.reads_of_mem (by decide)) (Or.inr (by decide)) false
  have hsuffix : Suffix typeAlphabet (fun us => ∃ c ts, us = ⟨"<", false⟩ :: (ts ++ [⟨">", c⟩]) ∧
      DerivesSeparated (DerivesType .type) "," ts args)
      (between "<" ">" (separated false "," false lss)) :=
    hseparated.content.suffix (by decide) (by decide) (by decide) (by decide)
      fun d ts hts => ⟨d, ts, rfl, hts⟩
  refine printsType_of_passage ?_ (hpassage.followedBy hsuffix ?_)
  · rw [tree_type "TSTypeReference" hnode rfl, Rules.typeReference, field_eq hname,
      Rules.typeArguments, read_bind hlist]
    exact hgives.andThen hlist'
  · rintro ts us hts ⟨c, vs, rfl, hvs⟩
    exact .generic hpath hts hvs

/-! ## Brackets and operators -/

/-- **A type that brackets stand behind**, in parentheses if it does not fit there. -/
lemma bracketed_part {child : Json} (hinside : child.Inside node) (h : PrintsType s child e)
    (htells : Tells Rules.looseTypes .bracket child e) :
    ∃ ls, Gives s (Rules.wrappedIfKind (partsOf node) Rules.looseTypes ⟨child, hinside⟩) ls ∧
      TypePassage .bracket e ls := by
  obtain ⟨ls, hgives, -, hpassage⟩ := h.part hinside (!e.fits .bracket) (l := .bracket) (by simp)
  refine ⟨ls, wrappedIfKind_eq hinside htells ▸ hgives, hpassage ?_⟩
  cases hfits : e.fits .bracket with
  | false => exact Or.inl rfl
  | true =>
      have hlist := TypeTree.isList_of_fits (TypeTree.fits_mono (by decide) hfits)
      exact Or.inr ⟨TypeTree.fits_mono (by decide) hfits, by simp [hlist]⟩

lemma printsType_array {element : Json} (hnode : node.kind = .ok (.str "TSArrayType"))
    (helement : node.Has "elementType" element) (htells : Tells Rules.looseTypes .bracket element e)
    (hprints : PrintsType s element e) : PrintsType s node (.array e) := by
  obtain ⟨hinside, hread⟩ := helement
  obtain ⟨ls, hgives, hpassage⟩ := bracketed_part hinside hprints htells
  have hbrackets := Render.gives_text (s := s) (t := "[]") [.token "[", .token "]"] rfl (by simp)
  have hsuffix : Suffix typeAlphabet (fun us => ∃ c, us = [⟨"[", false⟩, ⟨"]", c⟩])
      (between "[" "]" []) :=
    (Content.nil (P := (· = [])) rfl).suffix (by decide) (by decide) (by decide) (by decide)
      fun d ts hts => ⟨d, by rw [hts]; rfl⟩
  refine printsType_of_passage ?_ (hpassage.followedBy hsuffix ?_)
  · rw [tree_type "TSArrayType" hnode rfl, Rules.arrayType, read_bind hread]
    exact hgives.andThen hbrackets
  · rintro ts us hts ⟨c, rfl⟩
    exact .array hts

lemma printsType_index {object key : Json} {f : TypeTree}
    (hnode : node.kind = .ok (.str "TSIndexedAccessType")) (hobject : node.Has "objectType" object)
    (hkey : node.Has "indexType" key) (htells : Tells Rules.looseTypes .bracket object e)
    (hprints : PrintsType s object e) (hprints' : PrintsType s key f) :
    PrintsType s node (.index e f) := by
  obtain ⟨hinside, hread⟩ := hobject
  obtain ⟨hinside', hread'⟩ := hkey
  obtain ⟨ls, hgives, hpassage⟩ := bracketed_part hinside hprints htells
  obtain ⟨ms, hgives', hpadded⟩ := hprints'.whole
  have hopen := Render.gives_text (s := s) (t := "[") [.token "["] rfl (by simp)
  have hclose := Render.gives_text (s := s) (t := "]") [.token "]"] rfl (by simp)
  have hsuffix : Suffix typeAlphabet (fun us => ∃ c ts, us = ⟨"[", false⟩ :: (ts ++ [⟨"]", c⟩]) ∧
      DerivesType .type ts f) (between "[" "]" ms) :=
    hpadded.content.suffix (by decide) (by decide) (by decide) (by decide)
      fun d ts hts => ⟨d, ts, rfl, hts⟩
  refine printsType_of_passage ?_ (hpassage.followedBy hsuffix ?_)
  · rw [tree_type "TSIndexedAccessType" hnode rfl, Rules.indexedAccess, read_bind hread,
      Inner.typeField, read_bind hread']
    exact hgives.andThen (hopen.andThen (hgives'.andThen hclose))
  · rintro ts us hts ⟨c, vs, rfl, hvs⟩
    exact .index hts hvs

lemma isWord_of_typeOperators {op : String} (h : op ∈ typeOperators) : IsWord op := by
  have hall : ∀ op ∈ typeOperators, IsWord op := by decide
  exact hall op h

lemma printsType_operator {operand : Json} {op : String}
    (hnode : node.kind = .ok (.str "TSTypeOperator")) (hop : node.Has "operator" (.str op))
    (hmem : op ∈ typeOperators) (hoperand : node.Has "typeAnnotation" operand)
    (hfits : e.fits .operator = true) (hprints : PrintsType s operand e) :
    PrintsType s node (.operator op e) := by
  obtain ⟨hinside, hread⟩ := hop
  obtain ⟨hinside', hread'⟩ := hoperand
  obtain ⟨ls, hgives, -, hpassage⟩ := hprints
  have hoperand : TypePassage .operator e ls := by
    have hlist := TypeTree.isList_of_fits hfits
    exact (hpassage (TypeTree.fits_mono (by decide) hfits) (by simp [hlist])).mono fun _ =>
      .ofFits hfits
  have hword : Gives s (Render.text (op ++ " ")) [.token op, .gap false] :=
    Render.gives_text _ (by simp [Command.plainly]) (by simp)
  refine printsType_of_passage ?_
    (hoperand.behindPadding (Or.inl (isWord_of_typeOperators hmem)) (isPadding_gap false) (by simp)
      fun _ _ => .operator hmem)
  have htext : (Json.str op).text = .ok op := rfl
  rw [tree_type "TSTypeOperator" hnode rfl, Rules.typeOperator, read_bind hread, read_bind htext,
    Inner.typeField, read_bind hread']
  exact hword.andThen hgives

/-! ## Lists of types -/

/-- The members of a list of types, each in parentheses if it does not fit.  A member that stays on
its line has no gaps around it. -/
lemma exists_members {kinds : List String} {l : TypeLevel} (hl : l.rank ≤ TypeLevel.union.rank)
    {list : List (Part node)} {es : List TypeTree}
    (h : List.Forall₂ (fun a e => PrintsType s a.1 e ∧ Tells kinds l a.1 e) list es) :
    ∃ lss, List.Forall₂
        (fun a ls => Gives s (Rules.wrappedIfKind (partsOf node) kinds a) ls) list lss ∧
      List.Forall₂ (fun ls e => TypePadded l e ls) lss es ∧
      ((∀ a ∈ list, ∀ f, Rules.wrappedIfKind (partsOf node) kinds a s [] = .ok f →
          f.multiline = false) →
        List.Forall₂ (fun ls e => TypePassage l e ls) lss es) := by
  induction h with
  | nil => exact ⟨[], .nil, .nil, fun _ => .nil⟩
  | @cons a e list es ha hlist ih =>
      obtain ⟨hprints, htells⟩ := ha
      obtain ⟨ls, hgives, hpadded, hpassage⟩ :=
        hprints.part a.2 (!e.fits l) (l := l) (by simp)
      obtain ⟨lss, hall, hpaddeds, hpassages⟩ := ih
      have heq := wrappedIfKind_eq a.2 htells
      refine ⟨ls :: lss, .cons (heq ▸ hgives) hall, .cons hpadded hpaddeds, fun hlines => ?_⟩
      refine .cons (hpassage ?_) (hpassages fun b hb => hlines b (by simp [hb]))
      cases hfits : e.fits l with
      | false => exact Or.inl rfl
      | true =>
          refine Or.inr ⟨TypeTree.fits_mono hl hfits, fun _ f hf => hlines a (by simp) f ?_⟩
          rw [heq, hfits]
          exact hf

/-- **A list of types** with a sign between any two of them, broken over several lines or not. -/
lemma prints_members {kinds : List String} {l : TypeLevel} (hl : l.rank ≤ TypeLevel.union.rank)
    {p separator : String} (hp : p ∈ typeAlphabet.signs)
    (htext : separator.toList = ' ' :: p.toList) {items : List Json} {es : List TypeTree}
    (hitems : node.Has "types" (.arr items)) (hne : es ≠ [])
    (hnull : ∀ item ∈ items, item.isNull = false)
    (h : List.Forall₂ (fun item e => PrintsType s item e ∧ Tells kinds l item e) items es)
    (hrule : Render.tree .type node = (do
      Render.sequence false separator (Rules.wrappedIfKind (partsOf node) kinds)
        (← Json.itemsOf (← node.require "types")))) :
    ∃ ls, Gives s (Render.tree .type node) ls ∧
      Padded typeAlphabet (DerivesSeparated (DerivesType l) p · es) ls ∧
      (StaysOnLine s node → Passage typeAlphabet (DerivesSeparated (DerivesType l) p · es) ls) := by
  obtain ⟨hinside, hread⟩ := hitems
  obtain ⟨list, hlist, rfl⟩ := itemsOf_arr hinside hnull
  obtain ⟨lss, hgives, hpaddeds, hpassages⟩ := exists_members hl (List.forall₂_map_left_iff.mp h)
  have hlss : lss ≠ [] := by
    rintro rfl
    cases hpaddeds
    exact hne rfl
  have hlist' : list ≠ [] := by
    rintro rfl
    cases hgives
    exact hlss rfl
  have hseparator : Command.Spells Json.NoComment [.text separator] (marked true p) :=
    Command.spells_text _ (by simp [marked, Command.plainly, htext]) (by simp [marked])
  obtain ⟨em, hem, hqueue, hspells, hlines⟩ :=
    Render.sequence_spells hseparator hgives hlist'
  have hreads : typeAlphabet.toVocabulary.Reads p := Or.inr (Or.inl hp)
  have htree : Render.tree .type node s [] = .ok em := by
    rw [hrule, read_bind hread, read_bind hlist]
    exact hem
  refine ⟨_, ⟨em, htree, hqueue, hspells⟩,
    (Padded.separated hpaddeds hlss hreads (Or.inl rfl) em.multiline).inset em.multiline,
    fun hstays => ?_⟩
  have hsingle := hstays em htree
  rw [hsingle]
  simpa [inset] using Passage.separated (hpassages (hlines hsingle)) hlss hreads (Or.inl rfl) false

lemma printsType_union {items : List Json} {first second : TypeTree} {rest : List TypeTree}
    (hnode : node.kind = .ok (.str "TSUnionType")) (hitems : node.Has "types" (.arr items))
    (hnull : ∀ item ∈ items, item.isNull = false)
    (h : List.Forall₂ (fun item e => PrintsType s item e ∧
      Tells Rules.functionLike .intersection item e) items (first :: second :: rest)) :
    PrintsType s node (.union first second rest) := by
  obtain ⟨ls, hgives, hpadded, hpassage⟩ := prints_members (l := .intersection) (by decide)
    (p := "|") (by decide) rfl hitems (by simp) hnull h (tree_type "TSUnionType" hnode rfl)
  exact ⟨ls, hgives, hpadded.mono fun _ => .union,
    fun _ hstays => (hpassage (hstays rfl)).mono fun _ => .union⟩

lemma printsType_intersection {items : List Json} {first second : TypeTree} {rest : List TypeTree}
    (hnode : node.kind = .ok (.str "TSIntersectionType")) (hitems : node.Has "types" (.arr items))
    (hnull : ∀ item ∈ items, item.isNull = false)
    (h : List.Forall₂ (fun item e => PrintsType s item e ∧
      Tells (Rules.functionLike ++ ["TSUnionType"]) .operator item e) items
      (first :: second :: rest)) :
    PrintsType s node (.intersection first second rest) := by
  obtain ⟨ls, hgives, hpadded, hpassage⟩ := prints_members (l := .operator) (by decide)
    (p := "&") (by decide) rfl hitems (by simp) hnull h (tree_type "TSIntersectionType" hnode rfl)
  exact ⟨ls, hgives, hpadded.mono fun _ => .intersection,
    fun _ hstays => (hpassage (hstays rfl)).mono fun _ => .intersection⟩

/-! ## Conditional types -/

lemma isWord_extends : IsWord "extends" := by decide

/-- **What stands behind the word `extends`**: a conditional type is in parentheses. -/
lemma bound_part {child : Json} (hinside : child.Inside node) (h : PrintsType s child e)
    (hfits : e.isConditional = true ∨ e.fits .bound = true) :
    ∃ ls, Gives s ((partsOf node).wrappedType ⟨child, hinside⟩ e.isConditional) ls ∧
      TypePadded .bound e ls := by
  obtain ⟨ls, hgives, hpadded, -⟩ := h.part hinside e.isConditional (l := .bound) fun hwrap =>
    hfits.resolve_left (by simp [hwrap])
  exact ⟨ls, hgives, hpadded⟩

lemma printsType_conditional {check bound yes no : Json} {f g k : TypeTree}
    (hnode : node.kind = .ok (.str "TSConditionalType")) (hcheck : node.Has "checkType" check)
    (hbound : node.Has "extendsType" bound) (hyes : node.Has "trueType" yes)
    (hno : node.Has "falseType" no) (htells : Tells Rules.functionLike .union check e)
    (hflat : e.isList = true → StaysOnLine s check)
    (hasks : ∃ kind, bound.kind = .ok (.str kind) ∧ (kind == "TSConditionalType") = f.isConditional)
    (hfits : f.isConditional = true ∨ f.fits .bound = true) (hprints : PrintsType s check e)
    (hprints' : PrintsType s bound f) (hyes' : PrintsType s yes g) (hno' : PrintsType s no k) :
    PrintsType s node (.conditional e f g k) := by
  obtain ⟨hinside, hread⟩ := hcheck
  obtain ⟨hinside', hread'⟩ := hbound
  obtain ⟨hinsideYes, hreadYes⟩ := hyes
  obtain ⟨hinsideNo, hreadNo⟩ := hno
  obtain ⟨ls, hgives, -, hpassage⟩ := hprints.part hinside (!e.fits .union) (l := .union) (by simp)
  have hcheck : TypePassage .union e ls := by
    refine hpassage ?_
    cases hunion : e.fits .union with
    | false => exact Or.inl rfl
    | true => exact Or.inr ⟨rfl, hflat⟩
  obtain ⟨ms, hgives', hbound⟩ := bound_part hinside' hprints' hfits
  obtain ⟨ns, hgivesYes, hyes⟩ := hyes'.whole
  obtain ⟨os, hgivesNo, hno⟩ := hno'.whole
  have hmark (op : String) : Gives s (Render.text (" " ++ op ++ " "))
      [.gap false, .token op, .gap false] := gives_operator op
  have hquestion : typeAlphabet.toVocabulary.Reads "?" := Or.inr (Or.inl (by decide))
  have hcolon : typeAlphabet.toVocabulary.Reads ":" := Or.inr (Or.inl (by decide))
  -- from the right: the branches, the bound, and the check with no line break behind it
  have hbranches := hyes.joined hno hcolon (isPadding_gap false) (Or.inl (by simp))
    (isPadding_gap false) (by simp)
    (R := fun ws => ∃ us vs c, ws = us ++ ⟨":", c⟩ :: vs ∧ DerivesType .type us g ∧
      DerivesType .type vs k) fun us vs c hus hvs => ⟨us, vs, c, rfl, hus, hvs⟩
  have hright := hbound.joined hbranches hquestion (isPadding_gap false) (Or.inl (by simp))
    (isPadding_gap false) (by simp)
    (R := fun ws => ∃ ts us vs b c, ws = ts ++ ⟨"?", b⟩ :: (us ++ ⟨":", c⟩ :: vs) ∧
      DerivesType .bound ts f ∧ DerivesType .type us g ∧ DerivesType .type vs k) (by
    rintro ts ws b hts ⟨us, vs, c, rfl, hus, hvs⟩
    exact ⟨ts, us, vs, b, c, rfl, hts, hus, hvs⟩)
  have hwhole : TypePadded .type (.conditional e f g k) _ :=
    hcheck.joinedPadded hright (Or.inl isWord_extends) (isPadding_gap false) (Or.inl (by simp))
      (isPadding_gap false) (by simp) (by
    rintro ts ws hts ⟨us, vs, ws, b, c, rfl, hus, hvs, hws⟩
    exact .conditional hts hus hvs hws)
  refine printsType_of_padded ?_ hwhole rfl
  obtain ⟨kind, hkind, hconditional⟩ := hasks
  have htext : (Json.str kind).isText "TSConditionalType" = f.isConditional := hconditional
  rw [tree_type "TSConditionalType" hnode rfl, Rules.conditionalType, read_bind hread,
    wrappedIfKind_eq hinside htells, read_bind hread',
    read_bind (Json.requireKind_of_kind hkind), htext]
  simp only [Inner.typeField, read_bind hreadYes, read_bind hreadNo]
  have hbranches := hgivesYes.andThen ((hmark ":").andThen hgivesNo)
  exact hgives.andThen ((hmark "extends").andThen (hgives'.andThen ((hmark "?").andThen
    hbranches)))

/-! ## Function types -/

/-- A node that is printed as a parameter. -/
def PrintsParameter (s : Setting) (node : Json) (p : Parameter) : Prop :=
  ∃ ls, Gives s (Render.tree .value node) ls ∧ Padded typeAlphabet (DerivesParameter · p) ls

lemma IsParameterName.isWord {t : String} (h : IsParameterName t) : IsWord t := by
  rcases h with h | rfl
  · exact h.1
  · decide

/-- **The name of a parameter with its mark**, and what is printed behind it. -/
lemma gives_binding {t : String} {mark : Mark} (h : BindsName node t mark) (ht : IsParameterName t)
    {ascribed : Option (Part node)} (htype : node.given "typeAnnotation" = .ok ascribed)
    {ms : List Lexeme} (hgives : Gives s ((partsOf node).typeIf ascribed) ms) :
    ∃ ls, Gives s (Render.tree .value node) (ls ++ ms) ∧
      Passage typeAlphabet (DerivesBinding · t mark) ls := by
  cases h with
  | @name _ isOptional hnode hname hoptional hplaced =>
      obtain ⟨hinside, hread⟩ := hname
      have hmark := Render.gives_textIf (s := s) hoptional
        (Render.gives_text (t := "?") [.token "?"] rfl (by simp))
      refine ⟨[Lexeme.token t] ++ if isOptional then [Lexeme.token "?"] else [], ?_, ?_⟩
      · rw [tree_of_isPlain "Identifier" hnode.toIsPlain hnode.kind_eq rfl, Rules.identifier,
          read_bind hread, Rules.ascription, read_bind htype, List.append_assoc]
        exact (gives_chunk hplaced).andThen (hmark.andThen hgives)
      · cases isOptional with
        | false => exact Passage.word ht.isWord fun _ => .plain ht
        | true =>
            have hname : Passage typeAlphabet (fun ts => ∃ b, ts = [⟨t, b⟩]) [.token t] :=
              Passage.word ht.isWord fun b => ⟨b, rfl⟩
            refine hname.behindWord rfl ht.isWord (p := "?")
              (legible_token (Alphabet.reads_of_mem (by decide))) rfl (by decide)
              ⟨"?", rfl, Or.inr (Or.inl (by decide))⟩ ?_
            rintro _ ⟨b, rfl⟩
            exact .optional ht
  | @rest argument _ hnode hargument h =>
      have hdots := Render.gives_text (s := s) (t := "...") [.token "..."] rfl (by simp)
      have hname : Passage typeAlphabet (fun ts => ∃ b, ts = [⟨t, b⟩]) [.token t] :=
        Passage.word ht.isWord fun b => ⟨b, rfl⟩
      refine ⟨[Lexeme.token "..."] ++ [Lexeme.token t], ?_,
        hname.behindSign (by decide) (fun u hu => ?_) ?_⟩
      · rw [tree_of_isPlain "RestElement" hnode.toIsPlain hnode.kind_eq rfl, Rules.spread,
          field_eq hargument, Rules.ascription, read_bind htype, List.append_assoc]
        exact hdots.andThen ((gives_identifier h).andThen hgives)
      · obtain rfl : t = u := by simpa using hu
        exact Vocabulary.apart_isWord (by decide) ht.isWord
      · rintro c _ ⟨b, rfl⟩
        exact .rest ht

lemma printsParameter_bare {t : String} {mark : Mark} (h : BindsName node t mark)
    (ht : IsParameterName t) (htype : node.given "typeAnnotation" = .ok none) :
    PrintsParameter s node (.bare t mark) := by
  obtain ⟨ls, hgives, hpassage⟩ := gives_binding h ht htype Render.gives_pure
  rw [List.append_nil] at hgives
  exact ⟨ls, hgives, (hpassage.mono fun _ => .bare).padded⟩

lemma printsParameter_typed {ascribed type : Json} {hinside : ascribed.Inside node} {t : String}
    {mark : Mark} (h : BindsName node t mark) (ht : IsParameterName t)
    (htype : node.given "typeAnnotation" = .ok (some ⟨ascribed, hinside⟩))
    (hkind : ascribed.kind = .ok (.str "TSTypeAnnotation"))
    (hinner : ascribed.Has "typeAnnotation" type) (hprints : PrintsType s type e) :
    PrintsParameter s node (.typed t mark e) := by
  obtain ⟨hinside', hread⟩ := hinner
  obtain ⟨ms, hgives, hpadded⟩ := hprints.whole
  have hcolon := Render.gives_text (s := s) (t := ": ") [.token ":", .gap false] rfl (by simp)
  have hannotation : Gives s (Render.tree .type ascribed) (.token ":" :: .gap false :: ms) := by
    rw [tree_type "TSTypeAnnotation" hkind rfl, Rules.ascribedType, Inner.typeField,
      read_bind hread]
    exact hcolon.andThen hgives
  obtain ⟨ls, hgives', hpassage⟩ := gives_binding h ht htype hannotation
  exact ⟨_, hgives', hpassage.joinedPadded hpadded (Alphabet.reads_of_mem (by decide)) isPadding_nil
    (Or.inr (by decide)) (isPadding_gap false) (by simp) fun _ _ => .typed⟩

/-- Items that are printed as parameters. -/
lemma exists_parameters {items : List Json} {params : List Parameter}
    (h : List.Forall₂ (PrintsParameter s) items params) :
    ∃ lss, List.Forall₂ (fun item ls => Gives s (Render.tree .value item) ls) items lss ∧
      List.Forall₂ (fun ls p => Padded typeAlphabet (DerivesParameter · p) ls) lss params := by
  induction h with
  | nil => exact ⟨[], .nil, .nil⟩
  | cons hitem hitems ih =>
      obtain ⟨ls, hgives, hpadded⟩ := hitem
      obtain ⟨lss, hall, hpaddeds⟩ := ih
      exact ⟨ls :: lss, .cons hgives hall, .cons hpadded hpaddeds⟩

/-- **The parameters and the result of a function type.** -/
lemma gives_functionType {items : List Json} {hinside : (Json.arr items).Inside node}
    {params : List Parameter} {found : Option (Part node)}
    (hgeneric : node.given "typeParameters" = .ok none)
    (hparams : Rules.parametersOf node = .ok (some ⟨.arr items, hinside⟩))
    (hnull : ∀ item ∈ items, item.isNull = false)
    (h : List.Forall₂ (PrintsParameter s) items params) {l : TypeLevel} {ms : List Lexeme}
    (hgives : Gives s (match found with
      | some result => (partsOf node).type result
      | none => Render.text "void") ms) (hpadded : TypePadded l e ms)
    (hresult : Rules.resultType node = .ok found) :
    ∃ ls, Gives s (Rules.functionType node (partsOf node)) ls ∧
      Padded typeAlphabet (DerivesSignature l · params e) ls := by
  obtain ⟨lss, hall, hpaddeds⟩ := exists_parameters h
  obtain ⟨b, hlist⟩ := gives_list hinside hnull hall
  have hopen := Render.gives_text (s := s) (t := "(") [.token "("] rfl (by simp)
  have hclose := Render.gives_text (s := s) (t := ") => ")
    [.token ")", .gap false, .token "=>", .gap false] rfl (by simp)
  have hcontent := (Content.listed hpaddeds (by decide) b).inset b
  have hparens : Passage typeAlphabet (fun ts => ∃ c d us, ts = ⟨"(", c⟩ :: (us ++ [⟨")", d⟩]) ∧
      DerivesListed DerivesParameter us params)
      (between "(" ")" (inset b ++ commaList b lss ++ inset b)) :=
    hcontent.bracketed (by decide) (by decide) (by decide) (by decide)
      fun c d us hus => ⟨c, d, us, rfl, hus⟩
  have harrow : typeAlphabet.toVocabulary.Reads "=>" := Or.inr (Or.inl (by decide))
  have hwhole : Padded typeAlphabet (DerivesSignature l · params e) _ :=
    hparens.joinedPadded hpadded harrow (isPadding_gap false) (Or.inl (by simp))
      (isPadding_gap false) (by simp) (by
    rintro _ vs ⟨c, d, us, rfl, hus⟩ hvs
    exact .mk hus hvs)
  refine ⟨_, ?_, hwhole⟩
  have hsteps := Render.gives_pure.andThen (hopen.andThen (hlist.andThen (hclose.andThen hgives)))
  rw [Rules.functionType, Rules.typeParameters, read_bind hgeneric, Rules.parameters,
    read_bind hparams]
  simp only [read_bind hresult]
  cases found with
  | none => simpa [between, Inner.typeIf] using hsteps
  | some result => simpa [between, Inner.typeIf] using hsteps

/-- A function type stands at the level of its result, but behind `extends` at the lowest. -/
lemma level_function (form : FunctionForm) (params : List Parameter) (result : TypeTree) :
    ((TypeTree.function form params result).level = .bound ∨
      (TypeTree.function form params result).level = .type) ∧
      result.fits (TypeTree.function form params result).level = true := by
  rw [TypeTree.level]
  unfold TypeTree.fits
  split
  · exact ⟨Or.inr rfl, result.fits_type⟩
  · rename_i hlevel
    refine ⟨Or.inl rfl, ?_⟩
    cases hresult : result.level <;> first | rfl | exact absurd hresult hlevel

lemma isWord_abstract : IsWord "abstract" := by decide

lemma printsType_function {form : FunctionForm} {items : List Json}
    {hinside : (Json.arr items).Inside node} {params : List Parameter} {found : Option (Part node)}
    (hnode : IsFunctionType node form) (hgeneric : node.given "typeParameters" = .ok none)
    (hparams : Rules.parametersOf node = .ok (some ⟨.arr items, hinside⟩))
    (hnull : ∀ item ∈ items, item.isNull = false)
    (h : List.Forall₂ (PrintsParameter s) items params) {ms : List Lexeme}
    (hgives : Gives s (match found with
      | some result => (partsOf node).type result
      | none => Render.text "void") ms) (hpadded : TypePadded e.level e ms)
    (hresult : Rules.resultType node = .ok found) :
    PrintsType s node (.function form params e) := by
  obtain ⟨hl, hfits⟩ := level_function form params e
  have hloose : (TypeTree.function form params e).fits .union = false := by
    unfold TypeTree.fits
    rcases hl with hl | hl <;> rw [hl] <;> rfl
  obtain ⟨ls, hgives', hsignature⟩ := gives_functionType hgeneric hparams hnull h hgives
    (hpadded.mono fun _ => .ofFits hfits) hresult
  have hnew := Render.gives_text (s := s) (t := "new ") [.token "new", .gap false] rfl (by simp)
  have hword := Render.gives_text (s := s) (t := "abstract ") [.token "abstract", .gap false] rfl
    (by simp)
  cases hnode with
  | plain hkind =>
      refine printsType_of_padded ?_ (hsignature.mono fun _ => .function hl) hloose
      rw [tree_type "TSFunctionType" hkind rfl]
      exact hgives'
  | @newable isAbstract hkind habstract =>
      have hrule : Gives s (Render.tree .type node)
          ((if isAbstract then [Lexeme.token "abstract", .gap false] else []) ++
            ([Lexeme.token "new", .gap false] ++ ls)) := by
        rw [tree_type "TSConstructorType" hkind rfl, Rules.constructorType]
        exact (Render.gives_textIf habstract hword).andThen (hnew.andThen hgives')
      cases isAbstract with
      | false =>
          exact printsType_of_padded hrule (hsignature.behindGap (Or.inl isWord_new) false
            fun _ _ => .newable hl) hloose
      | true =>
          have hinner : Padded typeAlphabet (fun ts => ∃ c us, ts = ⟨"new", c⟩ :: us ∧
              DerivesSignature (TypeTree.function .abstractNewable params e).level us params e)
              (.token "new" :: .gap false :: ls) :=
            hsignature.behindGap (Or.inl isWord_new) false fun c us hus => ⟨c, us, rfl, hus⟩
          refine printsType_of_padded hrule
            (hinner.behindGap (Or.inl isWord_abstract) false ?_) hloose
          rintro c _ ⟨d, us, rfl, hus⟩
          exact .abstractNewable hl hus

/-! ## All trees -/

variable {Flat : Json → Prop}

/-- The members of a list are printed, and tell what their parent asks, if all smaller trees do. -/
lemma printsType_items {kinds : List String} {l : TypeLevel} {items : List Json}
    {es : List TypeTree} (h : List.Forall₂ (DescribesType Flat) items es)
    (hgroups : groupsAll es = true)
    (hprints : ∀ item ∈ items, ∀ e, DescribesType Flat item e → e.groups = true →
      PrintsType s item e)
    (htells : ∀ item, ∀ e ∈ es, DescribesType Flat item e → Tells kinds l item e) :
    List.Forall₂ (fun item e => PrintsType s item e ∧ Tells kinds l item e) items es := by
  induction h with
  | nil => exact .nil
  | @cons item e items es hitem hitems ih =>
      obtain ⟨hfirst, hrest⟩ := Bool.and_eq_true_iff.mp hgroups
      exact .cons ⟨hprints _ (by simp) _ hitem hfirst, htells _ _ (by simp) hitem⟩
        (ih hrest (fun item hmem => hprints item (by simp [hmem]))
          fun item e hmem => htells item e (by simp [hmem]))

/-- The kinds that are asked about tell what they should. -/
lemma tells_bracket (h : DescribesType Flat node e) : Tells Rules.looseTypes .bracket node e := by
  obtain ⟨kind, hkind, htells⟩ := kind_of_type h
  exact ⟨kind, hkind, htells.bracket⟩

lemma tells_union (h : DescribesType Flat node e) : Tells Rules.functionLike .union node e := by
  obtain ⟨kind, hkind, htells⟩ := kind_of_type h
  exact ⟨kind, hkind, htells.union⟩

lemma tells_intersection (h : DescribesType Flat node e) :
    Tells (Rules.functionLike ++ ["TSUnionType"]) .intersection node e := by
  obtain ⟨kind, hkind, htells⟩ := kind_of_type h
  exact ⟨kind, hkind, htells.intersection⟩

lemma asks_conditional (h : DescribesType Flat node e) :
    ∃ kind, node.kind = .ok (.str kind) ∧ (kind == "TSConditionalType") = e.isConditional := by
  obtain ⟨kind, hkind, htells⟩ := kind_of_type h
  exact ⟨kind, hkind, htells.conditional⟩

/-- The parameters of a function type are printed if all smaller types are. -/
lemma prints_parameters {items : List Json} {params : List Parameter}
    (h : List.Forall₂ (DescribesParameter Flat) items params)
    (hgroups : groupsParameters params = true)
    (hprints : ∀ item ∈ items, ∀ type : Json, sizeOf type < sizeOf item → ∀ e,
      DescribesType Flat type e → e.groups = true → PrintsType s type e) :
    (∀ item ∈ items, item.isNull = false) ∧ List.Forall₂ (PrintsParameter s) items params := by
  induction h with
  | nil => exact ⟨by simp, .nil⟩
  | @cons item p items params hitem hitems ih =>
      obtain ⟨hfirst, hrest⟩ := Bool.and_eq_true_iff.mp hgroups
      obtain ⟨hnull, hall⟩ := ih hrest fun item hmem => hprints item (by simp [hmem])
      refine ⟨by simpa using ⟨hitem.ne_null, hnull⟩, .cons ?_ hall⟩
      cases hitem with
      | bare h ht htype => exact printsParameter_bare h ht htype
      | @typed _ ascribed type hinside _ _ e h ht htype hkind hinner he =>
          have hsize := hinner.sizeOf_lt.trans hinside.sizeOf_lt
          exact printsParameter_typed h ht htype hkind hinner
            (hprints _ (by simp) _ hsize _ he hfirst)

lemma ne_null_of_types {items : List Json} {es : List TypeTree}
    (h : List.Forall₂ (DescribesType Flat) items es) : ∀ item ∈ items, item.isNull = false := by
  induction h with
  | nil => simp
  | cons hitem hitems ih => simpa using ⟨hitem.ne_null, ih⟩

/-- **Every described tree is printed as its type**, if it is grouped as the grammar asks and the
lists before the word `extends` stay on one line. -/
theorem prints_of_type {node : Json} {e : TypeTree} (h : DescribesType (StaysOnLine s) node e)
    (hgroups : e.groups = true) : PrintsType s node e := by
  induction hn : sizeOf node using Nat.strong_induction_on generalizing node e with
  | _ n ih =>
      subst hn
      have hpart {key : String} {value : Json} (hvalue : node.Has key value) {f : TypeTree}
          (hf : DescribesType (StaysOnLine s) value f) (hgroups : f.groups = true) :
          PrintsType s value f :=
        ih _ hvalue.sizeOf_lt hf hgroups rfl
      have hitem {whole : Json} {items : List Json} (hsize : sizeOf whole ≤ sizeOf node)
          (hinside : (Json.arr items).Inside whole) (item : Json) (hmem : item ∈ items) :
          sizeOf item < sizeOf node := by
        have := List.sizeOf_lt_of_mem hmem
        have := hinside.sizeOf_lt
        simp only [Json.arr.sizeOf_spec] at this
        omega
      have hlist {whole : Json} {items : List Json} (hsize : sizeOf whole ≤ sizeOf node)
          (hinside : (Json.arr items).Inside whole) (item : Json) (hmem : item ∈ items)
          (f : TypeTree) (hf : DescribesType (StaysOnLine s) item f) (hgroups : f.groups = true) :
          PrintsType s item f :=
        ih _ (hitem hsize hinside item hmem) hf hgroups rfl
      have hparameters {items : List Json} {params : List Parameter}
          (hinside : (Json.arr items).Inside node)
          (hparams : List.Forall₂ (DescribesParameter (StaysOnLine s)) items params)
          (hgroups : groupsParameters params = true) :=
        prints_parameters hparams hgroups fun item hmem type hsize f hf hgroups =>
          ih _ (hsize.trans (hitem (le_refl _) hinside item hmem)) hf hgroups rfl
      cases h with
      | keyword hnode hkind => exact printsType_keyword hnode hkind
      | reference hnode hname h hpath hargs => exact printsType_reference hnode hname h hpath hargs
      | @generic _ _ list hinside items _ args hnode hname h hpath hlist' hkind hitems hne hargs =>
          refine printsType_generic hnode hname h hpath hlist' hkind hitems hne ?_
          have hall := printsType_items hargs hgroups
            (hlist (le_of_lt hinside.sizeOf_lt) hitems.1) fun _ _ _ => tells_bracket
          exact hall.imp fun _ _ h => h.1
      | array hnode helement h =>
          exact printsType_array hnode helement (tells_bracket h) (hpart helement h hgroups)
      | index hnode hobject hkey h hf =>
          obtain ⟨hfirst, hsecond⟩ := Bool.and_eq_true_iff.mp hgroups
          exact printsType_index hnode hobject hkey (tells_bracket h) (hpart hobject h hfirst)
            (hpart hkey hf hsecond)
      | operator hnode hop hmem hoperand h =>
          obtain ⟨hfits, hgroups⟩ := Bool.and_eq_true_iff.mp hgroups
          exact printsType_operator hnode hop hmem hoperand hfits (hpart hoperand h hgroups)
      | intersection hnode hitems h hmembers =>
          have hall := printsType_items h (by simpa [TypeTree.groups, groupsAll] using hgroups)
            (hlist (le_refl _) hitems.1) fun item f hmem hf =>
              (tells_intersection hf).alike (TypeTree.fits_intersection_eq (hmembers f hmem))
          exact printsType_intersection hnode hitems (ne_null_of_types h) hall
      | union hnode hitems h hmembers =>
          have hall := printsType_items h (by simpa [TypeTree.groups, groupsAll] using hgroups)
            (hlist (le_refl _) hitems.1) fun item f hmem hf =>
              (tells_union hf).alike (TypeTree.fits_union_eq (hmembers f hmem))
          exact printsType_union hnode hitems (ne_null_of_types h) hall
      | conditional hnode hcheck hbound hyes hno hflat h hf hg hk =>
          simp only [TypeTree.groups, Bool.and_eq_true, Bool.or_eq_true] at hgroups
          obtain ⟨hfits, he, hf', hg', hk'⟩ := hgroups
          exact printsType_conditional hnode hcheck hbound hyes hno (tells_union h) hflat
            (asks_conditional hf) hfits (hpart hcheck h he) (hpart hbound hf hf')
            (hpart hyes hg hg') (hpart hno hk hk')
      | @function _ _ _ hinside hinside' _ _ _ hnode hgeneric hparams hresult h he =>
          obtain ⟨hfirst, hsecond⟩ := Bool.and_eq_true_iff.mp hgroups
          obtain ⟨hnull, hall⟩ := hparameters hinside h hfirst
          obtain ⟨ms, hgives, hpadded, -⟩ := ih _ hinside'.sizeOf_lt he hsecond rfl
          refine printsType_function hnode hgeneric hparams hnull hall ?_ hpadded hresult
          exact hgives
      | @procedure _ items hinside form params hnode hgeneric hparams hresult h =>
          obtain ⟨hfirst, -⟩ := Bool.and_eq_true_iff.mp hgroups
          obtain ⟨hnull, hall⟩ := hparameters hinside h hfirst
          have hvoid := Render.gives_text (s := s) (t := "void") [.token "void"] rfl (by simp)
          have hpassage : TypePassage .primary (.keyword "void") [.token "void"] :=
            Passage.word (by decide) fun _ => .keyword (by decide)
          refine printsType_function hnode hgeneric hparams hnull hall ?_ hpassage.padded hresult
          exact hvoid

end Printed

/-- **Printed types are read back.**  Whatever the width, the tree of a type is rendered without a
fault and without a comment left over, if it is grouped as `TypeTree.groups` says and the unions and
intersections before the word `extends` are not broken over several lines; whatever the indentation,
the commands are written as a text; that text consists of tokens; and the tokens derive the type. -/
theorem handle_types (quote : Char) (width : Int) {node : Json} {e : TypeTree}
    (h : DescribesType (StaysOnLine { quote, width }) node e) (hgroups : e.groups = true) :
    ∃ after, ({ setting := { quote, width } } : Rendering).handle .type node = .ok after ∧
      after.draft.queue = [] ∧
      ∀ indent, BlankIndent indent → indent ≠ "" →
        ∃ code marks, linearize after.draft.commands indent = .ok (code, marks) ∧
          ∃ tokens, scan typeAlphabet.toVocabulary false code.toList = some tokens ∧
            DerivesType .type tokens e := by
  obtain ⟨ls, hgives, hpadded, -⟩ := prints_of_type h hgroups
  exact handle_of_content hgives (hpadded.mono fun _ => .ofFits e.fits_type).content

/-! ## A conditional type with a broken union, and three that are not read back -/

/-- The tree of a type that is a single word. -/
def wordNode (kind : String) : Json := .obj [("type", .str kind)]

/-- The tree of a list of types. -/
def listNode (kind : String) (types : List Json) : Json :=
  .obj [("type", .str kind), ("types", .arr types)]

/-- The tree of a conditional type. -/
def conditionalNode (check bound yes no : Json) : Json :=
  .obj [("type", .str "TSConditionalType"), ("checkType", check), ("extendsType", bound),
    ("trueType", yes), ("falseType", no)]

/-- The tree of a type behind an operator. -/
def operatorNode (op : String) (operand : Json) : Json :=
  .obj [("type", .str "TSTypeOperator"), ("operator", .str op), ("typeAnnotation", operand)]

/-- The tree of a function type without parameters. -/
def functionNode (result : Json) : Json :=
  .obj [("type", .str "TSFunctionType"), ("params", .arr []),
    ("returnType", .obj [("type", .str "TSTypeAnnotation"), ("typeAnnotation", result)])]

/-- The tree of `(keyof any)[] extends any | void ? () => any : void`. -/
def arrayOfKeys : Json :=
  conditionalNode
    (.obj [("type", .str "TSArrayType"),
      ("elementType", operatorNode "keyof" (wordNode "TSAnyKeyword"))])
    (listNode "TSUnionType" [wordNode "TSAnyKeyword", wordNode "TSVoidKeyword"])
    (functionNode (wordNode "TSAnyKeyword")) (wordNode "TSVoidKeyword")

theorem handle_types_arrayOfKeys :
    ∃ e, DescribesType (StaysOnLine { quote := '"', width := 0 }) arrayOfKeys e ∧
      e = .conditional (.array (.operator "keyof" (.keyword "any")))
        (.union (.keyword "any") (.keyword "void") [])
        (.function .plain [] (.keyword "any")) (.keyword "void") ∧ e.groups = true ∧
      ∃ after, ({ setting := { quote := '"', width := 0 } } : Rendering).handle .type arrayOfKeys
          = .ok after ∧
        ∃ code marks, linearize after.draft.commands "\t" = .ok (code, marks) ∧
          ∃ tokens, scan typeAlphabet.toVocabulary false code.toList = some tokens ∧
            DerivesType .type tokens e := by
  have hany {Flat : Json → Prop} :
      DescribesType Flat (wordNode "TSAnyKeyword") (.keyword "any") := .keyword rfl (by decide)
  have hvoid {Flat : Json → Prop} :
      DescribesType Flat (wordNode "TSVoidKeyword") (.keyword "void") := .keyword rfl (by decide)
  have h : DescribesType (StaysOnLine { quote := '"', width := 0 }) arrayOfKeys _ :=
    .conditional rfl ⟨_, rfl⟩ ⟨_, rfl⟩ ⟨_, rfl⟩ ⟨_, rfl⟩ (fun hlist => absurd hlist (by decide))
      (.array rfl ⟨_, rfl⟩ (.operator rfl ⟨_, rfl⟩ (by decide) ⟨_, rfl⟩ hany))
      (.union rfl ⟨_, rfl⟩ (.cons hany (.cons hvoid .nil)) (by simp [TypeTree.level]))
      (.function (.plain rfl) rfl rfl rfl .nil hany) hvoid
  obtain ⟨after, hafter, -, hcode⟩ := handle_types '"' 0 h (by decide)
  refine ⟨_, h, rfl, by decide, after, hafter, hcode "\t" ?_ (by decide)⟩
  simp [BlankIndent, isBlank]

/-- The tree of `type T = ...;`. -/
def aliasNode (type : Json) : Json :=
  .obj [("type", .str "TSTypeAliasDeclaration"), ("id", nameNode "T"), ("typeAnnotation", type)]

/-- An operator does not ask about its operand: without parentheses it goes with `any` alone. -/
theorem operator_misses_union :
    (printTree {} (aliasNode (operatorNode "keyof"
        (listNode "TSUnionType" [wordNode "TSAnyKeyword", wordNode "TSVoidKeyword"])))).toOption.map
      Output.code = some "type T = keyof any | void;" := by
  decide +kernel

/-- A function type behind the word `extends` stays without parentheses, so that there the
conditional type that is its result would have to be one where none can be. -/
theorem bound_misses_result :
    (printTree {} (aliasNode (conditionalNode (wordNode "TSAnyKeyword")
        (functionNode (conditionalNode (wordNode "TSVoidKeyword") (wordNode "TSAnyKeyword")
          (wordNode "TSAnyKeyword") (wordNode "TSVoidKeyword")))
        (wordNode "TSAnyKeyword") (wordNode "TSVoidKeyword")))).toOption.map Output.code =
      some "type T = any extends () => void extends any ? any : void ? any : void;" := by
  decide +kernel

/-- A union that is broken ends its line, so that the word `extends` stands on a new one, where it
does not go on with the type. -/
theorem check_leaves_line :
    ((({ setting := { quote := '"', width := 0 } } : Rendering).handle .type (conditionalNode
        (listNode "TSUnionType" [wordNode "TSAnyKeyword", wordNode "TSVoidKeyword"])
        (wordNode "TSAnyKeyword") (wordNode "TSAnyKeyword")
        (wordNode "TSVoidKeyword"))).toOption.bind fun after =>
      (linearize after.draft.commands "\t").toOption.map Prod.fst) =
      some "\n\tany |\n\tvoid\n extends any ? any : void" := by
  decide +kernel

end Grammar

end EstreePrinter
