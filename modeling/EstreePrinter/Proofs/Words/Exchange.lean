import Mathlib
import EstreePrinter.Proofs.Words.Statement

/-!
# The rules for imports and exports say the words of their nodes

A name that keeps its name on the way in or out is said once.  The names that an import brings in
are sorted by their kinds before they are said; in a coherent tree they are sorted already
(`Rules.inOrder_of_isSorted`).
-/

namespace EstreePrinter

open Json (Part)
open Render (Says says_text says_textIf says_pure says_chunk wordsOf)

namespace Rules

variable {node : Json} {inner : Inner node} {quote : Char} {kind : String} {form : Form}

lemma says_importAttributes (h : inner.Speaks quote) (hform : node.Conforms form)
    (hneed : form.lookup "attributes" = some ⟨.list false (.node ["ImportAttribute"]), true⟩)
    (hneed' : form.lookup "assertions" = some ⟨.list false (.node ["ImportAttribute"]), true⟩)
    (hone : (!(node.has "attributes" && node.has "assertions")) = true) :
    Says quote (node.wordsUnder quote ["attributes", "assertions"]) (importAttributes inner) := by
  refine hform.says_givenOr _ _ hneed hneed' hone (says_pure _) fun key list hfield hlist => ?_
  exact (says_text _).skip fun _ => (h.list true hfield hlist).ending (says_text _)

/-- Where something comes from, if it is told. -/
lemma says_origin {ws vs : List Word} (hsource : Says quote ws (inner.field "source"))
    (hattributes : Says quote vs (importAttributes inner)) :
    Says quote (ws ++ vs) (origin inner) :=
  (says_text _).skip fun _ => hsource.andThen hattributes

lemma speaks_importAttribute : SpeaksOn quote "ImportAttribute" importAttribute :=
  fun _ _ hnode _ _ h => by
    have hkeys : Estree.nodeKeys "ImportAttribute" = ["key", "value"] := rfl
    rw [hnode.words_eq (by decide), hkeys]
    exact says_twoFields h (hnode.conforms rfl) _ _ _ rfl rfl

lemma says_typeWord (node : Json) (key : String) : Says quote [] (typeWord node key) :=
  .read fun _ => .ite (says_text _) (says_pure _)

/-! ## Names in braces -/

/-- Two names are told apart by the texts they have. -/
lemma sameNames_eq {key other : String} {first second : Part node}
    (hfirst : node.require key = .ok first) (hsecond : node.require other = .ok second)
    {name name' : Json} (hname : first.1.nameOf = .ok name) (hname' : second.1.nameOf = .ok name') :
    node.sameNames key other = name.same name' := by
  simp [Json.sameNames, hfirst, hsecond, hname, hname', Json.holds]

lemma says_importSpecifier (hnode : node.IsPiece "ImportSpecifier") (h : inner.Speaks quote) :
    Says quote (node.words quote) (importSpecifier inner) := by
  have hform := hnode.conforms rfl
  obtain ⟨imported, himported, hfits⟩ := hform.require "imported" rfl
  obtain ⟨localPart, hlocal, hfits'⟩ := hform.require "local" rfl
  have houtside := h.partAt (Json.field?_of_require himported) hfits
  have hinside := h.partAt (Json.field?_of_require hlocal) hfits'
  refine (says_typeWord _ _).skip fun _ => .known himported (.known hlocal ?_)
  refine .readOf fun name hname => .readOf fun name' hname' => ?_
  have hsame := sameNames_eq himported hlocal hname hname'
  have hwords : node.words quote =
      if name.same name' then node.wordsAt quote "local"
      else node.wordsAt quote "imported" ++ node.wordsAt quote "local" := by
    rw [Json.words_eq, hnode.ownWords_eq (by decide), List.nil_append]
    cases hcase : name.same name' <;>
      simp [Json.spoken, hnode.kindName, hsame, hcase, Json.wordsAt]
  rw [hwords]
  cases name.same name' with
  | false => exact houtside.andThen ((says_text _).skip fun _ => hinside)
  | true => exact hinside

lemma says_exportSpecifier (hnode : node.IsPiece "ExportSpecifier") (h : inner.Speaks quote) :
    Says quote (node.words quote) (exportSpecifier inner) := by
  have hform := hnode.conforms rfl
  obtain ⟨localPart, hlocal, hfits⟩ := hform.require "local" rfl
  obtain ⟨exported, hexported, hfits'⟩ := hform.require "exported" rfl
  have hinside := h.partAt (Json.field?_of_require hlocal) hfits
  have houtside := h.partAt (Json.field?_of_require hexported) hfits'
  obtain ⟨name, hname⟩ : ∃ name, localPart.1.nameOf = .ok name := by
    obtain ⟨kind, -, hkind⟩ := Json.isA_of_fits hfits
    exact exists_nameOf hkind
  obtain ⟨name', hname'⟩ : ∃ name, exported.1.nameOf = .ok name := by
    obtain ⟨kind, -, hkind⟩ := Json.isA_of_fits hfits'
    exact exists_nameOf hkind
  have hsame := sameNames_eq hlocal hexported hname hname'
  have hwords : node.words quote = node.wordsAt quote "local" ++
      if name.same name' then [] else node.wordsAt quote "exported" := by
    rw [Json.words_eq, hnode.ownWords_eq (by decide), List.nil_append]
    cases hcase : name.same name' <;>
      simp [Json.spoken, hnode.kindName, hsame, hcase, Json.wordsAt]
  rw [hwords]
  refine (says_typeWord _ _).skip fun _ => .known hlocal (.known hexported ?_)
  refine hinside.andThen (.known hname (.known hname' ?_))
  cases name.same name' with
  | false => exact (says_text _).skip fun _ => houtside
  | true => exact says_pure _

/-! ## Imports -/

/-- The names that an import brings in, in the order in which they are written. -/
def Imported.inOrder (found : Imported node) : List (Part node) :=
  found.byDefault.toList ++ found.everything.toList ++ found.named

/-- A name may stand behind the names that have been found already. -/
def Imported.LeavesRoomFor (found : Imported node) (specifier : Json) : Prop :=
  (specifier.specifierRank = 0 → found.inOrder = []) ∧
    (specifier.specifierRank = 1 → found.everything = none ∧ found.named = [])

/-- **Sorted names stay in their order.** -/
lemma inOrder_of_isSorted {specifiers : List (Part node)} (hall : ∀ part ∈ specifiers,
      ∃ kind ∈ ["ImportSpecifier", "ImportDefaultSpecifier", "ImportNamespaceSpecifier"],
        part.1.IsPiece kind)
    (hsorted : (specifiers.map fun part => part.1.specifierRank).Pairwise fun a b => a < b ∨ b = 2)
    {found result : Imported node} (hroom : ∀ part ∈ specifiers, found.LeavesRoomFor part.1)
    (h : Imported.ofSpecifiers found specifiers = .ok result) :
    result.inOrder = found.inOrder ++ specifiers := by
  induction specifiers generalizing found with
  | nil =>
      obtain rfl := Except.ok.inj h
      simp
  | cons specifier rest ih =>
      obtain ⟨kind, hmem, hkind⟩ := hall specifier (by simp)
      obtain ⟨hbehind, hrest⟩ := List.pairwise_cons.mp hsorted
      have hnext {next : Imported node} (hnext : Imported.ofSpecifiers next rest = .ok result)
          (horder : next.inOrder = found.inOrder ++ [specifier])
          (hroom : ∀ part ∈ rest, next.LeavesRoomFor part.1) :
          result.inOrder = found.inOrder ++ (specifier :: rest) := by
        rw [ih (fun part hpart => hall part (by simp [hpart])) hrest hroom hnext, horder,
          List.append_assoc]
        rfl
      have hroom' := hroom specifier (by simp)
      have hrank {part : Part node} (hpart : part ∈ rest) :
          specifier.1.specifierRank < part.1.specifierRank ∨ part.1.specifierRank = 2 :=
        hbehind _ (List.mem_map_of_mem hpart)
      rw [Imported.ofSpecifiers, hkind.requireKind_eq, ok_bind] at h
      simp only [List.mem_cons, List.not_mem_nil, or_false] at hmem
      rcases hmem with rfl | rfl | rfl
      · -- a name in braces
        have hself : specifier.1.specifierRank = 2 := by simp [Json.specifierRank, hkind.kindName]
        refine hnext h (by simp [Imported.inOrder]) fun part hpart => ?_
        have := hrank hpart
        exact ⟨fun _ => by omega, fun _ => by omega⟩
      · -- the default
        have hself : specifier.1.specifierRank = 0 := by simp [Json.specifierRank, hkind.kindName]
        have hnone := hroom'.1 hself
        simp only [Imported.inOrder, List.append_eq_nil_iff, Option.toList_eq_nil_iff] at hnone
        refine hnext h (by simp [Imported.inOrder, hnone]) fun part hpart => ?_
        have := hrank hpart
        exact ⟨fun _ => by omega, fun _ => ⟨hnone.1.2, hnone.2⟩⟩
      · -- everything
        have hself : specifier.1.specifierRank = 1 := by simp [Json.specifierRank, hkind.kindName]
        obtain ⟨heverything, hnamed⟩ := hroom'.2 hself
        refine hnext h (by simp [Imported.inOrder, heverything, hnamed]) fun part hpart => ?_
        have := hrank hpart
        exact ⟨fun _ => by omega, fun _ => by omega⟩

/-- The word of a name under `local`. -/
lemma words_localName {specifier : Json} (hnode : specifier.IsPiece "ImportDefaultSpecifier")
    {s : String} (hs : localName specifier = .ok (.str s)) : specifier.words quote = [.leaf s] := by
  have hkeys : Estree.nodeKeys "ImportDefaultSpecifier" = ["local"] := rfl
  have hkeys' : Estree.nodeKeys "Identifier" = [] := rfl
  obtain ⟨part, hpart, kind, hmem, hkind⟩ := (hnode.conforms rfl).requireNode "local" rfl
  obtain rfl : kind = "Identifier" := List.mem_singleton.mp hmem
  obtain ⟨name, hname, -⟩ := (hkind.conforms rfl).require "name" rfl
  have hvalue : name.1 = .str s := by simpa [localName, hpart, hname] using hs
  rw [hnode.words_eq (by decide), hkeys, Json.wordsUnder_cons, Json.wordsUnder_nil, List.append_nil,
    Json.wordsAt_of_isObject (Json.field?_of_require hpart) hkind.isObject,
    hkind.words_own (by decide), Json.ownWords, hkind.kindName, hkeys']
  simp [Json.getValue_of_field? (Json.field?_of_require hname), hvalue, Json.textOf]

lemma words_everything {specifier : Json} (hnode : specifier.IsPiece "ImportNamespaceSpecifier")
    {s : String} (hs : localName specifier = .ok (.str s)) :
    specifier.words quote = [.everything s] := by
  rw [Json.words_eq, Json.ownWords, Json.spoken, hnode.kindName]
  simp [hs, Json.textOf]

lemma says_importedNames (h : inner.Speaks quote) {found : Imported node}
    (hfound : found.IsSorted) :
    Says quote (wordsOf quote found.inOrder) (importedNames inner found) := by
  obtain ⟨byDefault, everything, named⟩ := found
  have hnamed : Says quote (wordsOf quote named) (if !named.isEmpty then do
      Render.text "\x7b"
      Render.sequence true "," (fun specifier => importSpecifier (inner.under specifier))
        (named.map some)
      Render.text "\x7d"
      else pure ()) := by
    have hitems : ∀ specifier, some specifier ∈ named.map some →
        Says quote (specifier.1.words quote) (importSpecifier (inner.under specifier)) :=
      fun specifier hmem => says_importSpecifier (hfound.named specifier (by simpa using hmem))
        (h.under specifier)
    split
    · refine ((says_text _).skip fun _ => (Render.says_sequence true "," hitems).ending
        (says_text _)).of_eq ?_
      rw [List.flatMap_map]
      rfl
    · rename_i hempty
      obtain rfl : named = [] := by simpa using hempty
      exact says_pure _
  have heverything : Says quote (wordsOf quote (everything.toList ++ named))
      (importedNames inner ⟨none, everything, named⟩) := by
    cases everything with
    | none => exact hnamed
    | some specifier =>
        have hspecifier := hfound.everything specifier rfl
        obtain ⟨s, hs⟩ := exists_localName hspecifier rfl rfl
        have htext : (Json.str s).text = .ok s := rfl
        have hchunk : Says quote [.everything s] (Render.chunk (.str ("* as " ++ s)) specifier.1) :=
          says_chunk rfl
        exact Says.of_eq (.known hs <| .known htext <| hchunk.andThen hnamed)
          (by simp [words_everything hspecifier hs])
  cases byDefault with
  | none => exact heverything
  | some specifier =>
      have hspecifier := hfound.byDefault specifier rfl
      obtain ⟨s, hs⟩ := exists_localName hspecifier rfl rfl
      have hchunk : Says quote [.leaf s] (Render.chunk (.str s) specifier.1) := says_chunk rfl
      exact Says.of_eq (.known hs <| hchunk.andThen <| .optional (says_text _) fun _ => heverything)
        (by simp [Imported.inOrder, words_localName hspecifier hs])

lemma speaks_importRule : SpeaksOn quote "ImportDeclaration" importRule :=
  fun node inner hnode _ hcoherent h => by
    have hform := hnode.conforms rfl
    have hkeys : Estree.nodeKeys "ImportDeclaration" =
        ["specifiers", "source", "attributes", "assertions"] := rfl
    have hself := hcoherent.self hnode.isObject
    rw [Json.isCoherent, hnode.kindName] at hself
    obtain ⟨hsorted, hone⟩ := Bool.and_eq_true_iff.mp hself
    have hsource := h.field hform "source" rfl
    have hattributes := says_importAttributes h hform rfl rfl hone
    rw [hnode.words_eq (by decide), hkeys, Json.wordsUnder_cons, Json.wordsUnder_cons]
    refine (says_text _).skip fun _ => (says_typeWord _ _).skip fun _ => ?_
    refine hform.says_given "specifiers" rfl
      (hsource.andThen (hattributes.ending (says_text _))) fun specifiers hfield hfits => ?_
    obtain ⟨parts, hparts, hall⟩ := Json.parts_of_fits hfits
    obtain ⟨items, hitems, -⟩ := Json.list_of_fits hfits
    have hpieces : ∀ part ∈ parts,
        ∃ kind ∈ ["ImportSpecifier", "ImportDefaultSpecifier", "ImportNamespaceSpecifier"],
          part.1.IsPiece kind := fun part hpart =>
      Json.isPiece_of_fits ((hall part hpart).resolve_left (by simp))
    obtain ⟨names, hnames, hkinds⟩ := exists_ofSpecifiers hpieces {} ⟨by simp, by simp, by simp⟩
    have horder : names.inOrder = parts := by
      rw [Json.held_of_parts hfield ⟨items, hitems⟩ hparts, Json.isSorted, List.map_map] at hsorted
      refine (inOrder_of_isSorted hpieces (of_decide_eq_true hsorted) (fun part _ => ?_) hnames).trans
        (by simp [Imported.inOrder])
      exact ⟨fun _ => rfl, fun _ => ⟨rfl, rfl⟩⟩
    rw [Json.wordsAt_of_parts quote hfield ⟨items, hitems⟩ hparts, ← horder]
    refine .known hparts (.known hnames ((says_importedNames h hkinds).andThen ?_))
    exact (says_origin hsource hattributes).ending (says_text _)

/-! ## Exports -/

lemma says_exportedNames (hnode : node.IsA "ExportNamedDeclaration") (h : inner.Speaks quote)
    (hone : (!(node.has "attributes" && node.has "assertions")) = true)
    (hplain : (node.has "source" || !(node.has "attributes" || node.has "assertions")) = true) :
    Says quote (node.wordsUnder quote ["specifiers", "source", "attributes", "assertions"])
      (exportedNames inner) := by
  have hform := hnode.conforms rfl
  have hsource : node.flag "source" = .ok (node.has "source") := by
    rw [Json.flag, Json.getValue, Json.get_eq hform.isObject, ok_bind, Json.has]
    cases node.field? "source" with
    | none => rfl
    | some part => rfl
  have hrest : Says quote (node.wordsUnder quote ["source", "attributes", "assertions"]) (do
      Render.text "\x7d"
      if ← node.flag "source" then origin inner
      Render.text ";") := by
    refine (says_text _).skip fun _ => .known hsource ?_
    cases hgiven : node.has "source" with
    | false =>
        obtain ⟨hattributes, hassertions⟩ :
            node.has "attributes" = false ∧ node.has "assertions" = false := by
          simpa [hgiven] using hplain
        simp only [Json.wordsUnder_cons, Json.wordsUnder_nil, Json.wordsAt_of_not_has hgiven,
          Json.wordsAt_of_not_has hattributes, Json.wordsAt_of_not_has hassertions,
          List.append_nil]
        exact says_text _
    | true =>
        obtain ⟨source, hread, hfits⟩ :=
          hform.require_of_flag "source" rfl (hsource.trans (by rw [hgiven]))
        have hfield : Says quote (node.wordsAt quote "source") (inner.field "source") :=
          .known hread (h.partAt (Json.field?_of_require hread) hfits)
        rw [Json.wordsUnder_cons]
        exact (says_origin hfield (says_importAttributes h hform rfl rfl hone)).ending (says_text _)
  rw [Json.wordsUnder_cons]
  refine (says_typeWord _ _).skip fun _ => (says_text _).skip fun _ => ?_
  refine hform.says_given "specifiers" rfl hrest fun specifiers hfield hfits => ?_
  obtain ⟨items, hitems, hall, hwords⟩ := Inner.Speaks.exists_items quote hfield hfits
  rw [← hwords]
  refine .known hitems <| (Render.says_sequence true "," fun part hpart => ?_).andThen hrest
  obtain ⟨kind, hmem, hkind⟩ := Json.isPiece_of_fits (hall part hpart)
  obtain rfl : kind = "ExportSpecifier" := List.mem_singleton.mp hmem
  exact says_exportSpecifier hkind (h.under part)

lemma speaks_exportNamed : SpeaksOn quote "ExportNamedDeclaration" exportNamed :=
  fun node inner hnode _ hcoherent h => by
    have hkeys : Estree.nodeKeys "ExportNamedDeclaration" =
        ["declaration", "specifiers", "source", "attributes", "assertions"] := rfl
    have hself := hcoherent.self hnode.isObject
    rw [Json.isCoherent, hnode.kindName] at hself
    simp only [Bool.and_eq_true] at hself
    obtain ⟨⟨halone, hplain⟩, hone⟩ := hself
    rw [hnode.words_eq (by decide), hkeys, Json.wordsUnder_cons]
    refine (says_text _).skip fun _ => (hnode.conforms rfl).says_given "declaration" rfl
      (says_exportedNames hnode h hone hplain) fun declaration hfield hfits => ?_
    -- an export of a declaration has no names and no source
    obtain ⟨kind', -, hkind'⟩ := Json.isA_of_fits hfits
    have hgiven : node.has "declaration" = true := by
      rw [Json.has, hfield]
      exact hkind'.isGiven_self
    obtain ⟨hspecifiers, hsource⟩ : node.has "specifiers" = false ∧ node.has "source" = false := by
      simpa [hgiven] using halone
    obtain ⟨hattributes, hassertions⟩ :
        node.has "attributes" = false ∧ node.has "assertions" = false := by
      simpa [hsource] using hplain
    refine (h.partAt hfield hfits).of_eq ?_
    simp [Json.wordsAt_of_not_has hspecifiers, Json.wordsAt_of_not_has hsource,
      Json.wordsAt_of_not_has hattributes, Json.wordsAt_of_not_has hassertions]

lemma speaks_exportDefault : SpeaksOn quote "ExportDefaultDeclaration" exportDefault := by
  intro node inner hnode _ _ h
  have hkeys : Estree.nodeKeys "ExportDefaultDeclaration" = ["declaration"] := rfl
  rw [hnode.words_eq (by decide), hkeys, Json.wordsUnder_cons, Json.wordsUnder_nil, List.append_nil]
  refine (hnode.conforms rfl).says_require "declaration" rfl fun part hfield hpart => ?_
  refine (says_text _).skip fun _ => .read fun wrap => ?_
  refine (Inner.Speaks.wrapped (h.partAt hfield hpart) wrap).ending ?_
  exact .read fun kind => .read fun bare => .ite (says_text _) (says_pure _)

lemma speaks_exportAll : SpeaksOn quote "ExportAllDeclaration" exportAll := by
  intro node inner hnode _ hcoherent h
  have hform := hnode.conforms rfl
  have hkeys : Estree.nodeKeys "ExportAllDeclaration" =
      ["exported", "source", "attributes", "assertions"] := rfl
  have hone := hcoherent.self hnode.isObject
  rw [Json.isCoherent, hnode.kindName] at hone
  have horigin := says_origin (h.field hform "source" rfl)
    (says_importAttributes h hform rfl rfl hone)
  rw [hnode.words_eq (by decide), hkeys, Json.wordsUnder_cons, Json.wordsUnder_cons]
  refine (says_text _).skip fun _ => ?_
  refine (says_typeWord _ _).skip fun _ => ?_
  refine (says_text _).skip fun _ => ?_
  exact h.valueAfterThen hform " as " "exported" rfl (horigin.ending (says_text _))

end Rules

end EstreePrinter
