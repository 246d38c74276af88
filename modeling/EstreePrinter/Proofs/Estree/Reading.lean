import Mathlib
import EstreePrinter.Proofs.Estree.Form
import EstreePrinter.Proofs.Linearizer.Success

/-!
# Reading well-formed trees

A well-formed node has what its form says (`Json.Conforms`), so reading its fields gives values of
the right shapes and never fails.  One lemma for each way of reading a field; which fields a kind
has is looked up in the table.
-/

namespace EstreePrinter

open Json (Part)

namespace Json

/-! ## What the check says -/

lemma field?_eq_some {node : Json} {key : String} {part : Part node}
    (h : node.field? key = some part) : ∃ fields, node = .obj fields ∧ (key, part.1) ∈ fields := by
  cases node with
  | obj fields =>
      obtain ⟨found, -, rfl⟩ := Option.map_eq_some_iff.mp h
      exact ⟨fields, rfl, found.2⟩
  | _ => cases h

lemma isSome_lookup {key : String} {fields : List (String × Json)}
    (h : fields.any (fun field => field.1 == key) = true) : (lookup key fields).isSome := by
  induction fields with
  | nil => cases h
  | cons field rest ih =>
      obtain ⟨k, v⟩ := field
      simp only [lookup]
      split
      · rfl
      · rename_i hk
        simp only [List.any_cons, Bool.or_eq_true, beq_iff_eq, hk, false_or] at h
        simpa using ih h

lemma allMeet_iff {need : Need} {items : List Json} :
    allMeet need items = true ↔
      ∀ v ∈ items, (need.isOptional = true ∧ v.isNull = true) ∨ fits need.shape v = true := by
  induction items with
  | nil => simp [allMeet]
  | cons v rest ih => simp [allMeet, ih]

lemma meets_of_fieldsMeet {form : Form} {fields : List (String × Json)}
    (h : fieldsMeet form fields = true) {key : String} {v : Json} (hmem : (key, v) ∈ fields)
    {need : Need} (hneed : form.lookup key = some need) :
    (need.isOptional = true ∧ v.isNull = true) ∨ fits need.shape v = true := by
  induction fields with
  | nil => cases hmem
  | cons field rest ih =>
      obtain ⟨k, w⟩ := field
      simp only [fieldsMeet, Bool.and_eq_true] at h
      rcases List.mem_cons.mp hmem with heq | hmem
      · obtain ⟨rfl, rfl⟩ := Prod.mk.inj heq
        simpa [hneed] using h.1
      · exact ih h.2 hmem

/-- **A node with the fields that a form asks for.** -/
structure Conforms (node : Json) (form : Form) : Prop where
  isObject : node.isObject = true
  /-- A field that is there is what is asked for. -/
  meets : ∀ {key : String} {need : Need}, form.lookup key = some need →
    ∀ {part : Part node}, node.field? key = some part →
      (need.isOptional = true ∧ part.1.isNull = true) ∨ part.1.fits need.shape = true
  /-- A field that is not there is not asked for. -/
  complete : ∀ {key : String} {need : Need}, form.lookup key = some need →
    node.field? key = none → need.isOptional = true

lemma conforms_of_meet {form : Form} {fields : List (String × Json)}
    (hcomplete : form.isComplete fields = true) (hmeet : fieldsMeet form fields = true) :
    (Json.obj fields).Conforms form where
  isObject := rfl
  meets hneed part hpart := by
    obtain ⟨_, hobj, hmem⟩ := field?_eq_some hpart
    cases hobj
    exact meets_of_fieldsMeet hmeet hmem hneed
  complete {key need} hneed hnone := by
    obtain ⟨before, behind, rfl, -⟩ := List.lookup_eq_some_iff.mp hneed
    have hentry := List.all_eq_true.mp hcomplete (key, need) (by simp)
    rcases Bool.or_eq_true_iff.mp hentry with hoptional | hany
    · exact hoptional
    · obtain ⟨found, hfound⟩ := Option.isSome_iff_exists.mp (isSome_lookup hany)
      simp [field?, hfound] at hnone

/-- A value whose shape asks for a form has that form. -/
lemma conforms_of_fits {shape : Shape} {v : Json} (h : v.fits shape = true)
    (hitem : shape.item? = none) (hadmits : ∀ w, shape.admits w = false) :
    ∃ form, shape.form? v = some form ∧ v.Conforms form := by
  cases v with
  | obj fields =>
      rw [fits] at h
      cases hform : shape.form? (.obj fields) with
      | some form =>
          simp only [hform, Bool.and_eq_true] at h
          exact ⟨form, rfl, conforms_of_meet h.1.1 h.1.2⟩
      | none => simp [hform, hadmits] at h
  | arr items => simp [fits, hitem, hadmits] at h
  | _ => simp [fits, hadmits] at h

/-- A node of a kind in a table of forms, with the fields of that kind. -/
structure IsOf (table : List (String × Form)) (node : Json) (kind : String) : Prop where
  kindName : node.kindName? = some kind
  form : ∃ form, table.lookup kind = some form ∧ node.Conforms (Estree.common ++ form)

/-- A node of a kind. -/
abbrev IsA : Json → String → Prop := IsOf Estree.forms

/-- A node of a kind that is written together with the node around it. -/
abbrev IsPiece : Json → String → Prop := IsOf Estree.pieces

lemma isOf_of_formIn {table : List (String × Form)} {kinds : List String} {v : Json} {form : Form}
    (hform : Shape.formIn table kinds v = some form) (h : v.Conforms form) :
    ∃ kind ∈ kinds, v.IsOf table kind := by
  unfold Shape.formIn at hform
  cases hkind : v.kindName? with
  | none => simp [hkind] at hform
  | some kind =>
      simp only [hkind] at hform
      split_ifs at hform with hmem
      obtain ⟨own, hown, rfl⟩ := Option.map_eq_some_iff.mp hform
      exact ⟨kind, by simpa using hmem, hkind, own, hown, h⟩

lemma isA_of_fits {kinds : List String} {v : Json} (h : v.fits (.node kinds) = true) :
    ∃ kind ∈ kinds, v.IsA kind := by
  obtain ⟨form, hform, hconforms⟩ := conforms_of_fits h rfl fun _ => rfl
  exact isOf_of_formIn hform hconforms

lemma isPiece_of_fits {kinds : List String} {v : Json} (h : v.fits (.piece kinds) = true) :
    ∃ kind ∈ kinds, v.IsPiece kind := by
  obtain ⟨form, hform, hconforms⟩ := conforms_of_fits h rfl fun _ => rfl
  exact isOf_of_formIn hform hconforms

lemma conforms_of_record (name : String) {form : Form}
    (hform : Estree.pieces.lookup name = some form) {v : Json}
    (h : v.fits (.record name) = true) : v.Conforms form := by
  obtain ⟨found, hfound, hconforms⟩ := conforms_of_fits h rfl fun _ => rfl
  obtain rfl : form = found := Option.some.inj (hform.symm.trans hfound)
  exact hconforms

/-- The form of a node is the one its kind has in the table. -/
lemma IsOf.conforms {table : List (String × Form)} {node : Json} {kind : String}
    (h : node.IsOf table kind) {form : Form} (hform : table.lookup kind = some form) :
    node.Conforms (Estree.common ++ form) := by
  obtain ⟨found, hfound, hconforms⟩ := h.form
  obtain rfl : form = found := Option.some.inj (hform.symm.trans hfound)
  exact hconforms

lemma IsOf.isObject {table : List (String × Form)} {node : Json} {kind : String}
    (h : node.IsOf table kind) : node.isObject = true := by
  obtain ⟨form, -, hconforms⟩ := h.form
  exact hconforms.isObject

/-- The field with the name of the kind. -/
lemma IsOf.field?_type {table : List (String × Form)} {node : Json} {kind : String}
    (h : node.IsOf table kind) : ∃ hinside, node.field? "type" = some ⟨.str kind, hinside⟩ := by
  have hname := h.kindName
  unfold kindName? at hname
  split at hname
  · rename_i found hinside hfield
    obtain rfl : found = kind := Option.some.inj hname
    exact ⟨hinside, hfield⟩
  · cases hname

lemma IsOf.kind_eq {table : List (String × Form)} {node : Json} {kind : String}
    (h : node.IsOf table kind) : node.kind = .ok (.str kind) := by
  obtain ⟨hinside, hfield⟩ := h.field?_type
  simp [Json.kind, getValue, get, h.isObject, hfield]

lemma IsOf.requireKind_eq {table : List (String × Form)} {node : Json} {kind : String}
    (h : node.IsOf table kind) : node.requireKind = .ok (.str kind) := by
  obtain ⟨hinside, hfield⟩ := h.field?_type
  simp [requireKind, require, h.isObject, hfield]

/-- No kind has an empty name. -/
lemma IsOf.isGiven_kind {node : Json} {kind : String} (h : node.IsA kind) :
    (Json.str kind).isGiven = true := by
  obtain ⟨form, hform, -⟩ := h.form
  have hempty : kind ≠ "" := by
    rintro rfl
    cases hform
  simpa [isGiven] using hempty

/-! ## Texts, words and lists -/

lemma text_of_fits {v : Json} (h : v.fits .text = true) : ∃ s, v = .str s := by
  cases v with
  | str s => exact ⟨s, rfl⟩
  | _ => simp [fits, Shape.admits, Shape.item?, Shape.form?] at h

lemma whole_of_fits {v : Json} (h : v.fits .whole = true) : ∃ n, v = .int n := by
  cases v with
  | int n => exact ⟨n, rfl⟩
  | _ => simp [fits, Shape.admits, Shape.item?, Shape.form?] at h

lemma word_of_fits {options : List String} {v : Json} (h : v.fits (.word options) = true) :
    ∃ s ∈ options, v = .str s := by
  cases v with
  | str s => exact ⟨s, by simpa [fits, Shape.admits, isOneOf] using h, rfl⟩
  | _ => simp [fits, Shape.admits, Shape.item?, Shape.form?, isOneOf] at h

lemma not_isGiven_of_fits {v : Json} (h : v.fits .unused = true) : v.isGiven = false := by
  cases v <;> simpa [fits, Shape.admits, Shape.item?, Shape.form?] using h

lemma list_of_fits {holes : Bool} {item : Shape} {v : Json} (h : v.fits (.list holes item) = true) :
    ∃ items, v = .arr items ∧
      ∀ w ∈ items, (holes = true ∧ w.isNull = true) ∨ w.fits item = true := by
  cases v with
  | arr items =>
      simp only [fits, Shape.item?] at h
      exact ⟨items, rfl, allMeet_iff.mp h⟩
  | _ => simp [fits, Shape.admits, Shape.form?] at h

/-- A list is gone through element by element. -/
lemma parts_of_fits {whole : Json} {holes : Bool} {item : Shape} {list : Part whole}
    (h : list.1.fits (.list holes item) = true) :
    ∃ parts, Json.parts list = .ok parts ∧
      ∀ p ∈ parts, (holes = true ∧ p.1.isNull = true) ∨ p.1.fits item = true := by
  obtain ⟨v, hinside⟩ := list
  obtain ⟨items, rfl, hitems⟩ := list_of_fits h
  refine ⟨_, rfl, fun p hp => ?_⟩
  obtain ⟨w, -, rfl⟩ := List.mem_map.mp hp
  exact hitems w.1 w.2

lemma itemsOf_of_fits {whole : Json} {holes : Bool} {item : Shape} {list : Part whole}
    (h : list.1.fits (.list holes item) = true) :
    ∃ items, Json.itemsOf list = .ok items ∧ ∀ p, some p ∈ items → p.1.fits item = true := by
  obtain ⟨parts, hparts, hfits⟩ := parts_of_fits h
  unfold itemsOf
  split
  · refine ⟨_, by rw [hparts]; rfl, fun p hp => ?_⟩
    obtain ⟨found, hfound, heq⟩ := List.mem_map.mp hp
    split at heq
    · cases heq
    · rename_i hnull
      obtain rfl : found = p := Option.some.inj heq
      exact (hfits found hfound).resolve_left fun h => hnull h.2
  · exact ⟨[], rfl, fun p hp => absurd hp List.not_mem_nil⟩

/-- An element of a list without holes. -/
lemma element_of_fits {whole : Json} {item : Shape} {list : Part whole}
    (h : list.1.fits (.list false item) = true) (i : Nat) :
    ∃ found, Json.element list i = .ok found ∧ ∀ part ∈ found, part.1.fits item = true := by
  obtain ⟨parts, hparts, hfits⟩ := parts_of_fits h
  obtain ⟨v, hinside⟩ := list
  obtain ⟨items, rfl, -⟩ := list_of_fits h
  simp only [element, length?, orMalformed, ok_bind]
  split
  · refine ⟨_, by rw [hparts]; rfl, fun part hpart => ?_⟩
    exact (hfits part (List.mem_of_getElem? hpart)).resolve_left (by simp)
  · exact ⟨none, rfl, fun part hpart => by cases hpart⟩

/-! ## Fields -/

lemma eq_str_of_isText {v : Json} {t : String} (h : v.isText t = true) : v = .str t := by
  cases v with
  | str s => exact congrArg Json.str (by simpa [isText] using h)
  | _ => cases h

lemma eq_null_of_isNull {v : Json} (h : v.isNull = true) : v = .null := by
  cases v with
  | null => rfl
  | _ => cases h

lemma isNull_of_isGiven {v : Json} (h : v.isGiven = true) : v.isNull = false := by
  cases v with
  | null => cases h
  | _ => rfl

/-- An object can be asked for any field. -/
lemma get_eq {node : Json} (h : node.isObject = true) (key : String) :
    node.get key = .ok (node.field? key) := if_pos h

lemma exists_getValue {node : Json} (h : node.isObject = true) (key : String) :
    ∃ v, node.getValue key = .ok v := by
  rw [getValue, get_eq h, ok_bind]
  cases node.field? key with
  | none => exact ⟨_, rfl⟩
  | some part => exact ⟨_, rfl⟩

lemma exists_flag {node : Json} (h : node.isObject = true) (key : String) :
    ∃ b, node.flag key = .ok b := by
  obtain ⟨v, hv⟩ := exists_getValue h key
  exact ⟨_, by rw [flag, hv]; rfl⟩

lemma exists_flagUnlessAbsent {node : Json} (h : node.isObject = true) (key : String) :
    ∃ b, node.flagUnlessAbsent key = .ok b := by
  rw [flagUnlessAbsent, get_eq h, ok_bind]
  cases node.field? key with
  | none => exact ⟨_, rfl⟩
  | some part => exact ⟨_, rfl⟩

namespace Conforms

variable {node : Json} {form : Form} {shape : Shape}

lemma require (h : node.Conforms form) (key : String)
    (hneed : form.lookup key = some ⟨shape, false⟩) :
    ∃ part, node.require key = .ok part ∧ part.1.fits shape = true := by
  unfold Json.require
  rw [if_pos h.isObject]
  cases hfield : node.field? key with
  | none => cases h.complete hneed hfield
  | some part => exact ⟨part, rfl, (h.meets hneed hfield).resolve_left (by simp)⟩

/-- A node that has to be there. -/
lemma requireNode (h : node.Conforms form) (key : String) {kinds : List String}
    (hneed : form.lookup key = some ⟨.node kinds, false⟩) :
    ∃ part, node.require key = .ok part ∧ ∃ kind ∈ kinds, part.1.IsA kind := by
  obtain ⟨part, hpart, hfits⟩ := h.require key hneed
  exact ⟨part, hpart, isA_of_fits hfits⟩

lemma fits_of_field? (h : node.Conforms form) {key : String} {need : Need}
    (hneed : form.lookup key = some need) {part : Part node}
    (hpart : node.field? key = some part) (hnull : part.1.isNull = false) :
    part.1.fits need.shape = true :=
  (h.meets hneed hpart).resolve_left (by simp [hnull])

lemma given (h : node.Conforms form) (key : String) {need : Need}
    (hneed : form.lookup key = some need) :
    ∃ found, node.given key = .ok found ∧
      ∀ part ∈ found, part.1.fits need.shape = true ∧ part.1.isGiven = true := by
  refine ⟨_, by rw [Json.given, get_eq h.isObject]; rfl, fun part hpart => ?_⟩
  obtain ⟨hfield, hgiven⟩ := Option.filter_eq_some_iff.mp hpart
  exact ⟨h.fits_of_field? hneed hfield (isNull_of_isGiven hgiven), hgiven⟩

lemma present (h : node.Conforms form) (key : String) {need : Need}
    (hneed : form.lookup key = some need) :
    ∃ found, node.present key = .ok found ∧ ∀ part ∈ found, part.1.fits need.shape = true := by
  refine ⟨_, by rw [Json.present, get_eq h.isObject]; rfl, fun part hpart => ?_⟩
  obtain ⟨hfield, hnull⟩ := Option.filter_eq_some_iff.mp hpart
  exact h.fits_of_field? hneed hfield (by simpa using hnull)

/-- A list that has to be there is not null. -/
lemma present_list (h : node.Conforms form) (key : String) {holes : Bool} {item : Shape}
    (hneed : form.lookup key = some ⟨.list holes item, false⟩) :
    ∃ list, node.present key = .ok (some list) ∧ list.1.fits (.list holes item) = true := by
  cases hfield : node.field? key with
  | none => cases h.complete hneed hfield
  | some list =>
      have hfits := (h.meets hneed hfield).resolve_left (by simp)
      obtain ⟨items, hitems, -⟩ := list_of_fits hfits
      exact ⟨list, by simp [Json.present, get_eq h.isObject, hfield, hitems, isNull], hfits⟩

/-- A field that counts as given is there. -/
lemma require_of_flag (h : node.Conforms form) (key : String) {need : Need}
    (hneed : form.lookup key = some need) (hflag : node.flag key = .ok true) :
    ∃ part, node.require key = .ok part ∧ part.1.fits need.shape = true := by
  rw [Json.flag, getValue, get_eq h.isObject, ok_bind] at hflag
  cases hfield : node.field? key with
  | none => simp [hfield, isGiven] at hflag
  | some part =>
      have hgiven : part.1.isGiven = true := by simpa [hfield] using hflag
      exact ⟨part, by simp [Json.require, h.isObject, hfield],
        h.fits_of_field? hneed hfield (isNull_of_isGiven hgiven)⟩

/-- A field that belongs to another dialect is never given. -/
lemma given_unused (h : node.Conforms form) (key : String) {isOptional : Bool}
    (hneed : form.lookup key = some ⟨.unused, isOptional⟩) : node.given key = .ok none := by
  obtain ⟨found, hfound, hfits⟩ := h.given key hneed
  cases found with
  | none => exact hfound
  | some part =>
      obtain ⟨hunused, hgiven⟩ := hfits part rfl
      simp [not_isGiven_of_fits hunused] at hgiven

/-- The first of two fields that is given. -/
lemma givenOr (h : node.Conforms form) (key other : String) {need need' : Need}
    (hneed : form.lookup key = some need) (hneed' : form.lookup other = some need')
    (hshape : need'.shape = need.shape) :
    ∃ found, node.givenOr key other = .ok found ∧ ∀ part ∈ found, part.1.fits need.shape = true := by
  obtain ⟨found, hfound, hfits⟩ := h.given key hneed
  rw [Json.givenOr, hfound, ok_bind]
  cases found with
  | some part => exact ⟨some part, rfl, fun p hp => (hfits p hp).1⟩
  | none =>
      obtain ⟨found', hfound', hfits'⟩ := h.given other hneed'
      exact ⟨found', hfound', fun p hp => hshape ▸ (hfits' p hp).1⟩

/-- The elements of a list under a key. -/
lemma parts (h : node.Conforms form) (key : String) {holes : Bool} {item : Shape}
    (hneed : form.lookup key = some ⟨.list holes item, false⟩) :
    ∃ list, node.require key = .ok list ∧ list.1.fits (.list holes item) = true ∧
      ∃ parts, Json.parts list = .ok parts ∧
        ∀ p ∈ parts, (holes = true ∧ p.1.isNull = true) ∨ p.1.fits item = true := by
  obtain ⟨list, hlist, hfits⟩ := h.require key hneed
  exact ⟨list, hlist, hfits, parts_of_fits hfits⟩

/-- The comments under a key. -/
lemma comments (h : node.Conforms form) (key : String) {isOptional : Bool}
    (hneed : form.lookup key = some ⟨Estree.comments, isOptional⟩) :
    ∃ list, node.comments key = .ok list ∧
      ∀ comment ∈ list, comment.fits (.record "Comment") = true := by
  obtain ⟨found, hfound, hfits⟩ := h.given key hneed
  rw [Json.comments, hfound, ok_bind]
  cases found with
  | none => exact ⟨[], rfl, fun c hc => absurd hc List.not_mem_nil⟩
  | some part =>
      obtain ⟨items, hitems, hall⟩ := list_of_fits (hfits part rfl).1
      exact ⟨items, by simp [hitems, elements?, orMalformed],
        fun c hc => (hall c hc).resolve_left (by simp)⟩

end Conforms

/-! ## Places -/

lemma position_of_fits {v : Json} (h : v.fits (.record "Position") = true) :
    ∃ p, v.position = .ok p ∧ p.IsWhole := by
  have hform := conforms_of_record "Position" rfl h
  obtain ⟨line, hline, hfits⟩ := hform.require "line" rfl
  obtain ⟨column, hcolumn, hfits'⟩ := hform.require "column" rfl
  exact ⟨_, by rw [position, hline, ok_bind, hcolumn]; rfl, whole_of_fits hfits,
    whole_of_fits hfits'⟩

lemma Conforms.span {node : Json} {form : Form} (h : node.Conforms form)
    (hneed : form.lookup "loc" = some ⟨.record "SourceLocation", true⟩) :
    ∃ span, node.span = .ok span ∧ ∀ s ∈ span, s.IsWhole := by
  obtain ⟨found, hfound, hfits⟩ := h.given "loc" hneed
  rw [Json.span, hfound, ok_bind]
  cases found with
  | none => exact ⟨none, rfl, fun s hs => by cases hs⟩
  | some loc =>
      have hloc := conforms_of_record "SourceLocation" rfl (hfits loc rfl).1
      obtain ⟨start, hstart, hstartfits⟩ := hloc.given "start" rfl
      obtain ⟨stop, hstop, hstopfits⟩ := hloc.given "end" rfl
      simp only [hstart, hstop, ok_bind]
      cases start with
      | none => exact ⟨none, rfl, fun s hs => by cases hs⟩
      | some start =>
          obtain ⟨first, hfirst, hwhole⟩ := position_of_fits (hstartfits start rfl).1
          obtain ⟨last, hlast, hwhole'⟩ : ∃ p, (stop.getD start).1.position = .ok p ∧ p.IsWhole := by
            cases stop with
            | none => exact position_of_fits (hstartfits start rfl).1
            | some stop => exact position_of_fits (hstopfits stop rfl).1
          refine ⟨some ⟨first, last⟩, by simp [hfirst, hlast], fun s hs => ?_⟩
          cases hs
          exact ⟨hwhole, hwhole'⟩

end Json

end EstreePrinter
