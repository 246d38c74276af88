import Mathlib
import EstreePrinter.Node
import EstreePrinter.Proofs.Outcome

/-!
# The nodes of a tree, counted

To say that no node is rendered twice one has to count.  `Json.nodes` is the multiset of all objects
in a value, the value itself included: a node that occurs at two places counts twice.

A rule takes the parts of its node from fields with different names.  What it takes from the field
`key` is `Json.under`, from several fields `Json.underAll`, and that is never more than all that is
inside of the node (`underAll_le`).  The other lemmas say the same of each way to read a part: a
part that was read from a field has no more nodes than the field, and the elements of a list have no
more nodes than the list.
-/

namespace EstreePrinter

namespace Json

mutual

/-- All objects in a value, each as often as it occurs. -/
def nodes : Json → Multiset Json
  | .arr items => nodesOf items
  | .obj fields => .obj fields ::ₘ nodesAmong fields
  | _ => 0

/-- All objects in the elements of a list. -/
def nodesOf : List Json → Multiset Json
  | [] => 0
  | v :: rest => nodes v + nodesOf rest

/-- All objects in the fields of an object. -/
def nodesAmong : List (String × Json) → Multiset Json
  | [] => 0
  | (_, v) :: rest => nodes v + nodesAmong rest

end

/-- All objects inside of an object. -/
def within : Json → Multiset Json
  | .obj fields => nodesAmong fields
  | _ => 0

/-- All objects in the field `key` of a node. -/
def under (node : Json) (key : String) : Multiset Json :=
  match node.field? key with
  | some part => part.1.nodes
  | none => 0

/-- All objects in some fields of a node. -/
def underAll (node : Json) (keys : List String) : Multiset Json := (keys.map node.under).sum

@[simp] lemma underAll_nil (node : Json) : node.underAll [] = 0 := rfl

@[simp] lemma underAll_cons (node : Json) (key : String) (keys : List String) :
    node.underAll (key :: keys) = node.under key + node.underAll keys := by
  simp [underAll]

@[simp] lemma nodes_str (s : String) : (Json.str s).nodes = 0 := by simp [nodes]

/-- The nodes of an object are the object and what is inside of it. -/
lemma nodes_eq_cons {node : Json} (h : node.isObject = true) :
    node.nodes = node ::ₘ node.within := by
  cases node with
  | obj fields => simp [nodes, within]
  | _ => cases h

lemma within_le (node : Json) : node.within ≤ node.nodes := by
  cases node with
  | obj fields =>
      rw [nodes_eq_cons rfl]
      exact Multiset.le_cons_self _ _
  | _ => exact Multiset.zero_le _

lemma nodesOf_eq (items : List Json) : nodesOf items = (items.map nodes).sum := by
  induction items with
  | nil => simp [nodesOf]
  | cons v rest ih => simp [nodesOf, ih]

lemma nodesAmong_eq (fields : List (String × Json)) :
    nodesAmong fields = (fields.map fun field => nodes field.2).sum := by
  induction fields with
  | nil => simp [nodesAmong]
  | cons field rest ih => simp [nodesAmong, ih]

lemma nodes_le_of_child {v w : Json} (h : Child v w) : v.nodes ≤ w.nodes := by
  cases h with
  | element h =>
      rw [nodes, nodesOf_eq]
      exact List.le_sum_of_mem (List.mem_map_of_mem h)
  | @field key v fields h =>
      refine le_trans ?_ (within_le (.obj fields))
      rw [within, nodesAmong_eq]
      exact List.le_sum_of_mem (List.mem_map_of_mem (f := fun field => nodes field.2) h)
  | key h => simp

lemma nodes_le_of_inside {v w : Json} (h : v.Inside w) : v.nodes ≤ w.nodes := by
  induction h with
  | single h => exact nodes_le_of_child h
  | tail _ h ih => exact ih.trans (nodes_le_of_child h)

/-- Every object inside of a value is counted. -/
lemma mem_nodes_of_inside {v w : Json} (hobject : v.isObject = true) (h : v.Inside w) :
    v ∈ w.nodes :=
  Multiset.mem_of_le (nodes_le_of_inside h) (by simp [nodes_eq_cons hobject])

/-! ## Fields with different names -/

/-- What the field `key` has among some fields: the first value under that key counts. -/
private def among (fields : List (String × Json)) (key : String) : Multiset Json :=
  match lookup key fields with
  | some found => nodes found.1
  | none => 0

private lemma under_obj (fields : List (String × Json)) (key : String) :
    (Json.obj fields).under key = among fields key := by
  cases h : lookup key fields <;> simp [under, among, field?, h]

private lemma among_cons (k key : String) (v : Json) (rest : List (String × Json)) :
    among ((k, v) :: rest) key = if k = key then nodes v else among rest key := by
  by_cases h : k = key
  · simp [among, lookup, h]
  · cases hrest : lookup key rest <;> simp [among, lookup, h, hrest]

private lemma sum_among_le {fields : List (String × Json)} {keys : List String}
    (hkeys : keys.Nodup) : (keys.map (among fields)).sum ≤ nodesAmong fields := by
  induction fields generalizing keys with
  | nil =>
      have hzero : keys.map (among []) = keys.map fun _ => (0 : Multiset Json) :=
        List.map_congr_left fun _ _ => rfl
      simp [hzero]
  | cons field rest ih =>
      obtain ⟨k, v⟩ := field
      rw [nodesAmong]
      by_cases hk : k ∈ keys
      · -- the first field serves one of the keys, and the others are served by the rest
        have hperm := List.perm_cons_erase hk
        have hothers : (keys.erase k).map (among ((k, v) :: rest)) =
            (keys.erase k).map (among rest) := by
          refine List.map_congr_left fun key hkey => ?_
          have hne : k ≠ key := fun h => hkeys.not_mem_erase (h ▸ hkey)
          rw [among_cons, if_neg hne]
        rw [(hperm.map _).sum_eq, List.map_cons, List.sum_cons, hothers, among_cons, if_pos rfl]
        exact add_le_add_right (ih (hkeys.erase k)) _
      · have hall : keys.map (among ((k, v) :: rest)) = keys.map (among rest) := by
          refine List.map_congr_left fun key hkey => ?_
          have hne : k ≠ key := fun h => hk (h ▸ hkey)
          rw [among_cons, if_neg hne]
        rw [hall]
        exact (ih hkeys).trans (Multiset.le_add_left _ _)

/-- **Different fields have different nodes.** -/
lemma underAll_le (node : Json) {keys : List String} (hkeys : keys.Nodup) :
    node.underAll keys ≤ node.within := by
  cases node with
  | obj fields =>
      have hunder : (Json.obj fields).under = among fields := funext (under_obj fields)
      rw [underAll, hunder]
      exact sum_among_le hkeys
  | _ =>
      have hzero : ∀ key ∈ keys, ∀ v : Json, v.isObject = false → v.under key = 0 := by
        intro key _ v hv
        cases v <;> first | rfl | cases hv
      rw [underAll, List.map_congr_left fun key hkey => hzero key hkey _ rfl]
      simp [within]

/-- A field has no more nodes than its object. -/
lemma under_le (node : Json) (key : String) : node.under key ≤ node.nodes := by
  have h := node.underAll_le (List.nodup_singleton key)
  rw [underAll_cons, underAll_nil, add_zero] at h
  exact h.trans node.within_le

/-! ## What was read from a field -/

lemma under_of_field? {node : Json} {key : String} {part : Part node}
    (h : node.field? key = some part) : node.under key = part.1.nodes := by
  rw [under, h]

lemma under_of_get {node : Json} {key : String} {part : Part node}
    (h : node.get key = .ok (some part)) : node.under key = part.1.nodes := by
  unfold get at h
  split at h
  · exact under_of_field? (Except.ok.inj h)
  · cases h

lemma under_of_require {node : Json} {key : String} {part : Part node}
    (h : node.require key = .ok part) : node.under key = part.1.nodes := by
  unfold require at h
  split at h
  · cases hfield : node.field? key with
    | none => simp [hfield] at h
    | some found =>
        simp only [hfield, Except.ok.injEq] at h
        exact h ▸ under_of_field? hfield
  · cases h

/-- The nodes of a part, if there is one. -/
def nodesIn {whole : Json} : Option (Part whole) → Multiset Json
  | some part => part.1.nodes
  | none => 0

@[simp] lemma nodesIn_some {whole : Json} (part : Part whole) :
    nodesIn (some part) = part.1.nodes :=
  rfl

@[simp] lemma nodesIn_none {whole : Json} : nodesIn (none : Option (Part whole)) = 0 := rfl

lemma nodesIn_le_of_get {node : Json} {key : String} {found : Option (Part node)}
    (h : node.get key = .ok found) (keep : Part node → Bool) :
    nodesIn (found.filter keep) ≤ node.under key := by
  cases found with
  | none => exact Multiset.zero_le _
  | some part =>
      rw [under_of_get h, Option.filter_some]
      split
      · exact le_rfl
      · exact Multiset.zero_le _

lemma nodesIn_le_of_given {node : Json} {key : String} {found : Option (Part node)}
    (h : node.given key = .ok found) : nodesIn found ≤ node.under key := by
  obtain ⟨part, hpart, hfound⟩ := bind_eq_ok_iff.mp h
  exact Except.ok.inj hfound ▸ nodesIn_le_of_get hpart _

lemma nodesIn_le_of_present {node : Json} {key : String} {found : Option (Part node)}
    (h : node.present key = .ok found) : nodesIn found ≤ node.under key := by
  obtain ⟨part, hpart, hfound⟩ := bind_eq_ok_iff.mp h
  exact Except.ok.inj hfound ▸ nodesIn_le_of_get hpart _

/-- A field that is read in place of another one when that is not there. -/
lemma nodesIn_le_of_or {node : Json} {key other : String} {found : Option (Part node)}
    {first second : Except Fault (Option (Part node))}
    (hfirst : ∀ found, first = .ok found → nodesIn found ≤ node.under key)
    (hsecond : ∀ found, second = .ok found → nodesIn found ≤ node.under other)
    (h : (first >>= fun found =>
      match found with
      | some part => pure (some part)
      | none => second) = .ok found) :
    nodesIn found ≤ node.under key + node.under other := by
  obtain ⟨one, hone, h⟩ := bind_eq_ok_iff.mp h
  cases one with
  | some part =>
      obtain rfl : some part = found := Except.ok.inj h
      exact (hfirst _ hone).trans (Multiset.le_add_right _ _)
  | none => exact (hsecond _ h).trans (Multiset.le_add_left _ _)

/-- What is read in place of something else is read before the rest goes on. -/
lemma exists_of_or_bind {node : Json} {first second : Except Fault (Option (Part node))} {β : Type}
    {rest : Option (Part node) → Except Fault β} {b : β}
    (h : (first >>= fun found =>
      match found with
      | some part => pure (some part) >>= rest
      | none => second >>= rest) = .ok b) :
    ∃ found, (first >>= fun found =>
      match found with
      | some part => pure (some part)
      | none => second) = .ok found ∧ rest found = .ok b := by
  obtain ⟨one, hone, h⟩ := bind_eq_ok_iff.mp h
  cases one with
  | some part => exact ⟨some part, bind_eq_ok_iff.mpr ⟨_, hone, rfl⟩, h⟩
  | none =>
      obtain ⟨other, hother, h⟩ := bind_eq_ok_iff.mp h
      exact ⟨other, bind_eq_ok_iff.mpr ⟨_, hone, hother⟩, h⟩

lemma nodesIn_le_of_givenOr {node : Json} {key other : String} {found : Option (Part node)}
    (h : node.givenOr key other = .ok found) :
    nodesIn found ≤ node.under key + node.under other :=
  nodesIn_le_of_or (fun _ => nodesIn_le_of_given) (fun _ => nodesIn_le_of_given) h

/-! ## What was read from a list -/

/-- The nodes of some parts together. -/
def nodesAll {whole : Json} (parts : List (Part whole)) : Multiset Json :=
  (parts.map fun part => part.1.nodes).sum

@[simp] lemma nodesAll_nil {whole : Json} : nodesAll ([] : List (Part whole)) = 0 := rfl

@[simp] lemma nodesAll_cons {whole : Json} (part : Part whole) (rest : List (Part whole)) :
    nodesAll (part :: rest) = part.1.nodes + nodesAll rest := by
  simp [nodesAll]

lemma nodesAll_le_of_parts {whole : Json} {list : Part whole} {parts : List (Part whole)}
    (h : Json.parts list = .ok parts) : nodesAll parts ≤ list.1.nodes := by
  obtain ⟨v, hinside⟩ := list
  cases v with
  | arr items =>
      simp only [Json.parts, parts?, orMalformed, Except.ok.injEq] at h
      subst h
      have hitems : items.attach.map (fun p => nodes p.1) = items.map nodes := by simp
      simp only [nodesAll, List.map_map, Function.comp_def, nodes, nodesOf_eq, hitems, le_rfl]
  | str s =>
      simp only [Json.parts, parts?, orMalformed, Except.ok.injEq] at h
      subst h
      split <;> simp
  | obj fields =>
      simp only [Json.parts, parts?, orMalformed, Except.ok.injEq] at h
      subst h
      simp [nodesAll, Function.comp_def]
  | _ => cases h

/-- The nodes of the items of a list with holes. -/
def nodesOfItems {whole : Json} (items : List (Option (Part whole))) : Multiset Json :=
  (items.map nodesIn).sum

lemma nodesOfItems_le_of_itemsOf {whole : Json} {list : Part whole}
    {items : List (Option (Part whole))} (h : Json.itemsOf list = .ok items) :
    nodesOfItems items ≤ list.1.nodes := by
  unfold itemsOf at h
  split at h
  · obtain ⟨parts, hparts, hitems⟩ := bind_eq_ok_iff.mp h
    obtain rfl := Except.ok.inj hitems
    refine le_trans ?_ (nodesAll_le_of_parts hparts)
    rw [nodesOfItems, nodesAll, List.map_map]
    refine List.sum_le_sum fun part _ => ?_
    rw [Function.comp_apply]
    split
    · exact Multiset.zero_le _
    · exact le_rfl
  · obtain rfl := Except.ok.inj h
    exact Multiset.zero_le _

/-- The elements of a list from number `i` on. -/
def nodesFrom {whole : Json} (list : Part whole) (i : Nat) : Multiset Json :=
  match parts? list with
  | some parts => nodesAll (parts.drop i)
  | none => 0

lemma nodesFrom_le {whole : Json} (list : Part whole) : nodesFrom list 0 ≤ list.1.nodes := by
  unfold nodesFrom
  cases h : parts? list with
  | none => exact Multiset.zero_le _
  | some parts =>
      have hparts : Json.parts list = .ok parts := by rw [Json.parts, h]; rfl
      exact nodesAll_le_of_parts hparts

lemma nodesFrom_succ_le {whole : Json} (list : Part whole) (i : Nat) :
    nodesFrom list (i + 1) ≤ nodesFrom list i := by
  unfold nodesFrom
  cases parts? list with
  | none => exact le_rfl
  | some parts =>
      show nodesAll (parts.drop (i + 1)) ≤ nodesAll (parts.drop i)
      cases hdrop : parts.drop i with
      | nil => simp [← List.drop_drop, hdrop]
      | cons part rest =>
          have hrest : parts.drop (i + 1) = rest := by rw [← List.drop_drop, hdrop]; rfl
          rw [hrest, nodesAll_cons]
          exact Multiset.le_add_left _ _

lemma nodesFrom_of_element {whole : Json} {list : Part whole} {i : Nat} {part : Part whole}
    (h : Json.element list i = .ok (some part)) :
    nodesFrom list i = part.1.nodes + nodesFrom list (i + 1) := by
  have hparts : ∃ parts, parts? list = some parts ∧ parts[i]? = some part := by
    unfold element at h
    obtain ⟨n, -, h⟩ := bind_eq_ok_iff.mp h
    split at h
    · split at h
      · cases h
      · cases h
      · obtain ⟨parts, hparts, h⟩ := bind_eq_ok_iff.mp h
        refine ⟨parts, ?_, Except.ok.inj h⟩
        unfold Json.parts orMalformed at hparts
        split at hparts
        · rename_i found hfound
          rw [hfound, Except.ok.inj hparts]
        · cases hparts
    · cases h
  obtain ⟨parts, hparts, hpart⟩ := hparts
  unfold nodesFrom
  simp only [hparts]
  obtain ⟨hlt, hget⟩ := List.getElem?_eq_some_iff.mp hpart
  rw [List.drop_eq_getElem_cons hlt, nodesAll_cons, hget]

end Json

end EstreePrinter
