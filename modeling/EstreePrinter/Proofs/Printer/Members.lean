import Mathlib
import EstreePrinter.Proofs.Grouping.Places
import EstreePrinter.Proofs.Printer.Conserved

/-!
# The comments of the members of an object

A member of an object that is written with a colon, or as a name alone, is handled like any other
node: its comments stand directly before it, and the first comment behind it is the last one of
those that follow it, before anything else is printed (`handle_keeps_member`).  So each of them is
printed once.

A member that is written as a method is not handled: only what is inside of it is, so its own
comments are not printed (`print_drops_method_comments`).

Which comment comes from which node is told by `Render.Attributed`: what a step emits and leaves
waiting is what waited before and what belongs to the nodes that it handles.
-/

namespace EstreePrinter

open Json (Part)
open Command (events)

/-- The comments that are emitted for a node if it is handled: those before it, and the first one
behind it. -/
def Json.ownComments (node : Json) : Multiset Json :=
  (node.commentsOn ++ node.commentBehind.toList : List Json)

namespace Render

variable {α β : Type} {u v : Multiset Json} {q q' q'' : List Json} {s : Setting}

/-! ## Attributing comments to nodes -/

/-- The comments `emitted`, and those in `queue'` that wait now, are those in `queue` that waited
before and those of some nodes in `u`. -/
def Attributes (u : Multiset Json) (queue emitted queue' : List Json) : Prop :=
  ∃ handled ≤ u, ((emitted ++ queue' : List Json) : Multiset Json) =
    (queue : Multiset Json) + handled.bind Json.ownComments

/-- **A step is attributed** to nodes: all comments that it emits or leaves waiting have waited or
belong to these. -/
def Attributed (u : Multiset Json) (x : Render α) : Prop :=
  ∀ s q e, x s q = .ok e → Attributes u q (commentsIn (events e.commands)) e.queue

namespace Attributes

variable {comments others : List Json}

lemma nil (q : List Json) : Attributes 0 q [] q := ⟨0, le_rfl, by simp⟩

/-- The comments that wait are emitted. -/
lemma drained (q : List Json) : Attributes 0 q q [] := ⟨0, le_rfl, by simp⟩

lemma append (h : Attributes u q comments q') (h' : Attributes v q' others q'') :
    Attributes (u + v) q (comments ++ others) q'' := by
  obtain ⟨handled, hle, heq⟩ := h
  obtain ⟨handled', hle', heq'⟩ := h'
  refine ⟨handled + handled', add_le_add hle hle', ?_⟩
  rw [← Multiset.coe_add] at heq heq'
  rw [List.append_assoc, ← Multiset.coe_add, ← Multiset.coe_add, heq', ← add_assoc, heq,
    Multiset.add_bind, add_assoc]

end Attributes

/-- The comments of nodes, those before them and those behind them taken together. -/
lemma bind_ownComments (handled : List Json) :
    (handled : Multiset Json).bind Json.ownComments =
      (handled.flatMap Json.commentsOn : List Json) +
        (handled.filterMap Json.commentBehind : List Json) := by
  induction handled with
  | nil => rfl
  | cons node rest ih =>
      have hbehind : ((node :: rest).filterMap Json.commentBehind) =
          node.commentBehind.toList ++ rest.filterMap Json.commentBehind := by
        cases h : node.commentBehind <;> simp [h]
      rw [← Multiset.cons_coe, Multiset.cons_bind, ih, List.flatMap_cons, hbehind, Json.ownComments,
        ← Multiset.coe_add, ← Multiset.coe_add, ← Multiset.coe_add]
      abel

/-- What is balanced with notes is attributed without them. -/
lemma attributed_of_accounted {x y : Render α} (hmirrors : Mirrors Eq x y)
    (hy : Accounted u 0 0 y) : Attributed u x := by
  intro s q e he
  obtain ⟨e', he', -, hunnoted, -, hqueue⟩ := hmirrors _ _ _ he
  obtain ⟨hhandled, emitted, hcomments, hbefore, hbehind⟩ := hy _ _ _ he'
  refine ⟨_, hhandled, ?_⟩
  rw [← hunnoted, commentsIn_unnoted, ← hcomments, bind_ownComments, ← hqueue, ← Multiset.coe_add]
  have hsides : ((emitted.map (Sum.elim id id) : List Json) : Multiset Json) =
      (emitted.filterMap Sum.getLeft? : List Json) + (emitted.filterMap Sum.getRight? : List Json) :=
    Quotient.sound (perm_sides emitted)
  have hqueues : ((q : List Json) : Multiset Json) +
      ((handledIn (events e'.commands)).filterMap Json.commentBehind : List Json) =
        (emitted.filterMap Sum.getRight? : List Json) + (e'.queue : List Json) := by
    rw [Multiset.coe_add, Multiset.coe_add, hbehind]
  rw [add_zero, add_zero] at hbefore
  rw [hsides, add_assoc, ← hqueues, hbefore]
  abel

/-- The parts of a node, as a print renders them and with notes. -/
lemma matches_noting (node : Json) : (partsOf node).Matches (partsWith noted node) noting where
  applies := trivial
  value part := mirrors_tree .value part.1
  bare part := mirrors_tree .bare part.1
  type part := mirrors_tree .type part.1
  either part := noting.skip fun _ => noting.skip fun _ =>
    noting.ite (mirrors_tree .type part.1) (mirrors_tree .value part.1)

lemma matches_accounting (node : Json) :
    (partsWith noted node).Matches (partsWith noted node) accounting := by
  have hdress : accounting.Dresses noted noted :=
    { value := fun _ hobject h => accounted_value hobject h
      bare := fun {node _ y} _ hobject h => by
        show Accounted node.nodes 0 node.commentsBefore (noted .bare node y)
        simpa only [noted, dressed, bind_assoc] using accounted_bare hobject h
      type := fun {node _ _} _ _ h => h.mono node.within_le }
  have htree (role : Role) (part : Json) := @accounting.treeWith _ _ hdress role part trivial
  exact
    { applies := trivial
      value := fun part => htree .value part.1
      bare := fun part => htree .bare part.1
      type := fun part => htree .type part.1
      either := fun part => accounting.skip fun _ => accounting.skip fun _ =>
        accounting.ite (htree .type part.1) (htree .value part.1) }

/-! ## Members -/

variable {node : Json}

lemma attributed_objectMember (member : Part node) :
    Attributed member.1.nodes (Rules.objectMember (partsOf node) member) :=
  attributed_of_accounted (Rules.objectMember_related (matches_noting node) member)
    (Rules.objectMember_related (matches_accounting node) member)

lemma attributed_property (node : Json) :
    Attributed node.within (Rules.property node (partsOf node)) :=
  attributed_of_accounted (Rules.keptBy_property node _ _ (matches_noting node))
    (Rules.keptBy_property node _ _ (matches_accounting node))

/-- The comments of slots. -/
def commentsAmong (slots : List Slot) : List Json := commentsIn (Slot.events slots)

/-- **A list of items, taken apart at one of them.**  What stands before the rest of the list is
attributed to the items before it. -/
lemma items_append {separator : String} {nodes : α → Multiset Json} {item : α → Render Unit}
    (hitem : ∀ a, Attributed (nodes a) (item a)) (before rest : List (Option α)) {afterHole : Bool}
    {e : Emission (List Slot × Bool)}
    (h : items separator item afterHole (before ++ rest) s q = .ok e) :
    ∃ slots afterHole' waiting others,
      items separator item afterHole' rest s waiting = .ok others ∧
      e.value.1 = slots ++ others.value.1 ∧ e.queue = others.queue ∧
      Attributes (before.map fun a => a.elim 0 nodes).sum q (commentsAmong slots) waiting := by
  induction before generalizing afterHole q e with
  | nil => exact ⟨[], afterHole, q, e, h, rfl, rfl, .nil q⟩
  | cons a before ih =>
      cases a with
      | none =>
          obtain ⟨tail, htail, rfl⟩ := items_hole_eq_ok_iff.mp h
          obtain ⟨slots, afterHole', waiting, others, hothers, hslots, hqueue, hcomments⟩ := ih htail
          exact ⟨.own (.text separator) :: slots, afterHole', waiting, others, hothers,
            by simp [hslots], hqueue, by simpa [commentsAmong] using hcomments⟩
      | some a =>
          obtain ⟨inner, hinner, tail, htail, rfl⟩ := items_some_eq_ok_iff.mp h
          obtain ⟨slots, afterHole', waiting, others, hothers, hslots, hqueue, hcomments⟩ := ih htail
          refine ⟨itemSlots separator afterHole (before ++ rest).isEmpty inner.commands inner.queue ++
            slots, afterHole', waiting, others, hothers, by simp [hslots], hqueue, ?_⟩
          have hhead := ((hitem a _ _ _ hinner).append (.drained inner.queue)).append hcomments
          simpa [commentsAmong, events_itemSlots] using hhead

/-- All items of a list. -/
lemma attributes_items {separator : String} {nodes : α → Multiset Json} {item : α → Render Unit}
    (hitem : ∀ a, Attributed (nodes a) (item a)) {list : List (Option α)} {afterHole : Bool}
    {e : Emission (List Slot × Bool)} (h : items separator item afterHole list s q = .ok e) :
    Attributes (list.map fun a => a.elim 0 nodes).sum q (commentsAmong e.value.1) e.queue := by
  rw [← List.append_nil list] at h
  obtain ⟨slots, _, waiting, others, hothers, hslots, hqueue, hcomments⟩ := items_append hitem _ _ h
  obtain rfl := Except.ok.inj hothers
  simpa [hslots, hqueue] using hcomments

/-- What stands behind the commands of an item: its separator, and the comments behind it. -/
def behindItem (separator : String) (isLast : Bool) (comments : List Json) : List Slot :=
  (if isLast then [] else [.own (.text separator)]) ++
    (if comments.isEmpty then (if isLast then [] else [.join])
      else .own (.text " ") :: itemComments isLast comments)

lemma commentsAmong_behindItem (separator : String) (isLast : Bool) (comments : List Json) :
    commentsAmong (behindItem separator isLast comments) = comments := by
  have h := events_itemSlots separator false isLast [] comments
  have hslots : itemSlots separator false isLast [] comments =
      behindItem separator isLast comments := by
    simp [itemSlots, behindItem, Slot.ofCommands]
  rw [hslots] at h
  simp [commentsAmong, h]

lemma decided_eq (spaces broken : Bool) (slots : List Slot) :
    ∃ start join stop, events start = [] ∧ events join = [] ∧ events stop = [] ∧
      decided spaces broken slots = assemble start join stop slots := by
  cases broken with
  | true => exact ⟨_, _, _, by simp, by simp, by simp, rfl⟩
  | false => cases spaces <;> exact ⟨_, _, _, by simp, by simp, by simp, rfl⟩

/-- **A list, taken apart at one of its items**: the commands of the item stand between what comes
before it and the comments that follow it, and what is left belongs to the other items. -/
lemma sequence_append {spaces : Bool} {separator : String} {nodes : α → Multiset Json}
    {item : α → Render Unit} (hitem : ∀ a, Attributed (nodes a) (item a)) {front : List (Option α)}
    {a : α} {behind : List (Option α)} {e : Emission Unit}
    (h : sequence spaces separator item (front ++ some a :: behind) s q = .ok e) :
    ∃ start waiting own tail rest, item a s waiting = .ok own ∧
      e.commands = start ++ own.commands ++ tail ++ rest ∧
      commentsIn (events tail) = own.queue ∧
      Attributes (front.map fun a => a.elim 0 nodes).sum q (commentsIn (events start)) waiting ∧
      Attributes (behind.map fun a => a.elim 0 nodes).sum [] (commentsIn (events rest)) e.queue := by
  obtain ⟨first, hfirst, broken, -, rfl⟩ := (sequence_eq_ok_iff (by simp)).mp h
  obtain ⟨slots, afterHole, waiting, others, hothers, hslots, hqueue, hfront⟩ :=
    items_append hitem _ _ hfirst
  obtain ⟨own, hown, tail, htail, rfl⟩ := items_some_eq_ok_iff.mp hothers
  have hbehind := attributes_items hitem htail
  obtain ⟨open', join, stop, hopen, hjoin, hstop, hdecided⟩ := decided_eq spaces broken first.value.1
  have hfill (slots : List Slot) :
      commentsIn (events (Slot.fill "sequence-join" join slots)) = commentsAmong slots := by
    rw [Slot.events_fill _ hjoin, commentsAmong]
  refine ⟨.deferred "sequence-open" open' :: Slot.fill "sequence-join" join
      (slots ++ if afterHole then [.join] else []), waiting, own,
    Slot.fill "sequence-join" join (behindItem separator behind.isEmpty own.queue),
    Slot.fill "sequence-join" join tail.value.1 ++ [Command.deferred "sequence-close" stop], hown,
    ?_, ?_, ?_, ?_⟩
  · rw [hdecided, hslots, assemble]
    simp [itemSlots, behindItem, Slot.fill_append]
  · rw [hfill, commentsAmong_behindItem]
  · have hhole : Slot.events (if afterHole then [.join] else []) = [] := by cases afterHole <;> simp
    simpa [hopen, hfill, commentsAmong, hhole] using hfront
  · simpa [hfill, hstop, hqueue] using hbehind

/-- A node with its comments: those before it come first, and the one behind it waits. -/
lemma handled_eq_ok {node : Json} {name : String} {rule : Rule} {e : Emission Unit}
    (hkind : node.kind = .ok (.str name))
    (hfind : Rules.find Rules.valueRules (.str name) = .ok (some rule))
    (h : tree .value node s q = .ok e) :
    ∃ lead own, rule node (partsOf node) s q = .ok own ∧ e.commands = lead ++ own.commands ∧
      e.queue = own.queue ++ node.commentBehind.toList ∧
      commentsIn (events lead) = node.commentsBefore ∧ ∀ c ∈ lead, c.comment?.isSome := by
  rw [tree_eq, read_bind hkind, read_bind (show Rules.find Role.value.rules _ = _ from hfind)] at h
  obtain ⟨comments, hcomments, hdressed⟩ := read_bind_eq_ok_iff.mp h
  obtain ⟨_, hleading, _, hnode, rfl⟩ := bind_eq_ok_iff.mp hdressed
  obtain ⟨lead, hlead, rfl⟩ := leadingComments_eq_ok_iff.mp hleading
  obtain ⟨own, hown, _, hqueue, rfl⟩ := bind_eq_ok_iff.mp hnode
  obtain rfl := queueTrailing_eq_ok hqueue
  refine ⟨lead, own, hown, by simp [Emission.andThen], by simp [Emission.andThen], ?_, ?_⟩
  · rw [events_leading hlead, Json.commentsBefore_eq hcomments, commentsIn_comments]
  · exact isSome_comment?_of_leading hlead

/-- A run of an object, from the runs of its members. -/
lemma object_eq_ok {node : Json} {list : Part node} {items : List (Option (Part node))}
    {e : Emission Unit} (hlist : node.require "properties" = .ok list)
    (hitems : Json.itemsOf list = .ok items) (h : Rules.object node (partsOf node) s q = .ok e) :
    ∃ own, sequence true "," (Rules.objectMember (partsOf node)) items s q = .ok own ∧
      e.commands = .text "\x7b" :: own.commands ++ [Command.text "\x7d"] ∧ e.queue = own.queue := by
  obtain ⟨_, hopen, _, hinside, rfl⟩ := bind_eq_ok_iff.mp h
  obtain rfl := Except.ok.inj hopen
  rw [read_bind hlist, read_bind hitems] at hinside
  obtain ⟨own, hown, _, hclose, rfl⟩ := bind_eq_ok_iff.mp hinside
  obtain rfl := Except.ok.inj hclose
  exact ⟨own, hown, by simp [Emission.andThen], by simp [Emission.andThen]⟩

/-- A member that is no method is handled like any other node. -/
lemma objectMember_of_not_isMethod {node : Json} {member : Part node}
    (hmember : member.1.kind = .ok (.str "Property"))
    (hmethod : Rules.isMethod member.1 = .ok false) :
    Rules.objectMember (partsOf node) member = tree .value member.1 := by
  have hkind := Json.requireKind_of_kindName? (Json.kindName?_of_kind hmember)
  rw [Rules.objectMember, read_bind hkind, if_pos (by decide), read_bind hmethod]
  rfl

end Render

/-- The items of a list in a field of a node are different parts of it. -/
lemma Json.nodes_around_item {node : Json} {key : String} {list item : Part node}
    {front behind : List (Option (Part node))} (hlist : node.require key = .ok list)
    (hitems : Json.itemsOf list = .ok (front ++ some item :: behind)) :
    (front.map fun a => a.elim 0 fun part => part.1.nodes).sum + item.1.nodes +
      (behind.map fun a => a.elim 0 fun part => part.1.nodes).sum ≤ node.within := by
  have hnodes : (fun a : Option (Part node) => a.elim 0 fun part => part.1.nodes) =
      Json.nodesIn := by
    funext a
    cases a <;> rfl
  have hunder := node.underAll_le (List.nodup_singleton key)
  rw [Json.underAll_cons, Json.underAll_nil, add_zero, Json.under_of_require hlist] at hunder
  refine le_trans (le_of_eq ?_) ((Json.nodesOfItems_le_of_itemsOf hitems).trans hunder)
  rw [hnodes, Json.nodesOfItems, List.map_append, List.sum_append, List.map_cons, List.sum_cons,
    Json.nodesIn_some, add_assoc]

/-- Only a switch has to print other comments than those before and behind it. -/
lemma Json.ownComments_of_kind {node : Json} {kind : String} (hkind : node.kind = .ok (.str kind))
    (hother : kind ≠ "SwitchStatement") : node.ownComments =
      (node.commentsBefore : Multiset Json) + (node.commentBehind.toList : List Json) := by
  rw [Json.ownComments, Json.commentsOn, Json.cases_of_kind hkind hother, List.flatMap_nil,
    List.append_nil, Multiset.coe_add]

/-- **The comments of a member of an object are printed with it.**  Let an object be handled, and
let `member` be a property of it that is not written as a method.  Then the commands that are added
have in them, one directly behind the other: `lead`, which are the comments before the member; what
the rule for properties emits for it, its key first; and `tail`, in which the first comment behind
the member follows the comments that were left waiting inside of it.  All other comments that are
added or left waiting now waited before, or belong to other nodes: to `others`, where each node of
the object counts as often as it occurs, but the member once less. -/
theorem handle_keeps_member {before after : Rendering} {node : Json} {list : Part node}
    {front behind : List (Option (Part node))} {member : Part node}
    (hkind : node.kind = .ok (.str "ObjectExpression"))
    (hlist : node.require "properties" = .ok list)
    (hitems : Json.itemsOf list = .ok (front ++ some member :: behind))
    (hmember : member.1.kind = .ok (.str "Property"))
    (hmethod : Rules.isMethod member.1 = .ok false) (h : before.handle .value node = .ok after) :
    ∃ start lead waiting own tail rest others,
      after.draft.commands = before.draft.commands ++
        (start ++ (lead ++ own.commands ++ tail) ++ rest) ∧
      Rules.property member.1 (Render.partsOf member.1) before.setting waiting = .ok own ∧
      (∀ c ∈ lead, c.comment?.isSome) ∧ commentsIn (events lead) = member.1.commentsBefore ∧
      commentsIn (events tail) = own.queue ++ member.1.commentBehind.toList ∧
      member.1 ::ₘ others ≤ node.nodes ∧
      ((commentsIn (events start) ++ commentsIn (events own.commands) ++ own.queue ++
          commentsIn (events rest) ++ after.draft.queue : List Json) : Multiset Json) =
        (before.draft.queue : Multiset Json) + others.bind Json.ownComments := by
  obtain ⟨e, he, -, rfl⟩ := Rendering.run_eq_ok_iff.mp (Rendering.handle_eq_ok_iff.mp h)
  obtain ⟨lead₀, object, hobject, hcommands, hqueue, hlead₀, -⟩ := Render.handled_eq_ok hkind rfl he
  obtain ⟨sequence, hsequence, hbraces, hobjectQueue⟩ := Render.object_eq_ok hlist hitems hobject
  obtain ⟨start, waiting, own, tail, rest, hown, hsplit, htail, ⟨handled, hle, hfront⟩,
    ⟨handled', hle', hbehind⟩⟩ := Render.sequence_append Render.attributed_objectMember hsequence
  rw [Render.objectMember_of_not_isMethod hmember hmethod] at hown
  obtain ⟨lead, inside, hinside, hmemberCommands, hmemberQueue, hlead, hcomments⟩ :=
    Render.handled_eq_ok hmember rfl hown
  obtain ⟨handledInside, hleInside, hwithin⟩ := Render.attributed_property _ _ _ _ hinside
  refine ⟨lead₀ ++ .text "\x7b" :: start, lead, waiting, inside, tail, rest ++ [.text "\x7d"],
    node ::ₘ (handled + handledInside + handled'), ?_, hinside, hcomments, hlead,
    htail.trans hmemberQueue, ?_, ?_⟩
  · rw [Draft.commands_append, hcommands, hbraces, hsplit, hmemberCommands]
    simp
  · have hitemNodes := Json.nodes_around_item hlist hitems
    have hmemberNodes := Json.nodes_eq_cons (Render.isObject_of_kind hmember)
    rw [Json.nodes_eq_cons (Render.isObject_of_kind hkind), Multiset.cons_swap]
    refine (Multiset.cons_le_cons_iff _).mpr (le_trans ?_ hitemNodes)
    rw [hmemberNodes, ← Multiset.singleton_add, ← Multiset.singleton_add]
    refine le_trans (le_of_eq ?_)
      (add_le_add (add_le_add hle (add_le_add_right hleInside {member.1})) hle')
    abel
  · have hown := Json.ownComments_of_kind hkind (by decide)
    rw [← Multiset.coe_add] at hfront hwithin hbehind
    rw [Multiset.cons_bind, Multiset.add_bind, Multiset.add_bind, hown, hqueue, hobjectQueue]
    simp only [Command.events_append, Command.events_text, Command.events_nil, commentsIn_append,
      hlead₀, List.append_nil, ← Multiset.coe_add]
    -- what waits before the member is given away by what stands before it
    refine add_right_cancel (b := (waiting : Multiset Json)) ?_
    calc _ = (node.commentsBefore : Multiset Json) +
          ((commentsIn (events start) : Multiset Json) + (waiting : Multiset Json)) +
          ((commentsIn (events inside.commands) : Multiset Json) + (inside.queue : Multiset Json)) +
          ((commentsIn (events rest) : Multiset Json) + (sequence.queue : Multiset Json)) +
          (node.commentBehind.toList : List Json) := by abel
      _ = _ := by
        rw [hfront, hwithin, hbehind, Multiset.coe_nil, zero_add]
        abel

/-- The object `{ a: b }`, with a comment before its member and two behind it. -/
def annotatedObject : Json :=
  let node (kind : String) (fields : List (String × Json)) : Json :=
    .obj (("type", .str kind) :: fields)
  let name (s : String) : Json := node "Identifier" [("name", .str s)]
  let comment (kind value : String) : Json := node kind [("value", .str value)]
  node "ObjectExpression" [("properties", .arr [node "Property"
    [("key", name "a"), ("value", name "b"), ("kind", .str "init"),
      ("leadingComments", .arr [comment "Block" "first"]),
      ("trailingComments", .arr [comment "Line" "second", comment "Line" "third"])]])]

theorem handle_keeps_member_annotatedObject :
    ∃ list member after, annotatedObject.require "properties" = .ok list ∧
      Json.itemsOf list = .ok [some member] ∧
      ({ setting := {} } : Rendering).handle .value annotatedObject = .ok after ∧
      ∃ start lead own tail rest, after.draft.commands = start ++ (lead ++ own ++ tail) ++ rest ∧
        commentsIn (events lead) = [.obj [("type", .str "Block"), ("value", .str "first")]] ∧
        .obj [("type", .str "Line"), ("value", .str "second")] ∈ commentsIn (events tail) := by
  obtain ⟨after, hafter⟩ : ∃ after,
      ({ setting := {} } : Rendering).handle .value annotatedObject = .ok after := by
    have hfits : annotatedObject.fits (.node ["ObjectExpression"]) = true := by decide
    obtain ⟨kind, -, hkind⟩ := Json.isA_of_fits hfits
    obtain ⟨e, he, -⟩ := Render.safe_tree .value (by decide) hkind {} [] (by simp)
    exact ⟨_, Rendering.handle_eq_ok_iff.mpr (Rendering.run_eq_ok_iff.mpr ⟨e, he, rfl, rfl⟩)⟩
  obtain ⟨start, lead, -, own, tail, rest, -, hcommands, -, -, hlead, htail, -, -⟩ :=
    handle_keeps_member (show annotatedObject.kind = _ from rfl) rfl
      (show _ = Except.ok ([] ++ some _ :: []) from rfl) rfl rfl hafter
  refine ⟨_, _, after, rfl, rfl, hafter, start, lead, own.commands, tail, rest, hcommands, hlead, ?_⟩
  rw [htail]
  exact List.mem_append_right _ (List.mem_singleton.mpr rfl)

/-- The assignment `x = { m() {} }`, with a comment before the method. -/
def annotatedMethod : Json :=
  let node (kind : String) (fields : List (String × Json)) : Json :=
    .obj (("type", .str kind) :: fields)
  let name (s : String) : Json := node "Identifier" [("name", .str s)]
  node "ExpressionStatement" [("expression", node "AssignmentExpression"
    [("operator", .str "="), ("left", name "x"),
      ("right", node "ObjectExpression" [("properties", .arr [node "Property"
        [("kind", .str "init"), ("method", .bool true), ("key", name "m"),
          ("value", node "FunctionExpression" [("params", .arr []),
            ("body", node "BlockStatement" [("body", .arr [])])]),
          ("leadingComments", .arr [node "Block" [("value", .str "doc")]])]])])])]

/-- The comment before a method is not printed. -/
theorem print_drops_method_comments :
    (printTree {} annotatedMethod).toOption.map Output.code = some "x = { m() {} };" := by
  decide +kernel

end EstreePrinter
