import Mathlib
import EstreePrinter.Proofs.Render.Emitted
import EstreePrinter.Proofs.Render.Noted

/-!
# No comment is lost

A rendering that notes what it handles (`Render.noted`) emits notes and comments, and here the two
are balanced against each other.  Of a step are counted

* the nodes that it handles, which are no more than it may render;
* the comments before nodes, which are emitted at once: as many as belong to the nodes that it
  handles, except for those it owes to or has been lent by what stands around it;
* the comments behind nodes, which go through the queue: what waited before and what the step has
  queued is what it has emitted, in this order, and what waits behind it.

This is `Render.Account`, and accounts of steps one after the other add up (`Account.append`).  What
a step owes or is lent settles the two exceptions to the rule that a node is handled together with
the comments before it: a statement of a block, whose comments the block emits, and the cases of a
`switch` statement, which are no nodes that are handled but have comments before them.

**`Render.accounted_tree`** — the rendering of a tree is balanced.
-/

namespace EstreePrinter

open Json (Part)

/-! ## The comments of a node -/

namespace Json

/-- The comments before a node. -/
def commentsBefore (node : Json) : List Json :=
  match node.comments "leadingComments" with
  | .ok list => list
  | .error _ => []

/-- The cases of a `switch` statement; no other node has any. -/
def cases (node : Json) : List Json :=
  match node.kind with
  | .ok kind =>
    if kind.isText "SwitchStatement" then
      match node.require "cases" >>= Json.parts with
      | .ok parts => parts.map Subtype.val
      | .error _ => []
    else []
  | .error _ => []

/-- The comments that are emitted before a node and before its cases. -/
def commentsOn (node : Json) : List Json :=
  node.commentsBefore ++ node.cases.flatMap commentsBefore

lemma commentsBefore_eq {node : Json} {list : List Json}
    (h : node.comments "leadingComments" = .ok list) : node.commentsBefore = list := by
  rw [commentsBefore, h]

lemma cases_of_kind {node : Json} {name : String} (hkind : node.kind = .ok (.str name))
    (hname : name ≠ "SwitchStatement") : node.cases = [] := by
  simp [cases, hkind, isText, hname]

lemma cases_of_parts {node : Json} (hkind : node.kind = .ok (.str "SwitchStatement"))
    {part : Part node} (hpart : node.require "cases" = .ok part) {list : List (Part node)}
    (hlist : Json.parts part = .ok list) : node.cases = list.map Subtype.val := by
  simp [cases, hkind, isText, hpart, hlist]

end Json

/-! ## Events -/

/-- What a rendering did, as far as comments are concerned. -/
inductive Event where
  /-- A node has been handled. -/
  | handled (node : Json)
  /-- A comment has been emitted. -/
  | comment (comment : Json)

namespace Event

def node? : Event → Option Json
  | .handled node => some node
  | .comment _ => none

def comment? : Event → Option Json
  | .handled _ => none
  | .comment c => some c

end Event

/-- The nodes that have been handled, in the order in which they were done with. -/
def handledIn (events : List Event) : List Json := events.filterMap Event.node?

/-- The comments that have been emitted. -/
def commentsIn (events : List Event) : List Json := events.filterMap Event.comment?

@[simp] lemma handledIn_nil : handledIn [] = [] := rfl

@[simp] lemma commentsIn_nil : commentsIn [] = [] := rfl

@[simp] lemma handledIn_append (es fs : List Event) :
    handledIn (es ++ fs) = handledIn es ++ handledIn fs := List.filterMap_append

@[simp] lemma commentsIn_append (es fs : List Event) :
    commentsIn (es ++ fs) = commentsIn es ++ commentsIn fs := List.filterMap_append

@[simp] lemma handledIn_comments (comments : List Json) :
    handledIn (comments.map .comment) = [] := by
  simp [handledIn, Function.comp_def, Event.node?]

@[simp] lemma commentsIn_comments (comments : List Json) :
    commentsIn (comments.map .comment) = comments := by
  simp [commentsIn, Function.comp_def, Event.comment?]

namespace Command

/-- The event of a leaf. -/
def event? : Command → Option Event
  | .comment c _ => some (.comment c)
  | c => c.noted?.map .handled

/-- The events of commands. -/
def events (commands : List Command) : List Event := (leavesAll commands).filterMap event?

@[simp] lemma events_nil : events [] = [] := by simp [events]

@[simp] lemma events_append (cs ds : List Command) :
    events (cs ++ ds) = events cs ++ events ds := by
  simp [events]

lemma events_cons (c : Command) (rest : List Command) :
    events (c :: rest) = (leaves c).filterMap event? ++ events rest := by
  simp [events]

/-- A plain command is no event. -/
lemma IsPlain.events {c : Command} (h : c.IsPlain) : (leaves c).filterMap event? = [] := by
  cases c with
  | text s => simp [leaves, event?, Command.noted?]
  | newline => simp [leaves, event?, Command.noted?]
  | foreign v => simp [leaves, event?, Command.noted?]
  | _ => exact absurd h id

lemma events_plain {c : Command} (h : c.IsPlain) (rest : List Command) :
    events (c :: rest) = events rest := by
  rw [events_cons, h.events, List.nil_append]

lemma events_of_isPlain {commands : List Command} (h : ∀ c ∈ commands, c.IsPlain) :
    events commands = [] := by
  induction commands with
  | nil => simp
  | cons c rest ih =>
      rw [events_cons, (h c (by simp)).events, ih fun d hd => h d (by simp [hd])]
      rfl

@[simp] lemma events_text (s : String) (rest : List Command) :
    events (.text s :: rest) = events rest := by
  have hplain : (Command.text s).IsPlain := trivial
  exact events_plain hplain rest

@[simp] lemma events_newline (rest : List Command) :
    events (.newline :: rest) = events rest := by
  have hplain : Command.newline.IsPlain := trivial
  exact events_plain hplain rest

@[simp] lemma events_indent (rest : List Command) : events (.indent :: rest) = events rest := by
  simp [events_cons, leaves, event?, Command.noted?]

@[simp] lemma events_dedent (rest : List Command) : events (.dedent :: rest) = events rest := by
  simp [events_cons, leaves, event?, Command.noted?]

@[simp] lemma events_comment (c : Json) (after : Break) (rest : List Command) :
    events (.comment c after :: rest) = .comment c :: events rest := by
  simp [events_cons, leaves, event?]

@[simp] lemma events_deferred (name : String) (contents rest : List Command) :
    events (.deferred name contents :: rest) = events contents ++ events rest := by
  simp [leaves, events]

@[simp] lemma events_note (node : Json) : events [.note node] = [.handled node] := by
  simp [events, note, leaves, event?, Command.noted?]

lemma events_chunkOf (content : Json) (span : Option Span) :
    events [chunkOf content span] = [] := by
  have h := noted?_chunkOf content span
  cases content <;> simp_all [events, chunkOf, leaves, event?]

end Command

open Command (events)

namespace Slot

/-- The events of slots, their open places left out. -/
def events (slots : List Slot) : List Event := Command.events (fill "" [] slots)

@[simp] lemma events_nil : events [] = [] := by simp [events, fill]

@[simp] lemma events_append (xs ys : List Slot) : events (xs ++ ys) = events xs ++ events ys := by
  simp [events, fill_append]

@[simp] lemma events_ofCommands (commands : List Command) :
    events (ofCommands commands) = Command.events commands := by
  simp [events]

@[simp] lemma events_join (rest : List Slot) : events (.join :: rest) = events rest := by
  simp [events, fill]

@[simp] lemma events_text (s : String) (rest : List Slot) :
    events (.own (.text s) :: rest) = events rest := by
  simp [events, fill]

/-- What fills the open places is no event. -/
lemma events_fill (name : String) {contents : List Command} (h : Command.events contents = [])
    (slots : List Slot) : Command.events (fill name contents slots) = events slots := by
  induction slots with
  | nil => rfl
  | cons slot rest ih =>
      cases slot with
      | own c => simpa [fill, events, Command.events_cons] using ih
      | join => simpa [fill, events, h] using ih

@[simp] lemma events_itemComments (isLast : Bool) (comments : List Json) :
    events (Render.itemComments isLast comments) = comments.map .comment := by
  induction comments with
  | nil => simp [Render.itemComments]
  | cons comment rest ih =>
      cases isLast <;> simpa [Render.itemComments, events, fill] using ih

end Slot

namespace Render

/-! ## Accounts -/

/-- **The account of a step**: it handles nodes in `u`, owes the comments `owed` and has been lent
the comments `lent`; `queue` waits before it and `queue'` behind it.  Of the comments that it emits
those on the left were emitted before nodes, and those on the right come from the queue. -/
structure Account (u owed lent : Multiset Json) (queue : List Json) (events : List Event)
    (queue' : List Json) : Prop where
  handled : (handledIn events : Multiset Json) ≤ u
  balanced : ∃ emitted : List (Json ⊕ Json),
    emitted.map (Sum.elim id id) = commentsIn events ∧
    ((emitted.filterMap Sum.getLeft? : List Json) : Multiset Json) + lent =
      ((handledIn events).flatMap Json.commentsOn : List Json) + owed ∧
    queue ++ (handledIn events).filterMap Json.commentBehind =
      emitted.filterMap Sum.getRight? ++ queue'

namespace Account

variable {u v owed owed' lent lent' : Multiset Json} {q q' q'' : List Json}
  {es fs : List Event}

lemma nil (q : List Json) : Account 0 0 0 q [] q := ⟨by simp, [], by simp⟩

/-- **Accounts add up.** -/
lemma append (h : Account u owed lent q es q') (h' : Account v owed' lent' q' fs q'') :
    Account (u + v) (owed + owed') (lent + lent') q (es ++ fs) q'' := by
  obtain ⟨hhandled, emitted, hcomments, hbefore, hqueue⟩ := h
  obtain ⟨hhandled', emitted', hcomments', hbefore', hqueue'⟩ := h'
  refine ⟨?_, emitted ++ emitted', by simp [hcomments, hcomments'], ?_, ?_⟩
  · rw [handledIn_append, ← Multiset.coe_add]
    exact add_le_add hhandled hhandled'
  · simp only [List.filterMap_append, handledIn_append, List.flatMap_append, ← Multiset.coe_add]
    rw [add_add_add_comm, hbefore, hbefore', add_add_add_comm]
  · rw [handledIn_append, List.filterMap_append, ← List.append_assoc, hqueue, List.append_assoc,
      hqueue', List.filterMap_append, List.append_assoc]

lemma mono (huv : u ≤ v) (h : Account u owed lent q es q') : Account v owed lent q es q' :=
  ⟨h.handled.trans huv, h.balanced⟩

/-- What has been lent may be used to pay what is owed. -/
lemma settle (debt : Multiset Json) (h : Account u (owed + debt) (lent + debt) q es q') :
    Account u owed lent q es q' := by
  obtain ⟨hhandled, emitted, hcomments, hbefore, hqueue⟩ := h
  refine ⟨hhandled, emitted, hcomments, ?_, hqueue⟩
  rw [← add_assoc, ← add_assoc] at hbefore
  exact add_right_cancel hbefore

/-- Comments that are emitted before a node. -/
lemma before (comments q : List Json) : Account 0 comments 0 q (comments.map .comment) q := by
  refine ⟨by simp, comments.map .inl, ?_, ?_, ?_⟩
  · simp [Function.comp_def]
  · simp [List.filterMap_map, Function.comp_def]
  · simp [List.filterMap_map, Function.comp_def]

/-- The comments that waited are emitted. -/
lemma drained (q : List Json) : Account 0 0 0 q (q.map .comment) [] := by
  refine ⟨by simp, q.map .inr, ?_, ?_, ?_⟩
  · simp [Function.comp_def]
  · simp [List.filterMap_map, Function.comp_def]
  · simp [List.filterMap_map, Function.comp_def]

/-- A node is done with: the comment behind it waits, and the comments before it are due. -/
lemma note (node : Json) (q : List Json) :
    Account {node} 0 node.commentsOn q [.handled node] (q ++ node.commentBehind.toList) := by
  refine ⟨by simp [handledIn, Event.node?], [], by simp [commentsIn, Event.comment?], ?_, ?_⟩
  · simp [handledIn, Event.node?]
  · cases h : node.commentBehind <;> simp [handledIn, Event.node?, h]

end Account

/-! ## Steps -/

variable {α β : Type} {s : Setting} {q : List Json} {u v owed owed' lent lent' : Multiset Json}

/-- A step has an account of all its runs. -/
def Accounted (u owed lent : Multiset Json) (x : Render α) : Prop :=
  ∀ s q e, x s q = .ok e → Account u owed lent q (events e.commands) e.queue

lemma Accounted.bind {x : Render α} {f : α → Render β} (hx : Accounted u owed lent x)
    (hf : ∀ a, Accounted v owed' lent' (f a)) :
    Accounted (u + v) (owed + owed') (lent + lent') (x >>= f) := by
  intro s q e h
  obtain ⟨first, hfirst, second, hsecond, rfl⟩ := bind_eq_ok_iff.mp h
  simpa [Emission.andThen] using (hx _ _ _ hfirst).append (hf _ _ _ _ hsecond)

/-- A step that neither handles a node nor emits a comment. -/
lemma accounted_silent {x : Render α}
    (h : ∀ s q e, x s q = .ok e → events e.commands = [] ∧ e.queue = q) : Accounted 0 0 0 x := by
  intro s q e he
  obtain ⟨hevents, hqueue⟩ := h s q e he
  rw [hevents, hqueue]
  exact Account.nil q

lemma Accounted.after {x : Render α} {f : α → Render β} (hx : Accounted 0 0 0 x)
    (hf : ∀ a, Accounted u owed lent (f a)) : Accounted u owed lent (x >>= f) := by
  simpa using hx.bind hf

lemma Accounted.ending {x : Render α} {y : Render β} (hx : Accounted u owed lent x)
    (hy : Accounted 0 0 0 y) : Accounted u owed lent (x >>= fun _ => y) := by
  simpa using hx.bind fun _ => hy

lemma accounted_readOf {x : Except Fault α} {f : α → Render β}
    (hf : ∀ a, x = .ok a → Accounted u owed lent (f a)) :
    Accounted u owed lent ((liftM x : Render α) >>= f) := by
  intro s q e h
  obtain ⟨a, ha, hrest⟩ := read_bind_eq_ok_iff.mp h
  exact hf a ha s q e hrest

lemma accounted_read {x : Except Fault α} {f : α → Render β}
    (hf : ∀ a, Accounted u owed lent (f a)) :
    Accounted u owed lent ((liftM x : Render α) >>= f) :=
  accounted_readOf fun a _ => hf a

lemma accounted_pure (a : α) : Accounted 0 0 0 (pure a : Render α) :=
  accounted_silent fun s q e h => by
    obtain rfl := Except.ok.inj h
    exact ⟨by simp, rfl⟩

lemma accounted_emit {commands : List Command} (h : events commands = []) :
    Accounted 0 0 0 (emit commands) :=
  accounted_silent fun s q e he => by
    obtain rfl := Except.ok.inj he
    exact ⟨h, rfl⟩

lemma Accounted.mono {x : Render α} (huv : u ≤ v) (h : Accounted u owed lent x) :
    Accounted v owed lent x :=
  fun s q e he => (h s q e he).mono huv

lemma Accounted.settle (debt : Multiset Json) {x : Render α}
    (h : Accounted u (owed + debt) (lent + debt) x) : Accounted u owed lent x :=
  fun s q e he => (h s q e he).settle debt

lemma accounted_setting : Accounted 0 0 0 setting :=
  accounted_silent fun s q e h => by
    obtain rfl := Except.ok.inj h
    exact ⟨by simp, rfl⟩

/-! ## Comments -/

lemma events_leading {newlines : Bool} {node : Json} {comments : List Json}
    {commands : List Command} (h : leading newlines node comments = .ok commands) :
    events commands = comments.map .comment := by
  induction comments generalizing commands with
  | nil =>
      obtain rfl := Except.ok.inj h
      simp
  | cons comment rest ih =>
      obtain ⟨breaks, -, others, hothers, rfl⟩ := leading_cons_eq_ok h
      simp [ih hothers]

lemma accounted_leadingComments (newlines : Bool) (node : Json) (comments : List Json) :
    Accounted 0 comments 0 (leadingComments newlines node comments) := by
  intro s q e h
  obtain ⟨commands, hcommands, rfl⟩ := leadingComments_eq_ok_iff.mp h
  rw [events_leading hcommands]
  exact Account.before comments q

lemma events_afterStatement {newline : Bool} {comments : List Json} {commands : List Command}
    (h : afterStatement newline comments = .ok commands) :
    events commands = comments.map .comment := by
  induction comments generalizing newline commands with
  | nil =>
      obtain rfl := Except.ok.inj h
      simp
  | cons comment rest ih =>
      rw [afterStatement] at h
      obtain ⟨line, -, h⟩ := EstreePrinter.bind_eq_ok_iff.mp h
      obtain ⟨others, hothers, h⟩ := EstreePrinter.bind_eq_ok_iff.mp h
      obtain rfl := Except.ok.inj h
      cases newline <;> simp [ih hothers]

lemma accounted_drainAfterStatement : Accounted 0 0 0 drainAfterStatement := by
  intro s q e h
  obtain ⟨commands, hcommands, rfl⟩ := drainAfterStatement_eq_ok_iff.mp h
  rw [events_afterStatement hcommands]
  exact Account.drained q

lemma events_betweenArguments {comments : List Json} {found : List Command × Bool}
    (h : betweenArguments comments = .ok found) : events found.1 = comments.map .comment := by
  induction comments generalizing found with
  | nil =>
      obtain rfl := Except.ok.inj h
      simp
  | cons comment rest ih =>
      rw [betweenArguments] at h
      obtain ⟨line, -, h⟩ := EstreePrinter.bind_eq_ok_iff.mp h
      obtain ⟨others, hothers, h⟩ := EstreePrinter.bind_eq_ok_iff.mp h
      obtain rfl := Except.ok.inj h
      simp [ih hothers]

/-! ## Lists that may break -/

lemma events_itemSlots (separator : String) (afterHole isLast : Bool) (commands : List Command)
    (comments : List Json) : Slot.events (itemSlots separator afterHole isLast commands comments) =
      events commands ++ comments.map .comment := by
  have hcomments := Slot.events_itemComments isLast comments
  cases comments with
  | nil => cases afterHole <;> cases isLast <;> simp [itemSlots]
  | cons comment rest => cases afterHole <;> cases isLast <;> simp [itemSlots, hcomments]

/-- **Over the items of a list**: the comments behind an item are emitted with it. -/
lemma account_items {separator : String} {nodes : α → Multiset Json} {item : α → Render Unit}
    (hitem : ∀ a, Accounted (nodes a) 0 0 (item a)) {afterHole : Bool} {list : List (Option α)}
    {e : Emission (List Slot × Bool)} (h : items separator item afterHole list s q = .ok e) :
    Account (list.map fun a => a.elim 0 nodes).sum 0 0 q (Slot.events e.value.1) e.queue := by
  induction list generalizing afterHole q e with
  | nil =>
      obtain rfl := Except.ok.inj h
      exact Account.nil q
  | cons a rest ih =>
      cases a with
      | none =>
          obtain ⟨others, hothers, rfl⟩ := items_hole_eq_ok_iff.mp h
          simpa using ih hothers
      | some a =>
          obtain ⟨inner, hinner, others, hothers, rfl⟩ := items_some_eq_ok_iff.mp h
          have hitems := ((hitem a _ _ _ hinner).append (Account.drained inner.queue)).append
            (ih hothers)
          simpa [events_itemSlots] using hitems

lemma events_decided (spaces broken : Bool) (slots : List Slot) :
    events (decided spaces broken slots) = Slot.events slots := by
  cases broken <;> cases spaces <;> simp [decided, assemble, Slot.events_fill]

lemma accounted_sequence (spaces : Bool) (separator : String) {nodes : α → Multiset Json}
    {item : α → Render Unit} (hitem : ∀ a, Accounted (nodes a) 0 0 (item a))
    (list : List (Option α)) : Accounted (list.map fun a => a.elim 0 nodes).sum 0 0
      (sequence spaces separator item list) := by
  intro s q e h
  by_cases hlist : list = []
  · subst hlist
    obtain rfl : _ = e := Except.ok.inj h
    simpa using Account.nil q
  · obtain ⟨first, hfirst, broken, -, rfl⟩ := (sequence_eq_ok_iff hlist).mp h
    simpa [events_decided] using account_items hitem hfirst

variable {node : Json} {inner : Inner node}

lemma account_joined (hinner : ∀ part, Accounted part.1.nodes 0 0 (inner.value part))
    {list : List (Part node)} {e : Emission (List Slot × Bool)}
    (h : joined inner.value list s q = .ok e) :
    Account (Json.nodesAll list) 0 0 q (Slot.events e.value.1) e.queue := by
  induction list generalizing q e with
  | nil =>
      obtain rfl := Except.ok.inj h
      exact Account.nil q
  | cons part rest ih =>
      obtain ⟨held, hheld, others, hothers, rfl⟩ := joined_cons_eq_ok h
      have hparts := (hinner part _ _ _ hheld).append (ih hothers)
      cases rest <;> simpa using hparts

lemma events_decidedDeclarations (keyword : String) (several broken : Bool) (slots : List Slot) :
    events (decidedDeclarations keyword several broken slots) = Slot.events slots := by
  cases broken <;> cases several <;>
    simp [decidedDeclarations, assembleDeclarations, Slot.events_fill]

lemma accounted_declarations (hinner : ∀ part, Accounted part.1.nodes 0 0 (inner.value part)) :
    Accounted (node.under "declarations") 0 0 (declarations node inner) := by
  intro s q e h
  obtain ⟨part, hpart, list, hlist, declare, -, kind, -, first, hfirst, broken, -, rfl⟩ :=
    declarations_eq_ok h
  have hnodes : Json.nodesAll list ≤ node.under "declarations" :=
    Json.under_of_require hpart ▸ Json.nodesAll_le_of_parts hlist
  cases declare <;>
    simpa [events_decidedDeclarations] using (account_joined hinner hfirst).mono hnodes

/-! ## Arguments and branches -/

lemma account_argumentGap {e : Emission (List Slot × Bool)} (h : Rules.argumentGap s q = .ok e) :
    Account 0 0 0 q (Slot.events e.value.1) [] := by
  rw [argumentGap_eq_ok_iff] at h
  split at h
  · obtain rfl : q = [] := ‹_›
    subst h
    simpa using Account.nil []
  · obtain ⟨found, hfound, rfl⟩ := h
    simpa [events_betweenArguments hfound] using Account.drained q

/-- **Over the arguments of a call**: the comments behind an argument are emitted with it, but for
the last one, whose comments wait. -/
lemma account_arguments (hinner : ∀ part, Accounted part.1.nodes 0 0 (inner.value part))
    {list : List (Part node)} {e : Emission Rules.Arguments}
    (h : Rules.arguments inner list s q = .ok e) :
    Account (Json.nodesAll list) 0 0 q (Slot.events e.value.front ++ events e.value.last)
      e.queue := by
  induction list generalizing q e with
  | nil =>
      obtain rfl : _ = e := Except.ok.inj h
      exact Account.nil q
  | cons argument rest ih =>
      by_cases hrest : rest = []
      · subst hrest
        obtain ⟨held, hheld, rfl⟩ := arguments_last_eq_ok_iff.mp h
        simpa using hinner _ _ _ _ hheld
      · obtain ⟨held, hheld, gap, hgap, others, hothers, rfl⟩ :=
          (arguments_cons_eq_ok_iff hrest).mp h
        have hparts := ((hinner _ _ _ _ hheld).append (account_argumentGap hgap)).append
          (ih hothers)
        simpa using hparts

lemma events_decidedArguments (broken : Bool) (args : Rules.Arguments) :
    events (decidedArguments broken args) = Slot.events args.front ++ events args.last := by
  cases broken <;> simp [decidedArguments, Rules.argumentList, Slot.events_fill]

lemma accounted_callArguments (hinner : ∀ part, Accounted part.1.nodes 0 0 (inner.value part)) :
    Accounted (node.under "arguments") 0 0 (Rules.callArguments inner) := by
  intro s q e h
  obtain ⟨part, hpart, list, hlist, args, hargs, broken, -, rfl⟩ := callArguments_eq_ok_iff.mp h
  have hnodes : Json.nodesAll list ≤ node.under "arguments" :=
    Json.under_of_require hpart ▸ Json.nodesAll_le_of_parts hlist
  simpa [events_decidedArguments] using (account_arguments hinner hargs).mono hnodes

lemma accounted_branches {x y : Render Unit} (hx : Accounted u 0 0 x) (hy : Accounted v 0 0 y) :
    Accounted (u + v) 0 0 (do
      let yes ← fork x
      let no ← fork y
      raiseIf (yes.multiline || no.multiline)
      emit (Rules.branches (yes.multiline || no.multiline) yes.commands no.commands)) := by
  intro s q e h
  obtain ⟨yes, hyes, no, hno, rfl⟩ := branches_eq_ok_iff.mp h
  have hboth := (hx _ _ _ hyes).append (hy _ _ _ hno)
  cases hbroken : yes.multiline || no.multiline <;> simpa [Rules.branches] using hboth

/-! ## Statements -/

lemma events_margin (before : Option Printed) (after : Printed) :
    events (margin before after) = [] := by
  cases before with
  | none => simp [margin]
  | some before =>
      cases hseparated : separates before after <;> simp [margin, hseparated]

/-- **Statements**: a block emits the comments before a statement itself, and so pays for them. -/
lemma accounted_bodyAfter
    (hinner : ∀ part, Accounted part.1.nodes 0 part.1.commentsBefore (inner.bare part))
    (before : Option Printed) (statements : List (Part node)) :
    Accounted (Json.nodesAll statements) 0 0 (bodyAfter inner before statements) := by
  induction statements generalizing before with
  | nil => exact accounted_pure _
  | cons statement rest ih =>
      intro s q e h
      rw [Json.nodesAll_cons]
      obtain ⟨kind, -, h⟩ := bodyAfter_cons_eq_ok h
      split at h
      · exact (ih before _ _ _ h).mono (Multiset.le_add_left _ _)
      · obtain ⟨list, hlist, comments, hcomments, held, hheld, drained, hdrained, others, hothers,
          hcommands, hqueue⟩ := h
        have hheld := hinner statement _ _ _ hheld
        rw [Json.commentsBefore_eq hlist] at hheld
        have hstatement : Account statement.1.nodes 0 0 q
            (list.map .comment ++ events held.commands) held.queue := by
          refine Account.settle list ?_
          simpa using (Account.before list q).append hheld
        have hrest := (accounted_drainAfterStatement _ _ _ hdrained).append (ih _ _ _ _ hothers)
        rw [hcommands, hqueue]
        simpa [events_margin, events_leading hcomments] using hstatement.append hrest

lemma accounted_braced {x : Render Unit} (h : Accounted u 0 0 x) : Accounted u 0 0 (braced x) :=
  Accounted.after (accounted_emit (by simp)) fun _ => h.ending (accounted_emit (by simp))

/-! ## Switch statements -/

section Switch

variable (hinner : ∀ part, Accounted part.1.nodes 0 0 (inner.value part))

include hinner

lemma accounted_caseStatements (statements : List (Part node)) :
    Accounted (Json.nodesAll statements) 0 0 (Rules.caseStatements inner statements) := by
  induction statements with
  | nil => exact accounted_pure _
  | cons statement rest ih =>
      rw [Json.nodesAll_cons]
      refine Accounted.after (accounted_emit (by simp)) fun _ => ?_
      simpa using (hinner statement).bind fun _ => accounted_drainAfterStatement.after fun _ => ih

/-- A case emits the comments before it, though it is no node that is handled. -/
lemma accounted_switchCase :
    Accounted node.within node.commentsBefore 0 (Rules.switchCase inner) := by
  have htext (s : String) : Accounted 0 0 0 (text s) := accounted_emit (by simp)
  have hconsequent : Accounted (node.under "consequent") 0 0 (do
      emit [.indent]
      Rules.caseStatements inner (← Json.parts (← node.require "consequent"))
      emit [.dedent]) := by
    refine Accounted.after (accounted_emit (by simp)) fun _ => ?_
    refine accounted_readOf fun part hpart => accounted_readOf fun list hlist => ?_
    rw [Json.under_of_require hpart]
    exact ((accounted_caseStatements hinner list).ending (accounted_emit (by simp))).mono
      (Json.nodesAll_le_of_parts hlist)
  refine accounted_readOf fun comments hcomments => ?_
  rw [Json.commentsBefore_eq hcomments]
  have hbehind {u : Multiset Json} {f : Render Unit} (hf : Accounted u 0 0 f) :
      Accounted u comments 0 (leadingComments true .null comments >>= fun _ => f) := by
    simpa using (accounted_leadingComments true .null comments).bind fun _ => hf
  refine (hbehind (accounted_readOf fun test htest => ?_)).mono
    (u := node.under "test" + node.under "consequent")
    ((node.underAll_le (by decide : ["test", "consequent"].Nodup)).trans' (by simp))
  have hnodes := Json.nodesIn_le_of_given htest
  cases test with
  | none => exact ((htext _).after fun _ => hconsequent).mono (Multiset.le_add_left _ _)
  | some test =>
      have hboth := (hinner test).bind fun _ => (htext ":").after fun _ => hconsequent
      exact ((htext _).after fun _ => by simpa using hboth).mono (add_le_add_left hnodes _)

lemma accounted_switchCases (isFirst : Bool) (cases : List (Part node)) :
    Accounted (Json.nodesAll cases)
      ((cases.map Subtype.val).flatMap Json.commentsBefore : List Json) 0
      (Rules.switchCases inner isFirst cases) := by
  induction cases generalizing isFirst with
  | nil => exact accounted_pure ()
  | cons case rest ih =>
      have hcase : Accounted (Json.nodesAll (case :: rest))
          (((case :: rest).map Subtype.val).flatMap Json.commentsBefore : List Json) 0 (do
            emit [.newline]
            Rules.switchCase (inner.under case)
            Rules.switchCases inner false rest) := by
        refine Accounted.after (accounted_emit (by simp)) fun _ => ?_
        have hparts (part : Part case.1) : Accounted part.1.nodes 0 0
            ((inner.under case).value part) := hinner (case.within part)
        have hfirst := (accounted_switchCase hparts).mono case.1.within_le
        simpa using hfirst.bind fun _ => ih false
      unfold Rules.switchCases
      split
      · exact Accounted.after (accounted_emit (by simp)) fun _ => hcase
      · exact hcase

lemma accounted_switchRule (hkind : node.kind = .ok (.str "SwitchStatement")) :
    Accounted node.within (node.cases.flatMap Json.commentsBefore : List Json) 0
      (Rules.switchRule node inner) := by
  have hcases : Accounted (node.under "cases")
      (node.cases.flatMap Json.commentsBefore : List Json) 0 (do
        emit [.text ") \x7b", .indent]
        Rules.switchCases inner true (← Json.parts (← node.require "cases"))
        emit [.dedent, .newline, .text "\x7d"]) := by
    refine Accounted.after (accounted_emit (by simp)) fun _ => ?_
    refine accounted_readOf fun part hpart => accounted_readOf fun list hlist => ?_
    rw [Json.cases_of_parts hkind hpart hlist, Json.under_of_require hpart]
    exact ((accounted_switchCases hinner true list).ending (accounted_emit (by simp))).mono
      (Json.nodesAll_le_of_parts hlist)
  have hdiscriminant : Accounted (node.under "discriminant") 0 0 (inner.field "discriminant") :=
    accounted_readOf fun part hpart => Json.under_of_require hpart ▸ hinner part
  refine Accounted.after (accounted_silent fun s q e h => ?_) fun _ =>
    Accounted.after (accounted_emit (by simp)) fun _ => ?_
  · obtain rfl := Except.ok.inj h
    exact ⟨by simp, rfl⟩
  · have hboth := hdiscriminant.bind fun _ => hcases
    simp only [zero_add, add_zero] at hboth
    have hnodes : node.underAll ["discriminant", "cases"] ≤ node.within :=
      node.underAll_le (by decide)
    exact hboth.mono (by simpa using hnodes)

end Switch

/-! ## Trees -/

/-- What a node emits beside the comments before it. -/
abbrev AccountedOwn (node : Json) (x : Render Unit) : Prop :=
  Accounted node.within (node.cases.flatMap Json.commentsBefore : List Json) 0 x

/-- **Being accounted for is a correspondence**, of which only the right side counts. -/
def accounting : Correspondence where
  Applies _ := True
  applies_inside _ _ := trivial
  Related u _ y := Accounted u 0 0 y
  Bare node _ y := Accounted node.nodes 0 node.commentsBefore y
  Own node _ y := AccountedOwn node y
  mono huv h := h.mono huv
  pure := accounted_pure
  bind hx hf := by simpa using hx.bind hf
  read x := accounted_silent fun s q e h => by
    obtain ⟨a, -, rfl⟩ := read_eq_ok_iff.mp h
    exact ⟨by simp, rfl⟩
  quote h := accounted_setting.after fun s => h s.quote
  noIn h := accounted_setting.after fun s => h s.noIn
  withNoIn b _ _ h := fun s q e he => h { s with noIn := b } q e he
  emit h := accounted_emit (Command.events_of_isPlain h)
  chunk content {node} _ := accounted_read fun span =>
    accounted_emit (Command.events_chunkOf content span)
  raiseIf b := accounted_silent fun s q e h => by
    obtain rfl := Except.ok.inj h
    exact ⟨by simp, rfl⟩
  sequence spaces separator nodes _ _ hitem := accounted_sequence spaces separator hitem
  declarations := accounted_declarations
  arguments := accounted_callArguments
  branches := accounted_branches
  braced hbare statements := accounted_braced (accounted_bodyAfter hbare none statements)
  bareRead := accounted_readOf
  own _ hkind hname h := by simpa [AccountedOwn, Json.cases_of_kind hkind hname] using h
  program {node _ _} _ hkind hbare := by
    refine accounted_readOf fun part hpart => accounted_readOf fun list hlist => ?_
    rw [Json.cases_of_kind hkind (by decide)]
    refine (accounted_bodyAfter hbare none list).mono ?_
    refine (Json.nodesAll_le_of_parts hlist).trans ?_
    have hnodes : node.underAll ["body"] ≤ node.within := node.underAll_le (by decide)
    rw [← Json.under_of_require hpart]
    simpa using hnodes
  switch _ hkind hinner := accounted_switchRule hinner hkind

/-- A node is done with. -/
lemma accounted_note (node : Json) : Accounted {node} 0 node.commentsOn (do
    queueTrailing node
    emit [.note node]) := by
  intro s q e h
  obtain ⟨first, hfirst, second, hsecond, rfl⟩ := bind_eq_ok_iff.mp h
  obtain rfl := queueTrailing_eq_ok hfirst
  obtain rfl := Except.ok.inj hsecond
  simpa [Emission.andThen] using Account.note node q

/-- A node and what goes behind it: the comments before it and its cases are due, and the latter
have been emitted. -/
lemma accounted_bare {node : Json} (hobject : node.isObject = true) {x : Render Unit}
    (h : AccountedOwn node x) : Accounted node.nodes 0 node.commentsBefore (do
      x
      queueTrailing node
      emit [.note node]) := by
  have hnode := h.bind fun _ => accounted_note node
  have hnodes : node.within + {node} = node.nodes := by
    rw [Json.nodes_eq_cons hobject, add_comm, Multiset.singleton_add]
  rw [hnodes, Json.commentsOn, ← Multiset.coe_add, zero_add, add_zero] at hnode
  refine Accounted.settle (node.cases.flatMap Json.commentsBefore : List Json) ?_
  rwa [zero_add]

lemma accounted_value {node : Json} (hobject : node.isObject = true) {x : Render Unit}
    (h : AccountedOwn node x) : Accounted node.nodes 0 0 (noted .value node x) := by
  simp only [noted, dressed, bind_assoc]
  refine accounted_readOf fun comments hcomments => ?_
  refine Accounted.settle node.commentsBefore ?_
  rw [← Json.commentsBefore_eq hcomments]
  simpa using (accounted_leadingComments false node _).bind fun _ => accounted_bare hobject h

/-- **The rendering of a tree is balanced**: it handles each node at most as often as it occurs, and
emits just the comments of the nodes that it handles. -/
theorem accounted_tree (node : Json) : Accounted node.nodes 0 0 (treeWith noted .value node) := by
  have hdress : accounting.Dresses noted noted :=
    { value := fun _ hobject h => accounted_value hobject h
      bare := fun {node _ y} _ hobject h => by
        show Accounted node.nodes 0 node.commentsBefore (noted .bare node y)
        simpa only [noted, dressed, bind_assoc] using accounted_bare hobject h
      type := fun {node _ _} _ _ h => h.mono node.within_le }
  have htree : accounting.Rendered .value node (treeWith noted .value node)
      (treeWith noted .value node) := accounting.treeWith hdress .value trivial
  exact htree

end Render

end EstreePrinter
