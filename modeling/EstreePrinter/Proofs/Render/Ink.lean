import Mathlib
import EstreePrinter.Proofs.Linearizer.Written
import EstreePrinter.Proofs.Render.Layout
import EstreePrinter.Proofs.Render.Settled

/-!
# What of the output does not depend on the width

Two renderings of the same tree under different widths make different decisions, so their commands
differ.  What does not differ is the ink: the characters other than blanks and line feeds, and the
places of the source between them.

* `Command.ink`, `trace` — the ink of a leaf, and of a sequence of commands;
* `Emission.Alike` — two emissions with the same value, the same waiting comments and the same ink;
* **`Render.blind`** — the invariant that two runs of a step under settings which differ in nothing
  but the width are alike, if both succeed.
-/

namespace EstreePrinter

open Json (Part)

/-- A text without its blanks and line feeds. -/
def inked (text : List Char) : List Char := text.filter fun c => !isBlank c

@[simp] lemma inked_append (text more : List Char) :
    inked (text ++ more) = inked text ++ inked more :=
  List.filter_append ..

namespace Command

/-- The ink of a leaf: the characters it writes, and the places of the source before and behind
them. -/
def ink : Command → List (Char ⊕ Position)
  | .text s => (inked s.toList).map .inl
  | .chunk s none => (inked s.toList).map .inl
  | .chunk s (some span) => .inr span.start :: (inked s.toList).map .inl ++ [.inr span.stop]
  | .comment c _ => (inked (commentAt "" 0 c)).map .inl
  | _ => []

end Command

/-- The ink of a sequence of commands. -/
def trace (commands : List Command) : List (Char ⊕ Position) :=
  (Command.leavesAll commands).flatMap Command.ink

@[simp] lemma trace_nil : trace [] = [] := by simp [trace]

@[simp] lemma trace_append (cs ds : List Command) : trace (cs ++ ds) = trace cs ++ trace ds := by
  simp [trace]

@[simp] lemma trace_deferred (name : String) (contents rest : List Command) :
    trace (.deferred name contents :: rest) = trace contents ++ trace rest := by
  simp [trace, Command.leaves]

lemma trace_text (content : String) (rest : List Command) :
    trace (.text content :: rest) = (inked content.toList).map .inl ++ trace rest := by
  simp [trace, Command.leaves, Command.ink]

namespace Slot

/-- Slots that have the same ink once their open places are filled with the same ink. -/
def Alike (xs ys : List Slot) : Prop :=
  ∀ name join join', trace join = trace join' → trace (fill name join xs) = trace (fill name join' ys)

lemma alike_nil : Alike [] [] := fun _ _ _ _ => rfl

lemma alike_join : Alike [.join] [.join] := by
  intro name join join' h
  simpa [fill] using h

lemma alike_ofCommands {cs ds : List Command} (h : trace cs = trace ds) :
    Alike (ofCommands cs) (ofCommands ds) := by
  intro name join join' _
  simpa using h

lemma alike_own (c : Command) : Alike [.own c] [.own c] := by
  have h : trace [c] = trace [c] := rfl
  exact alike_ofCommands h

lemma Alike.append {xs ys xs' ys' : List Slot} (h : Alike xs ys) (h' : Alike xs' ys') :
    Alike (xs ++ xs') (ys ++ ys') := by
  intro name join join' hjoin
  simp only [fill_append, trace_append, h name join join' hjoin, h' name join join' hjoin]

lemma Alike.ite {c : Prop} [Decidable c] {xs ys xs' ys' : List Slot} (h : Alike xs ys)
    (h' : Alike xs' ys') : Alike (if c then xs else xs') (if c then ys else ys') := by
  split
  · exact h
  · exact h'

/-- Slots that were not rendered are the same in both runs. -/
lemma alike_refl (xs : List Slot) : Alike xs xs := by
  induction xs with
  | nil => exact alike_nil
  | cons x rest ih =>
      cases x with
      | own c => exact (alike_own c).append ih
      | join => exact alike_join.append ih

end Slot

/-- Settings that differ in nothing but the width. -/
structure Setting.Alike (s s' : Setting) : Prop where
  quote : s.quote = s'.quote
  noIn : s.noIn = s'.noIn

/-- Emissions that differ in nothing but their layout. -/
structure Emission.Alike {α : Type} (e e' : Emission α) : Prop where
  value : e.value = e'.value
  queue : e.queue = e'.queue
  ink : trace e.commands = trace e'.commands

namespace Render

variable {s s' : Setting} {q : List Json}

/-- Two runs of a step that differ in nothing but the width differ in nothing but their layout. -/
def Blind {α : Type} (x : Render α) : Prop :=
  ∀ s s' q e e', s.Alike s' → x s q = .ok e → x s' q = .ok e' → e.Alike e'

/-! ## The constructs that decide afterwards -/

lemma alike_itemSlots (separator : String) (afterHole isLast : Bool) {cs ds : List Command}
    (comments : List Json) (h : trace cs = trace ds) :
    Slot.Alike (itemSlots separator afterHole isLast cs comments)
      (itemSlots separator afterHole isLast ds comments) :=
  (((Slot.alike_refl _).append (Slot.alike_ofCommands h)).append (Slot.alike_refl _)).append
    (Slot.alike_refl _)

lemma alike_items {α : Type} {separator : String} {item : α → Render Unit}
    (hitem : ∀ a, Blind (item a)) (hs : s.Alike s') {afterHole : Bool} {list : List (Option α)}
    {e e' : Emission (List Slot × Bool)} (h : items separator item afterHole list s q = .ok e)
    (h' : items separator item afterHole list s' q = .ok e') :
    Slot.Alike e.value.1 e'.value.1 ∧ e.queue = e'.queue := by
  induction list generalizing afterHole q e e' with
  | nil =>
      obtain rfl : _ = e := Except.ok.inj h
      obtain rfl : _ = e' := Except.ok.inj h'
      exact ⟨Slot.alike_nil, rfl⟩
  | cons a rest ih =>
      cases a with
      | none =>
          obtain ⟨others, hothers, rfl⟩ := items_hole_eq_ok_iff.mp h
          obtain ⟨others', hothers', rfl⟩ := items_hole_eq_ok_iff.mp h'
          obtain ⟨hslots, hqueue⟩ := ih hothers hothers'
          exact ⟨(Slot.alike_own (.text separator)).append hslots, hqueue⟩
      | some a =>
          obtain ⟨inner, hinner, others, hothers, rfl⟩ := items_some_eq_ok_iff.mp h
          obtain ⟨inner', hinner', others', hothers', rfl⟩ := items_some_eq_ok_iff.mp h'
          obtain ⟨hslots, hqueue⟩ := ih hothers hothers'
          have hheld := hitem a _ _ _ _ _ hs hinner hinner'
          -- the same comments wait behind the item in both runs
          rw [hheld.queue]
          exact ⟨(alike_itemSlots _ _ _ _ hheld.ink).append hslots, hqueue⟩

lemma trace_assemble {start stop join start' stop' join' : List Command} {xs ys : List Slot}
    (h : Slot.Alike xs ys) (hstart : trace start = trace start') (hstop : trace stop = trace stop')
    (hjoin : trace join = trace join') :
    trace (assemble start join stop xs) = trace (assemble start' join' stop' ys) := by
  simp only [assemble, trace_append, trace_deferred, hstart, hstop, h _ _ _ hjoin]

/-- However a list is broken, it has the same ink: its placeholders hold blanks and markers only. -/
lemma trace_decided {spaces broken broken' : Bool} {xs ys : List Slot} (h : Slot.Alike xs ys) :
    trace (decided spaces broken xs) = trace (decided spaces broken' ys) := by
  have hends (broken : Bool) (xs : List Slot) : ∃ start join stop,
      decided spaces broken xs = assemble start join stop xs ∧
        trace start = [] ∧ trace join = [] ∧ trace stop = [] := by
    cases broken with
    | true => exact ⟨_, _, _, rfl, rfl, rfl, rfl⟩
    | false =>
        cases spaces with
        | true => exact ⟨_, _, _, rfl, rfl, rfl, rfl⟩
        | false => exact ⟨_, _, _, rfl, rfl, rfl, rfl⟩
  obtain ⟨start, join, stop, hxs, hstart, hjoin, hstop⟩ := hends broken xs
  obtain ⟨start', join', stop', hys, hstart', hjoin', hstop'⟩ := hends broken' ys
  rw [hxs, hys]
  exact trace_assemble h (hstart.trans hstart'.symm) (hstop.trans hstop'.symm)
    (hjoin.trans hjoin'.symm)

lemma blind_sequence {α : Type} {spaces : Bool} {separator : String} {item : α → Render Unit}
    (hitem : ∀ a, Blind (item a)) (list : List (Option α)) :
    Blind (sequence spaces separator item list) := by
  intro s s' q e e' hs h h'
  by_cases hlist : list = []
  · subst hlist
    obtain rfl : _ = e := Except.ok.inj h
    obtain rfl : _ = e' := Except.ok.inj h'
    exact ⟨rfl, rfl, rfl⟩
  · obtain ⟨first, hfirst, broken, -, rfl⟩ := (sequence_eq_ok_iff hlist).mp h
    obtain ⟨first', hfirst', broken', -, rfl⟩ := (sequence_eq_ok_iff hlist).mp h'
    obtain ⟨hslots, hqueue⟩ := alike_items hitem hs hfirst hfirst'
    exact ⟨rfl, hqueue, trace_decided hslots⟩

lemma trace_margin (before : Option Printed) (after : Printed) :
    trace (margin before after) = [] := by
  cases before with
  | none => rfl
  | some before =>
      simp only [margin, trace_deferred]
      split
      · rfl
      · rfl

lemma blind_drainAfterStatement : Blind drainAfterStatement := by
  intro s s' q e e' hs h h'
  obtain ⟨commands, hcommands, rfl⟩ := drainAfterStatement_eq_ok_iff.mp h
  obtain ⟨commands', hcommands', rfl⟩ := drainAfterStatement_eq_ok_iff.mp h'
  obtain rfl : commands = commands' := Except.ok.inj (hcommands.symm.trans hcommands')
  exact ⟨rfl, rfl, rfl⟩

/-- Over the statements of a body.  The two runs may see different needs for lines in the statement
before, which is why that is not the same in both. -/
lemma blind_bodyAfter {node : Json} {inner : Inner node} (hinner : ∀ part, Blind (inner.bare part))
    (hs : s.Alike s') {before before' : Option Printed} {statements : List (Part node)}
    {e e' : Emission Unit} (h : bodyAfter inner before statements s q = .ok e)
    (h' : bodyAfter inner before' statements s' q = .ok e') : e.Alike e' := by
  induction statements generalizing before before' q e e' with
  | nil =>
      obtain rfl : _ = e := Except.ok.inj h
      obtain rfl : _ = e' := Except.ok.inj h'
      exact ⟨rfl, rfl, rfl⟩
  | cons statement rest ih =>
      obtain ⟨kind, hkind, h⟩ := bodyAfter_cons_eq_ok h
      obtain ⟨kind', hkind', h'⟩ := bodyAfter_cons_eq_ok h'
      obtain rfl : kind = kind' := Except.ok.inj (hkind.symm.trans hkind')
      by_cases hempty : kind.isText "EmptyStatement"
      · rw [if_pos hempty] at h h'
        exact ih h h'
      · rw [if_neg hempty] at h h'
        obtain ⟨list, hlist, comments, hcomments, held, hheld, drained, hdrained, others, hothers,
          hcommands, hqueue⟩ := h
        obtain ⟨list', hlist', comments', hcomments', held', hheld', drained', hdrained', others',
          hothers', hcommands', hqueue'⟩ := h'
        obtain rfl : list = list' := Except.ok.inj (hlist.symm.trans hlist')
        obtain rfl : comments = comments' := Except.ok.inj (hcomments.symm.trans hcomments')
        have hsame := hinner _ _ _ _ _ _ hs hheld hheld'
        rw [← hsame.queue] at hdrained'
        have hdrain := blind_drainAfterStatement _ _ _ _ _ hs hdrained hdrained'
        rw [← hdrain.queue] at hothers'
        have hrest := ih hothers hothers'
        refine ⟨rfl, ?_, ?_⟩
        · rw [hqueue, hqueue', hrest.queue]
        · simp only [hcommands, hcommands', trace_append, trace_margin, hsame.ink, hdrain.ink,
            hrest.ink]

lemma alike_joined {α : Type} {item : α → Render Unit} (hitem : ∀ a, Blind (item a))
    (hs : s.Alike s') {list : List α} {e e' : Emission (List Slot × Bool)}
    (h : joined item list s q = .ok e) (h' : joined item list s' q = .ok e') :
    Slot.Alike e.value.1 e'.value.1 ∧ e.queue = e'.queue := by
  induction list generalizing q e e' with
  | nil =>
      obtain rfl : _ = e := Except.ok.inj h
      obtain rfl : _ = e' := Except.ok.inj h'
      exact ⟨Slot.alike_nil, rfl⟩
  | cons a rest ih =>
      obtain ⟨inner, hinner, others, hothers, rfl⟩ := joined_cons_eq_ok h
      obtain ⟨inner', hinner', others', hothers', rfl⟩ := joined_cons_eq_ok h'
      have hheld := hitem a _ _ _ _ _ hs hinner hinner'
      rw [← hheld.queue] at hothers'
      obtain ⟨hslots, hqueue⟩ := ih hothers hothers'
      exact ⟨((Slot.alike_ofCommands hheld.ink).append (Slot.alike_refl _)).append hslots, hqueue⟩

/-- A declaration has its comma in both forms; the rest of its placeholders is blank. -/
lemma trace_decidedDeclarations {keyword : String} {several broken broken' : Bool}
    {xs ys : List Slot} (h : Slot.Alike xs ys) :
    trace (decidedDeclarations keyword several broken xs) =
      trace (decidedDeclarations keyword several broken' ys) := by
  have hform (broken : Bool) (xs : List Slot) : ∃ join,
      trace (decidedDeclarations keyword several broken xs) =
          (inked keyword.toList).map .inl ++ trace (Slot.fill "declarations-join" join xs) ∧
        trace join = [.inl ','] := by
    cases broken with
    | false =>
        refine ⟨[.text ", "], ?_, rfl⟩
        simp [decidedDeclarations, assembleDeclarations, trace_text]
    | true =>
        refine ⟨[.text ",", .newline], ?_, rfl⟩
        have hopen : trace (if several then [.indent] else []) = [] := by cases several <;> rfl
        have hclose : trace (if several then [.dedent] else []) = [] := by cases several <;> rfl
        simp [decidedDeclarations, assembleDeclarations, trace_text, hopen, hclose]
  obtain ⟨join, hxs, hjoin⟩ := hform broken xs
  obtain ⟨join', hys, hjoin'⟩ := hform broken' ys
  rw [hxs, hys, h _ _ _ (hjoin.trans hjoin'.symm)]

lemma blind_declarations {node : Json} {inner : Inner node}
    (hinner : ∀ part, Blind (inner.value part)) : Blind (declarations node inner) := by
  intro s s' q e e' hs h h'
  obtain ⟨part, hpart, list, hlist, declare, hdeclare, kind, hkind, first, hfirst, broken, -, rfl⟩ :=
    declarations_eq_ok h
  obtain ⟨part', hpart', list', hlist', declare', hdeclare', kind', hkind', first', hfirst',
    broken', -, rfl⟩ := declarations_eq_ok h'
  obtain rfl : part = part' := Except.ok.inj (hpart.symm.trans hpart')
  obtain rfl : list = list' := Except.ok.inj (hlist.symm.trans hlist')
  obtain rfl : declare = declare' := Except.ok.inj (hdeclare.symm.trans hdeclare')
  obtain rfl : kind = kind' := Except.ok.inj (hkind.symm.trans hkind')
  obtain ⟨hslots, hqueue⟩ := alike_joined hinner hs hfirst hfirst'
  refine ⟨rfl, hqueue, ?_⟩
  rw [trace_append, trace_append]
  exact congrArg _ (trace_decidedDeclarations hslots)

lemma alike_arguments {node : Json} {inner : Inner node}
    (hinner : ∀ part, Blind (inner.value part)) (hs : s.Alike s') {list : List (Part node)}
    {e e' : Emission Rules.Arguments} (h : Rules.arguments inner list s q = .ok e)
    (h' : Rules.arguments inner list s' q = .ok e') :
    Slot.Alike e.value.front e'.value.front ∧ trace e.value.last = trace e'.value.last ∧
      e.queue = e'.queue := by
  induction list generalizing q e e' with
  | nil =>
      obtain rfl : _ = e := Except.ok.inj h
      obtain rfl : _ = e' := Except.ok.inj h'
      exact ⟨Slot.alike_nil, rfl, rfl⟩
  | cons argument rest ih =>
      by_cases hrest : rest = []
      · subst hrest
        obtain ⟨held, hheld, rfl⟩ := arguments_last_eq_ok_iff.mp h
        obtain ⟨held', hheld', rfl⟩ := arguments_last_eq_ok_iff.mp h'
        have hsame := hinner _ _ _ _ _ _ hs hheld hheld'
        exact ⟨Slot.alike_nil, hsame.ink, hsame.queue⟩
      · obtain ⟨held, hheld, gap, hgap, others, hothers, rfl⟩ :=
          (arguments_cons_eq_ok_iff hrest).mp h
        obtain ⟨held', hheld', gap', hgap', others', hothers', rfl⟩ :=
          (arguments_cons_eq_ok_iff hrest).mp h'
        have hsame := hinner _ _ _ _ _ _ hs hheld hheld'
        obtain ⟨hfront, hlast, hqueue⟩ := ih hothers hothers'
        -- what goes between the arguments depends on the waiting comments only
        have hgaps : gap.value.1 = gap'.value.1 := by
          rw [← hsame.queue] at hgap'
          rw [argumentGap_eq_ok_iff] at hgap hgap'
          split at hgap
          · rename_i hnone
            rw [if_pos hnone] at hgap'
            rw [hgap, hgap']
          · rename_i hsome
            rw [if_neg hsome] at hgap'
            obtain ⟨found, hfound, rfl⟩ := hgap
            obtain ⟨found', hfound', rfl⟩ := hgap'
            rw [Except.ok.inj (hfound.symm.trans hfound')]
        rw [hgaps]
        exact ⟨((Slot.alike_ofCommands hsame.ink).append (Slot.alike_refl _)).append hfront, hlast,
          hqueue⟩

lemma trace_decidedArguments {broken broken' : Bool} {args args' : Rules.Arguments}
    (hfront : Slot.Alike args.front args'.front) (hlast : trace args.last = trace args'.last) :
    trace (decidedArguments broken args) = trace (decidedArguments broken' args') := by
  have hform (broken : Bool) (args : Rules.Arguments) : ∃ join,
      trace (decidedArguments broken args) =
          .inl '(' :: (trace (Slot.fill "arguments-join" join args.front) ++ trace args.last) ++
            [.inl ')'] ∧
        trace join = [.inl ','] := by
    have hparens (start join stop : List Command) (hstart : trace start = [])
        (hstop : trace stop = []) : trace (Rules.argumentList args start join stop) =
          .inl '(' :: (trace (Slot.fill "arguments-join" join args.front) ++ trace args.last) ++
            [.inl ')'] := by
      have hopen : inked ['('] = ['('] := rfl
      have hclose : inked [')'] = [')'] := rfl
      simp [Rules.argumentList, trace_text, hstart, hstop, hopen, hclose]
    cases broken with
    | false => exact ⟨[.text ", "], hparens _ _ _ rfl rfl, rfl⟩
    | true => exact ⟨[.text ",", .newline], hparens _ _ _ rfl rfl, rfl⟩
  obtain ⟨join, hargs, hjoin⟩ := hform broken args
  obtain ⟨join', hargs', hjoin'⟩ := hform broken' args'
  rw [hargs, hargs', hfront _ _ _ (hjoin.trans hjoin'.symm), hlast]

lemma blind_callArguments {node : Json} {inner : Inner node}
    (hinner : ∀ part, Blind (inner.value part)) : Blind (Rules.callArguments inner) := by
  intro s s' q e e' hs h h'
  obtain ⟨part, hpart, list, hlist, args, hargs, broken, -, rfl⟩ := callArguments_eq_ok_iff.mp h
  obtain ⟨part', hpart', list', hlist', args', hargs', broken', -, rfl⟩ :=
    callArguments_eq_ok_iff.mp h'
  obtain rfl : part = part' := Except.ok.inj (hpart.symm.trans hpart')
  obtain rfl : list = list' := Except.ok.inj (hlist.symm.trans hlist')
  obtain ⟨hfront, hlast, hqueue⟩ := alike_arguments hinner hs hargs hargs'
  exact ⟨rfl, hqueue, trace_decidedArguments hfront hlast⟩

lemma trace_branches (broken : Bool) (yes no : List Command) :
    trace (Rules.branches broken yes no) =
      .inl '?' :: trace yes ++ .inl ':' :: trace no := by
  cases broken with
  | false =>
      have hyes : trace [.text " ? "] = [.inl '?'] := rfl
      have hno : trace [.text " : "] = [.inl ':'] := rfl
      simp [Rules.branches, hyes, hno]
  | true =>
      have hyes : trace [.indent, .newline, .text "? "] = [.inl '?'] := rfl
      have hno : trace [.newline, .text ": "] = [.inl ':'] := rfl
      have hclose : trace [.dedent] = [] := rfl
      simp [Rules.branches, hyes, hno, hclose]

/-! ## The invariant -/

lemma blind_bind {α β : Type} {x : Render α} {f : α → Render β} (hx : Blind x)
    (hf : ∀ a, Blind (f a)) : Blind (x >>= f) := by
  intro s s' q e e' hs h h'
  obtain ⟨first, hfirst, second, hsecond, rfl⟩ := bind_eq_ok_iff.mp h
  obtain ⟨first', hfirst', second', hsecond', rfl⟩ := bind_eq_ok_iff.mp h'
  have hone := hx _ _ _ _ _ hs hfirst hfirst'
  rw [← hone.value, ← hone.queue] at hsecond'
  have htwo := hf _ _ _ _ _ _ hs hsecond hsecond'
  exact ⟨htwo.value, htwo.queue, by simp [Emission.andThen, hone.ink, htwo.ink]⟩

/-- A step that does not look at the setting at all. -/
lemma blind_of_const {α : Type} {x : Render α} (h : ∀ s s' q, x s q = x s' q) : Blind x := by
  intro s s' q e e' _ he he'
  rw [h s s' q, he'] at he
  obtain rfl : _ = e := Except.ok.inj he
  exact ⟨rfl, rfl, rfl⟩

/-- A step that looks at a field of the setting which is not the width. -/
lemma blind_setting {α β : Type} {get : Setting → β}
    (hget : ∀ s s' : Setting, s.Alike s' → get s = get s')
    {f : β → Render α} (hf : ∀ b, Blind (f b)) : Blind (setting >>= fun s => f (get s)) := by
  intro s s' q e e' hs h h'
  simp only [bind_eq_ok_iff, setting_run, Except.ok.injEq] at h h'
  obtain ⟨_, rfl, second, hsecond, rfl⟩ := h
  obtain ⟨_, rfl, second', hsecond', rfl⟩ := h'
  dsimp only at hsecond hsecond'
  rw [← hget s s' hs] at hsecond'
  have hsame := hf _ _ _ _ _ _ hs hsecond hsecond'
  exact ⟨hsame.value, hsame.queue, by simp [Emission.andThen, hsame.ink]⟩

/-- **Rendering does not see the width**, but for its layout. -/
def blind : Invariant where
  Applies _ := True
  applies_inside _ _ := trivial
  Holds := Blind
  pure a := blind_of_const fun _ _ _ => rfl
  bind := blind_bind
  read x := blind_of_const fun _ _ _ => rfl
  quote := blind_setting fun _ _ hs => hs.quote
  noIn := blind_setting fun _ _ hs => hs.noIn
  withNoIn b _ hx := fun s s' q e e' hs h h' =>
    hx { s with noIn := b } { s' with noIn := b } q e e' ⟨hs.quote, rfl⟩ h h'
  emit _ := blind_of_const fun _ _ _ => rfl
  chunk _ _ _ := blind_of_const fun _ _ _ => rfl
  raiseIf b := blind_of_const fun _ _ _ => rfl
  enqueue comment := blind_of_const fun _ _ _ => rfl
  takeQueue := blind_of_const fun _ _ _ => rfl
  nested before inside behind _ _ hx :=
    blind_bind (blind_of_const fun _ _ _ => rfl) fun _ =>
      blind_bind hx fun _ => blind_of_const fun _ _ _ => rfl
  sequence _ _ _ hitem := blind_sequence hitem
  body hinner := fun _ _ _ _ _ _ hs h h' => blind_bodyAfter hinner hs h h'
  declarations := blind_declarations
  arguments := blind_callArguments
  branches hx hy := fun s s' q e e' hs h h' => by
    obtain ⟨yes, hyes, no, hno, rfl⟩ := branches_eq_ok_iff.mp h
    obtain ⟨yes', hyes', no', hno', rfl⟩ := branches_eq_ok_iff.mp h'
    have hfirst := hx _ _ _ _ _ hs hyes hyes'
    rw [← hfirst.queue] at hno'
    have hsecond := hy _ _ _ _ _ hs hno hno'
    exact ⟨rfl, hsecond.queue, by simp only [trace_branches, hfirst.ink, hsecond.ink]⟩

instance : blind.IsGlobal := ⟨fun _ => trivial⟩

end Render

end EstreePrinter
