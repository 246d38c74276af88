import Mathlib
import EstreePrinter.Proofs.Command.Nesting
import EstreePrinter.Proofs.Render.Layout
import EstreePrinter.Proofs.Render.Tree

/-!
# Properties of what is emitted

Much of what is to be known about a rendering is a property of the commands it emits: that they are
finished, that their places are whole numbers, that each of them can be written.  All these are
`Command.Closed`: they hold of plain commands and of appends, and they do not mind what is put
around commands to lay them out.

**Commands.**  Whatever is assembled from parts with a closed property has it: separated lists,
margins, declarations, argument lists and branches, each both broken and not.  A list whose open
places are not filled yet has the property if it does however they are filled (`Slot.Keeps`).

**Runs.**  `Render.Emits` says that a step emits such commands whenever it succeeds, and
`Render.EmitsAt` says the same of one setting; `Render.Invariant.ofClosed` is the invariant.
-/

namespace EstreePrinter

open Json (Part)

namespace Command

/-- Commands that move the level by a marker, with line breaks and texts behind it. -/
structure Moves (marker : Command) (commands : List Command) : Prop where
  resolved : ∀ c ∈ placeholdersAll commands, c.IsResolved
  leaves : ∃ rest, leavesAll commands = marker :: rest ∧
    ∀ c ∈ rest, c = .newline ∨ ∃ s, c = .text s

lemma moves_indent : Moves .indent [.indent] :=
  ⟨by simp [placeholders], [], by simp [Command.leaves], by simp⟩

lemma moves_dedent : Moves .dedent [.dedent] :=
  ⟨by simp [placeholders], [], by simp [Command.leaves], by simp⟩

/-- The marker may stand in a placeholder. -/
lemma Moves.deferred {marker : Command} {contents : List Command} (h : Moves marker contents)
    (name : String) : Moves marker [.deferred name contents] := by
  refine ⟨?_, by simpa [Command.leaves] using h.leaves⟩
  simpa [placeholders, IsResolved, pendingName?] using h.resolved

lemma Moves.snoc {marker c : Command} {commands : List Command} (h : Moves marker commands)
    (hc : c = .newline ∨ ∃ s, c = .text s) : Moves marker (commands ++ [c]) := by
  obtain ⟨rest, hleaves, hrest⟩ := h.leaves
  have hself : Command.leaves c = [c] ∧ placeholders c = [] := by
    rcases hc with rfl | ⟨s, rfl⟩ <;> simp [Command.leaves, placeholders]
  refine ⟨by simpa [hself] using h.resolved, rest ++ [c], by simp [hleaves, hself], ?_⟩
  intro d hd
  rcases List.mem_append.mp hd with hd | hd
  · exact hrest d hd
  · exact List.mem_singleton.mp hd ▸ hc

/-- **A closed property of commands.**  It holds of plain commands, of the comments in `C`, of
appends and of placeholders, and of what is put between the two ends of a level. -/
structure Closed (C : Json → Prop) (K : List Command → Prop) : Prop where
  nil : K []
  append : ∀ {cs ds : List Command}, K cs → K ds → K (cs ++ ds)
  text : ∀ s, K [.text s]
  newline : K [.newline]
  foreign : ∀ v, K [.foreign v]
  comment : ∀ {c} after, C c → K [.comment c after]
  deferred : ∀ name {contents : List Command}, K contents → K [.deferred name contents]
  between : ∀ {start middle stop : List Command}, Moves .indent start → K middle →
    Moves .dedent stop → K (start ++ middle ++ stop)

/-- The comments of a command. -/
def comment? : Command → Option Json
  | .comment c _ => some c
  | _ => none

namespace Closed

variable {C : Json → Prop} {K : List Command → Prop} (hK : Closed C K)

include hK

lemma ofIsFlat {commands : List Command} (hflat : ∀ c ∈ commands, c.IsFlat)
    (hcomments : ∀ c ∈ commands, ∀ comment ∈ c.comment?, C comment) : K commands := by
  induction commands with
  | nil => exact hK.nil
  | cons c rest ih =>
      have hc : K [c] := by
        have hflat := hflat c (by simp)
        have hcomment := hcomments c (by simp)
        cases c with
        | text s => exact hK.text s
        | newline => exact hK.newline
        | foreign v => exact hK.foreign v
        | comment c after => exact hK.comment after (hcomment c rfl)
        | _ => exact absurd hflat id
      exact hK.append hc (ih (fun d hd => hflat d (by simp [hd]))
        fun d hd => hcomments d (by simp [hd]))

omit hK in
lemma ite_of {c : Prop} [Decidable c] {cs ds : List Command} (hcs : K cs) (hds : K ds) :
    K (if c then cs else ds) := by
  split
  · exact hcs
  · exact hds

end Closed

/-- Commands all of whose leaves have a property. -/
def AllLeaves (P : Command → Prop) (commands : List Command) : Prop :=
  ∀ c ∈ leavesAll commands, P c

/-- A property of single leaves is closed if plain commands and markers have it. -/
lemma closed_allLeaves {C : Json → Prop} {P : Command → Prop}
    (hflat : ∀ c : Command, c.IsFlat → (∀ comment ∈ c.comment?, C comment) → P c)
    (hindent : P .indent) (hdedent : P .dedent) : Closed C (AllLeaves P) := by
  have hone {c : Command} (hleaves : leaves c = [c]) (hc : P c) : AllLeaves P [c] := by
    simpa [AllLeaves, hleaves] using hc
  have htexts {marker : Command} (hmarker : P marker) {commands : List Command}
      (h : Moves marker commands) : AllLeaves P commands := by
    obtain ⟨rest, hleaves, hrest⟩ := h.leaves
    intro c hc
    rw [hleaves] at hc
    rcases List.mem_cons.mp hc with rfl | hc
    · exact hmarker
    · rcases hrest c hc with rfl | ⟨s, rfl⟩
      · exact hflat _ trivial (by simp [comment?])
      · exact hflat _ trivial (by simp [comment?])
  have happend {cs ds : List Command} (hcs : AllLeaves P cs) (hds : AllLeaves P ds) :
      AllLeaves P (cs ++ ds) := by
    intro c hc
    rw [leavesAll_append, List.mem_append] at hc
    exact hc.elim (hcs c) (hds c)
  exact
    { nil := by simp [AllLeaves]
      append := happend
      text := fun s => hone (by simp [leaves]) (hflat _ trivial (by simp [comment?]))
      newline := hone (by simp [leaves]) (hflat _ trivial (by simp [comment?]))
      foreign := fun v => hone (by simp [leaves]) (hflat _ trivial (by simp [comment?]))
      comment := fun after hc =>
        hone (by simp [leaves]) (hflat _ trivial (by simpa [comment?] using hc))
      deferred := fun name contents h => by simpa [AllLeaves, leaves] using h
      between := fun hstart hmiddle hstop =>
        happend (happend (htexts hindent hstart) hmiddle) (htexts hdedent hstop) }

end Command

/-! ## Open places -/

namespace Slot

lemma fill_append (name : String) (contents : List Command) (xs ys : List Slot) :
    fill name contents (xs ++ ys) = fill name contents xs ++ fill name contents ys := by
  induction xs with
  | nil => rfl
  | cons x rest ih =>
      cases x with
      | own c => simp [fill, ih]
      | join => simp [fill, ih]

@[simp] lemma fill_ofCommands (name : String) (contents commands : List Command) :
    fill name contents (ofCommands commands) = commands := by
  induction commands with
  | nil => rfl
  | cons c rest ih => simpa [ofCommands, fill] using ih

/-- Slots that have a property once their open places are filled with something that has it. -/
def Keeps (K : List Command → Prop) (slots : List Slot) : Prop :=
  ∀ name contents, K contents → K (fill name contents slots)

variable {C : Json → Prop} {K : List Command → Prop} (hK : Command.Closed C K)

include hK

lemma keeps_nil : Keeps K [] := fun _ _ _ => hK.nil

lemma keeps_join : Keeps K [.join] := fun name _ h => hK.deferred name h

lemma keeps_text (s : String) : Keeps K [.own (.text s)] := fun _ _ _ => hK.text s

lemma Keeps.append {xs ys : List Slot} (hx : Keeps K xs) (hy : Keeps K ys) :
    Keeps K (xs ++ ys) := by
  intro name contents h
  rw [fill_append]
  exact hK.append (hx name contents h) (hy name contents h)

omit hK in
lemma keeps_ofCommands {commands : List Command} (h : K commands) :
    Keeps K (ofCommands commands) := by
  intro name contents _
  rw [fill_ofCommands]
  exact h

omit hK in
lemma Keeps.ite {c : Prop} [Decidable c] {xs ys : List Slot} (hx : Keeps K xs)
    (hy : Keeps K ys) : Keeps K (if c then xs else ys) := by
  split
  · exact hx
  · exact hy

end Slot

/-! ## What is assembled -/

namespace Command.Closed

variable {C : Json → Prop} {K : List Command → Prop} (hK : Closed C K)

include hK

lemma itemComments (isLast : Bool) {comments : List Json} (h : ∀ c ∈ comments, C c) :
    Slot.Keeps K (Render.itemComments isLast comments) := by
  induction comments with
  | nil => exact Slot.keeps_nil hK
  | cons comment rest ih =>
      have hcomment : Slot.Keeps K [.own (.comment comment .none)] := fun _ _ _ =>
        hK.comment .none (h comment (by simp))
      have hrest := ih fun c hc => h c (by simp [hc])
      exact hcomment.append hK (((Slot.keeps_nil hK).ite (Slot.keeps_join hK)).append hK hrest)

lemma itemSlots (separator : String) (afterHole isLast : Bool) {commands : List Command}
    {comments : List Json} (h : K commands) (hcomments : ∀ c ∈ comments, C c) :
    Slot.Keeps K (Render.itemSlots separator afterHole isLast commands comments) := by
  have hnil := Slot.keeps_nil hK
  have hjoin := Slot.keeps_join hK
  have htext := Slot.keeps_text hK
  refine (((hjoin.ite hnil).append hK (Slot.keeps_ofCommands h)).append hK
    (hnil.ite (htext _))).append hK ?_
  exact (hnil.ite hjoin).ite ((htext _).append hK (hK.itemComments isLast hcomments))

/-- A list has the property either way: its two ends together when it breaks, and each for itself
when it does not. -/
lemma decided (spaces broken : Bool) {slots : List Slot} (h : Slot.Keeps K slots) :
    K (Render.decided spaces broken slots) := by
  cases broken with
  | false =>
      have hpad : K (if spaces then [.text " "] else []) := ite_of (hK.text _) hK.nil
      exact hK.append (hK.deferred _ hpad)
        (hK.append (h _ _ (hK.text " ")) (hK.deferred _ hpad))
  | true =>
      have hends := hK.between
        ((moves_indent.snoc (Or.inl rfl)).deferred "sequence-open")
        (h "sequence-join" _ hK.newline)
        ((moves_dedent.snoc (Or.inl rfl)).deferred "sequence-close")
      simpa [Render.decided, Render.assemble] using hends

lemma margin (before : Option Render.Printed) (after : Render.Printed) :
    K (Render.margin before after) := by
  cases before with
  | none => exact hK.nil
  | some before =>
      exact hK.append (hK.deferred _ (ite_of (hK.text _) hK.nil)) hK.newline

/-- A declaration that breaks opens a level only when it has several declarators, and closes it
under the same condition. -/
lemma decidedDeclarations (keyword : String) (several broken : Bool) {slots : List Slot}
    (h : Slot.Keeps K slots) : K (Render.decidedDeclarations keyword several broken slots) := by
  have hopen : K [.deferred "declarations-open" []] := hK.deferred _ hK.nil
  cases broken with
  | false => exact hK.append (hK.text keyword) (hK.append hopen (h _ _ (hK.text ", ")))
  | true =>
      have hfill := h "declarations-join" [.text ",", .newline]
        (hK.append (hK.text ",") hK.newline)
      cases several with
      | false =>
          have hall := hK.append (hK.text keyword) (hK.append hopen hfill)
          simpa [Render.decidedDeclarations, Render.assembleDeclarations] using hall
      | true =>
          have hends := hK.between (moves_indent.deferred "declarations-open") hfill moves_dedent
          simpa [Render.decidedDeclarations, Render.assembleDeclarations] using
            hK.append (hK.text keyword) hends

lemma decidedArguments (broken : Bool) {args : Rules.Arguments}
    (hfront : Slot.Keeps K args.front) (hlast : K args.last) :
    K (Render.decidedArguments broken args) := by
  have hinside {join : List Command} (hjoin : K join) :
      K (Slot.fill "arguments-join" join args.front ++ args.last) :=
    hK.append (hfront _ _ hjoin) hlast
  cases broken with
  | false =>
      have hend (name : String) : K [.deferred name []] := hK.deferred _ hK.nil
      have hall := hK.append (hK.text "(") (hK.append (hend "arguments-open")
        (hK.append (hinside (hK.text ", "))
          (hK.append (hend "arguments-close") (hK.text ")"))))
      simpa [Render.decidedArguments, Rules.argumentList] using hall
  | true =>
      have hends := hK.between
        ((moves_indent.snoc (Or.inl rfl)).deferred "arguments-open")
        (hinside (hK.append (hK.text ",") hK.newline))
        ((moves_dedent.snoc (Or.inl rfl)).deferred "arguments-close")
      simpa [Render.decidedArguments, Rules.argumentList] using
        hK.append (hK.text "(") (hK.append hends (hK.text ")"))

/-- The level that the first of two broken branches opens is closed behind the second. -/
lemma branches (broken : Bool) {yes no : List Command} (hyes : K yes) (hno : K no) :
    K (Rules.branches broken yes no) := by
  cases broken with
  | false =>
      have hmark (name s : String) : K [.deferred name [.text s]] := hK.deferred _ (hK.text s)
      have hall := hK.append (hmark "conditional-consequent" " ? ")
        (hK.append hyes (hK.append (hmark "conditional-alternate" " : ") hno))
      simpa [Rules.branches] using hall
  | true =>
      have hmark : K [.deferred "conditional-alternate" [.newline, .text ": "]] :=
        hK.deferred _ (hK.append hK.newline (hK.text ": "))
      have hends := hK.between
        (((moves_indent.snoc (Or.inl rfl)).snoc (Or.inr ⟨"? ", rfl⟩)).deferred
          "conditional-consequent")
        (hK.append hyes (hK.append hmark hno)) moves_dedent
      simpa [Rules.branches] using hends

/-- Something between the two ends of a level, with plain commands around the ends. -/
lemma nested {before inside behind middle : List Command} (hbefore : K before)
    (hinside : K inside) (hmiddle : K middle) (hbehind : K behind) :
    K (before ++ .indent :: inside ++ (middle ++ .dedent :: behind)) := by
  have hends := hK.between moves_indent (hK.append hinside hmiddle) moves_dedent
  simpa using hK.append hbefore (hK.append hends hbehind)

end Command.Closed

/-! ## Runs -/

namespace Render

/-- A step emits commands with a property whenever it succeeds under a setting. -/
def EmitsAt (K : List Command → Prop) (s : Setting) {α : Type} (x : Render α) : Prop :=
  ∀ q e, x s q = .ok e → K e.commands

/-- A step emits commands with a property whenever it succeeds. -/
def Emits (K : List Command → Prop) {α : Type} (x : Render α) : Prop :=
  ∀ s q e, x s q = .ok e → K e.commands

/-- What is emitted for the comments before a node is comments. -/
lemma isSome_comment?_of_leading {newlines : Bool} {node : Json} {comments : List Json}
    {commands : List Command} (h : leading newlines node comments = .ok commands) :
    ∀ c ∈ commands, c.comment?.isSome := by
  induction comments generalizing commands with
  | nil =>
      obtain rfl := Except.ok.inj h
      simp
  | cons comment rest ih =>
      obtain ⟨breaks, -, others, hothers, rfl⟩ := leading_cons_eq_ok h
      exact List.forall_mem_cons.mpr ⟨rfl, ih hothers⟩

section

variable {C : Json → Prop} {K : List Command → Prop} (hK : Command.Closed C K) {s : Setting}
  {q : List Json}

include hK

lemma emitsAt_bind {α β : Type} {x : Render α} {f : α → Render β} (hx : EmitsAt K s x)
    (hf : ∀ a, EmitsAt K s (f a)) : EmitsAt K s (x >>= f) := by
  intro q e h
  obtain ⟨first, hfirst, second, hsecond, rfl⟩ := bind_eq_ok_iff.mp h
  exact hK.append (hx _ _ hfirst) (hf _ _ _ hsecond)

lemma emits_bind {α β : Type} {x : Render α} {f : α → Render β} (hx : Emits K x)
    (hf : ∀ a, Emits K (f a)) : Emits K (x >>= f) :=
  fun s => emitsAt_bind hK (hx s) fun a => hf a s

/-- A step that emits nothing. -/
lemma emits_of_quiet {α : Type} {x : Render α}
    (h : ∀ s q e, x s q = .ok e → e.commands = []) : Emits K x := by
  intro s q e he
  rw [h s q e he]
  exact hK.nil

lemma emitsAt_joined {α : Type} {item : α → Render Unit} (hitem : ∀ a, EmitsAt K s (item a))
    {list : List α} {e : Emission (List Slot × Bool)} (h : joined item list s q = .ok e) :
    Slot.Keeps K e.value.1 := by
  induction list generalizing q e with
  | nil =>
      simp only [joined, pure_run, Except.ok.injEq] at h
      subst h
      exact Slot.keeps_nil hK
  | cons a rest ih =>
      obtain ⟨inner, hinner, others, hothers, rfl⟩ := joined_cons_eq_ok h
      exact ((Slot.keeps_ofCommands (hitem a _ _ hinner)).append hK
        ((Slot.keeps_nil hK).ite (Slot.keeps_join hK))).append hK (ih hothers)

lemma emitsAt_declarations {node : Json} {inner : Inner node}
    (hinner : ∀ part, EmitsAt K s (inner.value part)) : EmitsAt K s (declarations node inner) := by
  intro q e h
  obtain ⟨part, -, list, -, declare, -, kind, -, first, hfirst, broken, -, rfl⟩ :=
    declarations_eq_ok h
  exact hK.append (Command.Closed.ite_of (hK.text _) hK.nil)
    (hK.decidedDeclarations _ _ _ (emitsAt_joined hK hinner hfirst))

lemma emits_declarations {node : Json} {inner : Inner node}
    (hinner : ∀ part, Emits K (inner.value part)) : Emits K (declarations node inner) :=
  fun s => emitsAt_declarations hK fun part => hinner part s

/-- The arguments of a call, where what goes between two of them has the property. -/
lemma emitsAt_arguments {node : Json} {inner : Inner node}
    (hgap : ∀ q e, Rules.argumentGap s q = .ok e → Slot.Keeps K e.value.1)
    (hinner : ∀ part, EmitsAt K s (inner.value part)) {list : List (Part node)}
    {e : Emission Rules.Arguments} (h : Rules.arguments inner list s q = .ok e) :
    Slot.Keeps K e.value.front ∧ K e.value.last := by
  induction list generalizing q e with
  | nil =>
      obtain rfl : _ = e := Except.ok.inj h
      exact ⟨Slot.keeps_nil hK, hK.nil⟩
  | cons argument rest ih =>
      by_cases hrest : rest = []
      · subst hrest
        obtain ⟨held, hheld, rfl⟩ := arguments_last_eq_ok_iff.mp h
        exact ⟨Slot.keeps_nil hK, hinner _ _ _ hheld⟩
      · obtain ⟨held, hheld, gap, hfound, others, hothers, rfl⟩ :=
          (arguments_cons_eq_ok_iff hrest).mp h
        obtain ⟨hfront, hlast⟩ := ih hothers
        exact ⟨((Slot.keeps_ofCommands (hinner _ _ _ hheld)).append hK
          (hgap _ _ hfound)).append hK hfront, hlast⟩

lemma emitsAt_callArguments {node : Json} {inner : Inner node}
    (hgap : ∀ q e, Rules.argumentGap s q = .ok e → Slot.Keeps K e.value.1)
    (hinner : ∀ part, EmitsAt K s (inner.value part)) :
    EmitsAt K s (Rules.callArguments inner) := by
  intro q e h
  obtain ⟨part, -, list, -, args, hargs, broken, -, rfl⟩ := callArguments_eq_ok_iff.mp h
  obtain ⟨hfront, hlast⟩ := emitsAt_arguments hK hgap hinner hargs
  exact hK.decidedArguments broken hfront hlast

lemma emits_callArguments {node : Json} {inner : Inner node}
    (hgap : ∀ s q e, Rules.argumentGap s q = .ok e → Slot.Keeps K e.value.1)
    (hinner : ∀ part, Emits K (inner.value part)) : Emits K (Rules.callArguments inner) :=
  fun s => emitsAt_callArguments hK (hgap s) fun part => hinner part s

lemma emitsAt_branches {x y : Render Unit} (hx : EmitsAt K s x) (hy : EmitsAt K s y) :
    EmitsAt K s (do
      let yes ← fork x
      let no ← fork y
      raiseIf (yes.multiline || no.multiline)
      emit (Rules.branches (yes.multiline || no.multiline) yes.commands no.commands)) := by
  intro q e h
  obtain ⟨yes, hyes, no, hno, rfl⟩ := branches_eq_ok_iff.mp h
  exact hK.branches _ (hx _ _ hyes) (hy _ _ hno)

end

variable {K : List Command → Prop} (hK : Command.Closed (fun _ => True) K) {s : Setting}
  {q : List Json}

include hK

lemma emits_flat {commands : List Command} (h : ∀ c ∈ commands, c.IsFlat) : K commands :=
  hK.ofIsFlat h fun _ _ _ _ => trivial

lemma emitsAt_items {α : Type} {separator : String} {item : α → Render Unit}
    (hitem : ∀ a, EmitsAt K s (item a)) {afterHole : Bool} {list : List (Option α)}
    {e : Emission (List Slot × Bool)} (h : items separator item afterHole list s q = .ok e) :
    Slot.Keeps K e.value.1 := by
  induction list generalizing afterHole q e with
  | nil =>
      simp only [items, pure_run, Except.ok.injEq] at h
      subst h
      exact Slot.keeps_nil hK
  | cons a rest ih =>
      cases a with
      | none =>
          obtain ⟨others, hothers, rfl⟩ := items_hole_eq_ok_iff.mp h
          exact (Slot.keeps_text hK separator).append hK (ih hothers)
      | some a =>
          obtain ⟨inner, hinner, others, hothers, rfl⟩ := items_some_eq_ok_iff.mp h
          exact (hK.itemSlots _ _ _ (hitem a _ _ hinner) fun _ _ => trivial).append hK
            (ih hothers)

lemma emitsAt_sequence {α : Type} (spaces : Bool) (separator : String) {item : α → Render Unit}
    (hitem : ∀ a, EmitsAt K s (item a)) (list : List (Option α)) :
    EmitsAt K s (sequence spaces separator item list) := by
  intro q e h
  by_cases hlist : list = []
  · subst hlist
    obtain rfl : _ = e := Except.ok.inj h
    exact hK.nil
  · obtain ⟨first, hfirst, broken, -, rfl⟩ := (sequence_eq_ok_iff hlist).mp h
    exact hK.decided spaces broken (emitsAt_items hK hitem hfirst)

lemma emits_drainAfterStatement : Emits K drainAfterStatement := by
  intro s q e h
  obtain ⟨commands, hcommands, rfl⟩ := drainAfterStatement_eq_ok_iff.mp h
  exact emits_flat hK (Invariant.isFlat_afterStatement hcommands)

lemma emits_leadingComments (newlines : Bool) (node : Json) (comments : List Json) :
    Emits K (leadingComments newlines node comments) := by
  intro s q e h
  obtain ⟨commands, hcommands, rfl⟩ := leadingComments_eq_ok_iff.mp h
  exact emits_flat hK (Invariant.isFlat_leading hcommands)

/-- Over the statements of a body: what each emits, its margin included. -/
lemma emitsAt_bodyAfter {node : Json} {inner : Inner node}
    (hinner : ∀ part, EmitsAt K s (inner.bare part)) (before : Option Printed)
    (statements : List (Part node)) : EmitsAt K s (bodyAfter inner before statements) := by
  induction statements generalizing before with
  | nil =>
      intro q e h
      obtain rfl : _ = e := Except.ok.inj h
      exact hK.nil
  | cons statement rest ih =>
      intro q e h
      obtain ⟨kind, -, h⟩ := bodyAfter_cons_eq_ok h
      split at h
      · exact ih _ _ _ h
      · obtain ⟨list, -, comments, hcomments, held, hheld, drained, hdrained, others, hothers,
          hcommands, -⟩ := h
        rw [hcommands]
        have hleading := emits_flat hK (Invariant.isFlat_leading hcomments)
        have hstatement := hK.append
          (hK.append (hK.margin before ⟨kind.display, held.multiline⟩) hleading)
          (hinner _ _ _ hheld)
        exact hK.append hstatement
          (hK.append (emits_drainAfterStatement hK _ _ _ hdrained) (ih _ _ _ hothers))

omit hK in
lemma isFlat_betweenArguments {comments : List Json} {found : List Command × Bool}
    (h : betweenArguments comments = .ok found) : ∀ c ∈ found.1, c.IsFlat := by
  induction comments generalizing found with
  | nil =>
      obtain rfl : _ = found := Except.ok.inj h
      simp
  | cons comment rest ih =>
      rw [betweenArguments] at h
      obtain ⟨line, -, h⟩ := EstreePrinter.bind_eq_ok_iff.mp h
      obtain ⟨others, hothers, h⟩ := EstreePrinter.bind_eq_ok_iff.mp h
      obtain rfl : _ = found := Except.ok.inj h
      intro c hc
      rcases List.mem_cons.mp hc with rfl | hc
      · trivial
      · exact ih hothers c hc

lemma emits_argumentGap {e : Emission (List Slot × Bool)} (h : Rules.argumentGap s q = .ok e) :
    Slot.Keeps K e.value.1 := by
  rw [argumentGap_eq_ok_iff] at h
  split at h
  · subst h
    exact Slot.keeps_join hK
  · obtain ⟨found, hfound, rfl⟩ := h
    exact (Slot.keeps_text hK ", ").append hK
      (Slot.keeps_ofCommands (emits_flat hK (isFlat_betweenArguments hfound)))

/-- A level around a step, with markers and flat commands only. -/
lemma emits_nested {before inside behind : List Command} {x : Render Unit}
    (hflat : ∀ c ∈ before ++ inside ++ behind, c.IsFlat) (hx : Emits K x) :
    Emits K (do
      emit (before ++ .indent :: inside)
      x
      emit (.dedent :: behind)) := by
  intro s q e h
  simp only [bind_eq_ok_iff, emit_run, Except.ok.injEq] at h
  obtain ⟨_, rfl, _, ⟨middle, hmiddle, _, rfl, rfl⟩, rfl⟩ := h
  have hparts (cs : List Command) (hcs : cs ⊆ before ++ inside ++ behind) : K cs :=
    emits_flat hK fun c hc => hflat c (hcs hc)
  exact hK.nested (hparts before (by simp)) (hparts inside (by simp)) (hx _ _ _ hmiddle)
    (hparts behind (by simp))

/-! ## The invariant -/

/-- **Every rendering emits commands with a closed property**, if chunks have it in the trees that
it is about. -/
def Invariant.ofClosed (Applies : Json → Prop)
    (hinside : ∀ {node part : Json}, Applies node → part.Inside node → Applies part)
    (hchunk : ∀ (content : Json) {node : Json} {span : Option Span}, Applies node →
      node.span = .ok span → K [.chunkOf content span]) : Invariant where
  Applies := Applies
  applies_inside := hinside
  Holds := Emits K
  pure a := emits_of_quiet hK fun s q e h => by
    obtain rfl : _ = e := Except.ok.inj h
    rfl
  bind := emits_bind hK
  read x := emits_of_quiet hK fun s q e h => by
    obtain ⟨a, -, rfl⟩ := read_eq_ok_iff.mp h
    rfl
  quote h := emits_bind hK (emits_of_quiet hK fun s q e he => by
    obtain rfl : _ = e := Except.ok.inj he
    rfl) fun s => h s.quote
  noIn h := emits_bind hK (emits_of_quiet hK fun s q e he => by
    obtain rfl : _ = e := Except.ok.inj he
    rfl) fun s => h s.noIn
  withNoIn b _ h := fun s q e he => h { s with noIn := b } q e he
  emit hflat := fun s q e h => by
    obtain rfl : _ = e := Except.ok.inj h
    exact emits_flat hK hflat
  chunk content {node} happlies := fun s q e h => by
    obtain ⟨span, hspan, rfl⟩ := chunk_eq_ok_iff.mp h
    exact hchunk content happlies hspan
  raiseIf b := emits_of_quiet hK fun s q e h => by
    obtain rfl : _ = e := Except.ok.inj h
    rfl
  enqueue comment := emits_of_quiet hK fun s q e h => by
    obtain rfl : _ = e := Except.ok.inj h
    rfl
  takeQueue := emits_of_quiet hK fun s q e h => by
    obtain rfl : _ = e := Except.ok.inj h
    rfl
  nested _ _ _ _ hflat hx := emits_nested hK hflat hx
  sequence spaces separator _ hitem list := fun s =>
    emitsAt_sequence hK spaces separator (fun a => hitem a s) list
  body hinner statements := fun s =>
    emitsAt_bodyAfter hK (fun part => hinner part s) none statements
  declarations := emits_declarations hK
  arguments := emits_callArguments hK fun _ _ _ => emits_argumentGap hK
  branches hx hy := fun s => emitsAt_branches hK (hx s) (hy s)

end Render

end EstreePrinter
