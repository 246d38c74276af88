import Mathlib
import EstreePrinter.Proofs.Command.Lines
import EstreePrinter.Proofs.Render.Emitted
import EstreePrinter.Proofs.Render.Tree

/-!
# Watching what comments leave open

What may be written next depends on what is still open: no code may come behind a line comment on
its line, and no comment may be glued to another one.  A `Command.Watch` goes through the leaves of
commands with a state that remembers what is open, and stops at a leaf that may not stand there.

**What a watch has to allow** (`Watch.Allows`).  Where nothing is open any leaf may stand; a line
break closes whatever a comment behind a statement leaves open; and the line break at the end of a
list closes what the comments behind its last item leave open.

**Trees.**  Then what a rendering emits starts and ends with nothing open (`Watch.Rests`), as long
as there is no program in the tree (`Render.rests_tree`).  A comment before a node has its break
from where it is emitted.  One behind a node does not always: it may stand at the end of a list, of
a statement or of a case, and then the line break has to come from what is written next.

**Open ends.**  `Render.Leads W o x P` follows the state through a step: started in the state `o`,
the step writes nothing that may not stand there, and `P` tells in which states it may end.
Statements and cases may leave something open, but whatever comes behind them starts with a line
break (`leads_body`, `leads_switchCases`).
-/

namespace EstreePrinter

open Json (Part)

namespace Command

/-- Going through leaves with a state: where nothing is open it is `rest`, and there is no next
state behind a leaf that may not stand there. -/
structure Watch (σ : Type) where
  rest : σ
  step : σ → Command → Option σ

namespace Watch

variable {σ : Type} (W : Watch σ) {o : σ}

/-- The state behind leaves, unless one of them may not stand where it does. -/
def scan (o : σ) : List Command → Option σ
  | [] => some o
  | c :: rest => (W.step o c).bind fun o => scan o rest

@[simp] lemma scan_nil : W.scan o [] = some o := rfl

@[simp] lemma scan_cons (c : Command) (rest : List Command) :
    W.scan o (c :: rest) = (W.step o c).bind fun o => W.scan o rest := rfl

lemma scan_append (cs ds : List Command) :
    W.scan o (cs ++ ds) = (W.scan o cs).bind fun o => W.scan o ds := by
  induction cs generalizing o with
  | nil => rfl
  | cons c rest ih => simp [ih, Option.bind_assoc]

/-- **Commands that leave nothing open**, if nothing was open before. -/
def Rests (commands : List Command) : Prop := W.scan W.rest (leavesAll commands) = some W.rest

/-- **What a watch has to allow**, where `Open` are the states behind statements. -/
structure Allows (Open : σ → Prop) : Prop where
  /-- A statement may leave nothing open. -/
  rest : Open W.rest
  /-- Where nothing is open, what is no comment may stand and opens nothing. -/
  plain : ∀ c : Command, c.comment? = none → W.step W.rest c = some W.rest
  /-- Neither does a comment that goes before a node or an argument. -/
  before : ∀ comment after, after = .newline ∨ after = .space ∧ comment.isLine = false →
    W.step W.rest (.comment comment after) = some W.rest
  /-- A comment may stand behind a statement, and a blank goes between it and the next one, unless
  it is a line comment. -/
  behind : ∀ comment, ∃ o, Open o ∧ W.step W.rest (.comment comment .none) = some o ∧
    (comment.isLine = false → W.step o (.text " ") = some W.rest)
  /-- Behind a statement a line break closes everything. -/
  newline : ∀ o, Open o → W.step o .newline = some W.rest
  /-- Before that there may be a blank line. -/
  lineFeed : ∀ o, Open o → ∃ o', Open o' ∧ W.step o (.text "\n") = some o'
  /-- So may the end of a level. -/
  dedent : ∀ o, Open o → ∃ o', Open o' ∧ W.step o .dedent = some o'
  /-- At the end of a broken list there may be any number of comments. -/
  listEnd : ∀ comments : List Json,
    W.scan W.rest (comments.map (.comment · .none) ++ [.dedent, .newline]) = some W.rest

namespace Allows

variable {W} {Open : σ → Prop}

lemma nil : W.Rests [] := by simp [Rests]

lemma append {cs ds : List Command} (hc : W.Rests cs) (hd : W.Rests ds) : W.Rests (cs ++ ds) := by
  rw [Rests, leavesAll_append, scan_append, hc]
  exact hd

lemma deferred {contents : List Command} (h : W.Rests contents) (name : String) :
    W.Rests [.deferred name contents] := by
  simpa [Rests, leaves] using h

lemma leaf {c : Command} (hleaves : leaves c = [c]) (hstep : W.step W.rest c = some W.rest) :
    W.Rests [c] := by
  simp [Rests, hleaves, hstep]

variable (hW : W.Allows Open)

include hW

/-- Leaves that are no comments. -/
lemma scan_plain {cs : List Command} (h : ∀ c ∈ cs, c.comment? = none) :
    W.scan W.rest cs = some W.rest := by
  induction cs with
  | nil => rfl
  | cons c rest ih =>
      rw [scan_cons, hW.plain c (h c List.mem_cons_self)]
      exact ih fun d hd => h d (List.mem_cons_of_mem _ hd)

lemma text (s : String) : W.Rests [.text s] := leaf (by simp [leaves]) (hW.plain _ rfl)

lemma newlineRests : W.Rests [.newline] := leaf (by simp [leaves]) (hW.plain _ rfl)

/-- A line break and a brace close what statements leave open. -/
lemma scan_close {o : σ} (ho : Open o) (s : String) :
    W.scan o [.dedent, .newline, .text s] = some W.rest := by
  obtain ⟨o', ho', hdedent⟩ := hW.dedent o ho
  simp [hdedent, hW.newline o' ho', hW.plain (.text s) rfl]

/-- Apart from comments, leaving nothing open is a closed property. -/
lemma closed : Closed (fun _ => False) W.Rests where
  nil := nil
  append := append
  text := hW.text
  newline := hW.newlineRests
  foreign _ := leaf (by simp [leaves]) (hW.plain _ rfl)
  comment _ h := h.elim
  deferred name _ h := deferred h name
  between := by
    have hmoves {marker : Command} (hmarker : marker.comment? = none) {commands : List Command}
        (h : Moves marker commands) : W.Rests commands := by
      obtain ⟨rest, hleaves, hrest⟩ := h.leaves
      rw [Rests, hleaves]
      refine hW.scan_plain (List.forall_mem_cons.mpr ⟨hmarker, fun c hc => ?_⟩)
      rcases hrest c hc with rfl | ⟨s, rfl⟩ <;> rfl
    intro start middle stop hstart hmiddle hstop
    exact append (append (hmoves rfl hstart) hmiddle) (hmoves rfl hstop)

end Allows

end Watch

end Command

open Command (Watch leavesAll)

namespace Render

variable {σ : Type} {W : Watch σ} {Open : σ → Prop} {α β : Type} {s : Setting} {q : List Json}

/-! ## Comments -/

lemma isLine_eq {comment : Json} {line : Bool} (h : comment.isLineComment = .ok line) :
    comment.isLine = line := by
  rw [Json.isLine, h]

/-- A comment before a node that does not end its line is no line comment. -/
lemma isLine_of_endsLine {comment node : Json} (h : endsLine comment node = .ok false) :
    comment.isLine = false := by
  unfold endsLine at h
  obtain ⟨spans, hspans, h⟩ := EstreePrinter.bind_eq_ok_iff.mp h
  unfold Json.spansLines at hspans
  obtain ⟨line, hline, hspans⟩ := EstreePrinter.bind_eq_ok_iff.mp hspans
  cases line with
  | false => exact isLine_eq hline
  | true =>
      obtain rfl : true = spans := Except.ok.inj hspans
      cases h

section

variable (hW : W.Allows Open)

include hW

lemma rests_comment {comment : Json} {breaks : Bool} (h : breaks = true ∨ comment.isLine = false) :
    W.Rests [.comment comment (if breaks then .newline else .space)] := by
  refine Watch.Allows.leaf (by simp [Command.leaves]) (hW.before _ _ ?_)
  cases breaks with
  | true => exact .inl rfl
  | false => exact .inr ⟨rfl, h.resolve_left Bool.false_ne_true⟩

lemma rests_leading {newlines : Bool} {node : Json} {comments : List Json}
    {commands : List Command} (h : leading newlines node comments = .ok commands) :
    W.Rests commands := by
  induction comments generalizing commands with
  | nil =>
      obtain rfl := Except.ok.inj h
      exact Watch.Allows.nil
  | cons comment rest ih =>
      obtain ⟨breaks, hbreaks, others, hothers, rfl⟩ := leading_cons_eq_ok h
      refine Watch.Allows.append (rests_comment hW ?_) (ih hothers)
      cases breaks with
      | true => exact .inl rfl
      | false => exact .inr (isLine_of_endsLine (hbreaks.resolve_left (by simp)))

/-- Comments behind a statement have between them what parts them. -/
lemma scan_afterStatement {o : σ} (ho : Open o) {newline : Bool}
    (hblank : newline = false → W.step o (.text " ") = some W.rest) {comments : List Json}
    {commands : List Command} (h : afterStatement newline comments = .ok commands) :
    ∃ o', Open o' ∧ W.scan o (leavesAll commands) = some o' := by
  induction comments generalizing o newline commands with
  | nil =>
      obtain rfl := Except.ok.inj h
      exact ⟨o, ho, by simp⟩
  | cons comment rest ih =>
      rw [afterStatement] at h
      obtain ⟨line, hline, h⟩ := EstreePrinter.bind_eq_ok_iff.mp h
      obtain ⟨others, hothers, h⟩ := EstreePrinter.bind_eq_ok_iff.mp h
      obtain rfl := Except.ok.inj h
      obtain ⟨o₁, ho₁, hcomment, hspace⟩ := hW.behind comment
      obtain ⟨o', ho', hrest⟩ := ih ho₁ (fun h => hspace (h ▸ isLine_eq hline)) hothers
      refine ⟨o', ho', ?_⟩
      cases newline with
      | true => simp [Command.leaves, hW.newline o ho, hcomment, hrest]
      | false => simp [Command.leaves, hblank rfl, hcomment, hrest]

/-- A line comment between two arguments has a line break of its own. -/
lemma rests_betweenArguments {comments : List Json} {found : List Command × Bool}
    (h : betweenArguments comments = .ok found) : W.Rests found.1 := by
  induction comments generalizing found with
  | nil =>
      obtain rfl := Except.ok.inj h
      exact Watch.Allows.nil
  | cons comment rest ih =>
      rw [betweenArguments] at h
      obtain ⟨line, hline, h⟩ := EstreePrinter.bind_eq_ok_iff.mp h
      obtain ⟨others, hothers, h⟩ := EstreePrinter.bind_eq_ok_iff.mp h
      obtain rfl := Except.ok.inj h
      refine Watch.Allows.append (rests_comment hW ?_) (ih hothers)
      cases line with
      | true => exact .inl rfl
      | false => exact .inr (isLine_eq hline)

lemma keeps_argumentGap {e : Emission (List Slot × Bool)} (h : Rules.argumentGap s q = .ok e) :
    Slot.Keeps W.Rests e.value.1 := by
  rw [argumentGap_eq_ok_iff] at h
  split at h
  · subst h
    exact Slot.keeps_join hW.closed
  · obtain ⟨found, hfound, rfl⟩ := h
    exact (Slot.keeps_text hW.closed ", ").append hW.closed
      (Slot.keeps_ofCommands (rests_betweenArguments hW hfound))

/-! ## Separated lists -/

/-- With a line break behind each, comments between two items leave nothing open. -/
lemma rests_itemComments (name : String) (comments : List Json) :
    W.Rests (Slot.fill name [.newline] (itemComments false comments)) := by
  induction comments with
  | nil => exact Watch.Allows.nil
  | cons comment rest ih =>
      have hone : W.Rests [.comment comment .none, .deferred name [.newline]] := by
        obtain ⟨o, ho, hcomment, -⟩ := hW.behind comment
        simp [Watch.Rests, Command.leaves, hcomment, hW.newline o ho]
      exact Watch.Allows.append hone ih

/-- Comments behind the last item leave nothing open once the list ends. -/
lemma rests_lastComments (name : String) (comments : List Json) :
    W.Rests (Slot.fill name [.newline] (itemComments true comments) ++
      [Command.dedent, .newline]) := by
  have hleaves : leavesAll (Slot.fill name [.newline] (itemComments true comments)) =
      comments.map (.comment · .none) := by
    induction comments with
    | nil => rfl
    | cons comment rest ih => simp [itemComments, Slot.fill, Command.leaves, ih]
  simpa [Watch.Rests, hleaves, Command.leaves] using hW.listEnd comments

/-- The item itself with its separator, without the comments behind it. -/
lemma keeps_item (separator : String) (afterHole isLast : Bool) {commands : List Command}
    (h : W.Rests commands) :
    Slot.Keeps W.Rests ((if afterHole then [Slot.join] else []) ++ Slot.ofCommands commands ++
      (if isLast then [] else [Slot.own (.text separator)])) := by
  have hK := hW.closed
  exact (((Slot.keeps_join hK).ite (Slot.keeps_nil hK)).append hK (Slot.keeps_ofCommands h)).append
    hK ((Slot.keeps_nil hK).ite (Slot.keeps_text hK separator))

/-- What stands between two items leaves nothing open if the open places are filled with line
breaks. -/
lemma rests_betweenItems (name : String) (waiting : List Json) :
    W.Rests (Slot.fill name [.newline] (if waiting.isEmpty then [Slot.join]
      else .own (.text " ") :: itemComments false waiting)) := by
  cases waiting with
  | nil => exact Watch.Allows.deferred hW.newlineRests name
  | cons comment more =>
      exact Watch.Allows.append (hW.text " ") (rests_itemComments hW name (comment :: more))

/-- What stands behind the last item leaves nothing open once the list ends. -/
lemma rests_behindItems (name : String) (waiting : List Json) :
    W.Rests (Slot.fill name [.newline] (if waiting.isEmpty then []
      else .own (.text " ") :: itemComments true waiting) ++ [Command.dedent, .newline]) := by
  cases waiting with
  | nil => simpa [Watch.Rests, Slot.fill, Command.leaves] using hW.listEnd []
  | cons comment more =>
      have hlast := Watch.Allows.append (hW.text " ")
        (rests_lastComments hW name (comment :: more))
      simpa [Slot.fill] using hlast

/-- **The items of a list** leave nothing open if no comment is among them; with comments, they
leave nothing open if the open places are filled with line breaks and another one ends the list. -/
lemma rests_items {separator : String} {item : α → Render Unit}
    (hitem : ∀ a, Emits W.Rests (item a)) {afterHole : Bool} {list : List (Option α)}
    {e : Emission (List Slot × Bool)} (h : items separator item afterHole list s q = .ok e) :
    (e.value.2 = false → Slot.Keeps W.Rests e.value.1) ∧
      ∀ name, W.Rests (Slot.fill name [.newline] e.value.1 ++ [Command.dedent, .newline]) := by
  have hK := hW.closed
  induction list generalizing afterHole q e with
  | nil =>
      simp only [items, pure_run, Except.ok.injEq] at h
      subst h
      refine ⟨fun _ => Slot.keeps_nil hK, fun _ => ?_⟩
      simpa [Watch.Rests, Slot.fill, Command.leaves] using hW.listEnd []
  | cons a rest ih =>
      cases a with
      | none =>
          obtain ⟨others, hothers, rfl⟩ := items_hole_eq_ok_iff.mp h
          obtain ⟨hkeeps, hends⟩ := ih hothers
          refine ⟨fun hbroken => (Slot.keeps_text hK separator).append hK (hkeeps hbroken), ?_⟩
          intro name
          simpa [Slot.fill] using Watch.Allows.append (hW.text separator) (hends name)
      | some a =>
          obtain ⟨inner, hinner, others, hothers, rfl⟩ := items_some_eq_ok_iff.mp h
          obtain ⟨hkeeps, hends⟩ := ih hothers
          have hcommands := hitem a _ _ _ hinner
          refine ⟨fun hbroken => ?_, fun name => ?_⟩
          · simp only [Bool.or_eq_false_iff, Bool.not_eq_false', List.isEmpty_iff] at hbroken
            rw [hbroken.1.2]
            exact (hK.itemSlots separator afterHole rest.isEmpty hcommands (by simp)).append hK
              (hkeeps hbroken.2)
          · have hfront := keeps_item hW separator afterHole rest.isEmpty hcommands name _
              hW.newlineRests
            simp only [itemSlots, Slot.fill_append, List.append_assoc] at hfront ⊢
            simp only [← List.append_assoc] at hfront ⊢
            rw [List.append_assoc, List.append_assoc]
            refine Watch.Allows.append hfront ?_
            by_cases hrest : rest = []
            · -- comments behind the last item end the list, and nothing comes behind them
              subst hrest
              obtain rfl : _ = others := Except.ok.inj hothers
              simpa [Slot.fill] using rests_behindItems hW name inner.queue
            · have hisEmpty : rest.isEmpty = false := by simpa using hrest
              rw [hisEmpty]
              exact Watch.Allows.append (rests_betweenItems hW name inner.queue) (hends name)

lemma rests_sequence (spaces : Bool) (separator : String) {item : α → Render Unit}
    (hitem : ∀ a, Emits W.Rests (item a)) (list : List (Option α)) :
    Emits W.Rests (sequence spaces separator item list) := by
  intro s q e h
  by_cases hlist : list = []
  · subst hlist
    obtain rfl : _ = e := Except.ok.inj h
    exact Watch.Allows.nil
  · obtain ⟨first, hfirst, broken, hbroken, rfl⟩ := (sequence_eq_ok_iff hlist).mp h
    obtain ⟨hkeeps, hends⟩ := rests_items hW hitem hfirst
    cases broken with
    | false =>
        have hneeded : first.value.2 = false := by
          cases hvalue : first.value.2 with
          | false => rfl
          | true => simp [breaks, hvalue] at hbroken
        exact hW.closed.decided spaces false (hkeeps hneeded)
    | true =>
        have hopen : W.Rests [.indent, .newline] := by
          simp [Watch.Rests, Command.leaves, hW.plain .indent rfl, hW.plain .newline rfl]
        have hall := Watch.Allows.append hopen (hends "sequence-join")
        simpa [Watch.Rests, decided, assemble, Command.leaves] using hall

end

/-! ## Steps that leave something open -/

/-- What a step does to the state: started in the state `o` it writes nothing that may not stand
there, and ends in a state of which `P` is true. -/
def Leads (W : Watch σ) (o : σ) (x : Render α) (P : σ → Prop) : Prop :=
  ∀ s q e, x s q = .ok e → ∃ o', W.scan o (leavesAll e.commands) = some o' ∧ P o'

lemma leads_of_rests {x : Render α} (h : Emits W.Rests x) : Leads W W.rest x (· = W.rest) :=
  fun _ _ _ he => ⟨W.rest, h _ _ _ he, rfl⟩

lemma Leads.rests {x : Render α} (h : Leads W W.rest x (· = W.rest)) : Emits W.Rests x := by
  intro s q e he
  obtain ⟨o, ho, rfl⟩ := h s q e he
  exact ho

lemma Leads.bind {o : σ} {P Q : σ → Prop} {x : Render α} {f : α → Render β}
    (hx : Leads W o x P) (hf : ∀ a o, P o → Leads W o (f a) Q) : Leads W o (x >>= f) Q := by
  intro s q e h
  obtain ⟨first, hfirst, second, hsecond, rfl⟩ := bind_eq_ok_iff.mp h
  obtain ⟨o', ho', hP⟩ := hx _ _ _ hfirst
  obtain ⟨o'', ho'', hQ⟩ := hf _ _ hP _ _ _ hsecond
  exact ⟨o'', by simp [Emission.andThen, Watch.scan_append, ho', ho''], hQ⟩

/-- A step that leaves nothing open comes first. -/
lemma Leads.after {P : σ → Prop} {x : Render α} {f : α → Render β} (hx : Emits W.Rests x)
    (hf : ∀ a, Leads W W.rest (f a) P) : Leads W W.rest (x >>= f) P :=
  (leads_of_rests hx).bind fun a _ ho => ho ▸ hf a

/-- Something is read first; it is enough to look at what can be read. -/
lemma leads_readOf {o : σ} {P : σ → Prop} {x : Except Fault α} {f : α → Render β}
    (hf : ∀ a, x = .ok a → Leads W o (f a) P) : Leads W o ((liftM x : Render α) >>= f) P := by
  intro s q e h
  obtain ⟨a, ha, hrest⟩ := read_bind_eq_ok_iff.mp h
  exact hf a ha s q e hrest

lemma leads_read {o : σ} {P : σ → Prop} {x : Except Fault α} {f : α → Render β}
    (hf : ∀ a, Leads W o (f a) P) : Leads W o ((liftM x : Render α) >>= f) P :=
  leads_readOf fun a _ => hf a

lemma leads_pure {o : σ} {P : σ → Prop} (h : P o) (a : α) : Leads W o (pure a) P := by
  intro s q e he
  obtain rfl := Except.ok.inj he
  exact ⟨o, by simp, h⟩

lemma leads_emit {o o' : σ} {P : σ → Prop} {commands : List Command}
    (h : W.scan o (leavesAll commands) = some o') (hP : P o') : Leads W o (emit commands) P := by
  intro s q e he
  obtain rfl := Except.ok.inj he
  exact ⟨o', h, hP⟩

section

variable (hW : W.Allows Open)

include hW

lemma leads_newline {o : σ} (ho : Open o) : Leads W o (emit [.newline]) (· = W.rest) :=
  leads_emit (by simp [Command.leaves, hW.newline o ho]) rfl

lemma leads_close {o : σ} (ho : Open o) (s : String) :
    Leads W o (emit [.dedent, .newline, .text s]) (· = W.rest) :=
  leads_emit (by simpa [Command.leaves] using hW.scan_close ho s) rfl

lemma leads_drainAfterStatement : Leads W W.rest drainAfterStatement Open := by
  intro s q e h
  obtain ⟨commands, hcommands, rfl⟩ := drainAfterStatement_eq_ok_iff.mp h
  obtain ⟨o', ho', hscan⟩ :=
    scan_afterStatement hW hW.rest (fun _ => hW.plain (.text " ") rfl) hcommands
  exact ⟨o', hscan, ho'⟩

lemma rests_leadingComments (newlines : Bool) (node : Json) (comments : List Json) :
    Emits W.Rests (leadingComments newlines node comments) := by
  intro s q e h
  obtain ⟨commands, hcommands, rfl⟩ := leadingComments_eq_ok_iff.mp h
  exact rests_leading hW hcommands

lemma rests_emit {commands : List Command} (h : ∀ c ∈ leavesAll commands, c.comment? = none) :
    Emits W.Rests (emit commands) := by
  intro s q e he
  obtain rfl := Except.ok.inj he
  exact hW.scan_plain h

lemma rests_plain {commands : List Command} (h : ∀ c ∈ commands, c.IsPlain) :
    Emits W.Rests (emit commands) := by
  intro s q e he
  obtain rfl := Except.ok.inj he
  clear he
  change W.Rests commands
  induction commands with
  | nil => exact Watch.Allows.nil
  | cons c rest ih =>
      have hc : W.Rests [c] := by
        have hplain := h c List.mem_cons_self
        cases c with
        | text s => exact hW.text s
        | newline => exact hW.newlineRests
        | foreign v => exact hW.closed.foreign v
        | _ => exact absurd hplain id
      exact Watch.Allows.append hc (ih fun d hd => h d (List.mem_cons_of_mem _ hd))

lemma rests_text (content : String) : Emits W.Rests (text content) :=
  rests_emit hW (by simp [Command.leaves, Command.comment?])

lemma rests_read (x : Except Fault α) : Emits W.Rests (liftM x : Render α) :=
  emits_of_quiet hW.closed fun s q e h => by
    obtain ⟨a, -, rfl⟩ := read_eq_ok_iff.mp h
    rfl

lemma rests_setting : Emits W.Rests setting :=
  emits_of_quiet hW.closed fun s q e h => by
    obtain rfl := Except.ok.inj h
    rfl

lemma rests_raiseIf (b : Bool) : Emits W.Rests (raiseIf b) :=
  emits_of_quiet hW.closed fun s q e h => by
    obtain rfl := Except.ok.inj h
    rfl

lemma rests_raise : Emits W.Rests raise :=
  emits_of_quiet hW.closed fun s q e h => by
    obtain rfl := Except.ok.inj h
    rfl

lemma rests_chunk (content node : Json) : Emits W.Rests (chunk content node) := by
  intro s q e h
  obtain ⟨span, -, rfl⟩ := chunk_eq_ok_iff.mp h
  cases content <;> exact Watch.Allows.leaf (by simp [Command.chunkOf, Command.leaves])
    (hW.plain _ rfl)

variable {node : Json} {inner : Inner node}

/-! ## Statements -/

/-- The margin of a statement starts a new line, unless it is the first one. -/
lemma scan_margin {o : σ} {before : Option Printed} (ho : Open o) (h : before = none → o = W.rest)
    (after : Printed) : W.scan o (leavesAll (margin before after)) = some W.rest := by
  cases before with
  | none => simp [margin, h rfl]
  | some before =>
      obtain ⟨o', ho', hfeed⟩ := hW.lineFeed o ho
      by_cases hseparated : separates before after
      · simp [margin, hseparated, Command.leaves, hfeed, hW.newline o' ho']
      · simp [margin, hseparated, Command.leaves, hW.newline o ho]

/-- **Statements** may leave something open, and all but the first may start with something open. -/
lemma leads_body (hinner : ∀ part, Emits W.Rests (inner.bare part)) {o : σ} (ho : Open o)
    (before : Option Printed) (h : before = none → o = W.rest) (statements : List (Part node)) :
    Leads W o (bodyAfter inner before statements) Open := by
  induction statements generalizing o before with
  | nil => exact leads_pure ho _
  | cons statement rest ih =>
      intro s q e he
      obtain ⟨kind, -, he⟩ := bodyAfter_cons_eq_ok he
      split at he
      · exact ih ho before h _ _ _ he
      · obtain ⟨list, -, comments, hcomments, held, hheld, drained, hdrained, others, hothers,
          hcommands, -⟩ := he
        obtain ⟨o', ho', hopen⟩ := leads_drainAfterStatement hW _ _ _ hdrained
        obtain ⟨o'', ho'', hopen'⟩ := ih hopen (some _) (by simp) _ _ _ hothers
        have hmargin := scan_margin hW ho h ⟨kind.display, held.multiline⟩
        have hleading : W.scan W.rest (leavesAll comments) = some W.rest :=
          rests_leading hW hcomments
        have hstatement : W.scan W.rest (leavesAll held.commands) = some W.rest :=
          hinner _ _ _ _ hheld
        refine ⟨o'', ?_, hopen'⟩
        simp [hcommands, Watch.scan_append, hmargin, hleading, hstatement, ho', ho'']

/-- A block closes with a line break, so its statements may leave something open. -/
lemma rests_braced (hinner : ∀ part, Emits W.Rests (inner.bare part))
    (statements : List (Part node)) : Emits W.Rests (braced (body inner statements)) := by
  refine Leads.rests (Leads.after (rests_emit hW (by simp [Command.leaves, Command.comment?]))
    fun _ => ?_)
  exact (leads_body hW hinner hW.rest none (fun _ => rfl) statements).bind fun _ _ ho =>
    leads_close hW ho _

/-! ## Switch statements -/

lemma leads_caseStatements (hinner : ∀ part, Emits W.Rests (inner.value part)) {o : σ}
    (ho : Open o) (statements : List (Part node)) :
    Leads W o (Rules.caseStatements inner statements) Open := by
  induction statements generalizing o with
  | nil => exact leads_pure ho _
  | cons statement rest ih =>
      refine (leads_newline hW ho).bind fun _ o ho => ?_
      refine ho ▸ Leads.after (hinner statement) fun _ => ?_
      exact (leads_drainAfterStatement hW).bind fun _ _ ho => ih ho

lemma leads_switchCase (hinner : ∀ part, Emits W.Rests (inner.value part)) :
    Leads W W.rest (Rules.switchCase inner) Open := by
  have hconsequent : Leads W W.rest (do
      emit [.indent]
      Rules.caseStatements inner (← Json.parts (← node.require "consequent"))
      emit [.dedent]) Open := by
    refine Leads.after (rests_emit hW (by simp [Command.leaves, Command.comment?])) fun _ => ?_
    refine leads_read fun part => leads_read fun list => ?_
    refine (leads_caseStatements hW hinner hW.rest list).bind fun _ o ho => ?_
    obtain ⟨o', ho', hdedent⟩ := hW.dedent o ho
    exact leads_emit (by simp [Command.leaves, hdedent]) ho'
  refine leads_read fun comments => Leads.after (rests_leadingComments hW _ _ _) fun _ =>
    leads_read fun test => ?_
  cases test with
  | none => exact Leads.after (rests_text hW _) fun _ => hconsequent
  | some test =>
      exact Leads.after (rests_text hW _) fun _ => Leads.after (hinner test) fun _ =>
        Leads.after (rests_text hW _) fun _ => hconsequent

/-- **The cases of a `switch` statement** may leave something open, and start with something open.
-/
lemma leads_switchCases (hinner : ∀ part, Emits W.Rests (inner.value part)) {o : σ} (ho : Open o)
    (isFirst : Bool) (cases : List (Part node)) :
    Leads W o (Rules.switchCases inner isFirst cases) Open := by
  induction cases generalizing o isFirst with
  | nil => exact leads_pure ho _
  | cons case rest ih =>
      have hcase {o : σ} (ho : Open o) : Leads W o (do
          emit [.newline]
          Rules.switchCase (inner.under case)
          Rules.switchCases inner false rest) Open :=
        (leads_newline hW ho).bind fun _ o ho => ho ▸
          (leads_switchCase hW fun part => hinner (case.within part)).bind fun _ _ ho => ih ho false
      unfold Rules.switchCases
      split
      · obtain ⟨o', ho', hfeed⟩ := hW.lineFeed o ho
        have hblankLine : Leads W o (text "\n") Open :=
          leads_emit (by simp [Command.leaves, hfeed]) ho'
        exact hblankLine.bind fun _ _ ho => hcase ho
      · exact hcase ho

lemma rests_switchRule (hinner : ∀ part, Emits W.Rests (inner.value part)) :
    Emits W.Rests (Rules.switchRule node inner) := by
  refine Leads.rests <| Leads.after (rests_raise hW) fun _ => Leads.after (rests_text hW _) fun _ =>
    Leads.after (emits_bind hW.closed (rests_read hW _) fun part => hinner part) fun _ => ?_
  refine Leads.after (rests_emit hW (by simp [Command.leaves, Command.comment?])) fun _ =>
    leads_read fun part => leads_read fun list => ?_
  exact (leads_switchCases hW hinner hW.rest true list).bind fun _ _ ho => leads_close hW ho _

end

/-! ## The correspondence -/

/-- No program is in a tree. -/
def HoldsNoProgram (tree : Json) : Prop :=
  ∀ node, node = tree ∨ node.Inside tree → node.kind ≠ .ok (.str "Program")

/-- **What renders a tree without a program leaves nothing open.** -/
def resting (hW : W.Allows Open) : Correspondence where
  Applies := HoldsNoProgram
  applies_inside h hpart := fun node hnode =>
    h node (Or.inr (hnode.elim (fun heq => heq ▸ hpart) fun hinside => hinside.trans hpart))
  Related _ x _ := Emits W.Rests x
  Bare _ x _ := Emits W.Rests x
  Own _ x _ := Emits W.Rests x
  mono _ h := h
  pure a := emits_of_quiet hW.closed fun s q e h => by
    obtain rfl := Except.ok.inj h
    rfl
  bind := emits_bind hW.closed
  read := rests_read hW
  quote h := emits_bind hW.closed (rests_setting hW) fun s => h s.quote
  noIn h := emits_bind hW.closed (rests_setting hW) fun s => h s.noIn
  withNoIn b _ _ h := fun s q e he => h { s with noIn := b } q e he
  emit := rests_plain hW
  chunk content {node} _ := rests_chunk hW content node
  raiseIf b := rests_raiseIf hW b
  sequence spaces separator _ _ _ hitem := rests_sequence hW spaces separator hitem
  declarations := emits_declarations hW.closed
  arguments := emits_callArguments hW.closed fun _ _ _ => keeps_argumentGap hW
  branches hx hy := fun s q e h => by
    obtain ⟨yes, hyes, no, hno, rfl⟩ := branches_eq_ok_iff.mp h
    exact hW.closed.branches _ (hx _ _ _ hyes) (hy _ _ _ hno)
  braced := rests_braced hW
  bareRead hf := (leads_readOf fun a ha => leads_of_rests (hf a ha)).rests
  own _ _ _ h := h
  program happlies hkind := absurd hkind (happlies _ (Or.inl rfl))
  switch _ _ := rests_switchRule hW

section

variable (hW : W.Allows Open)

include hW

lemma rests_dressed (role : Role) (node : Json) {x : Render Unit} (hx : Emits W.Rests x) :
    Emits W.Rests (dressed role node x) := by
  have htrailing : Emits W.Rests (queueTrailing node) :=
    emits_of_quiet hW.closed fun s q e h => by rw [queueTrailing_eq_ok h]
  have hbehind := emits_bind hW.closed hx fun _ => htrailing
  cases role with
  | value =>
      exact emits_bind hW.closed (rests_read hW _) fun comments =>
        emits_bind hW.closed (rests_leadingComments hW false node comments) fun _ => hbehind
  | bare => exact hbehind
  | type => exact hx

/-- **The rendering of a tree without a program leaves nothing open.** -/
theorem rests_tree (role : Role) {node : Json} (h : HoldsNoProgram node) :
    Emits W.Rests (tree role node) := by
  have hdress : (resting hW).Dresses dressed dressed :=
    { value := fun _ _ hx => rests_dressed hW .value _ hx
      bare := fun _ _ hx => rests_dressed hW .bare _ hx
      type := fun _ _ hx => rests_dressed hW .type _ hx }
  have htree := (resting hW).treeWith hdress role h
  rw [treeWith_dressed] at htree
  cases role with
  | _ => exact htree

/-! ## Whole trees -/

/-- A program may leave something open, and it is the only node that does. -/
lemma leads_program {node : Json} {inner : Inner node}
    (hinner : ∀ part, Emits W.Rests (inner.bare part)) :
    Leads W W.rest (Rules.program node inner) Open :=
  leads_read fun _ => leads_read fun statements =>
    leads_body hW hinner hW.rest none (fun _ => rfl) statements

/-- **The rendering of a whole tree**, of which the root may be a program. -/
theorem leads_tree {root : Json}
    (h : ∀ part : Json, part.Inside root → part.kind ≠ .ok (.str "Program")) :
    Leads W W.rest (tree .value root) Open := by
  by_cases hkind : root.kind = .ok (.str "Program")
  · have hinner : ∀ part, Emits W.Rests ((partsOf root).bare part) := fun part =>
      rests_tree hW .bare fun node hnode => hnode.elim (fun heq => heq ▸ h _ part.2)
        fun hinside => h _ (hinside.trans part.2)
    have hfind : Rules.find Role.value.rules (.str "Program") = .ok (some Rules.program) := rfl
    rw [tree_eq, hkind]
    refine leads_readOf fun kind hkind => ?_
    obtain rfl := Except.ok.inj hkind
    rw [hfind]
    refine leads_readOf fun rule hrule => ?_
    obtain rfl := Except.ok.inj hrule
    refine leads_read fun comments => Leads.after (rests_leadingComments hW _ _ _) fun _ => ?_
    refine (leads_program hW hinner).bind fun _ o ho => ?_
    intro s q e he
    rw [queueTrailing_eq_ok he]
    exact ⟨o, by simp, ho⟩
  · have hroot : HoldsNoProgram root := fun node hnode =>
      hnode.elim (fun heq => heq ▸ hkind) (h node)
    intro s q e he
    exact ⟨W.rest, rests_tree hW .value hroot _ _ _ he, hW.rest⟩

end

end Render

end EstreePrinter
