import Mathlib
import EstreePrinter.Proofs.Command.Observed
import EstreePrinter.Proofs.Words.Basic

/-!
# What a rendering says

A rendering says the words whose texts are those of the chunks that it emits, in this order
(`Render.Says`).  Steps one after the other say what the first says and then what the second says;
text, comments and the layout say nothing.  What goes through placeholders, a separated list, the
declarators of a declaration, the arguments of a call and the branches of a conditional expression,
says what its parts say.
-/

namespace EstreePrinter

open Json (Part)
open Command (observed)

namespace Command

/-- The text of a command that has a place. -/
def chunkText? : Command → Option String
  | .chunk s _ => some s
  | _ => none

lemma overlooks_chunkText? : OverlooksLayout chunkText? :=
  ⟨fun _ => rfl, rfl, rfl, rfl⟩

/-- Commands that say nothing. -/
lemma closed_silent : Closed (fun _ => True) fun commands => observed chunkText? commands = [] where
  nil := observed_nil
  append hcs hds := by rw [observed_append, hcs, hds]; rfl
  text s := by rw [overlooks_chunkText?.observed_text, observed_nil]
  newline := by rw [overlooks_chunkText?.observed_newline, observed_nil]
  foreign v := by simp [observed, leaves, chunkText?]
  comment after _ := by simp [observed, leaves, chunkText?]
  deferred name _ h := by simp [h]
  between {start middle stop} hstart hmiddle hstop := by
    have hmoves {marker : Command} (hmarker : chunkText? marker = none) {commands : List Command}
        (h : Moves marker commands) : observed chunkText? commands = [] := by
      obtain ⟨rest, hleaves, hrest⟩ := h.leaves
      refine List.filterMap_eq_nil_iff.mpr fun c hc => ?_
      rw [hleaves] at hc
      rcases List.mem_cons.mp hc with rfl | hc
      · exact hmarker
      · rcases hrest c hc with rfl | ⟨s, rfl⟩ <;> rfl
    rw [observed_append, observed_append, hmoves rfl hstart, hmiddle, hmoves rfl hstop]
    rfl

end Command

open Command (chunkText? overlooks_chunkText? closed_silent)

namespace Render

variable {α β : Type} {quote : Char} {ws vs : List Word}

/-- **A step says some words** whenever it succeeds, where strings have the delimiter `quote`. -/
def Says (quote : Char) (ws : List Word) (x : Render α) : Prop :=
  ∀ s q e, s.quote = quote → x s q = .ok e →
    observed chunkText? e.commands = ws.map Word.printed

namespace Says

lemma of_eq {x : Render α} (h : Says quote ws x) (heq : ws = vs) : Says quote vs x := heq ▸ h

lemma bind {x : Render α} {f : α → Render β} (hx : Says quote ws x)
    (hf : ∀ a, Says quote vs (f a)) : Says quote (ws ++ vs) (x >>= f) := by
  intro s q e hs h
  obtain ⟨first, hfirst, second, hsecond, rfl⟩ := bind_eq_ok_iff.mp h
  simp [Emission.andThen, hx _ _ _ hs hfirst, hf _ _ _ _ hs hsecond]

lemma andThen {x : Render α} {y : Render β} (hx : Says quote ws x) (hy : Says quote vs y) :
    Says quote (ws ++ vs) (x >>= fun _ => y) :=
  hx.bind fun _ => hy

/-- A step that says nothing, before the rest. -/
lemma skip {x : Render α} {f : α → Render β} (hx : Says quote [] x)
    (hf : ∀ a, Says quote ws (f a)) : Says quote ws (x >>= f) := hx.bind hf

/-- A step that says nothing, at the end. -/
lemma ending {x : Render α} {y : Render β} (hx : Says quote ws x) (hy : Says quote [] y) :
    Says quote ws (x >>= fun _ => y) := by
  simpa using hx.andThen hy

lemma ite {c : Prop} [Decidable c] {x y : Render α} (hx : Says quote ws x)
    (hy : Says quote ws y) : Says quote ws (if c then x else y) := by
  split
  · exact hx
  · exact hy

/-- A step that says nothing and is taken only under a condition, before the rest. -/
lemma optional {c : Prop} [Decidable c] {x : Render PUnit} {rest : PUnit → Render β}
    (hx : Says quote [] x) (hrest : ∀ a, Says quote ws (rest a)) :
    Says quote ws (if c then x >>= rest else rest ⟨⟩) :=
  ite (hx.skip hrest) (hrest _)

/-- Something is read first; it is enough to look at what can be read. -/
lemma readOf {x : Except Fault α} {f : α → Render β} (hf : ∀ a, x = .ok a → Says quote ws (f a)) :
    Says quote ws ((liftM x : Render α) >>= f) := by
  intro s q e hs h
  obtain ⟨a, ha, hrest⟩ := read_bind_eq_ok_iff.mp h
  exact hf a ha s q e hs hrest

/-- What is read is known. -/
lemma known {x : Except Fault α} {a : α} {f : α → Render β} (hx : x = .ok a)
    (hf : Says quote ws (f a)) : Says quote ws ((liftM x : Render α) >>= f) :=
  readOf fun b hb => by
    obtain rfl := Except.ok.inj (hx.symm.trans hb)
    exact hf

lemma read {x : Except Fault α} {f : α → Render β} (hf : ∀ a, Says quote ws (f a)) :
    Says quote ws ((liftM x : Render α) >>= f) :=
  readOf fun a _ => hf a

lemma withNoIn {x : Render α} (h : Says quote ws x) (b : Bool) :
    Says quote ws (Render.withNoIn b x) :=
  fun s q e hs he => h { s with noIn := b } q e hs he

/-- The delimiter of strings is known, whatever else the setting says. -/
lemma setting {f : Setting → Render β} (hf : ∀ s : Setting, s.quote = quote → Says quote ws (f s)) :
    Says quote ws (Render.setting >>= f) := by
  intro s q e hs h
  obtain ⟨first, hfirst, second, hsecond, rfl⟩ := bind_eq_ok_iff.mp h
  obtain rfl := Except.ok.inj hfirst
  simpa [Emission.andThen] using hf s hs _ _ _ hs hsecond

end Says

/-! ## Steps that say nothing -/

/-- A step that emits only what says nothing. -/
lemma says_nothing {x : Render α}
    (h : Emits (fun commands => observed chunkText? commands = []) x) :
    Says quote [] x :=
  fun s q e _ he => h s q e he

lemma says_emit {commands : List Command} (h : observed chunkText? commands = []) :
    Says quote [] (emit commands) :=
  says_nothing fun s q e he => by
    obtain rfl := Except.ok.inj he
    exact h

lemma says_text (s : String) : Says quote [] (text s) := says_emit (closed_silent.text s)

lemma says_newline : Says quote [] (emit [.newline]) := says_emit closed_silent.newline

lemma says_pure (a : α) : Says quote [] (pure a : Render α) :=
  says_nothing (emits_of_quiet closed_silent fun s q e h => by
    obtain rfl : _ = e := Except.ok.inj h
    rfl)

lemma says_raiseIf (b : Bool) : Says quote [] (raiseIf b) :=
  says_nothing (emits_of_quiet closed_silent fun s q e h => by
    obtain rfl : _ = e := Except.ok.inj h
    rfl)

lemma says_raise : Says quote [] raise := says_raiseIf true

/-- Texts and markers. -/
lemma says_markers {commands : List Command}
    (h : ∀ c ∈ commands, chunkText? c = none ∧ Command.leaves c = [c]) :
    Says quote [] (emit commands) := by
  refine says_emit (List.filterMap_eq_nil_iff.mpr fun c hc => ?_)
  have hall : Command.leavesAll commands = commands := by
    clear hc
    induction commands with
    | nil => simp
    | cons d rest ih =>
        rw [Command.leavesAll_cons, (h d (by simp)).2, ih fun d hd => h d (by simp [hd])]
        rfl
  exact (h c (hall ▸ hc)).1

lemma says_textIf (node : Json) (key word : String) : Says quote [] (textIf node key word) :=
  .read fun _ => .ite (says_text _) (says_pure _)

lemma says_ofValue (v : Json) : Says quote [] (emit [.ofValue v]) := by
  cases v with
  | str s => exact says_text s
  | _ => exact says_emit (closed_silent.foreign _)

lemma says_leadingComments (newlines : Bool) (node : Json) (comments : List Json) :
    Says quote [] (leadingComments newlines node comments) :=
  says_nothing fun s q e h => by
    obtain ⟨commands, hcommands, rfl⟩ := leadingComments_eq_ok_iff.mp h
    exact emits_flat closed_silent (Invariant.isFlat_leading hcommands)

lemma says_drainAfterStatement : Says quote [] drainAfterStatement :=
  says_nothing (emits_drainAfterStatement closed_silent)

lemma says_queueTrailing (node : Json) : Says quote [] (queueTrailing node) :=
  says_nothing (emits_of_quiet closed_silent fun s q e h => by
    rw [queueTrailing_eq_ok h])

/-- A chunk says a word whose text it has. -/
lemma says_chunk {content node : Json} {word : Word} (h : content = .str word.printed) :
    Says quote [word] (chunk content node) :=
  .read fun span s q e _ he => by
    obtain rfl := Except.ok.inj he
    simp [h, Command.chunkOf, observed, Command.leaves, chunkText?]

/-! ## Lists that may break -/

lemma observed_itemComments (isLast : Bool) (comments : List Json) :
    Slot.observed chunkText? (itemComments isLast comments) = [] :=
  closed_silent.itemComments isLast (fun _ _ => trivial) "" [] Command.observed_nil

/-- **Over the items of a list.** -/
lemma observed_items {separator : String} {words : α → List Word} {item : α → Render Unit}
    {list : List (Option α)} (hitem : ∀ a, some a ∈ list → Says quote (words a) (item a))
    {afterHole : Bool} {s : Setting} (hs : s.quote = quote) {q : List Json}
    {e : Emission (List Slot × Bool)} (h : items separator item afterHole list s q = .ok e) :
    Slot.observed chunkText? e.value.1 =
      (list.flatMap fun a => a.elim [] words).map Word.printed := by
  induction list generalizing afterHole q e with
  | nil =>
      obtain rfl := Except.ok.inj h
      simp
  | cons a rest ih =>
      have hrest {afterHole : Bool} {q : List Json} {e : Emission (List Slot × Bool)}
          (h : items separator item afterHole rest s q = .ok e) :=
        ih (fun b hb => hitem b (by simp [hb])) h
      cases a with
      | none =>
          obtain ⟨others, hothers, rfl⟩ := items_hole_eq_ok_iff.mp h
          simpa [Slot.observed_text overlooks_chunkText?] using hrest hothers
      | some a =>
          obtain ⟨inner, hinner, others, hothers, rfl⟩ := items_some_eq_ok_iff.mp h
          simp [Slot.observed_itemSlots overlooks_chunkText?, observed_itemComments,
            hitem a (by simp) _ _ _ hs hinner, hrest hothers]

lemma says_sequence (spaces : Bool) (separator : String) {words : α → List Word}
    {item : α → Render Unit} {list : List (Option α)}
    (hitem : ∀ a, some a ∈ list → Says quote (words a) (item a)) :
    Says quote (list.flatMap fun a => a.elim [] words) (sequence spaces separator item list) := by
  intro s q e hs h
  by_cases hlist : list = []
  · subst hlist
    obtain rfl : _ = e := Except.ok.inj h
    simp
  · obtain ⟨first, hfirst, broken, -, rfl⟩ := (sequence_eq_ok_iff hlist).mp h
    rw [overlooks_chunkText?.observed_decided, observed_items hitem hs hfirst]

variable {node : Json} {inner : Inner node}

/-- The words of some parts. -/
abbrev wordsOf (quote : Char) (parts : List (Part node)) : List Word :=
  parts.flatMap fun part => part.1.words quote

lemma observed_joined {list : List (Part node)}
    (hinner : ∀ part ∈ list, Says quote (part.1.words quote) (inner.value part)) {s : Setting}
    (hs : s.quote = quote) {q : List Json} {e : Emission (List Slot × Bool)}
    (h : joined inner.value list s q = .ok e) :
    Slot.observed chunkText? e.value.1 = (wordsOf quote list).map Word.printed := by
  induction list generalizing q e with
  | nil =>
      obtain rfl := Except.ok.inj h
      simp
  | cons part rest ih =>
      obtain ⟨held, hheld, others, hothers, rfl⟩ := joined_cons_eq_ok h
      have hfirst := hinner part (by simp) _ _ _ hs hheld
      have hrest := ih (fun part hpart => hinner part (by simp [hpart])) hothers
      cases rest <;> simp_all

lemma says_declarations {list : Part node} (hlist : node.require "declarations" = .ok list)
    {parts : List (Part node)} (hparts : Json.parts list = .ok parts)
    (hinner : ∀ part ∈ parts, Says quote (part.1.words quote) (inner.value part)) :
    Says quote (wordsOf quote parts) (declarations node inner) := by
  intro s q e hs h
  obtain ⟨part, hpart, found, hfound, declare, -, kind, -, first, hfirst, broken, -, rfl⟩ :=
    declarations_eq_ok h
  obtain rfl : list = part := Except.ok.inj (hlist.symm.trans hpart)
  obtain rfl : parts = found := Except.ok.inj (hparts.symm.trans hfound)
  have hwords := observed_joined hinner hs hfirst
  cases declare <;>
    simp [overlooks_chunkText?.observed_decidedDeclarations, overlooks_chunkText?.observed_text,
      hwords]

/-! ## Arguments and branches -/

lemma observed_argumentGap {s : Setting} {q : List Json} {e : Emission (List Slot × Bool)}
    (h : Rules.argumentGap s q = .ok e) : Slot.observed chunkText? e.value.1 = [] :=
  emits_argumentGap closed_silent h "" [] Command.observed_nil

/-- **Over the arguments of a call.** -/
lemma observed_arguments {list : List (Part node)}
    (hinner : ∀ part ∈ list, Says quote (part.1.words quote) (inner.value part)) {s : Setting}
    (hs : s.quote = quote) {q : List Json} {e : Emission Rules.Arguments}
    (h : Rules.arguments inner list s q = .ok e) :
    Slot.observed chunkText? e.value.front ++ observed chunkText? e.value.last =
      (wordsOf quote list).map Word.printed := by
  induction list generalizing q e with
  | nil =>
      obtain rfl : _ = e := Except.ok.inj h
      simp
  | cons argument rest ih =>
      by_cases hrest : rest = []
      · subst hrest
        obtain ⟨held, hheld, rfl⟩ := arguments_last_eq_ok_iff.mp h
        simpa using hinner argument (by simp) _ _ _ hs hheld
      · obtain ⟨held, hheld, gap, hgap, others, hothers, rfl⟩ :=
          (arguments_cons_eq_ok_iff hrest).mp h
        have hfirst := hinner argument (by simp) _ _ _ hs hheld
        have hbehind := ih (fun part hpart => hinner part (by simp [hpart])) hothers
        simp [hfirst, observed_argumentGap hgap, hbehind]

lemma says_callArguments {list : Part node} (hlist : node.require "arguments" = .ok list)
    {parts : List (Part node)} (hparts : Json.parts list = .ok parts)
    (hinner : ∀ part ∈ parts, Says quote (part.1.words quote) (inner.value part)) :
    Says quote (wordsOf quote parts) (Rules.callArguments inner) := by
  intro s q e hs h
  obtain ⟨part, hpart, found, hfound, args, hargs, broken, -, rfl⟩ := callArguments_eq_ok_iff.mp h
  obtain rfl : list = part := Except.ok.inj (hlist.symm.trans hpart)
  obtain rfl : parts = found := Except.ok.inj (hparts.symm.trans hfound)
  rw [overlooks_chunkText?.observed_decidedArguments, observed_arguments hinner hs hargs]

lemma says_branches {x y : Render Unit} (hx : Says quote ws x) (hy : Says quote vs y) :
    Says quote (ws ++ vs) (do
      let yes ← fork x
      let no ← fork y
      raiseIf (yes.multiline || no.multiline)
      emit (Rules.branches (yes.multiline || no.multiline) yes.commands no.commands)) := by
  intro s q e hs h
  obtain ⟨yes, hyes, no, hno, rfl⟩ := branches_eq_ok_iff.mp h
  simp [overlooks_chunkText?.observed_branches, hx _ _ _ hs hyes, hy _ _ _ hs hno]

/-! ## Statements -/

/-- **Over the statements of a body**: an empty one, which is left out, has no words. -/
lemma says_bodyAfter {statements : List (Part node)}
    (hempty : ∀ part ∈ statements, ∀ kind, part.1.requireKind = .ok kind →
      kind.isText "EmptyStatement" = true → part.1.words quote = [])
    (hinner : ∀ part ∈ statements, Says quote (part.1.words quote) (inner.bare part))
    (before : Option Printed) :
    Says quote (wordsOf quote statements) (bodyAfter inner before statements) := by
  induction statements generalizing before with
  | nil => exact says_pure _
  | cons statement rest ih =>
      have hrest (before : Option Printed) :=
        ih (fun part hpart => hempty part (by simp [hpart]))
          (fun part hpart => hinner part (by simp [hpart])) before
      intro s q e hs h
      obtain ⟨kind, hkind, h⟩ := bodyAfter_cons_eq_ok h
      split at h
      · rename_i hisEmpty
        rw [wordsOf, List.flatMap_cons, hempty statement (by simp) kind hkind hisEmpty]
        exact hrest before _ _ _ hs h
      · obtain ⟨list, -, comments, hcomments, held, hheld, drained, hdrained, others, hothers,
          hcommands, -⟩ := h
        have hleading := emits_flat closed_silent (Invariant.isFlat_leading hcomments)
        have hdrain := emits_drainAfterStatement closed_silent _ _ _ hdrained
        rw [hcommands]
        simp [overlooks_chunkText?.observed_margin, hleading, hdrain,
          hinner statement (by simp) _ _ _ hs hheld, hrest _ _ _ _ hs hothers]

end Render

end EstreePrinter
