import Mathlib
import EstreePrinter.Proofs.Made.Type

/-!
# The note on lines tells the truth

A rendering finds out whether its output needs several lines (`Emission.multiline`).  In a tree
whose texts stay on a line, and that has no comments, programs or decorators in it, it finds that
out exactly: several lines are needed just if the commands write a line feed
(`Render.truthful_tree`).

**Comments from outside.**  Comments may be waiting when the rendering starts.  Statements and lists
that break note them; the arguments of a call note line comments only, so a block comment with a
line feed in it would go unnoticed there.  Waiting comments are asked to have no line feed or to be
line comments: `Json.IsBrief`.

**How it is proved.**  By induction on how a step is made.  The lists that decide about their breaks
write a line feed if they break (`lineFeedsAll_decided` and its like); if they do not, none of their
items needs several lines, so none of them writes one.
-/

namespace EstreePrinter

open Json (Part)

/-! ## Line feeds in commands -/

namespace Command

lemma lineFeedsAll_text {s : String} (h : '\n' ∉ s.toList) : lineFeedsAll [.text s] = 0 := by
  simp [lineFeedsAll, leaves, lineFeeds, textAt, List.count_eq_zero_of_not_mem h]

/-- A value that is no text prints nothing. -/
lemma lineFeedsAll_ofValue (v : Json) :
    lineFeedsAll [ofValue v] = 0 ↔ ∀ s, v = .str s → '\n' ∉ s.toList := by
  cases v with
  | str s => simp [ofValue, lineFeedsAll, leaves, lineFeeds, textAt, List.count_eq_zero]
  | _ => simp [ofValue, lineFeedsAll, leaves, lineFeeds, textAt]

lemma lineFeedsAll_chunkOf (v : Json) (span : Option Span) :
    lineFeedsAll [chunkOf v span] = lineFeedsAll [ofValue v] := by
  cases v <;> simp [ofValue, chunkOf, lineFeedsAll, leaves, lineFeeds, textAt]

lemma lineFeedsAll_ne_zero_of_newline {commands : List Command} (h : .newline ∈ commands) :
    lineFeedsAll commands ≠ 0 := by
  obtain ⟨before, behind, rfl⟩ := List.append_of_mem h
  rw [lineFeedsAll_append, lineFeedsAll_cons]
  simp [leaves, lineFeeds, textAt, lineBreakAt]

/-- A placeholder that breaks a line. -/
lemma lineFeedsAll_deferred_ne_zero {name : String} {contents : List Command} {rest : List Command}
    (h : .newline ∈ contents) : lineFeedsAll (.deferred name contents :: rest) ≠ 0 := by
  have hcontents := lineFeedsAll_ne_zero_of_newline h
  rw [lineFeedsAll_deferred]
  omega

end Command

namespace Slot

open Command (lineFeedsAll)

/-- The commands among slots. -/
def owned : List Slot → List Command
  | [] => []
  | .own c :: rest => c :: owned rest
  | .join :: rest => owned rest

@[simp] lemma owned_append (xs ys : List Slot) : owned (xs ++ ys) = owned xs ++ owned ys := by
  induction xs with
  | nil => rfl
  | cons x rest ih => cases x <;> simp [owned, ih]

@[simp] lemma owned_ofCommands (commands : List Command) :
    owned (ofCommands commands) = commands := by
  induction commands with
  | nil => rfl
  | cons c rest ih =>
      have hrest : owned (rest.map .own) = rest := ih
      simp [ofCommands, owned, hrest]

/-- Places that are filled without breaking a line. -/
lemma lineFeedsAll_fill {contents : List Command} (h : lineFeedsAll contents = 0) (name : String)
    (slots : List Slot) : lineFeedsAll (fill name contents slots) = lineFeedsAll (owned slots) := by
  induction slots with
  | nil => rfl
  | cons slot rest ih =>
      cases slot with
      | own c => rw [fill, owned, Command.lineFeedsAll_cons, Command.lineFeedsAll_cons, ih]
      | join => rw [fill, owned, Command.lineFeedsAll_deferred, h, Nat.zero_add, ih]

lemma lineFeedsAll_owned_le (name : String) (contents : List Command) (slots : List Slot) :
    lineFeedsAll (owned slots) ≤ lineFeedsAll (fill name contents slots) := by
  induction slots with
  | nil => exact le_rfl
  | cons slot rest ih =>
      cases slot with
      | own c =>
          rw [fill, owned, Command.lineFeedsAll_cons, Command.lineFeedsAll_cons]
          exact Nat.add_le_add_left ih _
      | join =>
          rw [fill, owned, Command.lineFeedsAll_deferred]
          exact ih.trans (Nat.le_add_left _ _)

/-- A place that is filled with a line break. -/
lemma lineFeedsAll_fill_ne_zero {contents : List Command} (h : .newline ∈ contents) (name : String)
    {slots : List Slot} (hjoin : .join ∈ slots) : lineFeedsAll (fill name contents slots) ≠ 0 := by
  obtain ⟨before, behind, rfl⟩ := List.append_of_mem hjoin
  have hfilled : Command.lineFeedsAll (.deferred name contents :: fill name contents behind) ≠ 0 :=
    Command.lineFeedsAll_deferred_ne_zero h
  rw [fill_append, fill, Command.lineFeedsAll_append]
  omega

end Slot

/-! ## Waiting comments -/

/-- A comment that has no line feed in it, or runs to the end of its line anyway. -/
def Json.IsBrief (comment : Json) : Prop :=
  comment.spansLines = .ok true → comment.isLineComment = .ok true

/-- Such a comment writes no line feed where it does not run to the end of its line. -/
lemma Json.IsBrief.count_commentAt {comment : Json} (h : comment.IsBrief)
    (hline : comment.isLineComment = .ok false) : (commentAt "" 0 comment).count '\n' = 0 := by
  unfold commentAt
  rw [hline]
  cases htext : comment.commentText with
  | error fault => rfl
  | ok v =>
      cases v with
      | str s =>
          have hs : '\n' ∉ s.toList := by
            intro hmem
            have hspans : comment.spansLines = .ok true := by
              simp [Json.spansLines, hline, htext, Json.hasLineFeed, hmem]
            cases hline.symm.trans (h hspans)
          have hbody : (s.toList.flatMap fun c => if c = '\n' then lineBreakAt "" 0 else [c]) =
              s.toList.flatMap fun c => [c] :=
            List.flatMap_congr fun c hc => if_neg (ne_of_mem_of_not_mem hc hs)
          simp [hbody, List.count_eq_zero_of_not_mem hs]
      | _ => rfl

namespace Render

variable {α β : Type} {s : Setting} {q : List Json}

/-! ## What is told -/

/-- **A step tells the truth**: if only brief comments wait before it then only such comments wait
behind it, and (where it is made strictly) it notes a need for several lines just if it writes a
line feed. -/
def Truthful (strict : Bool) (x : Render α) : Prop :=
  ∀ s q e, (∀ comment ∈ q, comment.IsBrief) → x s q = .ok e →
    (∀ comment ∈ e.queue, comment.IsBrief) ∧
    (strict = true → (e.multiline = true ↔ Command.lineFeedsAll e.commands ≠ 0))

end Render

/-- The parts of a node are rendered truthfully.  Statements are not among them: where they are
rendered several lines are needed anyway. -/
structure Inner.IsTruthful {node : Json} (inner : Inner node) : Prop where
  value : ∀ part, Render.Truthful true (inner.value part)
  type : ∀ part, Render.Truthful true (inner.type part)
  either : ∀ part, Render.Truthful true (inner.either part)

lemma Inner.IsTruthful.under {node : Json} {inner : Inner node} (h : inner.IsTruthful)
    (part : Part node) : (inner.under part).IsTruthful :=
  ⟨fun p => h.value (part.within p), fun p => h.type (part.within p),
    fun p => h.either (part.within p)⟩

namespace Render

variable {α β : Type} {s : Setting} {q : List Json} {strict : Bool}

lemma Truthful.weaken {x : Render α} (h : Truthful true x) : Truthful strict x :=
  fun s q e hq he => ⟨(h s q e hq he).1, fun _ => (h s q e hq he).2 rfl⟩

lemma Truthful.bind {x : Render α} {f : α → Render β} (hx : Truthful strict x)
    (hf : ∀ a, Truthful strict (f a)) : Truthful strict (x >>= f) := by
  intro s q e hq he
  obtain ⟨first, hfirst, second, hsecond, rfl⟩ := bind_eq_ok_iff.mp he
  obtain ⟨hqueue, hlines⟩ := hx s q first hq hfirst
  obtain ⟨hqueue', hlines'⟩ := hf _ _ _ second hqueue hsecond
  refine ⟨hqueue', fun hstrict => ?_⟩
  have hone := hlines hstrict
  have htwo := hlines' hstrict
  simp only [Emission.andThen, Bool.or_eq_true, Command.lineFeedsAll_append, hone, htwo]
  omega

/-- A step that notes nothing and writes no line feed. -/
lemma truthful_of_still {x : Render α}
    (h : ∀ s q e, x s q = .ok e → e.queue = q ∧ e.multiline = false ∧
      Command.lineFeedsAll e.commands = 0) : Truthful strict x := by
  intro s q e hq he
  obtain ⟨hqueue, hmultiline, hlines⟩ := h s q e he
  exact ⟨hqueue ▸ hq, fun _ => by simp [hmultiline, hlines]⟩

lemma truthful_emit {commands : List Command} (h : Command.lineFeedsAll commands = 0) :
    Truthful strict (emit commands) :=
  truthful_of_still fun s q e he => by
    obtain rfl := Except.ok.inj he
    exact ⟨rfl, rfl, h⟩

lemma truthful_reading {x : Except Fault α} {f : α → Render β}
    (hf : ∀ a, x = .ok a → Truthful strict (f a)) :
    Truthful strict ((liftM x : Render α) >>= f) := by
  intro s q e hq he
  obtain ⟨a, ha, hrest⟩ := read_bind_eq_ok_iff.mp he
  exact hf a ha s q e hq hrest

lemma truthful_chunk {content place : Json} (h : content.isInline = true) :
    Truthful strict (chunk content place) := by
  refine truthful_reading fun span _ => truthful_emit ?_
  rw [Command.lineFeedsAll_chunkOf, Command.lineFeedsAll_ofValue]
  rintro s rfl
  simpa [Json.isInline] using h

/-- A text that is printed once and told about once, in either order. -/
lemma lineFeedsAll_told {content : Json} {b : Bool} (h : content.TellsLines)
    (hb : content.hasLineFeed = .ok b) :
    b = true ↔ Command.lineFeedsAll [.ofValue content] ≠ 0 := by
  rw [h b hb, Ne, Command.lineFeedsAll_ofValue]
  push Not
  rfl

lemma truthful_literal {content place : Json} (h : content.TellsLines) :
    Truthful strict (do
      raiseIf (← content.hasLineFeed)
      chunk content place) := by
  refine truthful_reading fun b hb => ?_
  intro s q e hq he
  obtain ⟨_, hraise, _, hchunk, rfl⟩ := bind_eq_ok_iff.mp he
  obtain rfl := Except.ok.inj hraise
  obtain ⟨span, -, rfl⟩ := chunk_eq_ok_iff.mp hchunk
  refine ⟨hq, fun _ => ?_⟩
  simpa [Emission.andThen, Command.lineFeedsAll_chunkOf] using lineFeedsAll_told h hb

lemma truthful_piece {content place : Json} {x : Render Unit}
    (hx : x = chunk content place ∨ x = emit [.ofValue content]) (h : content.TellsLines) :
    Truthful strict (do
      x
      raiseIf (← content.hasLineFeed)) := by
  intro s q e hq he
  obtain ⟨first, hfirst, _, htold, rfl⟩ := bind_eq_ok_iff.mp he
  obtain ⟨hqueue, hmultiline, hlines⟩ : first.queue = q ∧ first.multiline = false ∧
      Command.lineFeedsAll first.commands = Command.lineFeedsAll [.ofValue content] := by
    rcases hx with rfl | rfl
    · obtain ⟨span, -, rfl⟩ := chunk_eq_ok_iff.mp hfirst
      exact ⟨rfl, rfl, Command.lineFeedsAll_chunkOf _ _⟩
    · obtain rfl := Except.ok.inj hfirst
      exact ⟨rfl, rfl, rfl⟩
  obtain ⟨b, hb, hraise⟩ := read_bind_eq_ok_iff.mp htold
  obtain rfl := Except.ok.inj hraise
  refine ⟨hqueue ▸ hq, fun _ => ?_⟩
  simpa [Emission.andThen, hmultiline, hlines] using lineFeedsAll_told h hb

/-! ## Lists that decide about their breaks -/

lemma needed_of_breaks {needed : Bool} {commands : List Command} {width : Int}
    (h : breaks needed commands width = .ok false) : needed = false := by
  cases needed with
  | false => rfl
  | true => exact absurd (Except.ok.inj h) (by decide)

/-- Items that need no lines write no line feed. -/
lemma truthful_items {separator : String} {item : α → Render Unit}
    (hseparator : '\n' ∉ separator.toList) (hitem : ∀ a, Truthful true (item a))
    (hq : ∀ comment ∈ q, comment.IsBrief) {afterHole : Bool} {list : List (Option α)}
    {e : Emission (List Slot × Bool)} (h : items separator item afterHole list s q = .ok e) :
    (∀ comment ∈ e.queue, comment.IsBrief) ∧
      (e.value.2 = false → Command.lineFeedsAll (Slot.owned e.value.1) = 0) := by
  induction list generalizing afterHole q e with
  | nil =>
      obtain rfl : _ = e := Except.ok.inj h
      exact ⟨hq, fun _ => Command.lineFeedsAll_nil⟩
  | cons a rest ih =>
      have hword := Command.lineFeedsAll_text hseparator
      cases a with
      | none =>
          obtain ⟨others, hothers, rfl⟩ := items_hole_eq_ok_iff.mp h
          obtain ⟨hqueue, hrest⟩ := ih hq hothers
          refine ⟨hqueue, fun hneeded => ?_⟩
          have hnone := hrest hneeded
          rw [Slot.owned, ← List.singleton_append, Command.lineFeedsAll_append, hword, hnone]
      | some a =>
          obtain ⟨inner, hinner, others, hothers, rfl⟩ := items_some_eq_ok_iff.mp h
          obtain ⟨hqueue, hrest⟩ := ih (by simp) hothers
          refine ⟨hqueue, fun hneeded => ?_⟩
          simp only [Bool.or_eq_false_iff, Bool.not_eq_false'] at hneeded
          obtain ⟨⟨hmultiline, hwaiting⟩, hothersNeeded⟩ := hneeded
          have hown : Command.lineFeedsAll inner.commands = 0 := by
            by_contra hlines
            rw [((hitem a _ _ _ hq hinner).2 rfl).mpr hlines] at hmultiline
            cases hmultiline
          have hnone := hrest hothersNeeded
          -- no comment waits behind the item, so only the separator stands there
          have hslots : Slot.owned (itemSlots separator afterHole rest.isEmpty inner.commands
              inner.queue) = inner.commands ++ if rest.isEmpty then [] else [.text separator] := by
            simp only [itemSlots, hwaiting, if_true]
            cases afterHole <;> cases rest.isEmpty <;> simp [Slot.owned]
          rw [Slot.owned_append, hslots, Command.lineFeedsAll_append, Command.lineFeedsAll_append,
            hown, hnone]
          split <;> simp [hword]

lemma lineFeedsAll_decided (spaces broken : Bool) (slots : List Slot) :
    (broken = true → Command.lineFeedsAll (decided spaces broken slots) ≠ 0) ∧
      (broken = false → Command.lineFeedsAll (decided spaces broken slots) =
        Command.lineFeedsAll (Slot.owned slots)) := by
  have hblank : Command.lineFeedsAll [.text " "] = 0 := Command.lineFeedsAll_text (by decide)
  constructor
  · rintro rfl
    exact Command.lineFeedsAll_deferred_ne_zero (by simp)
  · rintro rfl
    have hpad : Command.lineFeedsAll (if spaces then [.text " "] else []) = 0 := by
      cases spaces <;> simp [hblank]
    simp only [decided, assemble, Bool.false_eq_true, if_false, Command.lineFeedsAll_deferred,
      Command.lineFeedsAll_append, Slot.lineFeedsAll_fill hblank, hpad]
    simp

lemma truthful_sequence {spaces : Bool} {separator : String} {item : α → Render Unit}
    (hseparator : '\n' ∉ separator.toList) (hitem : ∀ a, Truthful true (item a))
    (list : List (Option α)) : Truthful strict (sequence spaces separator item list) := by
  intro s q e hq he
  by_cases hlist : list = []
  · subst hlist
    obtain rfl : _ = e := Except.ok.inj he
    exact ⟨hq, fun _ => by simp⟩
  · obtain ⟨first, hfirst, broken, hbroken, rfl⟩ := (sequence_eq_ok_iff hlist).mp he
    obtain ⟨hqueue, hitems⟩ := truthful_items hseparator hitem hq hfirst
    refine ⟨hqueue, fun _ => ?_⟩
    obtain ⟨hyes, hno⟩ := lineFeedsAll_decided spaces broken first.value.1
    cases broken with
    | true => simpa using hyes rfl
    | false => simp [hno rfl, hitems (needed_of_breaks hbroken)]

/-- Declarators that are held back need several lines just if they write a line feed. -/
lemma truthful_joined {item : α → Render Unit} (hitem : ∀ a, Truthful true (item a))
    (hq : ∀ comment ∈ q, comment.IsBrief) {list : List α} {e : Emission (List Slot × Bool)}
    (h : joined item list s q = .ok e) :
    (∀ comment ∈ e.queue, comment.IsBrief) ∧
      (e.value.2 = true ↔ Command.lineFeedsAll (Slot.owned e.value.1) ≠ 0) ∧
      (1 < list.length → .join ∈ e.value.1) := by
  induction list generalizing q e with
  | nil =>
      obtain rfl : _ = e := Except.ok.inj h
      exact ⟨hq, by simp [Slot.owned], by simp⟩
  | cons a rest ih =>
      obtain ⟨inner, hinner, others, hothers, rfl⟩ := joined_cons_eq_ok h
      obtain ⟨hqueue, hown⟩ := hitem a _ _ _ hq hinner
      obtain ⟨hqueue', hrest, -⟩ := ih hqueue hothers
      refine ⟨hqueue', ?_, fun hseveral => ?_⟩
      · have hslots : Slot.owned (Slot.ofCommands inner.commands ++
            (if rest.isEmpty then [] else [.join]) ++ others.value.1) =
            inner.commands ++ Slot.owned others.value.1 := by
          cases rest.isEmpty <;> simp [Slot.owned]
        have hlines := hown rfl
        rw [hslots, Command.lineFeedsAll_append]
        simp only [Bool.or_eq_true, hlines, hrest]
        omega
      · have hrest : rest.isEmpty = false := by
          cases rest with
          | nil => simp at hseveral
          | cons _ _ => rfl
        simp [hrest]

lemma lineFeedsAll_decidedDeclarations {keyword : String} (hkeyword : '\n' ∉ keyword.toList)
    (several broken : Bool) (slots : List Slot) :
    Command.lineFeedsAll (Slot.owned slots) ≤
        Command.lineFeedsAll (decidedDeclarations keyword several broken slots) ∧
      (broken = true → .join ∈ slots →
        Command.lineFeedsAll (decidedDeclarations keyword several broken slots) ≠ 0) ∧
      (broken = false → Command.lineFeedsAll (decidedDeclarations keyword several broken slots) =
        Command.lineFeedsAll (Slot.owned slots)) := by
  have hlist (start join : List Command) :
      Command.lineFeedsAll (assembleDeclarations keyword start join slots) =
        Command.lineFeedsAll start +
          Command.lineFeedsAll (Slot.fill "declarations-join" join slots) := by
    rw [assembleDeclarations, ← List.singleton_append, Command.lineFeedsAll_append,
      Command.lineFeedsAll_text hkeyword, Nat.zero_add, Command.lineFeedsAll_deferred]
  have hcomma : Command.lineFeedsAll [.text ", "] = 0 := Command.lineFeedsAll_text (by decide)
  refine ⟨?_, ?_, ?_⟩
  · unfold decidedDeclarations
    split
    · rw [Command.lineFeedsAll_append, hlist]
      have hle := Slot.lineFeedsAll_owned_le "declarations-join" [.text ",", .newline] slots
      omega
    · rw [hlist, Slot.lineFeedsAll_fill hcomma]
      omega
  · rintro rfl hjoin
    have hfilled := Slot.lineFeedsAll_fill_ne_zero
      (show Command.newline ∈ [.text ",", .newline] by simp) "declarations-join" hjoin
    rw [decidedDeclarations, if_pos rfl, Command.lineFeedsAll_append, hlist]
    omega
  · rintro rfl
    rw [decidedDeclarations, if_neg (by decide), hlist, Slot.lineFeedsAll_fill hcomma]
    simp

lemma truthful_declarations {node : Json} {inner : Inner node} (hnode : node.IsTidy)
    (hinner : ∀ part, Truthful true (inner.value part)) :
    Truthful strict (declarations node inner) := by
  intro s q e hq he
  obtain ⟨part, -, list, -, declare, -, kind, hkind, first, hfirst, broken, hbroken, rfl⟩ :=
    declarations_eq_ok he
  obtain ⟨hqueue, hneeded, hjoin⟩ := truthful_joined hinner hq hfirst
  refine ⟨hqueue, fun _ => ?_⟩
  have hkeyword : '\n' ∉ (kind.1.display ++ " ").toList := by
    have hinline := Json.lineFeed_notMem_display
      (Json.isInline_of_require hnode (by decide) hkind)
    simpa using hinline
  obtain ⟨hle, hyes, hno⟩ := lineFeedsAll_decidedDeclarations hkeyword (1 < list.length) broken
    first.value.1
  have hdeclare : Command.lineFeedsAll (if declare then [.text "declare "] else []) = 0 := by
    split
    · exact Command.lineFeedsAll_text (by decide)
    · exact Command.lineFeedsAll_nil
  rw [Command.lineFeedsAll_append, hdeclare, Nat.zero_add]
  cases broken with
  | false =>
      rw [hno rfl]
      have hfirst : first.value.2 = false := by
        split at hbroken
        · exact needed_of_breaks hbroken
        · exact hbroken
      simp [← hneeded, hfirst]
  | true =>
      simp only [true_iff]
      by_cases hseveral : 1 < list.length
      · exact hyes rfl (hjoin hseveral)
      · -- a lone declarator has no place to break, but writes line feeds of its own
        rw [if_neg hseveral] at hbroken
        have hown := hneeded.mp hbroken
        omega

/-- Comments between two arguments that are no line comments and have no line feed in them. -/
lemma lineFeedsAll_betweenArguments {comments : List Json}
    (hbrief : ∀ comment ∈ comments, comment.IsBrief) {commands : List Command}
    (h : betweenArguments comments = .ok (commands, false)) :
    Command.lineFeedsAll commands = 0 := by
  induction comments generalizing commands with
  | nil =>
      obtain ⟨rfl, -⟩ := Prod.mk.inj (Except.ok.inj h)
      exact Command.lineFeedsAll_nil
  | cons comment rest ih =>
      obtain ⟨line, hline, h⟩ := EstreePrinter.bind_eq_ok_iff.mp h
      obtain ⟨⟨others, lines⟩, hothers, h⟩ := EstreePrinter.bind_eq_ok_iff.mp h
      obtain ⟨hcommands, hneeded⟩ := Prod.mk.inj (Except.ok.inj h)
      obtain ⟨rfl, rfl⟩ := Bool.or_eq_false_iff.mp hneeded
      subst hcommands
      have hrest := ih (fun c hc => hbrief c (List.mem_cons_of_mem _ hc)) hothers
      have hcount := (hbrief comment List.mem_cons_self).count_commentAt hline
      rw [Command.lineFeedsAll_cons, hrest]
      simp [Command.leaves, Command.lineFeeds, Command.textAt, breakAt, hcount]

lemma truthful_argumentGap (hq : ∀ comment ∈ q, comment.IsBrief)
    {e : Emission (List Slot × Bool)} (h : Rules.argumentGap s q = .ok e)
    (hline : e.value.2 = false) : Command.lineFeedsAll (Slot.owned e.value.1) = 0 := by
  rw [argumentGap_eq_ok_iff] at h
  split at h
  · subst h
    exact Command.lineFeedsAll_nil
  · obtain ⟨⟨commands, line⟩, hfound, rfl⟩ := h
    obtain rfl : line = false := hline
    have hcomma : Command.lineFeedsAll [.text ", "] = 0 := Command.lineFeedsAll_text (by decide)
    rw [Slot.owned, Slot.owned_ofCommands, ← List.singleton_append, Command.lineFeedsAll_append,
      hcomma, lineFeedsAll_betweenArguments hq hfound]

/-- Arguments that are held back. -/
lemma truthful_arguments {node : Json} {inner : Inner node}
    (hinner : ∀ part, Truthful true (inner.value part)) (hq : ∀ comment ∈ q, comment.IsBrief)
    {list : List (Part node)} {e : Emission Rules.Arguments}
    (h : Rules.arguments inner list s q = .ok e) :
    (∀ comment ∈ e.queue, comment.IsBrief) ∧
      (e.value.frontMultiline = false →
        Command.lineFeedsAll (Slot.owned e.value.front) = 0) ∧
      (e.value.lastMultiline = true ↔ Command.lineFeedsAll e.value.last ≠ 0) := by
  induction list generalizing q e with
  | nil =>
      obtain rfl : _ = e := Except.ok.inj h
      exact ⟨hq, by simp [Slot.owned], by simp⟩
  | cons argument rest ih =>
      by_cases hrest : rest = []
      · subst hrest
        obtain ⟨held, hheld, rfl⟩ := arguments_last_eq_ok_iff.mp h
        obtain ⟨hqueue, hlines⟩ := hinner argument _ _ _ hq hheld
        exact ⟨hqueue, by simp [Slot.owned], hlines rfl⟩
      · obtain ⟨held, hheld, gap, hgap, others, hothers, rfl⟩ :=
          (arguments_cons_eq_ok_iff hrest).mp h
        obtain ⟨hqueue, hlines⟩ := hinner argument _ _ _ hq hheld
        obtain ⟨hqueue', hfront, hlast⟩ := ih (by simp) hothers
        refine ⟨hqueue', fun hneeded => ?_, hlast⟩
        simp only [Bool.or_eq_false_iff] at hneeded
        obtain ⟨⟨hmultiline, hline⟩, hothersNeeded⟩ := hneeded
        have hown : Command.lineFeedsAll held.commands = 0 := by
          by_contra hfeeds
          rw [(hlines rfl).mpr hfeeds] at hmultiline
          cases hmultiline
        simp [hown, truthful_argumentGap hqueue hgap hline, hfront hothersNeeded]

lemma lineFeedsAll_decidedArguments (broken : Bool) (args : Rules.Arguments) :
    (broken = true → Command.lineFeedsAll (decidedArguments broken args) ≠ 0) ∧
      (broken = false → Command.lineFeedsAll (decidedArguments broken args) =
        Command.lineFeedsAll (Slot.owned args.front) + Command.lineFeedsAll args.last) := by
  have hlist (start join stop : List Command) :
      Command.lineFeedsAll (Rules.argumentList args start join stop) =
        Command.lineFeedsAll start +
          (Command.lineFeedsAll (Slot.fill "arguments-join" join args.front) +
            Command.lineFeedsAll args.last + Command.lineFeedsAll stop) := by
    have hopen : Command.lineFeedsAll [.text "("] = 0 := Command.lineFeedsAll_text (by decide)
    have hclose : Command.lineFeedsAll [.text ")"] = 0 := Command.lineFeedsAll_text (by decide)
    rw [Rules.argumentList, ← List.singleton_append, Command.lineFeedsAll_append, hopen,
      Nat.zero_add, Command.lineFeedsAll_deferred, Command.lineFeedsAll_append,
      Command.lineFeedsAll_append, Command.lineFeedsAll_deferred, hclose, Nat.add_zero]
  constructor
  · rintro rfl
    have hopen := Command.lineFeedsAll_ne_zero_of_newline
      (show Command.newline ∈ [.indent, .newline] by simp)
    rw [decidedArguments, if_pos rfl, hlist]
    omega
  · rintro rfl
    have hcomma : Command.lineFeedsAll [.text ", "] = 0 := Command.lineFeedsAll_text (by decide)
    rw [decidedArguments, if_neg (by decide), hlist, Slot.lineFeedsAll_fill hcomma]
    simp

lemma truthful_callArguments {node : Json} {inner : Inner node}
    (hinner : ∀ part, Truthful true (inner.value part)) :
    Truthful strict (Rules.callArguments inner) := by
  intro s q e hq he
  obtain ⟨part, -, list, -, args, hargs, broken, hbroken, rfl⟩ := callArguments_eq_ok_iff.mp he
  obtain ⟨hqueue, hfront, hlast⟩ := truthful_arguments hinner hq hargs
  refine ⟨hqueue, fun _ => ?_⟩
  obtain ⟨hyes, hno⟩ := lineFeedsAll_decidedArguments broken args.value
  cases broken with
  | true => simpa using hyes rfl
  | false => simp [hno rfl, hfront (needed_of_breaks hbroken), hlast]

lemma lineFeedsAll_branches (broken : Bool) (yes no : List Command) :
    (broken = true → Command.lineFeedsAll (Rules.branches broken yes no) ≠ 0) ∧
      (broken = false → Command.lineFeedsAll (Rules.branches broken yes no) =
        Command.lineFeedsAll yes + Command.lineFeedsAll no) := by
  constructor
  · rintro rfl
    exact Command.lineFeedsAll_deferred_ne_zero (by simp)
  · rintro rfl
    have hquestion : Command.lineFeedsAll [.text " ? "] = 0 :=
      Command.lineFeedsAll_text (by decide)
    have hcolon : Command.lineFeedsAll [.text " : "] = 0 := Command.lineFeedsAll_text (by decide)
    simp [Rules.branches, Command.lineFeedsAll_deferred, hquestion, hcolon]

lemma truthful_branches {x y : Render Unit} (hx : Truthful true x) (hy : Truthful true y) :
    Truthful strict (do
      let yes ← fork x
      let no ← fork y
      raiseIf (yes.multiline || no.multiline)
      emit (Rules.branches (yes.multiline || no.multiline) yes.commands no.commands)) := by
  intro s q e hq he
  obtain ⟨yes, hyes, no, hno, rfl⟩ := branches_eq_ok_iff.mp he
  obtain ⟨hqueue, hfirst⟩ := hx s q yes hq hyes
  obtain ⟨hqueue', hsecond⟩ := hy _ _ no hqueue hno
  refine ⟨hqueue', fun _ => ?_⟩
  have hone := hfirst rfl
  have htwo := hsecond rfl
  obtain ⟨hbroken, hwhole⟩ := lineFeedsAll_branches (yes.multiline || no.multiline) yes.commands
    no.commands
  cases hneeded : (yes.multiline || no.multiline) with
  | true => simpa [hneeded] using hbroken hneeded
  | false =>
      rw [hneeded] at hwhole
      obtain ⟨hyesNone, hnoNone⟩ := Bool.or_eq_false_iff.mp hneeded
      simp [hwhole rfl, ← hone, ← htwo, hyesNone, hnoNone]

end Render

/-! ## What is made of truthful parts -/

namespace Render

variable {s : Setting} {q : List Json}

/-- The comments behind a statement do not wait for the next one. -/
lemma brief_bodyAfter {node : Json} {inner : Inner node} {before : Option Printed}
    {statements : List (Part node)} {e : Emission Unit} (hq : ∀ comment ∈ q, comment.IsBrief)
    (h : bodyAfter inner before statements s q = .ok e) : ∀ comment ∈ e.queue, comment.IsBrief := by
  induction statements generalizing before q e with
  | nil =>
      obtain rfl : _ = e := Except.ok.inj h
      exact hq
  | cons statement rest ih =>
      obtain ⟨kind, -, h⟩ := bodyAfter_cons_eq_ok h
      split at h
      · exact ih hq h
      · obtain ⟨_, -, _, -, held, hheld, drained, hdrained, others, hothers, -, hqueue⟩ := h
        obtain ⟨commands, -, rfl⟩ := drainAfterStatement_eq_ok_iff.mp hdrained
        exact hqueue ▸ ih (by simp) hothers

end Render

/-- **What is made of truthful parts is truthful.** -/
theorem Made.truthful {node : Json} {inner : Inner node} {strict : Bool} {α : Type} {x : Render α}
    (h : Made inner strict x) (hinner : inner.IsTruthful) (hnode : node.IsTidy) :
    Render.Truthful strict x := by
  induction h with
  | pure a =>
      exact Render.truthful_of_still fun s q e he => by
        obtain rfl := Except.ok.inj he
        exact ⟨rfl, rfl, Command.lineFeedsAll_nil⟩
  | bind _ _ ihx ihf => exact (ihx hinner hnode).bind fun a => ihf a hinner hnode
  | reading _ ih => exact Render.truthful_reading fun a ha => ih a ha hinner hnode
  | quote _ ih =>
      intro s q e hq he
      obtain ⟨_, hsetting, second, hsecond, rfl⟩ := Render.bind_eq_ok_iff.mp he
      obtain rfl := Except.ok.inj hsetting
      simpa [Emission.andThen] using ih s.quote hinner hnode s q second hq hsecond
  | text hs => exact Render.truthful_emit (Command.lineFeedsAll_text (hs hnode))
  | @ofValue _ _ _ v hv =>
      refine Render.truthful_emit ((Command.lineFeedsAll_ofValue v).mpr ?_)
      rintro s rfl
      simpa [Json.isInline] using hv hnode
  | chunk place hcontent => exact Render.truthful_chunk (hcontent hnode)
  | literal place hcontent => exact Render.truthful_literal (hcontent hnode)
  | piece place hx hcontent => exact Render.truthful_piece hx (hcontent hnode)
  | value part => exact (hinner.value part).weaken
  | type part => exact (hinner.type part).weaken
  | either part => exact (hinner.either part).weaken
  | under part _ ih => exact ih (hinner.under part) (hnode.inside part.2)
  | withNoIn _ ih => exact fun s q e hq he => ih hinner hnode { s with noIn := true } q e hq he
  | sequence spaces hseparator _ list ih =>
      exact Render.truthful_sequence hseparator (fun a => ih a hinner hnode) list
  | declarations inner => exact Render.truthful_declarations hnode hinner.value
  | arguments inner => exact Render.truthful_callArguments hinner.value
  | branches _ _ ihx ihy => exact Render.truthful_branches (ihx hinner hnode) (ihy hinner hnode)
  | raised _ hbreaks ih =>
      intro s q e hq he
      obtain ⟨_, hraise, second, hsecond, rfl⟩ := Render.bind_eq_ok_iff.mp he
      obtain rfl := Except.ok.inj hraise
      refine ⟨(ih hinner hnode s q second hq hsecond).1, fun _ => ?_⟩
      simpa [Emission.andThen] using
        Command.lineFeedsAll_ne_zero_of_newline (hbreaks s q second hsecond)
  | lines _ =>
      intro s q e hq he
      obtain rfl := Except.ok.inj he
      exact ⟨hq, fun hstrict => by cases hstrict⟩
  | leadingComments newlines place comments =>
      intro s q e hq he
      obtain ⟨commands, -, rfl⟩ := Render.leadingComments_eq_ok_iff.mp he
      exact ⟨hq, fun hstrict => by cases hstrict⟩
  | drainAfterStatement =>
      intro s q e hq he
      obtain ⟨commands, -, rfl⟩ := Render.drainAfterStatement_eq_ok_iff.mp he
      exact ⟨by simp, fun hstrict => by cases hstrict⟩
  | body inner statements =>
      exact fun s q e hq he =>
        ⟨Render.brief_bodyAfter hq he, fun hstrict => by cases hstrict⟩

/-- The rule for binary expressions, which is not made like the others. -/
lemma Rules.truthful_binary {node : Json} {inner : Inner node} (hinner : inner.IsTruthful)
    (hnode : node.IsTidy) : Render.Truthful true (binary node inner) := by
  refine Render.truthful_reading fun operator hoperator => ?_
  have hoperands : Render.Truthful true (operands inner operator.1) :=
    (Made.operands fun hnode => Json.isInline_of_require hnode (by decide) hoperator).truthful hinner
      hnode
  have hword (s : String) (hs : '\n' ∉ s.toList) : Render.Truthful true (Render.text s) :=
    Render.truthful_emit (Command.lineFeedsAll_text hs)
  have hparens : Render.Truthful true (do
      Render.text "("
      Render.withNoIn false (operands inner operator.1)
      Render.text ")") :=
    (hword "(" (by decide)).bind fun _ => .bind
      (fun s q e hq he => hoperands { s with noIn := false } q e hq he)
      fun _ => hword ")" (by decide)
  intro s q e hq he
  obtain ⟨_, hsetting, second, hsecond, rfl⟩ := Render.bind_eq_ok_iff.mp he
  obtain rfl := Except.ok.inj hsetting
  have hboth : (∀ comment ∈ second.queue, comment.IsBrief) ∧ (true = true →
      (second.multiline = true ↔ Command.lineFeedsAll second.commands ≠ 0)) := by
    dsimp only at hsecond
    split at hsecond
    · exact hparens s q second hq hsecond
    · exact hoperands s q second hq hsecond
  simpa [Emission.andThen] using hboth

/-! ## Trees -/

/-- A node that has no comments and is neither a program nor a decorator. -/
structure Json.IsUnadorned (node : Json) : Prop where
  leading : node.given "leadingComments" = .ok none
  trailing : node.given "trailingComments" = .ok none
  kind : ∀ kind, node.kind = .ok kind → kind.isOneOf Rules.breakingKinds = false

namespace Render

/-- Nothing goes with a node that has no comments. -/
lemma truthful_dressed {role : Role} {node : Json} (hnode : node.IsUnadorned) {x : Render Unit}
    (hx : Truthful true x) : Truthful true (dressed role node x) := by
  have hbehind : Truthful true (queueTrailing node) := truthful_of_still fun s q e he => by
    obtain rfl := queueTrailing_eq_ok he
    simp [Json.commentBehind, hnode.trailing]
  cases role with
  | type => exact hx
  | bare => exact hx.bind fun _ => hbehind
  | value =>
      refine truthful_reading fun comments hcomments => ?_
      obtain rfl : [] = comments := by
        rw [Json.comments, hnode.leading] at hcomments
        exact Except.ok.inj hcomments
      refine Truthful.bind (truthful_of_still fun s q e he => ?_) fun _ => hx.bind fun _ => hbehind
      obtain ⟨commands, hcommands, rfl⟩ := leadingComments_eq_ok_iff.mp he
      obtain rfl : [] = commands := Except.ok.inj hcommands
      exact ⟨rfl, rfl, Command.lineFeedsAll_nil⟩

/-- **A rendering tells the truth about its lines** if the texts of the tree stay on a line and none
of its nodes has comments, is a program or is a decorator. -/
theorem truthful_tree (role : Role) {node : Json} (htidy : node.IsTidy)
    (hplain : ∀ owner ∈ node.nodes, owner.IsUnadorned) : Truthful true (tree role node) := by
  induction hn : sizeOf node using Nat.strong_induction_on generalizing role node with
  | h n ih =>
      have hpart (role : Role) (part : Part node) : Truthful true (tree role part.1) :=
        ih _ (hn ▸ part.2.sizeOf_lt) role (htidy.inside part.2)
          (fun owner howner => hplain owner
            (Multiset.mem_of_le (Json.nodes_le_of_inside part.2) howner)) rfl
      have hparts : (partsOf node).IsTruthful :=
        { value := hpart .value
          type := hpart .type
          either := fun part => truthful_reading fun _ _ => truthful_reading fun isType _ => by
            cases isType with
            | true => exact hpart .type part
            | false => exact hpart .value part }
      rw [tree_eq]
      refine truthful_reading fun kind hkind => truthful_reading fun rule hrule => ?_
      cases rule with
      | none =>
          refine truthful_reading fun span _ => fun s q e _ he => ?_
          obtain ⟨a, ha, -⟩ := read_eq_ok_iff.mp he
          exact absurd ha (Unhandled.throw_ne_ok _ a)
      | some rule =>
          have hself : node.IsUnadorned := hplain node (by
            simp [Json.nodes_eq_cons (isObject_of_kind hkind)])
          refine truthful_dressed hself ?_
          rcases Rules.isMade_of_find hrule with ⟨-, rfl⟩ | hmade
          · exact Rules.truthful_binary hparts htidy
          · rw [hself.kind kind hkind] at hmade
            exact (hmade node _).truthful hparts htidy

end Render

end EstreePrinter
