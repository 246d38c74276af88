import Mathlib
import EstreePrinter.Proofs.Estree.Reading
import EstreePrinter.Proofs.Render.Emitted

/-!
# Steps that end

A rendering step **ends** (`Render.Ends`) if it succeeds in every setting, whatever comments wait
for their place, as long as these are comments that can be printed; what it emits can then be
measured and written down, and the comments it leaves waiting can be printed again.  That what is
emitted can be measured is part of the statement because lists look at the width of their items
before they decide about their line breaks.

* `Render.Ends.bind` — one step after the other: the second one may rely on the value of the first.
* The lemmas on single steps and on comments come next, then those on the constructs that decide
  about line breaks (`ends_sequence`, `ends_body`, `ends_declarations`, `ends_callArguments`,
  `ends_branches`).
-/

namespace EstreePrinter

open Json (Part)

namespace Json

/-! ## Comments -/

/-- A comment that can be printed. -/
abbrev IsComment (comment : Json) : Prop := comment.fits (.record "Comment") = true

namespace IsComment

variable {comment : Json}

lemma conforms (h : comment.IsComment) : comment.Conforms
    [Estree.required "value" .text, Estree.optional "loc" (.record "SourceLocation")] :=
  conforms_of_record "Comment" rfl h

lemma exists_isLineComment (h : comment.IsComment) : ∃ b, comment.isLineComment = .ok b := by
  obtain ⟨v, hv⟩ := exists_getValue h.conforms.isObject "type"
  exact ⟨_, by rw [isLineComment, kind, hv]; rfl⟩

lemma exists_commentText (h : comment.IsComment) : ∃ s, comment.commentText = .ok (.str s) := by
  obtain ⟨part, hpart, hfits⟩ := h.conforms.require "value" rfl
  obtain ⟨s, hs⟩ := text_of_fits hfits
  refine ⟨s, ?_⟩
  have hobject := h.conforms.isObject
  unfold require at hpart
  rw [commentText, get_eq hobject, ok_bind]
  cases hfield : comment.field? "value" with
  | none => simp [hobject, hfield] at hpart
  | some found =>
      obtain rfl : found = part := by simpa [hobject, hfield] using hpart
      simp [hs]

lemma exists_spansLines (h : comment.IsComment) : ∃ b, comment.spansLines = .ok b := by
  obtain ⟨line, hline⟩ := h.exists_isLineComment
  obtain ⟨s, hs⟩ := h.exists_commentText
  rw [spansLines, hline, ok_bind]
  cases line with
  | true => exact ⟨_, rfl⟩
  | false => exact ⟨_, by rw [if_neg Bool.false_ne_true, hs]; rfl⟩

lemma exists_span (h : comment.IsComment) :
    ∃ span, comment.span = .ok span ∧ ∀ s ∈ span, s.IsWhole :=
  h.conforms.span rfl

end IsComment

/-- A node whose place, if it has one, is given by whole numbers. -/
def HasPlace (node : Json) : Prop := ∃ span, node.span = .ok span ∧ ∀ s ∈ span, s.IsWhole

lemma IsOf.hasPlace {table : List (String × Form)} {node : Json} {kind : String}
    (h : node.IsOf table kind) : node.HasPlace := by
  obtain ⟨form, -, hconforms⟩ := h.form
  exact hconforms.span rfl

/-- The comments before a node. -/
lemma IsOf.exists_comments {table : List (String × Form)} {node : Json} {kind : String}
    (h : node.IsOf table kind) : ∃ list, node.comments "leadingComments" = .ok list ∧
      ∀ comment ∈ list, comment.IsComment := by
  obtain ⟨form, -, hconforms⟩ := h.form
  exact hconforms.comments "leadingComments" rfl

end Json

/-! ## Commands that can be printed -/

namespace Command

/-- A command that can be measured and written down. -/
def IsPrintable : Command → Prop
  | .chunk _ (some span) => span.IsWhole
  | .comment c _ => c.IsComment
  | .foreignChunk _ _ => False
  | _ => True

lemma closed_isPrintable : Closed Json.IsComment (AllLeaves IsPrintable) :=
  closed_allLeaves
    (fun c hflat hcomment => by
      cases c with
      | chunk s span => exact absurd hflat id
      | foreignChunk v span => exact absurd hflat id
      | comment c after => exact hcomment c rfl
      | _ => trivial)
    trivial trivial

lemma IsPrintable.isWritable {c : Command} (h : c.IsPrintable) : c.IsWritable := by
  cases c with
  | chunk s span =>
      cases span with
      | none => trivial
      | some span => exact ⟨h.start.line, h.stop.line⟩
  | comment c after =>
      obtain ⟨s, hs⟩ := Json.IsComment.exists_commentText h
      exact ⟨_, hs, Or.inr ⟨s, rfl⟩⟩
  | foreignChunk v span => exact h
  | _ => trivial

lemma IsPrintable.exists_width {c : Command} (h : c.IsPrintable) : ∃ n, c.width = .ok n := by
  cases c with
  | comment c after =>
      obtain ⟨s, hs⟩ := Json.IsComment.exists_commentText h
      exact ⟨s.length + 4, by simp [width, hs, Json.length?, orMalformed]⟩
  | foreignChunk v span => exact h.elim
  | _ => exact ⟨_, rfl⟩

/-- What can be printed can be measured; a placeholder always can. -/
lemma exists_totalWidth {commands : List Command} (h : AllLeaves IsPrintable commands) :
    ∃ n, totalWidth commands = .ok n := by
  induction commands with
  | nil => exact ⟨0, rfl⟩
  | cons c rest ih =>
      have hleaves : ∀ d ∈ leaves c, d.IsPrintable := fun d hd => h d (by simp [hd])
      obtain ⟨n, hn⟩ : ∃ n, c.width = .ok n := by
        cases c with
        | deferred name contents => exact ⟨2, rfl⟩
        | pending name => exact ⟨2, rfl⟩
        | _ => exact (hleaves _ (by simp [leaves])).exists_width
      obtain ⟨m, hm⟩ := ih fun d hd => h d (by simp [hd])
      exact ⟨n + m, by simp [totalWidth, hn, hm]⟩

end Command

namespace Render

open Command (AllLeaves IsPrintable closed_isPrintable)

variable {α β : Type}

/-- **A step that ends**, with a value that has the property `Q`. -/
def Ends (Q : α → Prop) (x : Render α) : Prop :=
  ∀ s q, (∀ c ∈ q, c.IsComment) →
    ∃ e, x s q = .ok e ∧ Q e.value ∧ AllLeaves IsPrintable e.commands ∧ ∀ c ∈ e.queue, c.IsComment

/-- A step that ends, with any value. -/
abbrev Safe (x : Render α) : Prop := Ends (fun _ => True) x

variable {P : α → Prop} {Q : β → Prop}

/-! ## Steps one after the other -/

lemma Ends.pure {a : α} (h : P a) : Ends P (pure a) := fun _ _ hq =>
  ⟨_, rfl, h, closed_isPrintable.nil, hq⟩

lemma safe_pure (a : α) : Safe (pure a : Render α) := .pure trivial

lemma Ends.bind {x : Render α} {f : α → Render β} (hx : Ends P x) (hf : ∀ a, P a → Ends Q (f a)) :
    Ends Q (x >>= f) := by
  intro s q hq
  obtain ⟨first, hfirst, hvalue, hcommands, hqueue⟩ := hx s q hq
  obtain ⟨second, hsecond, hvalue', hcommands', hqueue'⟩ := hf first.value hvalue s _ hqueue
  exact ⟨_, bind_eq_of_ok hfirst hsecond, hvalue', closed_isPrintable.append hcommands hcommands',
    hqueue'⟩

/-- One step, then another that does not use its value. -/
lemma Ends.andThen {x : Render α} {y : Render β} (hx : Ends P x) (hy : Ends Q y) :
    Ends Q (x >>= fun _ => y) :=
  hx.bind fun _ _ => hy

/-- Something is read first, and it is known what. -/
lemma Ends.read {x : Except Fault α} {a : α} (hx : x = .ok a) {f : α → Render β}
    (hf : Ends Q (f a)) : Ends Q ((liftM x : Render α) >>= f) := by
  subst hx
  have hrun : ((liftM (.ok a : Except Fault α) : Render α) >>= f) = f a := pure_bind a f
  exact hrun ▸ hf

/-- Something is read first, whatever it is. -/
lemma Ends.reading {x : Except Fault α} (hx : ∃ a, x = .ok a) {f : α → Render β}
    (hf : ∀ a, Ends Q (f a)) : Ends Q ((liftM x : Render α) >>= f) := by
  obtain ⟨a, ha⟩ := hx
  exact .read ha (hf a)

lemma Ends.ite {c : Prop} [Decidable c] {x y : Render β} (hx : Ends Q x) (hy : Ends Q y) :
    Ends Q (if c then x else y) := by
  split
  · exact hx
  · exact hy

/-- A step that is taken only under a condition, before the rest. -/
lemma Ends.optional {c : Prop} [Decidable c] {x : Render PUnit} {rest : PUnit → Render β}
    (hx : Safe x) (hrest : ∀ u, Ends Q (rest u)) : Ends Q (if c then x >>= rest else rest ⟨⟩) :=
  .ite (hx.bind fun u _ => hrest u) (hrest _)

/-! ## Single steps -/

lemma safe_emit {commands : List Command} (h : AllLeaves IsPrintable commands) :
    Safe (emit commands) := fun _ _ hq => ⟨_, rfl, trivial, h, hq⟩

lemma safe_text (t : String) : Safe (text t) := safe_emit (closed_isPrintable.text t)

lemma safe_newline : Safe (emit [.newline]) := safe_emit closed_isPrintable.newline

/-- Texts, line breaks and changes of the level. -/
lemma safe_markers {commands : List Command}
    (h : ∀ c ∈ commands, c ∈ [.indent, .dedent, .newline] ∨ ∃ t, c = .text t) :
    Safe (emit commands) := by
  have hplain : ∀ c ∈ commands, Command.leaves c = [c] ∧ c.IsPrintable := by
    intro c hc
    rcases h c hc with hmarker | ⟨t, rfl⟩
    · simp only [List.mem_cons, List.not_mem_nil, or_false] at hmarker
      rcases hmarker with rfl | rfl | rfl <;> simp [Command.leaves, IsPrintable]
    · simp [Command.leaves, IsPrintable]
  refine safe_emit fun d hd => ?_
  clear h
  induction commands with
  | nil => simp at hd
  | cons c rest ih =>
      obtain ⟨hleaves, hprintable⟩ := hplain c (by simp)
      simp only [Command.leavesAll_cons, hleaves, List.singleton_append, List.mem_cons] at hd
      rcases hd with rfl | hd
      · exact hprintable
      · exact ih (fun c hc => hplain c (by simp [hc])) hd

lemma safe_ofValue (v : Json) : Safe (emit [.ofValue v]) := by
  cases v with
  | str s => exact safe_text s
  | _ => exact safe_emit (closed_isPrintable.foreign _)

lemma safe_raiseIf (b : Bool) : Safe (raiseIf b) := fun _ _ hq =>
  ⟨_, rfl, trivial, closed_isPrintable.nil, hq⟩

lemma safe_raise : Safe raise := safe_raiseIf true

lemma safe_setting : Safe setting := fun _ _ hq => ⟨_, rfl, trivial, closed_isPrintable.nil, hq⟩

lemma Ends.withNoIn {x : Render α} (h : Ends P x) (b : Bool) : Ends P (withNoIn b x) :=
  fun s q hq => h { s with noIn := b } q hq

lemma ends_takeQueue : Ends (fun queue => ∀ c ∈ queue, c.IsComment) takeQueue := fun _ _ hq =>
  ⟨_, rfl, hq, closed_isPrintable.nil, by simp⟩

lemma safe_hasQueue : Safe hasQueue := fun _ _ hq => ⟨_, rfl, trivial, closed_isPrintable.nil, hq⟩

lemma safe_enqueue {comment : Json} (h : comment.IsComment) : Safe (enqueue comment) :=
  fun _ _ hq => ⟨_, rfl, trivial, closed_isPrintable.nil, by
    simpa only [List.forall_mem_append, List.forall_mem_singleton] using ⟨hq, h⟩⟩

lemma ends_fork {x : Render Unit} (h : Safe x) :
    Ends (fun held => AllLeaves IsPrintable held.commands) (fork x) := by
  intro s q hq
  obtain ⟨e, he, -, hcommands, hqueue⟩ := h s q hq
  exact ⟨_, fork_eq_ok_iff.mpr ⟨e, he, rfl⟩, hcommands, closed_isPrintable.nil, hqueue⟩

lemma safe_chunk {content node : Json} (hcontent : ∃ t, content = .str t) (h : node.HasPlace) :
    Safe (chunk content node) := by
  obtain ⟨t, rfl⟩ := hcontent
  obtain ⟨span, hspan, hwhole⟩ := h
  refine .read hspan (safe_emit ?_)
  intro c hc
  obtain rfl : c = .chunk t span := by simpa [Command.chunkOf, Command.leaves] using hc
  cases span with
  | none => trivial
  | some span => exact hwhole span rfl

lemma safe_textIf {node : Json} (h : node.isObject = true) (key word : String) :
    Safe (textIf node key word) :=
  .reading (Json.exists_flag h key) fun _ => .ite (safe_text word) (safe_pure _)

/-! ## Comments -/

lemma exists_endsLine {comment node : Json} (hcomment : comment.IsComment)
    (hnode : node = .null ∨ node.HasPlace) : ∃ b, endsLine comment node = .ok b := by
  obtain ⟨lines, hlines⟩ := hcomment.exists_spansLines
  obtain ⟨span, hspan, hwhole⟩ := hcomment.exists_span
  obtain ⟨place, hplace, hwhole'⟩ : ∃ span, node.spanOrNull = .ok span ∧
      ∀ s ∈ span, s.IsWhole := by
    unfold Json.spanOrNull
    split
    · exact ⟨none, rfl, fun s hs => by cases hs⟩
    · rename_i hnull
      rcases hnode with rfl | hnode
      · simp [Json.isNull] at hnull
      · exact hnode
  rw [endsLine, hlines, ok_bind]
  cases lines with
  | true => exact ⟨_, rfl⟩
  | false =>
      rw [if_neg Bool.false_ne_true, hspan, ok_bind, hplace, ok_bind]
      cases span with
      | none => exact ⟨_, rfl⟩
      | some span =>
          cases place with
          | none => exact ⟨_, rfl⟩
          | some place =>
              obtain ⟨n, hn⟩ := (hwhole span rfl).stop.line
              obtain ⟨m, hm⟩ := (hwhole' place rfl).start.line
              exact ⟨decide (n < m), by simp only [hn, hm]; rfl⟩

lemma exists_leading (newlines : Bool) {node : Json} (hnode : node = .null ∨ node.HasPlace)
    {comments : List Json} (h : ∀ c ∈ comments, c.IsComment) :
    ∃ commands, leading newlines node comments = .ok commands ∧
      AllLeaves IsPrintable commands := by
  induction comments with
  | nil => exact ⟨[], rfl, closed_isPrintable.nil⟩
  | cons comment rest ih =>
      have hcomment := h comment (by simp)
      obtain ⟨commands, hcommands, hprintable⟩ := ih fun c hc => h c (by simp [hc])
      have hall (after : Break) : AllLeaves IsPrintable (.comment comment after :: commands) :=
        closed_isPrintable.append (closed_isPrintable.comment after hcomment) hprintable
      obtain ⟨b, hb⟩ := exists_endsLine hcomment hnode
      cases newlines with
      | true => exact ⟨_, by simp only [leading, if_true, hcommands]; rfl, hall .newline⟩
      | false =>
          exact ⟨_, by simp only [leading, Bool.false_eq_true, if_false, hb, hcommands]; rfl,
            hall (if b then .newline else .space)⟩

lemma safe_leadingComments (newlines : Bool) {node : Json} (hnode : node = .null ∨ node.HasPlace)
    {comments : List Json} (h : ∀ c ∈ comments, c.IsComment) :
    Safe (leadingComments newlines node comments) := by
  obtain ⟨commands, hcommands, hprintable⟩ := exists_leading newlines hnode h
  exact .read hcommands (safe_emit hprintable)

lemma exists_afterStatement {comments : List Json} (h : ∀ c ∈ comments, c.IsComment)
    (newline : Bool) : ∃ commands, afterStatement newline comments = .ok commands ∧
      AllLeaves IsPrintable commands := by
  induction comments generalizing newline with
  | nil => exact ⟨[], rfl, closed_isPrintable.nil⟩
  | cons comment rest ih =>
      have hcomment := h comment (by simp)
      obtain ⟨line, hline⟩ := Json.IsComment.exists_isLineComment hcomment
      obtain ⟨commands, hcommands, hprintable⟩ := ih (fun c hc => h c (by simp [hc])) line
      refine ⟨_, by rw [afterStatement, hline, ok_bind, hcommands]; rfl, ?_⟩
      have hspace : AllLeaves IsPrintable [if newline then .newline else .text " "] := by
        cases newline with
        | true => exact closed_isPrintable.newline
        | false => exact closed_isPrintable.text " "
      exact closed_isPrintable.append hspace
        (closed_isPrintable.append (closed_isPrintable.comment .none hcomment) hprintable)

lemma safe_drainAfterStatement : Safe drainAfterStatement :=
  ends_takeQueue.bind fun queue hqueue => by
    obtain ⟨commands, hcommands, hprintable⟩ := exists_afterStatement hqueue false
    exact .read hcommands (safe_emit hprintable)

lemma exists_betweenArguments {comments : List Json} (h : ∀ c ∈ comments, c.IsComment) :
    ∃ found, betweenArguments comments = .ok found ∧ AllLeaves IsPrintable found.1 := by
  induction comments with
  | nil => exact ⟨_, rfl, closed_isPrintable.nil⟩
  | cons comment rest ih =>
      have hcomment := h comment (by simp)
      obtain ⟨line, hline⟩ := Json.IsComment.exists_isLineComment hcomment
      obtain ⟨found, hfound, hprintable⟩ := ih fun c hc => h c (by simp [hc])
      exact ⟨_, by rw [betweenArguments, hline, ok_bind, hfound]; rfl,
        closed_isPrintable.append (closed_isPrintable.comment _ hcomment) hprintable⟩

/-! ## Lists that may break -/

/-- Slots whose commands can be printed once they are filled. -/
abbrev SlotsPrintable (slots : List Slot) : Prop := Slot.Keeps (AllLeaves IsPrintable) slots

lemma exists_breaks (needed : Bool) {commands : List Command}
    (h : AllLeaves IsPrintable commands) (width : Int) :
    ∃ b, breaks needed commands width = .ok b := by
  obtain ⟨n, hn⟩ := Command.exists_totalWidth h
  cases needed with
  | true => exact ⟨_, rfl⟩
  | false => exact ⟨_, by rw [breaks, if_neg Bool.false_ne_true, hn]; rfl⟩

lemma ends_items (separator : String) {item : α → Render Unit} {list : List (Option α)}
    (h : ∀ a, some a ∈ list → Safe (item a)) (afterHole : Bool) :
    Ends (fun found => SlotsPrintable found.1) (items separator item afterHole list) := by
  induction list generalizing afterHole with
  | nil => exact .pure (Slot.keeps_nil closed_isPrintable)
  | cons a rest ih =>
      have hrest := ih fun b hb => h b (by simp [hb])
      cases a with
      | none =>
          refine (hrest true).bind fun found hfound => .pure ?_
          exact (Slot.keeps_text closed_isPrintable separator).append closed_isPrintable hfound
      | some a =>
          refine (ends_fork (h a (by simp))).bind fun held hheld => ?_
          refine ends_takeQueue.bind fun comments hcomments => ?_
          refine (hrest false).bind fun found hfound => .pure ?_
          exact (closed_isPrintable.itemSlots separator afterHole rest.isEmpty hheld hcomments).append
            closed_isPrintable hfound

lemma ends_sequence (spaces : Bool) (separator : String) {item : α → Render Unit}
    {list : List (Option α)} (h : ∀ a, some a ∈ list → Safe (item a)) :
    Safe (sequence spaces separator item list) := by
  unfold sequence
  split
  · exact safe_pure _
  · refine (ends_items separator h false).bind fun found hfound => safe_setting.bind fun s _ => ?_
    have hall (start join stop : List Command) (hstart : AllLeaves IsPrintable start)
        (hjoin : AllLeaves IsPrintable join) (hstop : AllLeaves IsPrintable stop) :
        AllLeaves IsPrintable (assemble start join stop found.1) :=
      closed_isPrintable.append (closed_isPrintable.deferred _ hstart)
        (closed_isPrintable.append (hfound _ _ hjoin) (closed_isPrintable.deferred _ hstop))
    refine .reading (exists_breaks found.2 (hall [] [] [] closed_isPrintable.nil
      closed_isPrintable.nil closed_isPrintable.nil) s.width) fun broken => ?_
    cases broken with
    | true => exact safe_raise.andThen (safe_emit (closed_isPrintable.decided spaces true hfound))
    | false => exact safe_emit (closed_isPrintable.decided spaces false hfound)

/-! ## Statements -/

lemma ends_bodyAfter {node : Json} {inner : Inner node} {statements : List (Part node)}
    (hkind : ∀ part ∈ statements, ∃ kind, part.1.IsA kind)
    (hbare : ∀ part ∈ statements, Safe (inner.bare part)) (before : Option Printed) :
    Safe (bodyAfter inner before statements) := by
  induction statements generalizing before with
  | nil => exact safe_pure _
  | cons statement rest ih =>
      have hrest := ih (fun p hp => hkind p (by simp [hp])) fun p hp => hbare p (by simp [hp])
      obtain ⟨kind, hstatement⟩ := hkind statement (by simp)
      rw [bodyAfter]
      refine .read hstatement.requireKind_eq (.ite (hrest before) ?_)
      obtain ⟨list, hlist, hprintable⟩ := hstatement.exists_comments
      obtain ⟨commands, hcommands, hleading⟩ := exists_leading true (Or.inl rfl) hprintable
      refine .read hlist (.read hcommands ((ends_fork (hbare statement (by simp))).bind
        fun held hheld => ?_))
      exact (safe_emit (closed_isPrintable.append (closed_isPrintable.append
        (closed_isPrintable.margin before _) hleading) hheld)).andThen
          (safe_drainAfterStatement.andThen (hrest _))

/-! ## Declarators -/

lemma ends_joined {item : α → Render Unit} {list : List α} (h : ∀ a ∈ list, Safe (item a)) :
    Ends (fun found => SlotsPrintable found.1) (joined item list) := by
  induction list with
  | nil => exact .pure (Slot.keeps_nil closed_isPrintable)
  | cons a rest ih =>
      refine (ends_fork (h a (by simp))).bind fun held hheld => ?_
      refine (ih fun b hb => h b (by simp [hb])).bind fun found hfound => .pure ?_
      exact ((Slot.keeps_ofCommands hheld).append closed_isPrintable
        ((Slot.keeps_nil closed_isPrintable).ite (Slot.keeps_join closed_isPrintable))).append
          closed_isPrintable hfound

lemma ends_declarations {node : Json} {inner : Inner node} (hobject : node.isObject = true)
    {list : Part node} (hlist : node.require "declarations" = .ok list)
    {parts : List (Part node)} (hparts : Json.parts list = .ok parts)
    (hkind : ∃ kind, node.require "kind" = .ok kind)
    (hinner : ∀ part ∈ parts, Safe (inner.value part)) : Safe (declarations node inner) := by
  refine .read hlist (.read hparts ((safe_textIf hobject _ _).andThen ?_))
  refine .reading hkind fun kind => (ends_joined hinner).bind fun found hfound =>
    safe_setting.bind fun s _ => ?_
  have hend (several broken : Bool) : Safe (if broken = true then do
      raise
      emit (assembleDeclarations (kind.1.display ++ " ") (if several then [.indent] else [])
        [.text ",", .newline] found.1 ++ (if several then [.dedent] else []))
    else emit (assembleDeclarations (kind.1.display ++ " ") [] [.text ", "] found.1)) := by
    have hprintable := closed_isPrintable.decidedDeclarations (kind.1.display ++ " ") several
      broken hfound
    cases broken with
    | true => exact safe_raise.andThen (safe_emit hprintable)
    | false => exact safe_emit hprintable
  split
  · rename_i hseveral
    have hmeasured : AllLeaves IsPrintable
        (assembleDeclarations (kind.1.display ++ " ") [] [] found.1) :=
      closed_isPrintable.append (closed_isPrintable.text _) (closed_isPrintable.append
        (closed_isPrintable.deferred _ closed_isPrintable.nil) (hfound _ _ closed_isPrintable.nil))
    refine .reading (exists_breaks _ hmeasured _) fun broken => ?_
    simpa [hseveral] using hend true broken
  · rename_i hseveral
    simpa [hseveral] using hend false found.2

/-! ## Arguments -/

lemma ends_argumentGap : Ends (fun found => SlotsPrintable found.1) Rules.argumentGap := by
  refine safe_hasQueue.bind fun waits _ => ?_
  split
  · refine ends_takeQueue.bind fun queue hqueue => ?_
    obtain ⟨found, hfound, hprintable⟩ := exists_betweenArguments hqueue
    exact .read hfound (.pure ((Slot.keeps_text closed_isPrintable ", ").append closed_isPrintable
      (Slot.keeps_ofCommands hprintable)))
  · exact .pure (Slot.keeps_join closed_isPrintable)

lemma ends_arguments {node : Json} {inner : Inner node} {list : List (Part node)}
    (h : ∀ part ∈ list, Safe (inner.value part)) :
    Ends (fun args => SlotsPrintable args.front ∧ AllLeaves IsPrintable args.last)
      (Rules.arguments inner list) := by
  induction list with
  | nil => exact .pure ⟨Slot.keeps_nil closed_isPrintable, closed_isPrintable.nil⟩
  | cons argument rest ih =>
      have hfirst := ends_fork (h argument (by simp))
      have hrest := ih fun p hp => h p (by simp [hp])
      cases rest with
      | nil =>
          exact hfirst.bind fun held hheld => .pure ⟨Slot.keeps_nil closed_isPrintable, hheld⟩
      | cons second rest =>
          refine hfirst.bind fun held hheld => ends_argumentGap.bind fun gap hgap => ?_
          refine hrest.bind fun others hothers => .pure ⟨?_, hothers.2⟩
          exact ((Slot.keeps_ofCommands hheld).append closed_isPrintable hgap).append
            closed_isPrintable hothers.1

lemma ends_callArguments {node : Json} {inner : Inner node} {list : Part node}
    (hlist : node.require "arguments" = .ok list) {parts : List (Part node)}
    (hparts : Json.parts list = .ok parts) (hinner : ∀ part ∈ parts, Safe (inner.value part)) :
    Safe (Rules.callArguments inner) := by
  refine .read hlist (.read hparts ((ends_arguments hinner).bind fun args hargs =>
    safe_setting.bind fun s _ => ?_))
  have hmeasured := hargs.1 "arguments-join" [] closed_isPrintable.nil
  refine .reading (exists_breaks _ hmeasured _) fun broken => (safe_raiseIf _).andThen ?_
  exact safe_emit (closed_isPrintable.decidedArguments broken hargs.1 hargs.2)

/-! ## Branches and levels -/

lemma ends_branches {x y : Render Unit} (hx : Safe x) (hy : Safe y) :
    Safe (do
      let yes ← fork x
      let no ← fork y
      raiseIf (yes.multiline || no.multiline)
      emit (Rules.branches (yes.multiline || no.multiline) yes.commands no.commands)) :=
  (ends_fork hx).bind fun _ hyes => (ends_fork hy).bind fun _ hno =>
    (safe_raiseIf _).andThen (safe_emit (closed_isPrintable.branches _ hyes hno))

end Render

end EstreePrinter
