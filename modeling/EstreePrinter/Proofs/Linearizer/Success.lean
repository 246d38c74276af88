import Mathlib
import EstreePrinter.Proofs.Linearizer.Written

/-!
# When linearizing succeeds

The linearizer objects to a level that is closed without being open and to one that is left open at
the end; that is `Command.levels`, read off the depth it carries (`step_depth`, `runLeaves_depth`).
It also stops where a leaf cannot be written at all, which is a fault of the leaf and not of the
layout (`Command.IsWritable`).

* `linearize_ne_layout` — balanced leaves never lead to a layout error, writable or not;
* **`linearize_balanced`** — writable leaves are written down exactly when they are balanced, and
  then text and marks are the expected ones.
-/

namespace EstreePrinter

/-- A place given by whole numbers. -/
structure Position.IsWhole (p : Position) : Prop where
  line : ∃ n, p.line = .int n
  column : ∃ n, p.column = .int n

/-- A range between two such places. -/
structure Span.IsWhole (s : Span) : Prop where
  start : s.start.IsWhole
  stop : s.stop.IsWhole

/-- **Leaves that can be written**: a chunk has its lines as whole numbers, a comment is an object
whose text is a string or missing (a line comment may have any text), and no value stands where a
text should. -/
def Command.IsWritable : Command → Prop
  | .chunk _ (some span) => (∃ n, span.start.line = .int n) ∧ ∃ n, span.stop.line = .int n
  | .comment c _ => ∃ v, c.commentText = .ok v ∧ (c.isLineComment = .ok true ∨ ∃ s, v = .str s)
  | .foreignChunk _ _ => False
  | _ => True

namespace Linearizer

lemma atMargin_iff {l : Linearizer} (h : l.indent ≠ "") : l.atMargin = true ↔ l.depth = 0 := by
  simp [atMargin, h]

/-- The level after a leaf is the depth behind it, unless a level is closed that is not open. -/
lemma levelAfter_eq (depth : Nat) (c : Command) :
    Command.levelAfter depth c =
      if c.closes = true ∧ depth = 0 then none else some (c.depthAfter depth) := by
  cases c with
  | dedent =>
      by_cases h : depth = 0 <;>
        simp [Command.levelAfter, Command.closes, Command.depthAfter, h]
  | _ => simp [Command.levelAfter, Command.closes, Command.depthAfter]

/-- The layout fails only where a level is closed that is not open. -/
lemma step_eq_layout {l : Linearizer} (hindent : l.indent ≠ "") {c : Command} {e : LayoutError}
    (h : l.step c = .error (.layout e)) : c.closes = true ∧ l.depth = 0 := by
  cases c with
  | dedent =>
      simp only [step] at h
      split_ifs at h with hmargin
      exact ⟨rfl, (atMargin_iff hindent).mp hmargin⟩
  | chunk s span => exact absurd h (ofFault_ne_layout _ e)
  | comment c after => exact absurd h (ofFault_ne_layout _ e)
  | _ => simp [step] at h

/-- **One step, seen by its depth.**  A command that is carried out moves the depth as the level
moves, and where the layout fails there is no level to go to. -/
lemma step_level {l : Linearizer} (hindent : l.indent ≠ "") (c : Command) :
    (∀ l', l.step c = .ok l' → Command.levelAfter l.depth c = some l'.depth) ∧
      ∀ e, l.step c = .error (.layout e) → Command.levelAfter l.depth c = none := by
  refine ⟨fun l' hl' => ?_, fun e he => ?_⟩
  · rw [levelAfter_eq, (step_frame hl').1]
    refine if_neg ?_
    rintro ⟨hcloses, hdepth⟩
    -- closing a level at the margin is an error, so it cannot have been carried out
    cases c with
    | dedent =>
        simp only [step, (atMargin_iff hindent).mpr hdepth, if_true, reduceCtorEq] at hl'
    | _ => simp [Command.closes] at hcloses
  · rw [levelAfter_eq, if_pos (step_eq_layout hindent he)]

/-- **A run, seen by its depth.** -/
lemma runLeaves_levels {l : Linearizer} (hindent : l.indent ≠ "") (leaves : List Command) :
    (∀ l', l.runLeaves leaves = (l', none) →
      Command.levels l.depth leaves = some l'.depth ∧ l'.indent = l.indent) ∧
      ∀ l' e, l.runLeaves leaves = (l', some (.layout e)) →
        Command.levels l.depth leaves = none := by
  induction leaves generalizing l with
  | nil =>
      refine ⟨fun l' hl' => ?_, fun l' e he => ?_⟩
      · simp only [runLeaves, Prod.mk.injEq, and_true] at hl'
        subst hl'
        exact ⟨rfl, rfl⟩
      · simp [runLeaves] at he
  | cons c rest ih =>
      obtain ⟨hok, hlayout⟩ := step_level hindent c
      simp only [runLeaves, Command.levels_cons]
      cases hstep : l.step c with
      | ok next =>
          obtain ⟨-, hnext⟩ := step_frame hstep
          have ih := ih (l := next) (by rw [hnext]; exact hindent)
          rw [hnext] at ih
          simpa [hok next hstep] using ih
      | error failure =>
          refine ⟨by simp, fun l' e he => ?_⟩
          simp only [Prod.mk.injEq, Option.some.injEq] at he
          rw [hlayout e (by rw [hstep, he.2])]
          rfl

/-- A comment whose text can be read is an object, so it can be asked for its kind. -/
lemma isLineComment_of_commentText {c v : Json} (h : c.commentText = .ok v) :
    ∃ line, c.isLineComment = .ok line := by
  cases c with
  | obj fields =>
      simp only [Json.isLineComment, Json.kind, Json.getValue, Json.get, Json.isObject, if_true,
        ok_bind]
      cases Json.field? (.obj fields) "type" <;> exact ⟨_, rfl⟩
  | _ => simp [Json.commentText, Json.get, Json.isObject] at h

/-- A leaf that can be written is written down, or the layout fails there. -/
lemma step_of_isWritable (l : Linearizer) {c : Command} (hc : c.IsWritable) :
    (∃ l', l.step c = .ok l') ∨ ∃ e, l.step c = .error (.layout e) := by
  have hmark :
      ∀ (l : Linearizer) {p : Position}, (∃ n, p.line = .int n) → ∃ l', l.mark p = .ok l' := by
    rintro l p ⟨n, hn⟩
    exact ⟨_, mark_eq_ok_iff.mpr ⟨.int (n + -1), by rw [hn]; rfl, rfl⟩⟩
  cases c with
  | chunk s span =>
      cases span with
      | none => exact Or.inl ⟨_, rfl⟩
      | some span =>
          obtain ⟨hstart, hstop⟩ := hc
          obtain ⟨m, hm⟩ := hmark l hstart
          obtain ⟨m', hm'⟩ := hmark (m.append s) hstop
          refine Or.inl ⟨m', ?_⟩
          rw [step, ofFault_eq_ok_iff]
          exact bind_eq_ok_iff.mpr ⟨m, hm, hm'⟩
  | comment c after =>
      obtain ⟨v, hv, hkind⟩ := hc
      have hbody : ∃ body, l.commentBody c = .ok body := by
        rw [commentBody, hv, ok_bind]
        rcases hkind with hline | ⟨s, rfl⟩
        · rw [hline]
          exact ⟨_, rfl⟩
        · obtain ⟨line, hline⟩ := isLineComment_of_commentText hv
          rw [hline]
          cases line <;> exact ⟨_, rfl⟩
      obtain ⟨body, hbody⟩ := hbody
      have hcomment : ∃ l', l.comment c after = .ok l' := by
        rw [Linearizer.comment, hbody, ok_bind]
        exact ⟨_, rfl⟩
      obtain ⟨l', hl'⟩ := hcomment
      exact Or.inl ⟨l', by rw [step, ofFault_eq_ok_iff, hl']⟩
  | dedent =>
      by_cases hmargin : l.atMargin = true
      · exact Or.inr ⟨_, by rw [step, if_pos hmargin]⟩
      · exact Or.inl ⟨_, by rw [step, if_neg hmargin]⟩
  | foreignChunk v span => exact absurd hc id
  | _ => exact Or.inl ⟨_, rfl⟩

/-- Leaves that can all be written are written down, or the layout fails somewhere. -/
lemma runLeaves_of_isWritable (l : Linearizer) {leaves : List Command}
    (hleaves : ∀ c ∈ leaves, c.IsWritable) :
    (∃ l', l.runLeaves leaves = (l', none)) ∨ ∃ l' e, l.runLeaves leaves = (l', some (.layout e)) := by
  induction leaves generalizing l with
  | nil => exact Or.inl ⟨l, rfl⟩
  | cons c rest ih =>
      rw [runLeaves]
      rcases step_of_isWritable l (hleaves c (by simp)) with ⟨next, hnext⟩ | ⟨e, he⟩
      · simpa [hnext] using ih next fun d hd => hleaves d (by simp [hd])
      · exact Or.inr ⟨l, e, by simp [he]⟩

end Linearizer

/-! ## From the start to the end -/

/-- **Balanced leaves never lead to a layout error.** -/
theorem linearize_ne_layout {commands : List Command} {indent : String} (hindent : indent ≠ "")
    (hbalanced : Command.Balanced (Command.leavesAll commands)) (e : LayoutError) :
    linearize commands indent ≠ .error (.layout e) := by
  rw [Command.balanced_iff_levels] at hbalanced
  obtain ⟨hok, hlayout⟩ := Linearizer.runLeaves_levels
    (l := ({ indent := indent } : Linearizer)) hindent (Command.leavesAll commands)
  rw [linearize, Linearizer.run_eq]
  cases hrun : ({ indent := indent } : Linearizer).runLeaves (Command.leavesAll commands) with
  | mk l failure =>
      cases failure with
      | some failure =>
          intro h
          simp only [Except.error.injEq] at h
          subst h
          rw [hlayout l e hrun] at hbalanced
          simp at hbalanced
      | none =>
          obtain ⟨hdepth, hindent'⟩ := hok l hrun
          rw [hbalanced, Option.some.injEq] at hdepth
          have hmargin : l.atMargin = true :=
            (Linearizer.atMargin_iff (by rw [hindent']; exact hindent)).mpr hdepth.symm
          simp [Linearizer.finish, hmargin]

/-- What was written down was balanced. -/
theorem balanced_of_linearize {commands : List Command} {indent : String} (hindent : indent ≠ "")
    {result : String × List (List Mark)} (h : linearize commands indent = .ok result) :
    Command.Balanced (Command.leavesAll commands) := by
  obtain ⟨hok, -⟩ := Linearizer.runLeaves_levels
    (l := ({ indent := indent } : Linearizer)) hindent (Command.leavesAll commands)
  rw [linearize, Linearizer.run_eq] at h
  rw [Command.balanced_iff_levels]
  cases hrun : ({ indent := indent } : Linearizer).runLeaves (Command.leavesAll commands) with
  | mk l failure =>
      rw [hrun] at h
      cases failure with
      | some e => simp at h
      | none =>
          obtain ⟨hdepth, hindent'⟩ := hok l hrun
          simp only [Linearizer.finish] at h
          split_ifs at h with hmargin
          have hzero := (Linearizer.atMargin_iff (by rw [hindent']; exact hindent)).mp hmargin
          rw [hdepth, hzero]

/-- Writable leaves are written down, or the layout is wrong: nothing else can happen. -/
lemma linearize_of_isWritable {commands : List Command} (indent : String)
    (hwritable : ∀ c ∈ Command.leavesAll commands, c.IsWritable) :
    (∃ result, linearize commands indent = .ok result) ∨
      ∃ e, linearize commands indent = .error (.layout e) := by
  rw [linearize, Linearizer.run_eq]
  rcases Linearizer.runLeaves_of_isWritable { indent := indent } hwritable with
    ⟨l, hrun⟩ | ⟨l, e, hrun⟩
  · rw [hrun]
    cases hfinish : l.finish with
    | ok l' => exact Or.inl ⟨(l'.output, l'.mappings), by simp only [hfinish]⟩
    | error e => exact Or.inr ⟨e, by simp only [hfinish]⟩
  · exact Or.inr ⟨e, by rw [hrun]⟩

/-- **Writable leaves are written down exactly when they are balanced.**  Then the text is what the
leaves write one after the other, there is one line of segments more than there are line feeds, and
the segments are those of the two ends of each chunk that has a place, in order: each on the line
and at the column where the text in front of it ends, for the source number zero. -/
theorem linearize_balanced (commands : List Command) (indent : String) (hindent : indent ≠ "")
    (hwritable : ∀ c ∈ Command.leavesAll commands, c.IsWritable) :
    ((∃ result, linearize commands indent = .ok result) ↔
      Command.Balanced (Command.leavesAll commands)) ∧
    ∀ code lines, linearize commands indent = .ok (code, lines) →
      code.toList = written indent 0 (Command.leavesAll commands) ∧
      lines.length = code.toList.count '\n' + 1 ∧
      (numbered lines).map (fun m => (m.1, m.2.toJson)) =
        (endsOf indent [] 0 (Command.leavesAll commands)).map fun e =>
          (lineAfter e.before,
            .arr [.int (columnAfter e.before), .int 0, fromZero e.place.line, e.place.column]) := by
  refine ⟨⟨?_, fun hbalanced => ?_⟩, fun code lines h => ?_⟩
  · rintro ⟨result, h⟩
    exact balanced_of_linearize hindent h
  · rcases linearize_of_isWritable indent hwritable with hok | ⟨e, he⟩
    · exact hok
    · exact absurd he (linearize_ne_layout hindent hbalanced e)
  · obtain ⟨hcode, hlength, hmarks⟩ := linearize_eq_ok h
    refine ⟨hcode, hlength, ?_⟩
    rw [hmarks, List.map_map]
    rfl

/-- A broken list with a comment and an astral character in it: the text of the chunk starts on the
second line at column one and is three code units wide. -/
def brokenList : List Command :=
  [.text "f(", .deferred "arguments-open" [.indent, .newline],
    .chunk "a😀" (some ⟨⟨.int 3, .int 4⟩, ⟨.int 3, .int 7⟩⟩),
    .comment (.obj [("type", .str "Block"), ("value", .str "x\ny")]) .space,
    .deferred "arguments-close" [.dedent, .newline], .text ")"]

theorem linearize_balanced_brokenList :
    ∃ code lines, linearize brokenList "\t" = .ok (code, lines) ∧
      code = "f(\n\ta😀/*x\n\ty*/ \n)" ∧ lines.length = 4 ∧
      (numbered lines).map (fun m => (m.1, m.2.toJson)) =
        [(1, .arr [.int 1, .int 0, .int 2, .int 4]), (1, .arr [.int 4, .int 0, .int 2, .int 7])] := by
  have hwritable : ∀ c ∈ Command.leavesAll brokenList, c.IsWritable := by
    intro c hc
    simp only [brokenList, Command.leavesAll_cons, Command.leaves, Command.leavesAll_nil,
      List.cons_append, List.nil_append, List.mem_cons, List.not_mem_nil, or_false] at hc
    rcases hc with rfl | rfl | rfl | rfl | rfl | rfl | rfl | rfl
    · trivial
    · trivial
    · trivial
    · exact ⟨⟨3, rfl⟩, 3, rfl⟩
    · exact ⟨.str "x\ny", rfl, Or.inr ⟨_, rfl⟩⟩
    · trivial
    · trivial
    · trivial
  have hbalanced : Command.Balanced (Command.leavesAll brokenList) := by
    rw [Command.balanced_iff_levels]
    rfl
  obtain ⟨hiff, hresult⟩ := linearize_balanced brokenList "\t" (by decide) hwritable
  obtain ⟨⟨code, lines⟩, h⟩ := hiff.mpr hbalanced
  obtain ⟨hcode, hlength, hmarks⟩ := hresult code lines h
  have htext : code = "f(\n\ta😀/*x\n\ty*/ \n)" := by
    rw [← String.toList_inj, hcode]
    decide
  refine ⟨code, lines, h, htext, ?_, ?_⟩
  · rw [hlength, htext]
    decide
  · rw [hmarks]
    rfl

end EstreePrinter
