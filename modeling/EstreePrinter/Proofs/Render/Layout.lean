import Mathlib
import EstreePrinter.Render.Tree
import EstreePrinter.Proofs.Render.Steps

/-!
# Running the lists that may break

For each construct that renders its parts first and decides about line breaks afterwards: what a run
of it consists of.  The runs of the parts come first, with the queue handed from one to the next,
then the decision, which is the only place where the width is looked at.

* `sequence_eq_ok_iff` — a separated list;
* `bodyAfter_cons_eq_ok_iff` — statements;
* `declarations_eq_ok_iff` — declarators;
* `callArguments_eq_ok_iff` — the arguments of a call.

Each of the four emits nothing before its decision (`items_quiet`, `joined_quiet`,
`arguments_quiet`).
-/

namespace EstreePrinter

open Json (Part)

namespace Render

variable {α : Type} {s : Setting} {q : List Json}

/-! ## Separated lists -/

/-- The slots of one item: its own commands, its separator and what follows that. -/
def itemSlots (separator : String) (afterHole isLast : Bool) (commands : List Command)
    (comments : List Json) : List Slot :=
  (if afterHole then [.join] else []) ++ Slot.ofCommands commands ++
    (if isLast then [] else [.own (.text separator)]) ++
      (if comments.isEmpty then (if isLast then [] else [.join])
        else .own (.text " ") :: itemComments isLast comments)

lemma items_hole_eq_ok_iff {separator : String} {item : α → Render Unit} {afterHole : Bool}
    {rest : List (Option α)} {e : Emission (List Slot × Bool)} :
    items separator item afterHole (none :: rest) s q = .ok e ↔
      ∃ others, items separator item true rest s q = .ok others ∧
        e = { others with value := (.own (.text separator) :: others.value.1, others.value.2) } := by
  simp only [items, bind_pure_eq_ok_iff]

lemma items_some_eq_ok_iff {separator : String} {item : α → Render Unit} {afterHole : Bool}
    {a : α} {rest : List (Option α)} {e : Emission (List Slot × Bool)} :
    items separator item afterHole (some a :: rest) s q = .ok e ↔
      ∃ inner, item a s q = .ok inner ∧
        ∃ others, items separator item false rest s [] = .ok others ∧
          e = { others with
            value := (itemSlots separator afterHole rest.isEmpty inner.commands inner.queue ++
                others.value.1,
              inner.multiline || !inner.queue.isEmpty || others.value.2) } := by
  simp only [items, fork_bind_eq_ok_iff, takeQueue_bind_run, bind_pure_eq_ok_iff, itemSlots]

/-- The items of a list are all held back. -/
lemma items_quiet {separator : String} {item : α → Render Unit} {afterHole : Bool}
    {list : List (Option α)} {e : Emission (List Slot × Bool)}
    (h : items separator item afterHole list s q = .ok e) :
    e.commands = [] ∧ e.multiline = false := by
  induction list generalizing afterHole q e with
  | nil =>
      simp only [items, pure_run, Except.ok.injEq] at h
      subst h
      exact ⟨rfl, rfl⟩
  | cons a rest ih =>
      cases a with
      | none =>
          obtain ⟨others, hothers, rfl⟩ := items_hole_eq_ok_iff.mp h
          simpa using ih hothers
      | some a =>
          obtain ⟨inner, -, others, hothers, rfl⟩ := items_some_eq_ok_iff.mp h
          simpa using ih hothers

/-- A note on lines together with the commands it is about. -/
lemma raiseIf_emit_run (b : Bool) (commands : List Command) :
    (do raiseIf b; emit commands : Render Unit) s q = .ok ⟨(), commands, b, q⟩ := by
  rw [bind_eq_of_ok (raiseIf_run b s q) (emit_run commands s q)]
  simp [Emission.andThen]

lemma raise_emit_run (commands : List Command) :
    (do raise; emit commands : Render Unit) s q = .ok ⟨(), commands, true, q⟩ :=
  raiseIf_emit_run true commands

/-- The commands of a list once it is decided whether it breaks. -/
def decided (spaces broken : Bool) (slots : List Slot) : List Command :=
  if broken then assemble [.indent, .newline] [.newline] [.dedent, .newline] slots
  else
    let pad : List Command := if spaces then [.text " "] else []
    assemble pad [.text " "] pad slots

/-- **A run of a separated list.** -/
lemma sequence_eq_ok_iff {spaces : Bool} {separator : String} {item : α → Render Unit}
    {list : List (Option α)} (hlist : list ≠ []) {e : Emission Unit} :
    sequence spaces separator item list s q = .ok e ↔
      ∃ first, items separator item false list s q = .ok first ∧
        ∃ broken, breaks first.value.2 (assemble [] [] [] first.value.1) s.width = .ok broken ∧
          e = ⟨(), decided spaces broken first.value.1, broken, first.queue⟩ := by
  have hempty : list.isEmpty = false := by simpa using hlist
  -- what is emitted once the decision is taken
  have hdecided (broken : Bool) (slots : List Slot) (q : List Json) :
      (if broken = true then do
          raise
          emit (assemble [.indent, .newline] [.newline] [.dedent, .newline] slots)
        else
          let pad : List Command := if spaces then [.text " "] else []
          emit (assemble pad [.text " "] pad slots) : Render Unit) s q =
        .ok ⟨(), decided spaces broken slots, broken, q⟩ := by
    cases broken with
    | false => rfl
    | true => exact raise_emit_run _
  rw [sequence, hempty, if_neg Bool.false_ne_true]
  constructor
  · intro h
    obtain ⟨first, hfirst, last, hlast, rfl⟩ := bind_eq_ok_iff.mp h
    simp only [setting_bind_run] at hlast
    obtain ⟨broken, hbroken, hlast⟩ := read_bind_eq_ok_iff.mp hlast
    obtain rfl := Except.ok.inj ((hdecided broken _ _).symm.trans hlast)
    obtain ⟨hcommands, hmultiline⟩ := items_quiet hfirst
    exact ⟨first, hfirst, broken, hbroken, by simp [Emission.andThen, hcommands, hmultiline]⟩
  · rintro ⟨first, hfirst, broken, hbroken, rfl⟩
    obtain ⟨hcommands, hmultiline⟩ := items_quiet hfirst
    refine bind_eq_ok_iff.mpr ⟨first, hfirst,
      ⟨(), decided spaces broken first.value.1, broken, first.queue⟩, ?_, ?_⟩
    · simp only [setting_bind_run]
      exact read_bind_eq_ok_iff.mpr ⟨broken, hbroken, hdecided broken _ _⟩
    · simp [Emission.andThen, hcommands, hmultiline]

/-! ## Statements -/

/-- **A run over statements**: an empty statement is passed over, any other one is rendered, and its
margin, which depends on it, goes in front of it. -/
lemma bodyAfter_cons_eq_ok {node : Json} {inner : Inner node} {before : Option Printed}
    {statement : Part node} {rest : List (Part node)} {e : Emission Unit}
    (h : bodyAfter inner before (statement :: rest) s q = .ok e) :
    ∃ kind, statement.1.requireKind = .ok kind ∧
      if kind.isText "EmptyStatement" then bodyAfter inner before rest s q = .ok e
      else
        ∃ list, statement.1.comments "leadingComments" = .ok list ∧
        ∃ comments, leading true .null list = .ok comments ∧
        ∃ held, inner.bare statement s q = .ok held ∧
        ∃ drained, drainAfterStatement s held.queue = .ok drained ∧
        ∃ others, bodyAfter inner (some ⟨kind.display, held.multiline⟩) rest s drained.queue
            = .ok others ∧
          e.commands = margin before ⟨kind.display, held.multiline⟩ ++ comments ++ held.commands ++
            (drained.commands ++ others.commands) ∧
          e.queue = others.queue := by
  obtain ⟨kind, hkind, h⟩ := read_bind_eq_ok_iff.mp h
  refine ⟨kind, hkind, ?_⟩
  split
  · rename_i hempty
    rwa [if_pos hempty] at h
  · rename_i hempty
    rw [if_neg hempty] at h
    obtain ⟨list, hlist, h⟩ := read_bind_eq_ok_iff.mp h
    obtain ⟨comments, hcomments, h⟩ := read_bind_eq_ok_iff.mp h
    obtain ⟨held, hheld, h⟩ := fork_bind_eq_ok_iff.mp h
    obtain ⟨_, hemit, behind, hbehind, rfl⟩ := bind_eq_ok_iff.mp h
    obtain rfl := Except.ok.inj hemit
    obtain ⟨drained, hdrained, others, hothers, rfl⟩ := bind_eq_ok_iff.mp hbehind
    exact ⟨list, hlist, comments, hcomments, held, hheld, drained, hdrained, others, hothers,
      rfl, rfl⟩

/-! ## Declarators -/

lemma joined_cons_eq_ok {item : α → Render Unit} {a : α} {rest : List α}
    {e : Emission (List Slot × Bool)} (h : joined item (a :: rest) s q = .ok e) :
    ∃ inner, item a s q = .ok inner ∧ ∃ others, joined item rest s inner.queue = .ok others ∧
      e = { others with
        value := (Slot.ofCommands inner.commands ++ (if rest.isEmpty then [] else [.join]) ++
            others.value.1,
          inner.multiline || others.value.2) } := by
  simpa only [joined, fork_bind_eq_ok_iff, bind_pure_eq_ok_iff] using h

lemma joined_quiet {item : α → Render Unit} {list : List α} {e : Emission (List Slot × Bool)}
    (h : joined item list s q = .ok e) : e.commands = [] ∧ e.multiline = false := by
  induction list generalizing q e with
  | nil =>
      simp only [joined, pure_run, Except.ok.injEq] at h
      subst h
      exact ⟨rfl, rfl⟩
  | cons a rest ih =>
      obtain ⟨inner, -, others, hothers, rfl⟩ := joined_cons_eq_ok h
      simpa using ih hothers

/-- The commands of a declaration once it is decided whether it breaks. -/
def decidedDeclarations (keyword : String) (several broken : Bool) (slots : List Slot) :
    List Command :=
  if broken then
    assembleDeclarations keyword (if several then [.indent] else []) [.text ",", .newline] slots ++
      (if several then [.dedent] else [])
  else assembleDeclarations keyword [] [.text ", "] slots

/-- The last step of a declaration, with the decision taken. -/
lemma emitDeclarations_eq_ok {keyword : String} (several : Bool) {broken : Bool}
    {slots : List Slot} {e : Emission Unit}
    (h : (if broken = true then do
        raise
        emit (assembleDeclarations keyword (if several then [.indent] else [])
          [.text ",", .newline] slots ++ (if several then [.dedent] else []))
      else emit (assembleDeclarations keyword [] [.text ", "] slots)) s q = .ok e) :
    e = ⟨(), decidedDeclarations keyword several broken slots, broken, q⟩ := by
  cases broken with
  | false => simpa [decidedDeclarations, eq_comm] using h
  | true =>
      rw [if_pos rfl, raise_emit_run] at h
      exact (Except.ok.inj h).symm

/-- **A run of a declaration.**  A lone declarator is not measured. -/
lemma declarations_eq_ok {node : Json} {inner : Inner node} {e : Emission Unit}
    (h : declarations node inner s q = .ok e) :
    ∃ part, node.require "declarations" = .ok part ∧ ∃ list, Json.parts part = .ok list ∧
    ∃ declare, node.flag "declare" = .ok declare ∧ ∃ kind, node.require "kind" = .ok kind ∧
    ∃ first, joined inner.value list s q = .ok first ∧ ∃ broken,
      (if 1 < list.length then
        breaks first.value.2 (assembleDeclarations (kind.1.display ++ " ") [] [] first.value.1)
          s.width = .ok broken
      else first.value.2 = broken) ∧
      e = ⟨(), (if declare then [.text "declare "] else []) ++
          decidedDeclarations (kind.1.display ++ " ") (1 < list.length) broken first.value.1,
        broken, first.queue⟩ := by
  obtain ⟨part, hpart, h⟩ := read_bind_eq_ok_iff.mp h
  obtain ⟨list, hlist, h⟩ := read_bind_eq_ok_iff.mp h
  obtain ⟨word, hword, rest, hrest, rfl⟩ := bind_eq_ok_iff.mp h
  obtain ⟨declare, hdeclare, rfl⟩ := textIf_eq_ok_iff.mp hword
  obtain ⟨kind, hkind, hrest⟩ := read_bind_eq_ok_iff.mp hrest
  obtain ⟨first, hfirst, last, hlast, rfl⟩ := bind_eq_ok_iff.mp hrest
  obtain ⟨hcommands, hmultiline⟩ := joined_quiet hfirst
  refine ⟨part, hpart, list, hlist, declare, hdeclare, kind, hkind, first, hfirst, ?_⟩
  simp only [setting_bind_run] at hlast
  by_cases hseveral : 1 < list.length
  · simp only [hseveral, if_true, read_bind_eq_ok_iff] at hlast
    obtain ⟨broken, hbroken, hlast⟩ := hlast
    obtain rfl := emitDeclarations_eq_ok true hlast
    exact ⟨broken, by simpa only [hseveral, if_true] using hbroken,
      by simp [Emission.andThen, hcommands, hmultiline, hseveral]⟩
  · simp only [hseveral, if_false, pure_bind] at hlast
    obtain rfl := emitDeclarations_eq_ok false hlast
    exact ⟨first.value.2, by simp only [hseveral, if_false],
      by simp [Emission.andThen, hcommands, hmultiline, hseveral]⟩

/-! ## Arguments -/

lemma argumentGap_eq_ok_iff {e : Emission (List Slot × Bool)} :
    Rules.argumentGap s q = .ok e ↔
      if q = [] then e = ⟨([.join], false), [], false, []⟩
      else ∃ found, betweenArguments q = .ok found ∧
        e = ⟨(.own (.text ", ") :: Slot.ofCommands found.1, found.2), [], false, []⟩ := by
  rw [Rules.argumentGap, hasQueue_bind_run]
  cases q with
  | nil => simp [@eq_comm _ _ e]
  | cons comment rest =>
      simp only [List.isEmpty_cons, Bool.not_false, if_true, reduceCtorEq, if_false,
        takeQueue_bind_run, read_bind_eq_ok_iff, pure_run, Except.ok.injEq, @eq_comm _ _ e]

/-- What goes between two arguments is held back, and leaves no comment waiting. -/
lemma argumentGap_quiet {e : Emission (List Slot × Bool)} (h : Rules.argumentGap s q = .ok e) :
    e.commands = [] ∧ e.multiline = false ∧ e.queue = [] := by
  rw [argumentGap_eq_ok_iff] at h
  split at h
  · subst h
    exact ⟨rfl, rfl, rfl⟩
  · obtain ⟨found, -, rfl⟩ := h
    exact ⟨rfl, rfl, rfl⟩

variable {node : Json} {inner : Inner node}

lemma arguments_last_eq_ok_iff {last : Part node} {e : Emission Rules.Arguments} :
    Rules.arguments inner [last] s q = .ok e ↔
      ∃ held, inner.value last s q = .ok held ∧
        e = ⟨{ last := held.commands, lastMultiline := held.multiline }, [], false, held.queue⟩ := by
  simp only [Rules.arguments, bind_pure_eq_ok_iff, fork_eq_ok_iff]
  constructor
  · rintro ⟨_, ⟨held, hheld, rfl⟩, rfl⟩
    exact ⟨held, hheld, rfl⟩
  · rintro ⟨held, hheld, rfl⟩
    exact ⟨_, ⟨held, hheld, rfl⟩, rfl⟩

lemma arguments_cons_eq_ok_iff {argument : Part node} {rest : List (Part node)} (hrest : rest ≠ [])
    {e : Emission Rules.Arguments} :
    Rules.arguments inner (argument :: rest) s q = .ok e ↔
      ∃ held, inner.value argument s q = .ok held ∧
      ∃ gap, Rules.argumentGap s held.queue = .ok gap ∧
      ∃ others, Rules.arguments inner rest s [] = .ok others ∧
        e = { others with
          value := { others.value with
            front := Slot.ofCommands held.commands ++ gap.value.1 ++ others.value.front
            frontMultiline := held.multiline || gap.value.2 || others.value.frontMultiline } } := by
  have hdef : Rules.arguments inner (argument :: rest) = (do
      let held ← fork (inner.value argument)
      let gap ← Rules.argumentGap
      let others ← Rules.arguments inner rest
      pure { others with
        front := Slot.ofCommands held.commands ++ gap.1 ++ others.front
        frontMultiline := held.multiline || gap.2 || others.frontMultiline }) := by
    cases rest with
    | nil => exact absurd rfl hrest
    | cons next rest => rfl
  simp only [hdef, fork_bind_eq_ok_iff]
  refine exists_congr fun held => and_congr_right fun _ => ?_
  constructor
  · intro h
    obtain ⟨gap, hgap, rest, hrest, rfl⟩ := bind_eq_ok_iff.mp h
    obtain ⟨others, hothers, rfl⟩ := bind_pure_eq_ok_iff.mp hrest
    obtain ⟨hcommands, hmultiline, hqueue⟩ := argumentGap_quiet hgap
    rw [hqueue] at hothers
    exact ⟨gap, hgap, others, hothers, by simp [Emission.andThen, hcommands, hmultiline]⟩
  · rintro ⟨gap, hgap, others, hothers, rfl⟩
    obtain ⟨hcommands, hmultiline, hqueue⟩ := argumentGap_quiet hgap
    rw [← hqueue] at hothers
    exact bind_eq_ok_iff.mpr ⟨gap, hgap, _, bind_pure_eq_ok_iff.mpr ⟨others, hothers, rfl⟩,
      by simp [Emission.andThen, hcommands, hmultiline]⟩

lemma arguments_quiet {list : List (Part node)} {e : Emission Rules.Arguments}
    (h : Rules.arguments inner list s q = .ok e) : e.commands = [] ∧ e.multiline = false := by
  induction list generalizing q e with
  | nil =>
      simp only [Rules.arguments, pure_run, Except.ok.injEq] at h
      subst h
      exact ⟨rfl, rfl⟩
  | cons argument rest ih =>
      by_cases hrest : rest = []
      · subst hrest
        obtain ⟨held, -, rfl⟩ := arguments_last_eq_ok_iff.mp h
        exact ⟨rfl, rfl⟩
      · obtain ⟨held, -, gap, -, others, hothers, rfl⟩ := (arguments_cons_eq_ok_iff hrest).mp h
        simpa using ih hothers

/-- The commands of an argument list once it is decided whether it breaks. -/
def decidedArguments (broken : Bool) (args : Rules.Arguments) : List Command :=
  if broken then
    Rules.argumentList args [.indent, .newline] [.text ",", .newline] [.dedent, .newline]
  else Rules.argumentList args [] [.text ", "] []

/-- **A run of an argument list.**  Only what stands before the last argument is measured. -/
lemma callArguments_eq_ok_iff {e : Emission Unit} :
    Rules.callArguments inner s q = .ok e ↔
      ∃ part, node.require "arguments" = .ok part ∧ ∃ list, Json.parts part = .ok list ∧
      ∃ args, Rules.arguments inner list s q = .ok args ∧
      ∃ broken, breaks args.value.frontMultiline
          (Slot.fill "arguments-join" [] args.value.front) s.width = .ok broken ∧
        e = ⟨(), decidedArguments broken args.value, broken || args.value.lastMultiline,
          args.queue⟩ := by
  simp only [Rules.callArguments, read_bind_eq_ok_iff]
  refine exists_congr fun part => and_congr_right fun _ => exists_congr fun list =>
    and_congr_right fun _ => ?_
  constructor
  · intro h
    obtain ⟨args, hargs, last, hlast, rfl⟩ := bind_eq_ok_iff.mp h
    rw [setting_bind_run] at hlast
    obtain ⟨broken, hbroken, hlast⟩ := read_bind_eq_ok_iff.mp hlast
    obtain rfl := Except.ok.inj ((raiseIf_emit_run _ _).symm.trans hlast)
    obtain ⟨hcommands, hmultiline⟩ := arguments_quiet hargs
    exact ⟨args, hargs, broken, hbroken,
      by simp [Emission.andThen, decidedArguments, hcommands, hmultiline]⟩
  · rintro ⟨args, hargs, broken, hbroken, rfl⟩
    obtain ⟨hcommands, hmultiline⟩ := arguments_quiet hargs
    refine bind_eq_ok_iff.mpr ⟨args, hargs, ⟨(), decidedArguments broken args.value,
      broken || args.value.lastMultiline, args.queue⟩, ?_, ?_⟩
    · rw [setting_bind_run]
      exact read_bind_eq_ok_iff.mpr ⟨broken, hbroken, raiseIf_emit_run _ _⟩
    · simp [Emission.andThen, hcommands, hmultiline]

/-! ## Branches -/

/-- **A run of the two branches of a conditional expression.** -/
lemma branches_eq_ok_iff {x y : Render Unit} {e : Emission Unit} :
    (do
      let yes ← fork x
      let no ← fork y
      raiseIf (yes.multiline || no.multiline)
      emit (Rules.branches (yes.multiline || no.multiline) yes.commands no.commands) :
        Render Unit) s q = .ok e ↔
      ∃ yes, x s q = .ok yes ∧ ∃ no, y s yes.queue = .ok no ∧
        e = ⟨(), Rules.branches (yes.multiline || no.multiline) yes.commands no.commands,
          yes.multiline || no.multiline, no.queue⟩ := by
  simp only [fork_bind_eq_ok_iff, raiseIf_emit_run, Except.ok.injEq, @eq_comm _ _ e]

end Render

end EstreePrinter
