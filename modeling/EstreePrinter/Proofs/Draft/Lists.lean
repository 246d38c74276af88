import Mathlib
import EstreePrinter.Proofs.Draft.Simulation

/-!
# The lists that may break, in place

For each construct that decides late: done in place it does what it does handed over.  The order of
the argument is always the same.  First the parts: they are put behind slots that are still open
(`together_items`, `together_joined`, `together_arguments`).  Then the measure, which sees just
these pieces.  Last the contents of the slots, with which the pieces come out as they would be
handed over.
-/

namespace EstreePrinter

open Json (Part)
open Draft (expand expand_append expand_cons expand_commands expand_map_piece place_filled
  bound_map_piece measure_to_end measure_of_grows totalWidth_congr)
open OpenSlot (opened filled)

/-- What is measured while slots are open has the width that it has with contents in them. -/
lemma width_fill (name : String) (contents : List Command) (join : Nat) (slots : List Slot) :
    ((slots.map (Slot.piece join)).map Piece.stub).map Command.width =
      (Slot.fill name contents slots).map Command.width := by
  induction slots with
  | nil => rfl
  | cons slot rest ih =>
      cases slot with
      | own c => simpa [Slot.fill, Slot.piece, Piece.stub] using ih
      | join => simpa [Slot.fill, Slot.piece, Piece.stub, Command.width] using ih

lemma length_fill (name : String) (contents : List Command) (slots : List Slot) :
    (Slot.fill name contents slots).length = slots.length := by
  induction slots with
  | nil => rfl
  | cons slot rest ih => cases slot <;> simp [Slot.fill, ih]

lemma map_piece_ofCommands (join : Nat) (commands : List Command) :
    (Slot.ofCommands commands).map (Slot.piece join) = commands.map .command := by
  simp [Slot.ofCommands, Slot.piece, Function.comp_def]

lemma andThen_quiet {α β : Type} (a : α) (q : List Json) (e : Emission β) :
    (⟨a, [], false, q⟩ : Emission α).andThen e = e := by
  simp [Emission.andThen]

section Items

variable {α : Type} {separator : String} {item : α → Render Unit} {place : α → Building Unit}
  {join : Nat}

/-! ## Separated lists -/

/-- What follows an item is put behind it, and no comment waits any more. -/
lemma afterItem_run (separator : String) (isLast : Bool) {r : Rendering}
    (hjoin : join < r.draft.slots.length) :
    ∃ after, Building.afterItem separator join isLast r = .ok (!r.draft.queue.isEmpty, after) ∧
      r.Grows after (((if isLast then [] else [Slot.own (.text separator)]) ++
        Building.itemGap isLast r.draft.queue).map (Slot.piece join)) false [] := by
  refine ⟨_, rfl, ⟨rfl, by simp, rfl, Draft.grows_of_pieces ?_ rfl (bound_map_piece hjoin _)⟩⟩
  cases isLast <;> simp [Slot.piece]

/-- **Over the items of a list**: the draft grows by their slots. -/
lemma together_items (hitem : ∀ a, Builds (place a) (item a)) (afterHole : Bool)
    (list : List (Option α)) {r : Rendering} (hr : r.draft.IsBound)
    (hjoin : join < r.draft.slots.length) :
    Together (fun e v after => v = e.value.2 ∧ e.commands = [] ∧ e.multiline = false ∧
        r.Grows after (e.value.1.map (Slot.piece join)) false e.queue)
      (Render.items separator item afterHole list r.setting r.draft.queue)
      (Building.items separator place join afterHole list r) := by
  induction list generalizing afterHole r with
  | nil => exact .done ⟨rfl, rfl, rfl, r.grows_refl⟩
  | cons a rest ih =>
      cases a with
      | none =>
          have hpush := r.grows_push (bound_map_piece hjoin [.own (.text separator)])
          refine (ih true (hpush.draft.isBound hr) hjoin).bindPure ?_
          rintro e v after ⟨rfl, hcommands, hmultiline, hgrows⟩
          exact ⟨rfl, hcommands, hmultiline, hpush.trans hgrows⟩
      | some a =>
          have hlead : (if afterHole then [Piece.slot join] else []) =
              (if afterHole then [Slot.join] else []).map (Slot.piece join) := by
            cases afterHole <;> rfl
          have hpush := r.grows_push (bound_map_piece hjoin (if afterHole then [.join] else []))
          rw [Render.items, Building.items, Building.push_bind, hlead]
          refine ((hitem a).fork (hpush.draft.isBound hr)).bind ?_
          rintro ⟨held, _, _, waiting⟩ v r₁ ⟨rfl, rfl, rfl, hfork⟩
          obtain rfl : r₁.draft.queue = waiting := hfork.queue
          obtain ⟨r₂, hrun, hafter⟩ := afterItem_run separator rest.isEmpty
            (hjoin.trans_le hfork.draft.slots_le)
          have hgrows := (hpush.trans hfork).trans hafter
          have hrest := ih false (hgrows.draft.isBound hr) (hjoin.trans_le hgrows.draft.slots_le)
          rw [hafter.queue, hgrows.setting] at hrest
          rw [Render.bind_of_quiet rfl, Building.bind_run, hrun, ok_bind]
          refine hrest.bind ?_
          rintro ⟨⟨slots, broken⟩, _, _, queue⟩ v after ⟨rfl, rfl, rfl, hothers⟩
          refine .done ⟨rfl, rfl, rfl, ?_⟩
          simpa [Emission.andThen, map_piece_ofCommands, Building.itemGap] using
            hgrows.trans hothers

/-- With contents in its slots a list comes out as it is handed over. -/
lemma expand_assemble {n : Nat} {old rest : List OpenSlot} (hold : old.length = n) (depth : Nat)
    (start join stop : List Command) (slots : List Slot) :
    expand (old ++ [filled "sequence-open" start, filled "sequence-join" join,
        filled "sequence-close" stop] ++ rest) (depth + 2)
      ([Piece.slot n] ++ slots.map (Slot.piece (n + 1)) ++ [Piece.slot (n + 2)]) =
        Render.assemble start join stop slots := by
  subst hold
  have hplace := place_filled old [filled "sequence-open" start, filled "sequence-join" join,
    filled "sequence-close" stop] rest depth
  have hstart : Draft.place _ _ (.slot old.length) = _ := hplace 0 rfl
  rw [expand_append, expand_append, expand_map_piece (hplace 1 rfl), expand_cons, expand_cons,
    hstart, hplace 2 rfl]
  simp [Render.assemble, expand]

lemma width_assemble (n : Nat) (slots : List Slot) :
    (([Piece.slot n] ++ slots.map (Slot.piece (n + 1)) ++ [Piece.slot (n + 2)]).map
      Piece.stub).map Command.width = (Render.assemble [] [] [] slots).map Command.width := by
  simp only [Render.assemble, List.map_append, List.map_cons, width_fill "sequence-join" []]
  rfl

/-- **A separated list.** -/
lemma builds_sequence (hitem : ∀ a, Builds (place a) (item a)) (spaces : Bool)
    (separator : String) (list : List (Option α)) :
    Builds (Building.sequence spaces separator place list)
      (Render.sequence spaces separator item list) := by
  intro r hr
  by_cases hlist : list = []
  · subst hlist
    exact .done ⟨rfl, r.grows_refl⟩
  have hempty : list.isEmpty = false := by simpa using hlist
  simp only [Building.sequence, Render.sequence, hempty, Bool.false_eq_true, if_false]
  rw [Building.index_bind, Building.defer_three, Building.push_bind]
  have hbound := Rendering.isBound_withSlots hr
    [opened "sequence-open", opened "sequence-join", opened "sequence-close"]
  have hopen := r.grows_open
    [opened "sequence-open", opened "sequence-join", opened "sequence-close"]
    ((Draft.bound_cons_slot _ r.draft.slots.length []).mpr ⟨by simp, Draft.bound_nil _⟩)
  have hjoin : r.draft.slots.length + 1 < ((r.withSlots (r.draft.slots ++ [opened "sequence-open",
      opened "sequence-join", opened "sequence-close"])).push
        [.slot r.draft.slots.length]).draft.slots.length := by
    simp
  refine Together.bind (s := r.setting) (q := r.draft.queue)
    (together_items hitem false list (hopen.draft.isBound hbound) hjoin) ?_
  rintro ⟨⟨slots, needed⟩, _, _, queue⟩ v r₁ ⟨rfl, rfl, rfl, hgrows⟩
  obtain rfl : r₁.draft.queue = queue := hgrows.queue
  simp only [andThen_quiet]
  have hmore : r.draft.slots.length + 3 ≤ r₁.draft.slots.length := by
    simpa using hgrows.draft.slots_le
  have hall := (hopen.trans hgrows).push ((Draft.bound_cons_slot r₁.draft.slots.length
    (r.draft.slots.length + 2) []).mpr ⟨by omega, Draft.bound_nil _⟩)
  rw [Building.push_bind, Render.bind_of_quiet rfl]
  refine Together.decide ?_ hall.setting fun broken => ?_
  · have hslots : 0 < (r₁.push [.slot (r.draft.slots.length + 2)]).draft.slots.length := by
      rw [Rendering.push_slots]
      omega
    exact (measure_to_end hbound hall.draft hslots).trans
      (totalWidth_congr (width_assemble _ slots))
  · obtain ⟨made, hsealed⟩ := hall.sealed
      [filled "sequence-open"
          (if broken then [.indent, .newline] else if spaces then [.text " "] else []),
        filled "sequence-join" (if broken then [.newline] else [.text " "]),
        filled "sequence-close"
          (if broken then [.dedent, .newline] else if spaces then [.text " "] else [])]
      rfl (by simp [Render.assemble, length_fill])
      fun old rest depth hold => expand_assemble hold depth _ _ _ slots
    obtain ⟨hmade, hsealed⟩ := hsealed broken
    rw [Building.raiseIf_bind, Building.resolve_three hmade]
    cases broken <;> exact .done ⟨rfl, hsealed⟩

/-! ## Declarators -/

lemma together_joined (hitem : ∀ a, Builds (place a) (item a)) (list : List α) {r : Rendering}
    (hr : r.draft.IsBound) (hjoin : join < r.draft.slots.length) :
    Together (fun e v after => v = e.value.2 ∧ e.commands = [] ∧ e.multiline = false ∧
        r.Grows after (e.value.1.map (Slot.piece join)) false e.queue)
      (Render.joined item list r.setting r.draft.queue) (Building.joined place join list r) := by
  induction list generalizing r with
  | nil => exact .done ⟨rfl, rfl, rfl, r.grows_refl⟩
  | cons a rest ih =>
      have hgap : (if rest.isEmpty then [] else [Piece.slot join]) =
          (if rest.isEmpty then [] else [Slot.join]).map (Slot.piece join) := by
        cases rest.isEmpty <;> rfl
      rw [Render.joined, Building.joined]
      refine ((hitem a).fork hr).bind ?_
      rintro ⟨held, _, _, waiting⟩ v r₁ ⟨rfl, rfl, rfl, hfork⟩
      obtain rfl : r₁.draft.queue = waiting := hfork.queue
      have hpush := r₁.grows_push (bound_map_piece (hjoin.trans_le hfork.draft.slots_le)
        (if rest.isEmpty then [] else [.join]))
      have hgrows := hfork.trans hpush
      have hrest := ih (hgrows.draft.isBound hr) (hjoin.trans_le hgrows.draft.slots_le)
      rw [hpush.queue, hgrows.setting] at hrest
      rw [Building.push_bind, hgap]
      refine hrest.bind ?_
      rintro ⟨⟨slots, broken⟩, _, _, queue⟩ v after ⟨rfl, rfl, rfl, hothers⟩
      refine .done ⟨rfl, rfl, rfl, ?_⟩
      simpa [Emission.andThen, map_piece_ofCommands] using hgrows.trans hothers

end Items

section Declarations

variable {node : Json} {inner : Inner node} {value : Part node → Building Unit}

lemma expand_assembleDeclarations {n : Nat} {old rest : List OpenSlot} (hold : old.length = n)
    (depth : Nat) (keyword : String) (start join : List Command) (slots : List Slot) :
    expand (old ++ [filled "declarations-open" start, filled "declarations-join" join] ++ rest)
      (depth + 2)
      ([Piece.command (.text keyword), Piece.slot n] ++ slots.map (Slot.piece (n + 1))) =
        Render.assembleDeclarations keyword start join slots := by
  subst hold
  have hplace := place_filled old
    [filled "declarations-open" start, filled "declarations-join" join] rest depth
  have hstart : Draft.place _ _ (.slot old.length) = _ := hplace 0 rfl
  rw [expand_append, expand_map_piece (hplace 1 rfl), expand_cons, expand_cons, hstart]
  rfl

lemma width_assembleDeclarations (keyword : String) (n : Nat) (slots : List Slot) :
    (([Piece.command (.text keyword), Piece.slot n] ++ slots.map (Slot.piece (n + 1))).map
      Piece.stub).map Command.width =
        (Render.assembleDeclarations keyword [] [] slots).map Command.width := by
  simp only [Render.assembleDeclarations, List.map_append, List.map_cons,
    width_fill "declarations-join" []]
  rfl

lemma builds_textIf (node : Json) (key word : String) :
    Builds (Building.textIf node key word) (Render.textIf node key word) := by
  refine (builds_read _).bind fun given => ?_
  cases given with
  | false => exact builds_emit []
  | true => exact builds_emit [.text word]

/-- The last steps of a declaration, once it is known whether it breaks. -/
lemma together_emitDeclarations {r r₁ : Rendering} {keyword : String} {slots : List Slot}
    {q : List Json} (several broken : Bool)
    (hall : (r.withSlots (r.draft.slots ++ [opened "declarations-open",
      opened "declarations-join"])).Grows r₁ ([Piece.command (.text keyword),
        Piece.slot r.draft.slots.length] ++ slots.map (Slot.piece (r.draft.slots.length + 1)))
          false q) :
    Together r.Does
      ((if broken = true then do
          Render.raise
          Render.emit (Render.assembleDeclarations keyword (if several then [.indent] else [])
            [.text ",", .newline] slots ++ (if several then [.dedent] else []))
        else Render.emit (Render.assembleDeclarations keyword [] [.text ", "] slots)) r.setting q)
      ((do
        Building.raiseIf broken
        Building.resolve r.draft.slots.length (if broken && several then [.indent] else [])
        Building.resolve (r.draft.slots.length + 1)
          (if broken then [.text ",", .newline] else [.text ", "])
        Building.push (if broken && several then [.command .dedent] else [])) r₁) := by
  obtain ⟨made, hsealed⟩ := hall.sealed
    [filled "declarations-open" (if broken && several then [.indent] else []),
      filled "declarations-join" (if broken then [.text ",", .newline] else [.text ", "])]
    rfl (by simp [Render.assembleDeclarations, length_fill])
    fun old rest depth hold => expand_assembleDeclarations hold depth _ _ _ slots
  obtain ⟨hmade, hsealed⟩ := hsealed broken
  rw [Building.raiseIf_bind, Building.resolve_two hmade]
  have hgrows := hsealed.push
    (Draft.bound_commands _ (if broken && several then [.dedent] else []))
  cases broken with
  | false => exact .done ⟨rfl, by simpa using hgrows⟩
  | true =>
      cases several with
      | false => exact .done ⟨rfl, by simpa using hgrows⟩
      | true => exact .done ⟨rfl, by simpa using hgrows⟩

/-- **A declaration.** -/
lemma builds_declarations (hvalue : ∀ part, Builds (value part) (inner.value part)) :
    Builds (Building.declarations node value) (Render.declarations node inner) := by
  refine (builds_read _).bind fun list => (builds_read _).bind fun declarators =>
    (builds_textIf _ _ _).bind fun _ => (builds_read _).bind fun kind => ?_
  intro r hr
  rw [Building.index_bind, Building.defer_two, Building.push_bind]
  have hbound := Rendering.isBound_withSlots hr
    [opened "declarations-open", opened "declarations-join"]
  have hopen := r.grows_open [opened "declarations-open", opened "declarations-join"]
    ((Draft.bound_cons_command _ (.text (kind.1.display ++ " ")) _).mpr
      ((Draft.bound_cons_slot _ r.draft.slots.length []).mpr ⟨by simp, Draft.bound_nil _⟩))
  have hjoin : r.draft.slots.length + 1 < ((r.withSlots (r.draft.slots ++
      [opened "declarations-open", opened "declarations-join"])).push
        [.command (.text (kind.1.display ++ " ")), .slot r.draft.slots.length]).draft.slots.length := by
    simp
  refine Together.bind (s := r.setting) (q := r.draft.queue)
    (together_joined hvalue declarators (hopen.draft.isBound hbound) hjoin) ?_
  rintro ⟨⟨slots, needed⟩, _, _, queue⟩ v r₁ ⟨rfl, rfl, rfl, hgrows⟩
  simp only [andThen_quiet]
  have hmore : r.draft.slots.length + 2 ≤ r₁.draft.slots.length := by
    simpa using hgrows.draft.slots_le
  have hall := hopen.trans hgrows
  rw [Render.bind_of_quiet rfl]
  by_cases hseveral : 1 < declarators.length
  · simp only [hseveral, decide_true, if_true]
    refine Together.decide ?_ hall.setting fun broken => together_emitDeclarations true broken hall
    exact (measure_to_end hbound hall.draft (by omega)).trans
      (totalWidth_congr (width_assembleDeclarations _ _ slots))
  · simp only [hseveral, decide_false, if_false, Bool.false_eq_true, pure_bind]
    exact together_emitDeclarations false v hall

/-! ## Arguments -/

/-- What goes between two arguments is put behind the first, and no comment waits any more. -/
lemma together_argumentGap {join : Nat} {r : Rendering} (hjoin : join < r.draft.slots.length) :
    Together (fun e v after => v = e.value.2 ∧ e.commands = [] ∧ e.multiline = false ∧
        e.queue = [] ∧ r.Grows after (e.value.1.map (Slot.piece join)) false [])
      (Rules.argumentGap r.setting r.draft.queue) (Building.argumentGap join r) := by
  rw [Rules.argumentGap, Render.bind_of_quiet rfl, Building.argumentGap, Building.takeQueue_bind]
  cases hqueue : r.draft.queue with
  | nil =>
      refine .done ⟨rfl, rfl, rfl, rfl, rfl, by simp, rfl, ?_⟩
      exact Draft.grows_of_pieces rfl rfl (bound_map_piece hjoin [.join])
  | cons comment rest =>
      rw [if_pos (by rfl), if_neg (by simp), Render.bind_of_quiet rfl]
      refine Together.read fun found => ?_
      refine .done ⟨rfl, rfl, rfl, rfl, rfl, by simp, rfl, ?_⟩
      refine Draft.grows_of_pieces ?_ rfl (bound_map_piece hjoin _)
      simp [map_piece_ofCommands, Slot.piece]

/-- **Over the arguments of a call**: the draft grows by those before the last one and what is
between them, then by the last one, which begins where it was noted. -/
lemma together_arguments (hvalue : ∀ part, Builds (value part) (inner.value part)) {join : Nat}
    (list : List (Part node)) {r : Rendering} (hr : r.draft.IsBound)
    (hjoin : join < r.draft.slots.length) :
    Together (fun e v after => v.front = e.value.frontMultiline ∧ v.last = e.value.lastMultiline ∧
        v.stop = r.draft.pieces.length + e.value.front.length ∧ e.commands = [] ∧
        e.multiline = false ∧ r.Grows after (e.value.front.map (Slot.piece join) ++
          e.value.last.map .command) false e.queue)
      (Rules.arguments inner list r.setting r.draft.queue)
      (Building.arguments value join list r) := by
  induction list generalizing r with
  | nil => exact .done ⟨rfl, rfl, rfl, rfl, rfl, r.grows_refl⟩
  | cons argument rest ih =>
      by_cases hrest : rest = []
      · subst hrest
        rw [Rules.arguments, Building.arguments, Building.index_bind]
        refine ((hvalue argument).fork hr).bind ?_
        rintro ⟨held, _, _, waiting⟩ v r₁ ⟨rfl, rfl, rfl, hfork⟩
        exact .done ⟨rfl, rfl, rfl, rfl, rfl, hfork⟩
      · rw [Rules.arguments.eq_3 _ _ _ hrest, Building.arguments.eq_3 _ _ _ _ hrest]
        refine ((hvalue argument).fork hr).bind ?_
        rintro ⟨held, _, _, waiting⟩ v r₁ ⟨rfl, rfl, rfl, hfork⟩
        obtain rfl : r₁.draft.queue = waiting := hfork.queue
        have hgap := together_argumentGap (hjoin.trans_le hfork.draft.slots_le)
        rw [hfork.setting] at hgap
        refine hgap.bind ?_
        rintro ⟨⟨gap, line⟩, _, _, _⟩ v r₂ ⟨rfl, rfl, rfl, rfl, hbetween⟩
        have hgrows := hfork.trans hbetween
        have hothers := ih (hgrows.draft.isBound hr) (hjoin.trans_le hgrows.draft.slots_le)
        rw [hbetween.queue, hgrows.setting] at hothers
        refine hothers.bind ?_
        rintro ⟨⟨front, frontMultiline, last, lastMultiline⟩, _, _, queue⟩ v after
          ⟨rfl, rfl, hstop, rfl, rfl, hothers⟩
        refine .done ⟨rfl, rfl, ?_, rfl, rfl, ?_⟩
        · simp [Emission.andThen, hstop, hgrows.draft.length_pieces, Slot.ofCommands]
          omega
        · simpa [Emission.andThen, map_piece_ofCommands] using hgrows.trans hothers

lemma expand_argumentList {n : Nat} {old rest : List OpenSlot} (hold : old.length = n)
    (depth : Nat) (start join stop : List Command) (args : Rules.Arguments) :
    expand (old ++ [filled "arguments-open" start, filled "arguments-join" join,
        filled "arguments-close" stop] ++ rest) (depth + 2)
      ([Piece.command (.text "("), Piece.slot n] ++ (args.front.map (Slot.piece (n + 1)) ++
        args.last.map Piece.command) ++ [Piece.slot (n + 2), Piece.command (.text ")")]) =
      Rules.argumentList args start join stop := by
  subst hold
  have hplace := place_filled old [filled "arguments-open" start, filled "arguments-join" join,
    filled "arguments-close" stop] rest depth
  have hstart : Draft.place _ _ (.slot old.length) = _ := hplace 0 rfl
  rw [expand_append, expand_append, expand_append, expand_map_piece (hplace 1 rfl),
    expand_commands, expand_cons, expand_cons, expand_cons, expand_cons, hstart, hplace 2 rfl]
  simp [Rules.argumentList, expand, Draft.place]

/-- **The arguments of a call.** -/
lemma builds_callArguments (hvalue : ∀ part, Builds (value part) (inner.value part)) :
    Builds (Building.callArguments value) (Rules.callArguments inner) := by
  refine (builds_read _).bind fun list => (builds_read _).bind fun parts => ?_
  intro r hr
  rw [Building.defer_three, Building.push_bind, Building.index_bind]
  have hbound := Rendering.isBound_withSlots hr
    [opened "arguments-open", opened "arguments-join", opened "arguments-close"]
  have hopen := r.grows_open
    [opened "arguments-open", opened "arguments-join", opened "arguments-close"]
    ((Draft.bound_cons_command _ (.text "(") _).mpr
      ((Draft.bound_cons_slot _ r.draft.slots.length []).mpr ⟨by simp, Draft.bound_nil _⟩))
  have hjoin : r.draft.slots.length + 1 < ((r.withSlots (r.draft.slots ++ [opened "arguments-open",
      opened "arguments-join", opened "arguments-close"])).push
        [.command (.text "("), .slot r.draft.slots.length]).draft.slots.length := by
    simp
  refine Together.bind (s := r.setting) (q := r.draft.queue)
    (together_arguments hvalue parts (hopen.draft.isBound hbound) hjoin) ?_
  rintro ⟨args, _, _, queue⟩ ⟨front, last, stop⟩ r₁ ⟨rfl, rfl, rfl, rfl, rfl, hgrows⟩
  simp only [andThen_quiet]
  have hmore : r.draft.slots.length + 3 ≤ r₁.draft.slots.length := by
    simpa using hgrows.draft.slots_le
  have hall := (hopen.trans hgrows).push ((Draft.bound_cons_slot r₁.draft.slots.length
    (r.draft.slots.length + 2) [.command (.text ")")]).mpr ⟨by omega, by simp⟩)
  rw [Building.push_bind, Render.bind_of_quiet rfl]
  refine Together.decide ?_ hall.setting fun broken => ?_
  · have hfront := measure_of_grows hbound hall.draft (by rw [Rendering.push_slots]; omega)
      (Nat.le_add_right 2 args.front.length) (by simp; omega)
    have hpieces : (r.withSlots (r.draft.slots ++ [opened "arguments-open",
        opened "arguments-join", opened "arguments-close"])).draft.pieces = r.draft.pieces := rfl
    simp only [Rendering.push_pieces, hpieces, List.length_append, List.length_cons,
      List.length_nil, Nat.zero_add, Nat.reduceAdd, Option.map_some, Int.ofNat_eq_natCast] at hfront ⊢
    rw [Nat.add_assoc, hfront]
    refine totalWidth_congr ?_
    simp [← width_fill "arguments-join" [] (r.draft.slots.length + 1)]
  · obtain ⟨made, hsealed⟩ := hall.sealed
      [filled "arguments-open" (if broken then [.indent, .newline] else []),
        filled "arguments-join" (if broken then [.text ",", .newline] else [.text ", "]),
        filled "arguments-close" (if broken then [.dedent, .newline] else [])]
      rfl (by simp [Rules.argumentList, length_fill])
      fun old rest depth hold => expand_argumentList hold depth _ _ _ args
    obtain ⟨hmade, hsealed⟩ := hsealed (broken || args.lastMultiline)
    rw [Building.raiseIf_bind, Building.resolve_three hmade]
    cases broken <;> exact .done ⟨rfl, by simpa using hsealed⟩

end Declarations

/-! ## Branches -/

lemma expand_branches {n : Nat} {old rest : List OpenSlot} (hold : old.length = n) (depth : Nat)
    (start between yes no : List Command) :
    expand (old ++ [filled "conditional-consequent" start,
        filled "conditional-alternate" between] ++ rest) (depth + 2)
      ([Piece.slot n] ++ yes.map Piece.command ++ [Piece.slot (n + 1)] ++
        no.map Piece.command) =
      .deferred "conditional-consequent" start :: yes ++
        .deferred "conditional-alternate" between :: no := by
  subst hold
  have hplace := place_filled old [filled "conditional-consequent" start,
    filled "conditional-alternate" between] rest depth
  have hstart : Draft.place _ _ (.slot old.length) = _ := hplace 0 rfl
  rw [expand_append, expand_append, expand_append, expand_commands, expand_commands, expand_cons,
    expand_cons, hstart, hplace 1 rfl]
  simp [expand]

/-- **The branches of a conditional expression.** -/
lemma builds_branches {x y : Render Unit} {b c : Building Unit} (hx : Builds b x)
    (hy : Builds c y) :
    Builds (Building.branches b c) (do
      let yes ← Render.fork x
      let no ← Render.fork y
      Render.raiseIf (yes.multiline || no.multiline)
      Render.emit (Rules.branches (yes.multiline || no.multiline) yes.commands no.commands)) := by
  intro r hr
  rw [Building.branches, Building.defer_two, Building.push_bind]
  have hbound := Rendering.isBound_withSlots hr
    [opened "conditional-consequent", opened "conditional-alternate"]
  have hopen := r.grows_open [opened "conditional-consequent", opened "conditional-alternate"]
    ((Draft.bound_cons_slot _ r.draft.slots.length []).mpr ⟨by simp, Draft.bound_nil _⟩)
  refine Together.bind (s := r.setting) (q := r.draft.queue)
    (hx.fork (hopen.draft.isBound hbound)) ?_
  rintro ⟨yes, _, _, queue⟩ v r₁ ⟨rfl, rfl, rfl, hyes⟩
  obtain rfl : r₁.draft.queue = queue := hyes.queue
  have hmore : r.draft.slots.length + 2 ≤ r₁.draft.slots.length := by
    simpa using hyes.draft.slots_le
  have hfirst := (hopen.trans hyes).push ((Draft.bound_cons_slot r₁.draft.slots.length
    (r.draft.slots.length + 1) []).mpr ⟨by omega, Draft.bound_nil _⟩)
  have hsecond := hy.fork (hfirst.draft.isBound hbound)
  rw [Rendering.push_queue, hfirst.setting] at hsecond
  rw [Building.push_bind]
  refine hsecond.bind ?_
  rintro ⟨no, _, _, queue⟩ v r₂ ⟨rfl, rfl, rfl, hno⟩
  simp only [andThen_quiet]
  generalize hbroken : (yes.multiline || no.multiline) = broken
  obtain ⟨made, hsealed⟩ := (hfirst.trans hno).sealed
    [filled "conditional-consequent"
        (if broken then [.indent, .newline, .text "? "] else [.text " ? "]),
      filled "conditional-alternate" (if broken then [.newline, .text ": "] else [.text " : "])]
    rfl (by simp) fun old rest depth hold => expand_branches hold depth _ _ _ _
  obtain ⟨hmade, hsealed⟩ := hsealed broken
  rw [Building.raiseIf_bind, Building.resolve_two hmade]
  have hall := hsealed.push (Draft.bound_commands _ (if broken then [.dedent] else []))
  cases broken <;> exact .done ⟨rfl, by simpa [Rules.branches] using hall⟩

/-! ## Statements -/

lemma builds_drain : Builds Building.drain Render.drainAfterStatement :=
  builds_takeQueue.bind fun _ => (builds_read _).bind fun commands => builds_emit commands

/-- The slot before a statement, if there is a statement before that, with its contents or without.
-/
def marginSlots (slot : OpenSlot) (before : Option Render.Printed) : List OpenSlot :=
  match before with
  | none => []
  | some _ => [slot]

/-- What is put before a statement, if there is a statement before that. -/
def marginPieces (number : Nat) (before : Option Render.Printed) : List Piece :=
  match before with
  | none => []
  | some _ => [.slot number, .command .newline]

/-- The contents of the slot before a statement. -/
def marginContents (before : Option Render.Printed) (here : Render.Printed) : List Command :=
  match before with
  | none => []
  | some before => if Render.separates before here then [.text "\n"] else []

lemma openMargin_run (before : Option Render.Printed) (r : Rendering) :
    ∃ number, Building.openMargin before r = .ok (number,
        (r.withSlots (r.draft.slots ++ marginSlots (opened "margin") before)).push
          (marginPieces r.draft.slots.length before)) ∧
      ∀ (here : Render.Printed) (after : Rendering) (made : List OpenSlot),
        after.draft.slots = r.draft.slots ++ (marginSlots (opened "margin") before ++ made) →
        Building.closeMargin number before here after = .ok ((), after.withSlots (r.draft.slots ++
          (marginSlots (filled "margin" (marginContents before here)) before ++ made))) := by
  cases before with
  | none =>
      refine ⟨0, ?_, fun here after made h => ?_⟩
      · simp [marginSlots, marginPieces]
        rfl
      · have hsame : r.draft.slots ++ ([] ++ made) = after.draft.slots := h.symm
        rw [marginSlots, hsame, Rendering.withSlots_self]
        rfl
  | some before =>
      exact ⟨r.draft.slots.length, rfl, fun here after made h =>
        Building.resolve_run r.draft.slots "margin" made h rfl _⟩

lemma bound_marginPieces (n : Nat) (before : Option Render.Printed) :
    Draft.Bound (n + (marginSlots (opened "margin") before).length) (marginPieces n before) := by
  cases before <;> simp [marginSlots, marginPieces]

lemma length_margin (n : Nat) (before : Option Render.Printed) (here : Render.Printed)
    (commands : List Command) : (Render.margin before here ++ commands).length =
      (marginPieces n before ++ commands.map Piece.command).length := by
  cases before <;> simp [Render.margin, marginPieces]

/-- With contents in its slot the room before a statement is as it is handed over. -/
lemma expand_margin {n : Nat} {old rest : List OpenSlot} (hold : old.length = n) (depth : Nat)
    (before : Option Render.Printed) (here : Render.Printed) (commands : List Command) :
    expand (old ++ marginSlots (filled "margin" (marginContents before here)) before ++ rest)
      (depth + 2) (marginPieces n before ++ commands.map .command) =
        Render.margin before here ++ commands := by
  subst hold
  rw [expand_append, expand_commands]
  congr 1
  cases before with
  | none => rfl
  | some before =>
      have hstart : Draft.place _ _ (.slot old.length) = _ := place_filled old
        [filled "margin" (marginContents (some before) here)] rest depth 0 rfl
      rw [marginSlots, marginPieces, expand_cons, hstart]
      rfl

/-- **Over statements**: the room before each of them is decided about once it is rendered. -/
lemma builds_bodyAfter {node : Json} {inner : Inner node} {bare : Part node → Building Unit}
    (hbare : ∀ part, Builds (bare part) (inner.bare part)) (before : Option Render.Printed)
    (statements : List (Part node)) :
    Builds (Building.bodyAfter bare before statements)
      (Render.bodyAfter inner before statements) := by
  induction statements generalizing before with
  | nil => exact fun r _ => .done ⟨rfl, r.grows_refl⟩
  | cons statement rest ih =>
      refine (builds_read _).bind fun kind => ?_
      by_cases hempty : kind.isText "EmptyStatement" = true
      · rw [if_pos hempty, if_pos hempty]
        exact ih before
      · rw [if_neg hempty, if_neg hempty]
        intro r hr
        obtain ⟨number, hnumber, hmargin⟩ := openMargin_run before r
        rw [Building.bind_run, hnumber, ok_bind]
        refine Together.read fun list => ?_
        refine Together.read fun comments => ?_
        have hbound := Rendering.isBound_withSlots hr (marginSlots (opened "margin") before)
        have hopen := (r.grows_open (marginSlots (opened "margin") before)
          (bound_marginPieces _ before)).push (Draft.bound_commands _ comments)
        rw [Building.push_bind]
        refine Together.bind (s := r.setting) (q := r.draft.queue)
          ((hbare statement).fork (hopen.draft.isBound hbound)) ?_
        rintro ⟨held, _, _, queue⟩ v r₁ ⟨rfl, rfl, rfl, hgrows⟩
        simp only [andThen_quiet]
        have hall := hopen.trans hgrows
        rw [List.append_assoc, ← List.map_append] at hall
        obtain ⟨made, hsealed⟩ := hall.sealed
          (marginSlots (filled "margin" (marginContents before ⟨kind.display, held.multiline⟩)) before)
          (by cases before <;> rfl) (length_margin _ before ⟨kind.display, held.multiline⟩ _)
          fun old rest depth hold => expand_margin hold depth before _ _
        obtain ⟨hmade, hsealed⟩ := hsealed false
        rw [Rendering.raise_false] at hmade hsealed
        refine Together.andThen hr ?_ fun _ => builds_drain.bind fun _ => ih _
        rw [hmargin _ r₁ made hmade]
        exact .done ⟨rfl, by simpa using hsealed⟩

/-! ## The simulation -/

lemma Builds.withNoIn {α : Type} {b : Building α} {x : Render α} (h : Builds b x) (noIn : Bool) :
    Builds (Building.withNoIn noIn b) (Render.withNoIn noIn x) := by
  intro r hr
  have hx := h { r with setting := { r.setting with noIn } } hr
  unfold Render.withNoIn Building.withNoIn
  dsimp only at hx ⊢
  generalize x { r.setting with noIn } r.draft.queue = left at hx ⊢
  generalize b { r with setting := { r.setting with noIn } } = right at hx ⊢
  cases hx with
  | fault fault => exact .fault fault
  | done h =>
      obtain ⟨hvalue, hgrows⟩ := h
      exact .done ⟨hvalue, rfl, hgrows.multiline, hgrows.queue, hgrows.draft⟩

/-- **What is done in place comes to the same as what is handed over.** -/
theorem InPlace.builds {α : Type} {x : Render α} {b : Building α} (h : InPlace x b) :
    Builds b x := by
  induction h with
  | pure a => exact fun r _ => .done ⟨rfl, r.grows_refl⟩
  | bind _ _ hx hf => exact hx.bind hf
  | read x => exact builds_read x
  | setting => exact fun r _ => .done ⟨rfl, r.grows_refl⟩
  | withNoIn noIn _ hx => exact hx.withNoIn noIn
  | emit _ => exact builds_emit _
  | raiseIf b => exact fun r _ => .done ⟨rfl, rfl, rfl, rfl, r.grows_refl.draft⟩
  | enqueue comment => exact fun r _ => .done ⟨rfl, rfl, by simp, rfl,
      Draft.grows_of_pieces (by simp [Draft.enqueue]) rfl (Draft.bound_nil _)⟩
  | takeQueue => exact builds_takeQueue
  | sequence spaces separator list _ hitem => exact builds_sequence hitem spaces separator list
  | body statements _ hbare => exact builds_bodyAfter hbare none statements
  | declarations _ hvalue => exact builds_declarations hvalue
  | arguments _ hvalue => exact builds_callArguments hvalue
  | branches _ _ hx hy => exact builds_branches hx hy

end EstreePrinter
