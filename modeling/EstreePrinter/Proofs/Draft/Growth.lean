import Mathlib
import EstreePrinter.Proofs.Draft.Building

/-!
# What has come behind a draft

A step that works in place puts pieces behind those that are there, and makes slots behind those
that have been made.  What these pieces come out as must not hang on anything older: `Draft.Grows`
says that they come out like some given pieces whatever the old slots hold, and whatever slots are
made later on.

* `Draft.Grows.trans` — one step after the other;
* `Draft.Grows.sealed` — slots of its own that get their contents in the end;
* `Draft.measure_of_grows` — **measuring is local**: between two indices behind the old pieces it
  sees the new ones only, and an open slot counts what a placeholder counts.
-/

namespace EstreePrinter

namespace OpenSlot

/-- A slot that has no contents yet. -/
def opened (name : String) : OpenSlot := { name }

/-- A slot that has its contents. -/
def filled (name : String) (contents : List Command) : OpenSlot :=
  { name, contents := some (contents.map .command) }

end OpenSlot

/-- A command with the width of a piece. -/
def Piece.stub : Piece → Command
  | .command c => c
  | .slot _ => .pending ""

namespace Draft

variable {d d' d'' : Draft} {slots : List OpenSlot} {like like' pieces : List Piece}

/-- All slots among pieces are among the first `n`. -/
def Bound (n : Nat) (pieces : List Piece) : Prop :=
  ∀ number, Piece.slot number ∈ pieces → number < n

@[simp] lemma bound_nil (n : Nat) : Bound n [] := by simp [Bound]

@[simp] lemma bound_cons_command (n : Nat) (c : Command) (rest : List Piece) :
    Bound n (.command c :: rest) ↔ Bound n rest := by
  simp [Bound]

@[simp] lemma bound_cons_slot (n number : Nat) (rest : List Piece) :
    Bound n (.slot number :: rest) ↔ number < n ∧ Bound n rest := by
  simp [Bound]

@[simp] lemma bound_append (n : Nat) (ps qs : List Piece) :
    Bound n (ps ++ qs) ↔ Bound n ps ∧ Bound n qs := by
  simp only [Bound, List.mem_append, or_imp, forall_and]

@[simp] lemma bound_commands (n : Nat) (commands : List Command) :
    Bound n (commands.map .command) := by
  simp [Bound]

/-- The pieces of a list hold no slot but the one between the items. -/
lemma bound_map_piece {n join : Nat} (h : join < n) (slots : List Slot) :
    Bound n (slots.map (Slot.piece join)) := by
  induction slots with
  | nil => exact bound_nil n
  | cons slot rest ih =>
      cases slot with
      | own c => simpa [Slot.piece] using ih
      | join => simpa [Slot.piece] using ⟨h, ih⟩

lemma Bound.mono {n m : Nat} (h : Bound n pieces) (hle : n ≤ m) : Bound m pieces :=
  fun number hnumber => (h number hnumber).trans_le hle

/-- Every slot in the sequence has been made. -/
def IsBound (d : Draft) : Prop := Bound d.slots.length d.pieces

/-! ## Pieces as commands -/

@[simp] lemma expand_append (slots : List OpenSlot) (depth : Nat) (ps qs : List Piece) :
    expand slots depth (ps ++ qs) = expand slots depth ps ++ expand slots depth qs := by
  cases depth with
  | zero => rfl
  | succ depth => exact List.flatMap_append

@[simp] lemma expand_commands (slots : List OpenSlot) (depth : Nat) (commands : List Command) :
    expand slots (depth + 1) (commands.map .command) = commands := by
  simp [expand, List.flatMap_map, place]

lemma expand_cons (slots : List OpenSlot) (depth : Nat) (p : Piece) (rest : List Piece) :
    expand slots (depth + 1) (p :: rest) =
      place slots (expand slots depth) p ++ expand slots (depth + 1) rest := by
  simp [expand]

lemma exists_place (slots : List OpenSlot) (inside : List Piece → List Command) {n : Nat}
    (h : n < slots.length) :
    ∃ c, place slots inside (.slot n) = [c] ∧ c.width = .ok 2 := by
  have hslot : slots[n]? = some slots[n] := List.getElem?_eq_getElem h
  rw [place, hslot]
  dsimp only
  cases slots[n].contents with
  | none => exact ⟨_, rfl, rfl⟩
  | some contents => exact ⟨_, rfl, rfl⟩

/-- Pieces whose slots have been made come out one by one, each with its own width. -/
lemma expand_of_bound (depth : Nat) (h : Bound slots.length pieces) :
    (expand slots (depth + 1) pieces).map Command.width =
      pieces.map fun p => p.stub.width := by
  induction pieces with
  | nil => simp [expand]
  | cons p rest ih =>
      rw [expand_cons, List.map_append, ih fun n hn => h n (by simp [hn]), List.map_cons]
      cases p with
      | command c => rfl
      | slot n =>
          obtain ⟨c, hc, hwidth⟩ := exists_place slots (expand slots depth) (h n (by simp))
          rw [hc, List.map_cons, hwidth]
          rfl

lemma length_expand (depth : Nat) (h : Bound slots.length pieces) :
    (expand slots (depth + 1) pieces).length = pieces.length := by
  simpa using congrArg List.length (expand_of_bound depth h)

/-- A slot that has its contents, with other slots around it. -/
lemma place_filled (old filled rest : List OpenSlot) (depth i : Nat) {name : String}
    {contents : List Command} (h : filled[i]? = some (.filled name contents)) :
    place (old ++ filled ++ rest) (expand (old ++ filled ++ rest) (depth + 1))
      (.slot (old.length + i)) = [.deferred name contents] := by
  have hi : i < filled.length := (List.getElem?_eq_some_iff.mp h).1
  have hslot : (old ++ filled ++ rest)[old.length + i]? = some (.filled name contents) := by
    rw [List.append_assoc, List.getElem?_append_right (by omega), Nat.add_sub_cancel_left,
      List.getElem?_append_left hi, h]
  rw [place, hslot]
  simp [OpenSlot.filled]

/-- The slots of a list, with the contents of what goes between the items. -/
lemma expand_map_piece {depth join : Nat} {name : String} {contents : List Command}
    (h : place slots (expand slots (depth + 1)) (.slot join) = [.deferred name contents])
    (list : List Slot) :
    expand slots (depth + 2) (list.map (Slot.piece join)) = Slot.fill name contents list := by
  induction list with
  | nil => rfl
  | cons slot rest ih =>
      rw [List.map_cons, expand_cons, ih]
      cases slot with
      | own c => rfl
      | join => rw [Slot.piece, h]; rfl

/-! ## Growing -/

/-- Pieces `new` and slots `made` have come behind a draft; the pieces come out like `like`,
whatever the slots before and behind the new ones. -/
structure Growth (d d' : Draft) (new : List Piece) (made : List OpenSlot) (like : List Piece) :
    Prop where
  pieces : d'.pieces = d.pieces ++ new
  slots : d'.slots = d.slots ++ made
  length : new.length = like.length
  bound : Bound d'.slots.length new
  bound_like : Bound d'.slots.length like
  expand : ∀ old rest depth, old.length = d.slots.length →
    expand (old ++ made ++ rest) (depth + 2) new =
      Draft.expand (old ++ made ++ rest) (depth + 2) like

/-- **Something has come behind a draft** that comes out like the pieces `like`. -/
def Grows (d d' : Draft) (like : List Piece) : Prop := ∃ new made, Growth d d' new made like

lemma Grows.slots_le (h : Grows d d' like) : d.slots.length ≤ d'.slots.length := by
  obtain ⟨new, made, h⟩ := h
  simp [h.slots]

lemma Grows.isBound (h : Grows d d' like) (hd : d.IsBound) : d'.IsBound := by
  have hle := h.slots_le
  obtain ⟨new, made, h⟩ := h
  rw [IsBound, h.pieces, bound_append]
  exact ⟨hd.mono hle, h.bound⟩

lemma Grows.length_pieces (h : Grows d d' like) :
    d'.pieces.length = d.pieces.length + like.length := by
  obtain ⟨new, made, h⟩ := h
  simp [h.pieces, h.length]

/-- Pieces are put behind what is there. -/
lemma grows_of_pieces (hpieces : d'.pieces = d.pieces ++ pieces) (hslots : d'.slots = d.slots)
    (h : Bound d.slots.length pieces) : Grows d d' pieces :=
  ⟨pieces, [],
    { pieces := hpieces
      slots := by simp [hslots]
      length := rfl
      bound := by rwa [hslots]
      bound_like := by rwa [hslots]
      expand := fun _ _ _ _ => rfl }⟩

/-- **One after the other.** -/
lemma Grows.trans (h : Grows d d' like) (h' : Grows d' d'' like') :
    Grows d d'' (like ++ like') := by
  have hle := h'.slots_le
  obtain ⟨new, made, h⟩ := h
  obtain ⟨new', made', h'⟩ := h'
  refine ⟨new ++ new', made ++ made',
    { pieces := by simp [h'.pieces, h.pieces]
      slots := by simp [h'.slots, h.slots]
      length := by simp [h.length, h'.length]
      bound := (bound_append _ _ _).mpr ⟨h.bound.mono hle, h'.bound⟩
      bound_like := (bound_append _ _ _).mpr ⟨h.bound_like.mono hle, h'.bound_like⟩
      expand := ?_ }⟩
  · intro old rest depth hold
    -- the slots made second are later ones for the first step, and the other way round
    have hfirst := h.expand old (made' ++ rest) depth hold
    have hsecond := h'.expand (old ++ made) rest depth (by simp [hold, h.slots])
    simp only [← List.append_assoc] at hfirst hsecond ⊢
    rw [expand_append, expand_append, hfirst, hsecond]

/-- **Slots of its own.**  A step that first makes slots, lets the draft grow, and gives the slots
their contents in the end. -/
lemma Grows.sealed {before after : Draft} {opened filled : List OpenSlot} {commands : List Command}
    (h : Grows before after like) (hpieces : before.pieces = d.pieces)
    (hslots : before.slots = d.slots ++ opened) (hfilled : filled.length = opened.length)
    (hlength : commands.length = like.length)
    (hcommands : ∀ old rest depth, old.length = d.slots.length →
      expand (old ++ filled ++ rest) (depth + 2) like = commands) :
    ∃ made, after.slots = d.slots ++ (opened ++ made) ∧
      ∀ last : Draft, last.pieces = after.pieces → last.slots = d.slots ++ (filled ++ made) →
        Grows d last (commands.map .command) := by
  obtain ⟨new, made, h⟩ := h
  refine ⟨made, by simp [h.slots, hslots], fun last hlast hlastslots => ⟨new, filled ++ made,
    { pieces := by rw [hlast, h.pieces, hpieces]
      slots := hlastslots
      length := by simp [h.length, hlength]
      bound := ?_
      bound_like := bound_commands _ _
      expand := ?_ }⟩⟩
  · have hsame : last.slots.length = after.slots.length := by
      simp [hlastslots, h.slots, hslots, hfilled]
    rw [hsame]
    exact h.bound
  · intro old rest depth hold
    have hnew := h.expand (old ++ filled) rest depth (by simp [hold, hslots, hfilled])
    have hlike := hcommands old (made ++ rest) depth hold
    simp only [← List.append_assoc] at hnew hlike ⊢
    rw [hnew, hlike, expand_commands]

/-! ## Measuring -/

lemma totalWidth_congr {cs ds : List Command} (h : cs.map Command.width = ds.map Command.width) :
    Command.totalWidth cs = Command.totalWidth ds := by
  induction cs generalizing ds with
  | nil =>
      obtain rfl : ds = [] := by simpa using h.symm
      rfl
  | cons c rest ih =>
      cases ds with
      | nil => simp at h
      | cons d ds =>
          simp only [List.map_cons, List.cons.injEq] at h
          rw [Command.totalWidth, Command.totalWidth, h.1, ih h.2]

/-- Measuring from an index that is not negative goes through the commands from there on. -/
lemma measureFrom_eq_totalWidth (commands : List Command) (start count : Nat)
    (h : start + count ≤ commands.length) :
    measureFrom commands start count = Command.totalWidth ((commands.drop start).take count) := by
  induction count generalizing start with
  | zero => simp [measureFrom, Command.totalWidth]
  | succ count ih =>
      have hlt : start < commands.length := by omega
      have hat : commandAt? commands start = some commands[start] := by
        simp [commandAt?, hlt]
      have hnext := ih (start + 1) (by omega)
      rw [Nat.cast_add, Nat.cast_one] at hnext
      rw [List.drop_eq_getElem_cons hlt, List.take_succ_cons, Command.totalWidth, measureFrom, hat,
        hnext]
      rfl

/-- **Measuring is local.** -/
lemma measure_of_grows (hd : d.IsBound) (h : Grows d d' like) (hslots : 0 < d'.slots.length)
    {start stop : Nat} (hle : start ≤ stop) (hstop : stop ≤ like.length) :
    d'.measure (d.pieces.length + start : Nat) (some (d.pieces.length + stop : Nat)) =
      Command.totalWidth (((like.drop start).take (stop - start)).map Piece.stub) := by
  have hmore := h.slots_le
  obtain ⟨new, made, h⟩ := h
  obtain ⟨depth, hdepth⟩ : ∃ depth, d'.slots.length + 1 = depth + 2 :=
    ⟨d'.slots.length - 1, by omega⟩
  have hnew : expand d'.slots (depth + 2) new = expand d'.slots (depth + 2) like := by
    simpa [h.slots] using h.expand d.slots [] depth rfl
  have hcommands : d'.commands = expand d'.slots (depth + 2) d.pieces ++
      expand d'.slots (depth + 2) like := by
    rw [commands, hdepth, h.pieces, expand_append, hnew]
  have hold : (expand d'.slots (depth + 2) d.pieces).length = d.pieces.length :=
    length_expand _ (hd.mono hmore)
  have hlength := length_expand (depth + 1) h.bound_like
  have hcount : (((d.pieces.length + stop : Nat) : Int) - (d.pieces.length + start : Nat)).toNat =
      stop - start := by omega
  simp only [measure, Option.getD_some, hcount, hcommands]
  rw [measureFrom_eq_totalWidth _ _ _ (by rw [List.length_append, hold, hlength]; omega)]
  refine totalWidth_congr ?_
  have hskip (tail : List Command) : (expand d'.slots (depth + 2) d.pieces ++ tail).drop
      (d.pieces.length + start) = tail.drop start := by
    rw [← hold, ← List.drop_drop, List.drop_left]
  rw [hskip, List.map_take, List.map_drop, expand_of_bound _ h.bound_like]
  simp [List.map_take, List.map_drop, Function.comp_def]

/-- The same up to the end. -/
lemma measure_to_end (hd : d.IsBound) (h : Grows d d' like) (hslots : 0 < d'.slots.length) :
    d'.measure d.pieces.length none = Command.totalWidth (like.map Piece.stub) := by
  have hlength : d'.commands.length = d.pieces.length + like.length := by
    rw [commands, length_expand _ (h.isBound hd), h.length_pieces]
  have hall := measure_of_grows hd h hslots (Nat.zero_le like.length) le_rfl
  rw [List.drop_zero, Nat.sub_zero, List.take_length, ← hlength] at hall
  exact hall

end Draft

end EstreePrinter
