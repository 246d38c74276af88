import Mathlib
import EstreePrinter.Proofs.Command.Flattening
import EstreePrinter.Proofs.Draft.Growth

/-!
# Walking through slots that are shared

A slot may occur many times in a draft, in the sequence and inside of other slots, and each
occurrence is walked through anew.  That ends if no slot contains itself, and this file says what
comes out of it.

**By recursion.**  `Draft.Traverses` lists the pieces that one comes to, each placeholder before
what is inside of it.  `Draft.Unfolds` is the same recursion with the tree of commands as its
result.

**With a stack.**  `Draft.loop` keeps the lists still to be gone through on a stack and takes one
piece at a time.  What is on the stack is the recursive work that is left
(`exists_loop_iff`): the loop ends exactly when the recursion does, and takes the same pieces.

**Acyclic drafts.**  On the way down from the sequence no slot is met twice, so the way is no longer
than there are slots (`unfolds_expand`), and `Draft.commands`, which goes down just so far, has lost
nothing.

* `walks_agree` — the walks over the commands of an acyclic draft give the leaves and the
  placeholders in the order of the recursion, and the check names the first slot that is still open.
-/

namespace EstreePrinter

namespace Command

/-- Whether a command is a placeholder. -/
def isPlaceholder (c : Command) : Bool := c.placeholderName?.isSome

mutual

/-- A command and all that is inside of it, each placeholder before its contents. -/
def entries : Command → List Command
  | .deferred name contents => .deferred name contents :: entriesAll contents
  | c => [c]

/-- The commands of a sequence and all that is inside of them. -/
def entriesAll : List Command → List Command
  | [] => []
  | c :: rest => entries c ++ entriesAll rest

end

mutual

lemma leaves_eq_filter (c : Command) : leaves c = (entries c).filter fun c => !c.isPlaceholder := by
  cases c with
  | deferred name contents =>
      rw [leaves, entries, List.filter_cons_of_neg (by simp [isPlaceholder, placeholderName?]),
        leavesAll_eq_filter contents]
  | _ => rfl

/-- The leaves are what is no placeholder. -/
lemma leavesAll_eq_filter (commands : List Command) :
    leavesAll commands = (entriesAll commands).filter fun c => !c.isPlaceholder := by
  cases commands with
  | nil => rfl
  | cons c rest =>
      rw [leavesAll, entriesAll, List.filter_append, leaves_eq_filter c, leavesAll_eq_filter rest]

end

mutual

lemma placeholders_eq_filter (c : Command) : placeholders c = (entries c).filter isPlaceholder := by
  cases c with
  | deferred name contents =>
      rw [placeholders, entries,
        List.filter_cons_of_pos (by simp [isPlaceholder, placeholderName?]),
        placeholdersAll_eq_filter contents]
  | _ => rfl

lemma placeholdersAll_eq_filter (commands : List Command) :
    placeholdersAll commands = (entriesAll commands).filter isPlaceholder := by
  cases commands with
  | nil => rfl
  | cons c rest =>
      rw [placeholdersAll, entriesAll, List.filter_append, placeholders_eq_filter c,
        placeholdersAll_eq_filter rest]

end

end Command

namespace Piece

/-- Whether a piece is a placeholder. -/
def isPlaceholder : Piece → Bool
  | .command c => c.isPlaceholder
  | .slot _ => true

/-- The command that a piece prints, if it is no placeholder. -/
def leaf? : Piece → Option Command
  | .command c => if c.isPlaceholder then none else some c
  | .slot _ => none

/-- What is inside of a placeholder.  There is nothing in one without contents. -/
def inside? (slots : List OpenSlot) : Piece → Option (List Piece)
  | .command (.deferred _ contents) => some (contents.map .command)
  | .command (.pending _) => some []
  | .command _ => none
  | .slot number => some ((slots[number]?.bind OpenSlot.contents).getD [])

/-- The name of a placeholder without contents. -/
def openName? (slots : List OpenSlot) : Piece → Option String
  | .command c => c.pendingName?
  | .slot number => slots[number]?.bind fun slot =>
    if slot.contents.isNone then some slot.name else none

end Piece

namespace Draft

variable {slots : List OpenSlot} {pieces : List Piece} {commands : List Command}

/-! ## By recursion -/

/-- The pieces that one comes to when going through `pieces`, in order, each placeholder before what
is inside of it. -/
inductive Traverses (slots : List OpenSlot) : List Piece → List Piece → Prop
  | nil : Traverses slots [] []
  | leaf {p : Piece} {rest trace : List Piece} (h : p.inside? slots = none)
      (hrest : Traverses slots rest trace) : Traverses slots (p :: rest) (p :: trace)
  | placeholder {p : Piece} {contents inner rest trace : List Piece}
      (h : p.inside? slots = some contents) (hcontents : Traverses slots contents inner)
      (hrest : Traverses slots rest trace) : Traverses slots (p :: rest) (p :: (inner ++ trace))

/-- Pieces as commands, each slot with its contents, as often as it occurs. -/
inductive Unfolds (slots : List OpenSlot) : List Piece → List Command → Prop
  | nil : Unfolds slots [] []
  | command (c : Command) {rest : List Piece} {commands : List Command}
      (hrest : Unfolds slots rest commands) : Unfolds slots (.command c :: rest) (c :: commands)
  | filled {number : Nat} {name : String} {contents rest : List Piece}
      {inner commands : List Command} (h : slots[number]? = some ⟨name, some contents⟩)
      (hcontents : Unfolds slots contents inner) (hrest : Unfolds slots rest commands) :
      Unfolds slots (.slot number :: rest) (.deferred name inner :: commands)
  | opened {number : Nat} {name : String} {rest : List Piece} {commands : List Command}
      (h : slots[number]? = some ⟨name, none⟩) (hrest : Unfolds slots rest commands) :
      Unfolds slots (.slot number :: rest) (.pending name :: commands)

/-- A piece that comes out as a command. -/
def Shows (slots : List OpenSlot) (p : Piece) (c : Command) : Prop := Unfolds slots [p] [c]

/-! ## With a stack -/

/-- The pieces that are taken from the lists on a stack, the innermost list first; nothing if that
has not come to its end after some turns. -/
def loop (slots : List OpenSlot) : Nat → List (List Piece) → Option (List Piece)
  | _, [] => some []
  | 0, _ :: _ => none
  | turns + 1, [] :: outer => loop slots turns outer
  | turns + 1, (p :: rest) :: outer =>
    match p.inside? slots with
    | some contents => (loop slots turns (contents :: rest :: outer)).map (p :: ·)
    | none => (loop slots turns (rest :: outer)).map (p :: ·)

/-- **What is on the stack is the recursive work that is left.** -/
lemma exists_traces_of_loop {turns : Nat} {stack : List (List Piece)} {trace : List Piece}
    (h : loop slots turns stack = some trace) :
    ∃ traces, List.Forall₂ (Traverses slots) stack traces ∧ trace = traces.flatten := by
  fun_induction loop slots turns stack generalizing trace with
  | case1 =>
      obtain rfl : [] = trace := Option.some.inj h
      exact ⟨[], .nil, rfl⟩
  | case2 => cases h
  | case3 turns outer ih =>
      obtain ⟨traces, htraces, rfl⟩ := ih h
      exact ⟨[] :: traces, .cons .nil htraces, rfl⟩
  | case4 turns p rest outer contents hp ih =>
      obtain ⟨taken, htaken, rfl⟩ := Option.map_eq_some_iff.mp h
      obtain ⟨traces, htraces, rfl⟩ := ih htaken
      cases htraces with
      | @cons _ inner _ traces hinner hbehind =>
          cases hbehind with
          | @cons _ after _ traces hafter houter =>
              refine ⟨(p :: (inner ++ after)) :: traces,
                .cons (.placeholder hp hinner hafter) houter, ?_⟩
              simp
  | case5 turns p rest outer hp ih =>
      obtain ⟨taken, htaken, rfl⟩ := Option.map_eq_some_iff.mp h
      obtain ⟨traces, htraces, rfl⟩ := ih htaken
      cases htraces with
      | @cons _ after _ traces hafter houter =>
          exact ⟨(p :: after) :: traces, .cons (.leaf hp hafter) houter, rfl⟩

/-- A list that can be gone through is gone through in some turns, and then the rest of the stack is
where it was. -/
lemma Traverses.exists_turns {trace : List Piece} (h : Traverses slots pieces trace) :
    ∃ turns, ∀ (outer : List (List Piece)) (more : Nat) (taken : List Piece),
      loop slots more outer = some taken →
        loop slots (turns + more) (pieces :: outer) = some (trace ++ taken) := by
  induction h with
  | nil =>
      refine ⟨1, fun outer more taken h => ?_⟩
      rw [Nat.add_comm, loop]
      exact h
  | leaf h hrest ih =>
      obtain ⟨turns, hturns⟩ := ih
      refine ⟨turns + 1, fun outer more taken htaken => ?_⟩
      rw [Nat.add_right_comm, loop, h]
      simp [hturns outer more taken htaken]
  | placeholder h hcontents hrest ihcontents ihrest =>
      obtain ⟨turns, hturns⟩ := ihcontents
      obtain ⟨turns', hturns'⟩ := ihrest
      refine ⟨turns + turns' + 1, fun outer more taken htaken => ?_⟩
      have hinside := hturns _ _ _ (hturns' outer more taken htaken)
      rw [Nat.add_right_comm, loop, h, Nat.add_assoc]
      simp [hinside]

/-- **The loop and the recursion agree**: one comes to its end exactly when the other does, and with
the same pieces. -/
lemma exists_loop_iff {trace : List Piece} :
    (∃ turns, loop slots turns [pieces] = some trace) ↔ Traverses slots pieces trace := by
  constructor
  · rintro ⟨turns, h⟩
    obtain ⟨traces, htraces, rfl⟩ := exists_traces_of_loop h
    obtain ⟨trace, traces, htrace, hnone, rfl⟩ := List.forall₂_cons_left_iff.mp htraces
    obtain rfl := List.forall₂_nil_left_iff.mp hnone
    simpa using htrace
  · intro h
    obtain ⟨turns, hturns⟩ := h.exists_turns
    refine ⟨turns, ?_⟩
    simpa using hturns [] 0 [] rfl

lemma Traverses.unique {trace trace' : List Piece} (h : Traverses slots pieces trace)
    (h' : Traverses slots pieces trace') : trace' = trace := by
  induction h generalizing trace' with
  | nil => cases h'; rfl
  | leaf hp hrest ih =>
      cases h' with
      | leaf _ hrest' => rw [ih hrest']
      | placeholder hp' => rw [hp] at hp'; cases hp'
  | placeholder hp hcontents hrest ihcontents ihrest =>
      cases h' with
      | leaf hp' => rw [hp] at hp'; cases hp'
      | placeholder hp' hcontents' hrest' =>
          obtain rfl := Option.some.inj (hp.symm.trans hp')
          rw [ihcontents hcontents', ihrest hrest']

/-! ## What the commands show of the pieces -/

lemma Traverses.append {trace more more' : List Piece} (h : Traverses slots pieces trace)
    (h' : Traverses slots more more') : Traverses slots (pieces ++ more) (trace ++ more') := by
  induction h with
  | nil => exact h'
  | leaf hp _ ih => exact .leaf hp ih
  | placeholder hp hcontents _ _ ih =>
      rw [List.cons_append, List.cons_append, List.append_assoc]
      exact .placeholder hp hcontents ih

mutual

lemma traverses_command (slots : List OpenSlot) (c : Command) :
    Traverses slots [.command c] (c.entries.map .command) := by
  cases c with
  | deferred name contents =>
      have hcontents := traverses_commands slots contents
      simpa [Command.entries] using
        Traverses.placeholder (p := .command (.deferred name contents)) rfl hcontents .nil
  | pending name =>
      have hnone : Traverses slots [] [] := .nil
      exact .placeholder rfl hnone hnone
  | _ => exact .leaf rfl .nil

lemma traverses_commands (slots : List OpenSlot) (commands : List Command) :
    Traverses slots (commands.map .command) ((Command.entriesAll commands).map .command) := by
  cases commands with
  | nil => exact .nil
  | cons c rest =>
      have h := (traverses_command slots c).append (traverses_commands slots rest)
      simpa [Command.entriesAll] using h

end

lemma forall₂_shows_command (slots : List OpenSlot) (commands : List Command) :
    List.Forall₂ (Shows slots) (commands.map .command) commands := by
  induction commands with
  | nil => exact .nil
  | cons c rest ih => exact .cons (.command c .nil) ih

/-- **Going through the pieces is going through the commands they come out as.** -/
lemma Unfolds.exists_traverses (h : Unfolds slots pieces commands) : ∃ trace,
    Traverses slots pieces trace ∧
      List.Forall₂ (Shows slots) trace (Command.entriesAll commands) := by
  induction h with
  | nil => exact ⟨[], .nil, .nil⟩
  | command c hrest ih =>
      obtain ⟨trace, htrace, hshows⟩ := ih
      refine ⟨c.entries.map Piece.command ++ trace, (traverses_command slots c).append htrace, ?_⟩
      exact List.rel_append (forall₂_shows_command _ c.entries) hshows
  | filled h hcontents hrest ihcontents ihrest =>
      obtain ⟨inner, hinner, hshowsInner⟩ := ihcontents
      obtain ⟨trace, htrace, hshows⟩ := ihrest
      refine ⟨_, .placeholder (by rw [Piece.inside?, h]; rfl) hinner htrace, ?_⟩
      exact .cons (.filled h hcontents .nil) (List.rel_append hshowsInner hshows)
  | @opened number name rest commands h hrest ih =>
      obtain ⟨trace, htrace, hshows⟩ := ih
      have hinside : Piece.inside? slots (.slot number) = some [] := by rw [Piece.inside?, h]; rfl
      refine ⟨_, .placeholder hinside .nil htrace, ?_⟩
      exact .cons (.opened h .nil) hshows

lemma Shows.isPlaceholder {p : Piece} {c : Command} (h : Shows slots p c) :
    p.isPlaceholder = c.isPlaceholder := by
  cases h <;> rfl

lemma Shows.leaf? {p : Piece} {c : Command} (h : Shows slots p c) :
    p.leaf? = if c.isPlaceholder then none else some c := by
  cases h <;> rfl

lemma Shows.openName? {p : Piece} {c : Command} (h : Shows slots p c) :
    p.openName? slots = c.pendingName? := by
  cases h with
  | command c => rfl
  | filled h => rw [Piece.openName?, h]; rfl
  | opened h => rw [Piece.openName?, h]; rfl

lemma filterMap_leaf? {trace : List Piece} (h : List.Forall₂ (Shows slots) trace commands) :
    trace.filterMap Piece.leaf? = commands.filter fun c => !c.isPlaceholder := by
  induction h with
  | nil => rfl
  | @cons p c trace commands hshows _ ih =>
      rw [List.filterMap_cons, List.filter_cons, hshows.leaf?, ih]
      cases c.isPlaceholder <;> rfl

lemma forall₂_filter_isPlaceholder {trace : List Piece}
    (h : List.Forall₂ (Shows slots) trace commands) :
    List.Forall₂ (Shows slots) (trace.filter Piece.isPlaceholder)
      (commands.filter Command.isPlaceholder) :=
  List.rel_filter (fun _ _ hshows => by simp [hshows.isPlaceholder]) h

/-- The first open slot that one comes to is the first placeholder without contents. -/
lemma findSome?_openName? {trace : List Piece} (h : List.Forall₂ (Shows slots) trace commands) :
    trace.findSome? (Piece.openName? slots) =
      (commands.filter Command.isPlaceholder).findSome? Command.pendingName? := by
  induction h with
  | nil => rfl
  | @cons p c trace commands hshows _ ih =>
      rw [List.findSome?_cons, hshows.openName?, ih]
      by_cases hc : c.isPlaceholder = true
      · rw [List.filter_cons_of_pos hc, List.findSome?_cons]
      · have hnone : c.pendingName? = none := by
          cases c with
          | deferred name contents => rfl
          | pending name => exact absurd rfl hc
          | _ => rfl
        rw [List.filter_cons_of_neg hc, hnone]

lemma checkResolved_eq {trace : List Piece}
    (h : List.Forall₂ (Shows slots) trace (Command.entriesAll commands)) :
    Command.checkResolved commands = (trace.findSome? (Piece.openName? slots)).elim (.ok ())
      fun name => .error (.neverResolved name) := by
  have hvisit : Command.visit [commands] =
      (Command.entriesAll commands).filter Command.isPlaceholder := by
    rw [Command.visit_eq, List.flatMap_singleton, Command.placeholdersAll_eq_filter]
  rw [Command.checkResolved, hvisit, findSome?_openName? h]
  cases ((Command.entriesAll commands).filter Command.isPlaceholder).findSome?
    Command.pendingName? <;> rfl

/-! ## Acyclic drafts -/

/-- A piece that is right inside of another one. -/
def Holds (slots : List OpenSlot) (p q : Piece) : Prop :=
  ∃ contents, p.inside? slots = some contents ∧ q ∈ contents

/-- A piece that is in the sequence, or inside of one that is, at any depth. -/
def Reaches (d : Draft) (q : Piece) : Prop :=
  ∃ p ∈ d.pieces, Relation.ReflTransGen (Holds d.slots) p q

/-- Every slot that is reached has been made, and none contains itself. -/
structure IsAcyclic (d : Draft) : Prop where
  made : ∀ number, d.Reaches (.slot number) → number < d.slots.length
  acyclic : ∀ number, d.Reaches (.slot number) →
    ¬ Relation.TransGen (Holds d.slots) (.slot number) (.slot number)

/-- **Going down is never longer than there are slots.**  The slots on the way are all different:
one that were met again would contain itself.  So the induction is on the depth that is left, with
the slots on the way as the set that grows. -/
lemma unfolds_expand (depth : Nat) (way : Finset Nat) (hway : way ⊆ Finset.range slots.length)
    (hdepth : slots.length < way.card + depth)
    (h : ∀ p ∈ pieces, ∀ number, Relation.ReflTransGen (Holds slots) p (.slot number) →
      number < slots.length ∧ number ∉ way ∧
        ¬ Relation.TransGen (Holds slots) (.slot number) (.slot number)) :
    Unfolds slots pieces (expand slots depth pieces) := by
  induction depth generalizing way pieces with
  | zero =>
      have hcard := Finset.card_le_card hway
      rw [Finset.card_range] at hcard
      omega
  | succ depth ihdepth =>
      induction pieces with
      | nil => exact .nil
      | cons p rest ih =>
          rw [List.forall_mem_cons] at h
          have hrest := ih h.2
          rw [expand_cons]
          cases p with
          | command c => exact .command c hrest
          | slot number =>
              obtain ⟨hmade, hnew, hacyclic⟩ := h.1 number .refl
              have hslot : slots[number]? = some slots[number] := List.getElem?_eq_getElem hmade
              cases hcontents : slots[number].contents with
              | none =>
                  rw [place, hslot]
                  simp only [hcontents]
                  exact .opened (by rw [hslot, ← hcontents]) hrest
              | some contents =>
                  have hinside : Piece.inside? slots (.slot number) = some contents := by
                    simp [Piece.inside?, hslot, hcontents]
                  have hcard : (insert number way).card = way.card + 1 :=
                    Finset.card_insert_of_notMem hnew
                  have hbelow : Unfolds slots contents (expand slots depth contents) := by
                    refine ihdepth (insert number way) ?_ (by omega) fun q hq other hother => ?_
                    · exact Finset.insert_subset (Finset.mem_range.mpr hmade) hway
                    · have hholds : Holds slots (.slot number) q := ⟨contents, hinside, hq⟩
                      obtain ⟨hmade', hnew', hacyclic'⟩ := h.1 other (.head hholds hother)
                      refine ⟨hmade', fun hmem => ?_, hacyclic'⟩
                      rcases Finset.mem_insert.mp hmem with rfl | hmem
                      · exact hacyclic (.head' hholds hother)
                      · exact hnew' hmem
                  rw [place, hslot]
                  simp only [hcontents]
                  exact .filled (by rw [hslot, ← hcontents]) hbelow hrest

lemma IsAcyclic.unfolds {d : Draft} (h : d.IsAcyclic) : Unfolds d.slots d.pieces d.commands := by
  refine unfolds_expand _ ∅ (Finset.empty_subset _) (by simp) fun p hp number hnumber => ?_
  have hreached : d.Reaches (.slot number) := ⟨p, hp, hnumber⟩
  exact ⟨h.made number hreached, Finset.notMem_empty _, h.acyclic number hreached⟩

/-- **What is gone through is what is reached.** -/
lemma Traverses.mem_iff {trace : List Piece} (h : Traverses slots pieces trace) (q : Piece) :
    q ∈ trace ↔ ∃ p ∈ pieces, Relation.ReflTransGen (Holds slots) p q := by
  induction h with
  | nil => simp
  | @leaf p rest trace hp hrest ih =>
      have hself : Relation.ReflTransGen (Holds slots) p q ↔ q = p := by
        rw [Relation.ReflTransGen.cases_head_iff]
        simp [Holds, hp, eq_comm]
      rw [List.mem_cons, ih, List.exists_mem_cons_iff, hself]
  | @placeholder p contents inner rest trace hp hcontents hrest ihcontents ihrest =>
      have hbelow : Relation.ReflTransGen (Holds slots) p q ↔ q = p ∨ q ∈ inner := by
        rw [Relation.ReflTransGen.cases_head_iff, ihcontents]
        simp [Holds, hp, eq_comm]
      rw [List.mem_cons, List.mem_append, ihrest, List.exists_mem_cons_iff, hbelow, or_assoc]

/-- Only a slot holds another one: the commands have none inside of them. -/
lemma exists_of_holds_slot {p : Piece} {j : Nat} (h : Holds slots p (.slot j)) :
    ∃ i name contents, p = .slot i ∧ slots[i]? = some ⟨name, some contents⟩ ∧
      Piece.slot j ∈ contents := by
  obtain ⟨contents, hinside, hmem⟩ := h
  cases p with
  | command c =>
      cases c with
      | deferred name inner =>
          obtain rfl := Option.some.inj hinside
          simp at hmem
      | pending name =>
          obtain rfl := Option.some.inj hinside
          cases hmem
      | _ => cases hinside
  | slot i =>
      obtain rfl := Option.some.inj hinside
      cases hslot : slots[i]? with
      | none => simp [hslot] at hmem
      | some slot =>
          obtain ⟨name, _ | contents⟩ := slot
          · simp [hslot] at hmem
          · rw [hslot] at hmem
            exact ⟨i, name, contents, rfl, hslot, hmem⟩

/-- Slots are acyclic if the contents of each are made of slots that were made after it. -/
lemma isAcyclic_of_later {d : Draft} (hpieces : Bound d.slots.length d.pieces)
    (hlater : ∀ i name contents, d.slots[i]? = some ⟨name, some contents⟩ →
      ∀ j, Piece.slot j ∈ contents → i < j ∧ j < d.slots.length) : d.IsAcyclic := by
  have hway {p q : Piece} (h : Relation.TransGen (Holds d.slots) p q) :
      ∀ j, q = .slot j → ∃ i, p = .slot i ∧ i < j ∧ j < d.slots.length := by
    induction h with
    | single h =>
        rintro j rfl
        obtain ⟨i, name, contents, rfl, hslot, hmem⟩ := exists_of_holds_slot h
        exact ⟨i, rfl, hlater i name contents hslot j hmem⟩
    | tail _ h ih =>
        rintro j rfl
        obtain ⟨k, name, contents, hk, hslot, hmem⟩ := exists_of_holds_slot h
        obtain ⟨hkj, hj⟩ := hlater k name contents hslot j hmem
        obtain ⟨i, rfl, hik, -⟩ := ih k hk
        exact ⟨i, rfl, hik.trans hkj, hj⟩
  refine ⟨fun number ⟨p, hp, hreached⟩ => ?_, fun number _ hself => ?_⟩
  · rcases Relation.reflTransGen_iff_eq_or_transGen.mp hreached with hself | hbelow
    · exact hpieces number (hself ▸ hp)
    · obtain ⟨i, -, -, hmade⟩ := hway hbelow number rfl
      exact hmade
  · obtain ⟨i, hi, hlt, -⟩ := hway hself number rfl
    obtain rfl := Piece.slot.inj hi
    exact lt_irrefl _ hlt

/-- **The walks agree with the recursion** over an acyclic draft, where a slot may occur as often as
it likes.  There is one list of pieces that one comes to.  The loop ends with it, the walk over the
commands gives its leaves and the visit its placeholders, each in order, and the check fails exactly
if a slot that is reached is still open, with the name of the first one. -/
theorem walks_agree (d : Draft) (h : d.IsAcyclic) : ∃ trace,
    Traverses d.slots d.pieces trace ∧
    (∀ taken, (∃ turns, loop d.slots turns [d.pieces] = some taken) ↔ taken = trace) ∧
    Unfolds d.slots d.pieces d.commands ∧
    Command.walk [d.commands] = trace.filterMap Piece.leaf? ∧
    List.Forall₂ (Shows d.slots) (trace.filter Piece.isPlaceholder)
      (Command.visit [d.commands]) ∧
    (∀ name, Command.checkResolved d.commands = .error (.neverResolved name) ↔
      ∃ before p after, trace = before ++ p :: after ∧ p.openName? d.slots = some name ∧
        ∀ q ∈ before, q.openName? d.slots = none) ∧
    ((∃ e, Command.checkResolved d.commands = .error e) ↔
      ∃ p, d.Reaches p ∧ (p.openName? d.slots).isSome = true) := by
  obtain ⟨trace, htrace, hshows⟩ := h.unfolds.exists_traverses
  refine ⟨trace, htrace, fun taken => ?_, h.unfolds, ?_, ?_, fun name => ?_, ?_⟩
  · rw [exists_loop_iff]
    exact ⟨htrace.unique, fun heq => heq ▸ htrace⟩
  · rw [filterMap_leaf? hshows, Command.walk_eq, List.flatMap_singleton,
      Command.leavesAll_eq_filter]
  · rw [Command.visit_eq, List.flatMap_singleton, Command.placeholdersAll_eq_filter]
    exact forall₂_filter_isPlaceholder hshows
  · rw [checkResolved_eq hshows, ← List.findSome?_eq_some_iff]
    cases trace.findSome? (Piece.openName? d.slots) <;> simp
  · have hreached (p : Piece) : d.Reaches p ↔ p ∈ trace := (htrace.mem_iff p).symm
    rw [checkResolved_eq hshows]
    simp only [hreached, ← List.findSome?_isSome_iff]
    cases trace.findSome? (Piece.openName? d.slots) <;> simp

/-- A list with one slot between its items, which holds another slot that is still open. -/
def sharedJoin : Draft where
  pieces := [.command (.text "a"), .slot 0, .command (.text "b"), .slot 0, .command (.text "c")]
  slots := [⟨"join", some [.command (.text ","), .slot 1]⟩, ⟨"gap", none⟩]

theorem walks_agree_sharedJoin : sharedJoin.IsAcyclic ∧
    Command.walk [sharedJoin.commands] =
      [.text "a", .text ",", .text "b", .text ",", .text "c"] ∧
    Command.checkResolved sharedJoin.commands = .error (.neverResolved "gap") := by
  have h : sharedJoin.IsAcyclic := by
    refine isAcyclic_of_later ?_ fun i name contents hslot j hj => ?_
    · simp [sharedJoin]
    · match i, hslot with
      | 0, hslot =>
          obtain rfl := Option.some.inj (OpenSlot.mk.inj (Option.some.inj hslot)).2
          obtain rfl : j = 1 := by simpa using hj
          decide
      | 1, hslot => cases hslot
      | i + 2, hslot => cases hslot
  obtain ⟨trace, -, hloop, -, hwalk, -, hcheck, -⟩ := walks_agree sharedJoin h
  have hturns : loop sharedJoin.slots 20 [sharedJoin.pieces] = some
      [.command (.text "a"), .slot 0, .command (.text ","), .slot 1, .command (.text "b"),
        .slot 0, .command (.text ","), .slot 1, .command (.text "c")] := rfl
  obtain rfl := (hloop _).mp ⟨_, hturns⟩
  have hfirst : ∀ q ∈ [Piece.command (.text "a"), .slot 0, .command (.text ",")],
      q.openName? sharedJoin.slots = none := by
    intro q hq
    simp only [List.mem_cons, List.not_mem_nil, or_false] at hq
    rcases hq with rfl | rfl | rfl <;> rfl
  exact ⟨h, hwalk, (hcheck "gap").mpr ⟨_, .slot 1, _, rfl, rfl, hfirst⟩⟩

end Draft

end EstreePrinter
