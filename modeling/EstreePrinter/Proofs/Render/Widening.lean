import Mathlib
import EstreePrinter.Proofs.Linearizer.LineFeeds
import EstreePrinter.Proofs.Render.Emitted
import EstreePrinter.Proofs.Render.Layout
import EstreePrinter.Proofs.Render.Opening

/-!
# More width, fewer lines

Whether a list is broken is decided by the width of its commands, and a placeholder has the same
width whatever its contents.  So a rendering under more width measures the same widths and sees no
more need for lines, and it breaks nothing that a rendering under less width leaves on its line.

**Two sequences of commands.**  `Command.Widened narrow wide` says what the two renderings emit: the
same commands in the same order, but for the contents of placeholders that are broken under the
lesser width only, and for the markers that close the levels which such contents open.

**What it is about.**  The placeholders of a sequence are its `Command.sites`: each is given with
the nodes that are being rendered there, so that the sites of one rendering can be told to be those
of another.

* `Command.Widened.sites`, `Command.Widened.lineFeedsAll_le` — the sites that are broken under more
  width are broken under less, and line feeds are at most as many;
* **`Render.widening`** — the invariant that two runs of a step under settings which differ in
  nothing but the width emit such sequences.
-/

namespace EstreePrinter

open Json (Part)

namespace Command

/-! ## Sites -/

/-- Whether a command keeps the output on its line. -/
def isInline : Command → Bool
  | .text s => !s.toList.contains '\n'
  | _ => false

/-- A command that may stand among the contents of a placeholder. -/
def IsSpacing : Command → Prop
  | .text _ => True
  | .newline => True
  | .indent => True
  | .dedent => True
  | _ => False

/-- A place of the output whose contents were chosen after its surroundings had been measured. -/
structure Site where
  /-- The nodes that are being rendered there, the innermost first. -/
  nodes : List Json
  /-- What kind of place it is. -/
  name : String
  /-- Whether its contents leave the line. -/
  broken : Bool

/-- Two places are the same one, and if the second is broken then so is the first. -/
structure Site.Widens (narrow wide : Site) : Prop where
  nodes : narrow.nodes = wide.nodes
  name : narrow.name = wide.name
  broken : wide.broken = true → narrow.broken = true

/-- The nodes that are being rendered behind a command. -/
def stackAfter (stack : List Json) (c : Command) : List Json :=
  match c.bracketed? with
  | some (node, true) => node :: stack
  | some (_, false) => stack.tail
  | none => stack

mutual

/-- The sites of a command, where `stack` holds the nodes that are being rendered. -/
def sitesOf (stack : List Json) : Command → List Site
  | .deferred name contents => ⟨stack, name, !contents.all isInline⟩ :: sites stack contents
  | _ => []

/-- The sites of a sequence of commands, outer ones first. -/
def sites (stack : List Json) : List Command → List Site
  | [] => []
  | c :: rest => sitesOf stack c ++ sites (stackAfter stack c) rest

end

lemma sites_of_isSpacing {contents : List Command} (h : ∀ c ∈ contents, c.IsSpacing)
    (stack : List Json) : sites stack contents = [] := by
  induction contents with
  | nil => simp [sites]
  | cons c rest ih =>
      have hc := h c List.mem_cons_self
      have hrest := ih fun d hd => h d (List.mem_cons_of_mem _ hd)
      cases c with
      | text _ | newline | indent | dedent => simpa [sites, sitesOf, stackAfter, bracketed?] using hrest
      | _ => exact absurd hc id

/-! ## Sequences under more width -/

/-- **What is emitted under less width, and what under more.** -/
inductive Widened : List Command → List Command → Prop
  | nil : Widened [] []
  /-- The same command. -/
  | same (c : Command) {narrow wide : List Command} :
      Widened narrow wide → Widened (c :: narrow) (c :: wide)
  /-- A placeholder that stays on the line under more width. -/
  | eased (name : String) {contents contents' narrow wide : List Command} :
      (∀ c ∈ contents, c.IsSpacing) → contents'.all isInline = true →
      Widened narrow wide → Widened
        (.deferred name contents :: narrow) (.deferred name contents' :: wide)
  /-- The end of a level that is opened under less width only. -/
  | closed {narrow wide : List Command} : Widened narrow wide → Widened (.dedent :: narrow) wide

namespace Widened

variable {narrow wide narrow' wide' : List Command}

lemma refl (commands : List Command) : Widened commands commands := by
  induction commands with
  | nil => exact nil
  | cons c rest ih => exact same c ih

lemma append (h : Widened narrow wide) (h' : Widened narrow' wide') :
    Widened (narrow ++ narrow') (wide ++ wide') := by
  induction h with
  | nil => exact h'
  | same c _ ih => exact same c ih
  | eased name hcontents hinline _ ih => exact eased name hcontents hinline ih
  | closed _ ih => exact closed ih

/-- Both measure the same. -/
lemma totalWidth_eq (h : Widened narrow wide) : totalWidth narrow = totalWidth wide := by
  induction h with
  | nil => rfl
  | same c _ ih => simp only [totalWidth, ih]
  | eased name _ _ _ ih => simp only [totalWidth, width, ih]
  | closed _ ih =>
      simp only [totalWidth, width, ok_bind, Nat.zero_add, ih]
      exact bind_pure _

/-- **A site that is broken under more width is broken under less.** -/
theorem sites (h : Widened narrow wide) (stack : List Json) :
    (Command.sites stack narrow).Forall₂ Site.Widens (Command.sites stack wide) := by
  induction h generalizing stack with
  | nil => simp [Command.sites]
  | same c _ ih =>
      simp only [Command.sites]
      exact List.rel_append (List.forall₂_same.mpr fun _ _ => ⟨rfl, rfl, id⟩) (ih _)
  | @eased name contents contents' _ _ hcontents hinline _ ih =>
      have hspacing : ∀ c ∈ contents', c.IsSpacing := by
        intro c hc
        have := List.all_eq_true.mp hinline c hc
        cases c with
        | text _ => trivial
        | _ => cases this
      have hsite : Site.Widens ⟨stack, name, !contents.all isInline⟩
          ⟨stack, name, !contents'.all isInline⟩ := by
        refine ⟨rfl, rfl, fun hbroken => ?_⟩
        simp [hinline] at hbroken
      simp only [Command.sites, sitesOf, sites_of_isSpacing hcontents, sites_of_isSpacing hspacing,
        List.cons_append, List.nil_append]
      exact List.Forall₂.cons hsite (ih _)
  | closed _ ih => simpa [Command.sites, sitesOf, stackAfter, bracketed?] using ih stack

lemma lineFeedsAll_of_isInline {contents : List Command} (h : contents.all isInline = true) :
    lineFeedsAll contents = 0 := by
  induction contents with
  | nil => exact lineFeedsAll_nil
  | cons c rest ih =>
      rw [List.all_cons, Bool.and_eq_true] at h
      rw [lineFeedsAll_cons, ih h.2]
      cases c with
      | text s =>
          have hs : '\n' ∉ s.toList := by simpa [isInline] using h.1
          simpa [leaves, lineFeeds, textAt] using List.count_eq_zero_of_not_mem hs
      | _ => cases h.1

/-- **There are at most as many line feeds under more width.** -/
theorem lineFeedsAll_le (h : Widened narrow wide) : lineFeedsAll wide ≤ lineFeedsAll narrow := by
  induction h with
  | nil => exact le_rfl
  | same c _ ih =>
      rw [lineFeedsAll_cons, lineFeedsAll_cons]
      exact Nat.add_le_add_left ih _
  | eased name _ hinline _ ih =>
      rw [lineFeedsAll_deferred, lineFeedsAll_deferred, lineFeedsAll_of_isInline hinline,
        Nat.zero_add]
      exact ih.trans (Nat.le_add_left _ _)
  | closed _ ih =>
      rw [lineFeedsAll_cons]
      exact ih.trans (Nat.le_add_left _ _)

end Widened

end Command

namespace Slot

open Command (Widened IsSpacing isInline)

/-- What may go into an open place: the same under both widths, or something that stays on the line
under more width. -/
structure Eases (contents contents' : List Command) : Prop where
  spacing : ∀ c ∈ contents, c.IsSpacing
  eased : contents = contents' ∨ contents'.all isInline = true

/-- A placeholder with such contents. -/
lemma Eases.widened {contents contents' narrow wide : List Command} (h : Eases contents contents')
    (name : String) (hrest : Widened narrow wide) :
    Widened (.deferred name contents :: narrow) (.deferred name contents' :: wide) := by
  rcases h.eased with rfl | hinline
  · exact .same _ hrest
  · exact .eased name h.spacing hinline hrest

lemma eases_nil : Eases [] [] := ⟨fun _ h => absurd h List.not_mem_nil, Or.inl rfl⟩

/-- Slots of two runs that are filled with such contents. -/
def Widened (xs ys : List Slot) : Prop :=
  ∀ name join join', Eases join join' →
    Command.Widened (fill name join xs) (fill name join' ys)

lemma widened_nil : Widened [] [] := fun _ _ _ _ => .nil

lemma widened_join : Widened [.join] [.join] := fun name _ _ h => h.widened name .nil

lemma widened_ofCommands {cs ds : List Command} (h : Command.Widened cs ds) :
    Widened (ofCommands cs) (ofCommands ds) := by
  intro name join join' _
  simpa using h

lemma Widened.append {xs ys xs' ys' : List Slot} (h : Widened xs ys) (h' : Widened xs' ys') :
    Widened (xs ++ xs') (ys ++ ys') := by
  intro name join join' hjoin
  rw [fill_append, fill_append]
  exact (h name join join' hjoin).append (h' name join join' hjoin)

/-- Slots that were not rendered are the same in both runs. -/
lemma widened_refl (xs : List Slot) : Widened xs xs := by
  induction xs with
  | nil => exact widened_nil
  | cons x rest ih =>
      cases x with
      | own c => exact (widened_ofCommands (.refl [c])).append ih
      | join => exact widened_join.append ih

/-- Filled with nothing, both measure the same. -/
lemma Widened.totalWidth_eq {xs ys : List Slot} (h : Widened xs ys) (name : String) :
    Command.totalWidth (fill name [] xs) = Command.totalWidth (fill name [] ys) :=
  (h name [] [] eases_nil).totalWidth_eq

end Slot

/-- Settings that differ in nothing but the width, which is no less in the second. -/
structure Setting.Widens (s s' : Setting) : Prop where
  quote : s.quote = s'.quote
  noIn : s.noIn = s'.noIn
  width : s.width ≤ s'.width

/-- What is emitted under less width, and what under more. -/
structure Emission.Widens {α : Type} (e e' : Emission α) : Prop where
  value : e.value = e'.value
  queue : e.queue = e'.queue
  multiline : e'.multiline = true → e.multiline = true
  commands : Command.Widened e.commands e'.commands

namespace Render

variable {s s' : Setting} {q : List Json}

/-- Two runs of a step, the second under no less width. -/
def Eased {α : Type} (x : Render α) : Prop :=
  ∀ s s' q e e', s.Widens s' → x s q = .ok e → x s' q = .ok e' → e.Widens e'

/-! ## The decisions -/

/-- **What is broken under more width is broken under less.** -/
lemma breaks_of_widens {needed needed' broken broken' : Bool} {narrow wide : List Command}
    (hs : s.Widens s') (hneeded : needed' = true → needed = true)
    (hwidth : Command.totalWidth narrow = Command.totalWidth wide)
    (h : breaks needed narrow s.width = .ok broken)
    (h' : breaks needed' wide s'.width = .ok broken') : broken' = true → broken = true := by
  intro hbroken
  subst hbroken
  cases needed with
  | true => exact (Except.ok.inj h).symm
  | false =>
      -- no need for lines was seen under either width, so both were measured
      obtain rfl : needed' = false := by
        cases needed' with
        | false => rfl
        | true => exact absurd (hneeded rfl) (by decide)
      obtain ⟨n, hn, hbroken⟩ := EstreePrinter.bind_eq_ok_iff.mp h
      obtain ⟨n', hn', hbroken'⟩ := EstreePrinter.bind_eq_ok_iff.mp h'
      rw [hwidth, hn'] at hn
      obtain rfl : n' = n := Except.ok.inj hn
      obtain rfl : decide (s.width < (n' : Int)) = broken := Except.ok.inj hbroken
      have hwide : s'.width < (n' : Int) := of_decide_eq_true (Except.ok.inj hbroken')
      exact decide_eq_true (lt_of_le_of_lt hs.width hwide)

/-! ## The constructs that decide afterwards -/

lemma widened_itemSlots (separator : String) (afterHole isLast : Bool) {cs ds : List Command}
    (comments : List Json) (h : Command.Widened cs ds) :
    Slot.Widened (itemSlots separator afterHole isLast cs comments)
      (itemSlots separator afterHole isLast ds comments) :=
  (((Slot.widened_refl _).append (Slot.widened_ofCommands h)).append (Slot.widened_refl _)).append
    (Slot.widened_refl _)

/-- Slots and a need for lines that were found out by two runs, the second under no less width. -/
structure Found (v v' : List Slot × Bool) : Prop where
  slots : Slot.Widened v.1 v'.1
  needed : v'.2 = true → v.2 = true

lemma found_items {α : Type} {separator : String} {item : α → Render Unit}
    (hitem : ∀ a, Eased (item a)) (hs : s.Widens s') {afterHole : Bool} {list : List (Option α)}
    {e e' : Emission (List Slot × Bool)} (h : items separator item afterHole list s q = .ok e)
    (h' : items separator item afterHole list s' q = .ok e') :
    Found e.value e'.value ∧ e.queue = e'.queue := by
  induction list generalizing afterHole q e e' with
  | nil =>
      obtain rfl : _ = e := Except.ok.inj h
      obtain rfl : _ = e' := Except.ok.inj h'
      exact ⟨⟨Slot.widened_nil, id⟩, rfl⟩
  | cons a rest ih =>
      cases a with
      | none =>
          obtain ⟨others, hothers, rfl⟩ := items_hole_eq_ok_iff.mp h
          obtain ⟨others', hothers', rfl⟩ := items_hole_eq_ok_iff.mp h'
          obtain ⟨hfound, hqueue⟩ := ih hothers hothers'
          have hhole := (Slot.widened_refl [.own (.text separator)]).append hfound.slots
          exact ⟨⟨hhole, hfound.needed⟩, hqueue⟩
      | some a =>
          obtain ⟨inner, hinner, others, hothers, rfl⟩ := items_some_eq_ok_iff.mp h
          obtain ⟨inner', hinner', others', hothers', rfl⟩ := items_some_eq_ok_iff.mp h'
          obtain ⟨hfound, hqueue⟩ := ih hothers hothers'
          have hheld := hitem a _ _ _ _ _ hs hinner hinner'
          -- the same comments wait behind the item in both runs
          rw [← hheld.queue]
          refine ⟨⟨(widened_itemSlots _ _ _ _ hheld.commands).append hfound.slots, ?_⟩, hqueue⟩
          intro hneeded
          simp only [Bool.or_eq_true] at hneeded ⊢
          exact hneeded.imp (Or.imp_left hheld.multiline) hfound.needed

lemma widened_assemble {start stop join start' stop' join' : List Command} {xs ys : List Slot}
    (h : Slot.Widened xs ys) (hstart : Slot.Eases start start') (hjoin : Slot.Eases join join')
    (hstop : Slot.Eases stop stop') :
    Command.Widened (assemble start join stop xs) (assemble start' join' stop' ys) :=
  hstart.widened _ ((h _ _ _ hjoin).append (hstop.widened _ .nil))

lemma widened_decided {spaces broken broken' : Bool} {xs ys : List Slot} (h : Slot.Widened xs ys)
    (hbroken : broken' = true → broken = true) :
    Command.Widened (decided spaces broken xs) (decided spaces broken' ys) := by
  have hspaces : ∀ c ∈ (if spaces then [.text " "] else []), Command.IsSpacing c := by
    cases spaces with
    | true => simp [Command.IsSpacing]
    | false => simp
  have hinline : (if spaces then [.text " "] else []).all Command.isInline = true := by
    cases spaces <;> decide
  cases broken' with
  | true =>
      obtain rfl : broken = true := hbroken rfl
      have hopen : Slot.Eases [.indent, .newline] [.indent, .newline] :=
        ⟨by simp [Command.IsSpacing], Or.inl rfl⟩
      have hjoin : Slot.Eases [.newline] [.newline] := ⟨by simp [Command.IsSpacing], Or.inl rfl⟩
      have hclose : Slot.Eases [.dedent, .newline] [.dedent, .newline] :=
        ⟨by simp [Command.IsSpacing], Or.inl rfl⟩
      exact widened_assemble h hopen hjoin hclose
  | false =>
      cases broken with
      | true =>
          have hopen : Slot.Eases [.indent, .newline] (if spaces then [.text " "] else []) :=
            ⟨by simp [Command.IsSpacing], Or.inr hinline⟩
          have hjoin : Slot.Eases [.newline] [.text " "] :=
            ⟨by simp [Command.IsSpacing], Or.inr (by decide)⟩
          have hclose : Slot.Eases [.dedent, .newline] (if spaces then [.text " "] else []) :=
            ⟨by simp [Command.IsSpacing], Or.inr hinline⟩
          exact widened_assemble h hopen hjoin hclose
      | false =>
          have hjoin : Slot.Eases [.text " "] [.text " "] := ⟨by simp [Command.IsSpacing], Or.inl rfl⟩
          exact widened_assemble h ⟨hspaces, Or.inl rfl⟩ hjoin ⟨hspaces, Or.inl rfl⟩

lemma eased_sequence {α : Type} {spaces : Bool} {separator : String} {item : α → Render Unit}
    (hitem : ∀ a, Eased (item a)) (list : List (Option α)) :
    Eased (sequence spaces separator item list) := by
  intro s s' q e e' hs h h'
  by_cases hlist : list = []
  · subst hlist
    obtain rfl : _ = e := Except.ok.inj h
    obtain rfl : _ = e' := Except.ok.inj h'
    exact ⟨rfl, rfl, id, .nil⟩
  · obtain ⟨first, hfirst, broken, hbroken, rfl⟩ := (sequence_eq_ok_iff hlist).mp h
    obtain ⟨first', hfirst', broken', hbroken', rfl⟩ := (sequence_eq_ok_iff hlist).mp h'
    obtain ⟨hfound, hqueue⟩ := found_items hitem hs hfirst hfirst'
    have hwidth := (widened_assemble hfound.slots Slot.eases_nil Slot.eases_nil
      Slot.eases_nil).totalWidth_eq
    have hbreaks := breaks_of_widens hs hfound.needed hwidth hbroken hbroken'
    exact ⟨rfl, hqueue, hbreaks, widened_decided hfound.slots hbreaks⟩

/-- Statements hold back what they find out about their need for lines. -/
lemma bodyAfter_quiet {node : Json} {inner : Inner node} {before : Option Printed}
    {statements : List (Part node)} {e : Emission Unit}
    (h : bodyAfter inner before statements s q = .ok e) : e.multiline = false := by
  induction statements generalizing before q e with
  | nil =>
      obtain rfl : _ = e := Except.ok.inj h
      rfl
  | cons statement rest ih =>
      obtain ⟨kind, -, h⟩ := read_bind_eq_ok_iff.mp h
      split at h
      · exact ih h
      · obtain ⟨list, -, h⟩ := read_bind_eq_ok_iff.mp h
        obtain ⟨comments, -, h⟩ := read_bind_eq_ok_iff.mp h
        obtain ⟨held, -, h⟩ := fork_bind_eq_ok_iff.mp h
        obtain ⟨_, hemit, _, hbehind, rfl⟩ := bind_eq_ok_iff.mp h
        obtain rfl := Except.ok.inj hemit
        obtain ⟨_, hdrained, others, hothers, rfl⟩ := bind_eq_ok_iff.mp hbehind
        obtain ⟨drained, -, rfl⟩ := drainAfterStatement_eq_ok_iff.mp hdrained
        have hrest : others.multiline = false := ih hothers
        simp [Emission.andThen, hrest]

/-- What goes between two arguments depends on the waiting comments only. -/
lemma argumentGap_value {e e' : Emission (List Slot × Bool)} (h : Rules.argumentGap s q = .ok e)
    (h' : Rules.argumentGap s' q = .ok e') : e.value = e'.value := by
  rw [argumentGap_eq_ok_iff] at h h'
  by_cases hq : q = []
  · rw [if_pos hq] at h h'
    rw [h, h']
  · rw [if_neg hq] at h h'
    obtain ⟨found, hfound, rfl⟩ := h
    obtain ⟨found', hfound', rfl⟩ := h'
    rw [Except.ok.inj (hfound.symm.trans hfound')]

/-- What was printed before or behind a margin, by two runs. -/
structure PrintedWidens (before before' : Printed) : Prop where
  kind : before.kind = before'.kind
  multiline : before'.multiline = true → before.multiline = true

lemma separates_of_widens {before before' after after' : Printed}
    (hbefore : PrintedWidens before before') (hafter : PrintedWidens after after')
    (h : separates before' after' = true) : separates before after = true := by
  simp only [separates, Bool.or_eq_true] at h ⊢
  rw [hbefore.kind, hafter.kind]
  exact h.imp_left (Or.imp hafter.multiline hbefore.multiline)

/-- The margin before a statement, which is no wider where statements need fewer lines. -/
lemma widened_margin {before before' : Option Printed} {after after' : Printed}
    (hbefore : before.Rel PrintedWidens before') (hafter : PrintedWidens after after') :
    Command.Widened (margin before after) (margin before' after') := by
  cases hbefore with
  | none => exact .nil
  | @some before before' hbefore =>
      refine Slot.Eases.widened ⟨?_, ?_⟩ "margin" (.refl [.newline])
      · split
        · simp [Command.IsSpacing]
        · simp
      · by_cases hwide : separates before' after' = true
        · have hnarrow := separates_of_widens hbefore hafter hwide
          rw [hwide, hnarrow]
          exact Or.inl rfl
        · rw [if_neg hwide]
          exact Or.inr rfl

lemma eased_drainAfterStatement : Eased drainAfterStatement := by
  intro s s' q e e' hs h h'
  obtain ⟨commands, hcommands, rfl⟩ := drainAfterStatement_eq_ok_iff.mp h
  obtain ⟨commands', hcommands', rfl⟩ := drainAfterStatement_eq_ok_iff.mp h'
  obtain rfl : commands = commands' := Except.ok.inj (hcommands.symm.trans hcommands')
  exact ⟨rfl, rfl, id, .refl _⟩

/-- Over the statements of a body.  The statement before may have needed more lines under the lesser
width, which is why it is not the same in both runs. -/
lemma widens_bodyAfter {node : Json} {inner : Inner node} (hinner : ∀ part, Eased (inner.bare part))
    (hs : s.Widens s') {before before' : Option Printed}
    (hbefore : before.Rel PrintedWidens before')
    {statements : List (Part node)} {e e' : Emission Unit}
    (h : bodyAfter inner before statements s q = .ok e)
    (h' : bodyAfter inner before' statements s' q = .ok e') : e.Widens e' := by
  induction statements generalizing before before' q e e' with
  | nil =>
      obtain rfl : _ = e := Except.ok.inj h
      obtain rfl : _ = e' := Except.ok.inj h'
      exact ⟨rfl, rfl, id, .nil⟩
  | cons statement rest ih =>
      have hquiet := bodyAfter_quiet h'
      obtain ⟨kind, hkind, h⟩ := bodyAfter_cons_eq_ok h
      obtain ⟨kind', hkind', h'⟩ := bodyAfter_cons_eq_ok h'
      obtain rfl : kind = kind' := Except.ok.inj (hkind.symm.trans hkind')
      by_cases hempty : kind.isText "EmptyStatement"
      · rw [if_pos hempty] at h h'
        exact ih hbefore h h'
      · rw [if_neg hempty] at h h'
        obtain ⟨list, hlist, comments, hcomments, held, hheld, drained, hdrained, others, hothers,
          hcommands, hqueue⟩ := h
        obtain ⟨list', hlist', comments', hcomments', held', hheld', drained', hdrained', others',
          hothers', hcommands', hqueue'⟩ := h'
        obtain rfl : list = list' := Except.ok.inj (hlist.symm.trans hlist')
        obtain rfl : comments = comments' := Except.ok.inj (hcomments.symm.trans hcomments')
        have hsame := hinner _ _ _ _ _ _ hs hheld hheld'
        have hprinted : PrintedWidens ⟨kind.display, held.multiline⟩ ⟨kind.display, held'.multiline⟩ :=
          ⟨rfl, hsame.multiline⟩
        rw [← hsame.queue] at hdrained'
        have hdrain := eased_drainAfterStatement _ _ _ _ _ hs hdrained hdrained'
        rw [← hdrain.queue] at hothers'
        have hrest := ih (.some hprinted) hothers hothers'
        refine ⟨rfl, ?_, fun hneeded => ?_, ?_⟩
        · rw [hqueue, hqueue', hrest.queue]
        · rw [hquiet] at hneeded
          exact absurd hneeded (by decide)
        · rw [hcommands, hcommands']
          exact (((widened_margin hbefore hprinted).append (.refl comments)).append
            hsame.commands).append (hdrain.commands.append hrest.commands)

lemma found_joined {α : Type} {item : α → Render Unit} (hitem : ∀ a, Eased (item a))
    (hs : s.Widens s') {list : List α} {e e' : Emission (List Slot × Bool)}
    (h : joined item list s q = .ok e) (h' : joined item list s' q = .ok e') :
    Found e.value e'.value ∧ e.queue = e'.queue := by
  induction list generalizing q e e' with
  | nil =>
      obtain rfl : _ = e := Except.ok.inj h
      obtain rfl : _ = e' := Except.ok.inj h'
      exact ⟨⟨Slot.widened_nil, id⟩, rfl⟩
  | cons a rest ih =>
      obtain ⟨inner, hinner, others, hothers, rfl⟩ := joined_cons_eq_ok h
      obtain ⟨inner', hinner', others', hothers', rfl⟩ := joined_cons_eq_ok h'
      have hheld := hitem a _ _ _ _ _ hs hinner hinner'
      rw [← hheld.queue] at hothers'
      obtain ⟨hfound, hqueue⟩ := ih hothers hothers'
      refine ⟨⟨((Slot.widened_ofCommands hheld.commands).append (Slot.widened_refl _)).append
        hfound.slots, ?_⟩, hqueue⟩
      intro hneeded
      simp only [Bool.or_eq_true] at hneeded ⊢
      exact hneeded.imp hheld.multiline hfound.needed

lemma widened_assembleDeclarations {keyword : String} {start join start' join' : List Command}
    {xs ys : List Slot} (h : Slot.Widened xs ys) (hstart : Slot.Eases start start')
    (hjoin : Slot.Eases join join') :
    Command.Widened (assembleDeclarations keyword start join xs)
      (assembleDeclarations keyword start' join' ys) :=
  .same _ (hstart.widened _ (h _ _ _ hjoin))

lemma widened_decidedDeclarations {keyword : String} {several broken broken' : Bool}
    {xs ys : List Slot} (h : Slot.Widened xs ys) (hbroken : broken' = true → broken = true) :
    Command.Widened (decidedDeclarations keyword several broken xs)
      (decidedDeclarations keyword several broken' ys) := by
  have hlevel : ∀ c ∈ (if several then [.indent] else []), Command.IsSpacing c := by
    cases several with
    | true => simp [Command.IsSpacing]
    | false => simp
  have hcomma : ∀ c ∈ [.text ",", .newline], Command.IsSpacing c := by simp [Command.IsSpacing]
  cases broken' with
  | true =>
      obtain rfl : broken = true := hbroken rfl
      exact (widened_assembleDeclarations h ⟨hlevel, Or.inl rfl⟩ ⟨hcomma, Or.inl rfl⟩).append (.refl _)
  | false =>
      cases broken with
      | true =>
          have hlast : Command.Widened (if several then [.dedent] else []) [] := by
            cases several with
            | true => exact .closed .nil
            | false => exact .nil
          have hstart : Slot.Eases (if several then [.indent] else []) [] := ⟨hlevel, Or.inr rfl⟩
          have hjoin : Slot.Eases [.text ",", .newline] [.text ", "] :=
            ⟨hcomma, Or.inr (by decide)⟩
          have hlines : Command.Widened
              (assembleDeclarations keyword (if several then [.indent] else [])
                [.text ",", .newline] xs)
              (assembleDeclarations keyword [] [.text ", "] ys) :=
            widened_assembleDeclarations h hstart hjoin
          have hwhole := hlines.append hlast
          rw [List.append_nil] at hwhole
          exact hwhole
      | false =>
          exact widened_assembleDeclarations h Slot.eases_nil
            ⟨by simp [Command.IsSpacing], Or.inl rfl⟩

lemma eased_declarations {node : Json} {inner : Inner node}
    (hinner : ∀ part, Eased (inner.value part)) : Eased (declarations node inner) := by
  intro s s' q e e' hs h h'
  obtain ⟨part, hpart, list, hlist, declare, hdeclare, kind, hkind, first, hfirst, broken, hbroken,
    rfl⟩ := declarations_eq_ok h
  obtain ⟨part', hpart', list', hlist', declare', hdeclare', kind', hkind', first', hfirst',
    broken', hbroken', rfl⟩ := declarations_eq_ok h'
  obtain rfl : part = part' := Except.ok.inj (hpart.symm.trans hpart')
  obtain rfl : list = list' := Except.ok.inj (hlist.symm.trans hlist')
  obtain rfl : declare = declare' := Except.ok.inj (hdeclare.symm.trans hdeclare')
  obtain rfl : kind = kind' := Except.ok.inj (hkind.symm.trans hkind')
  obtain ⟨hfound, hqueue⟩ := found_joined hinner hs hfirst hfirst'
  have hbreaks : broken' = true → broken = true := by
    by_cases hseveral : 1 < list.length
    · rw [if_pos hseveral] at hbroken hbroken'
      have hlines : Command.Widened (assembleDeclarations (kind.1.display ++ " ") [] [] _)
          (assembleDeclarations (kind.1.display ++ " ") [] [] _) :=
        widened_assembleDeclarations hfound.slots Slot.eases_nil Slot.eases_nil
      have hwidth := hlines.totalWidth_eq
      exact breaks_of_widens hs hfound.needed hwidth hbroken hbroken'
    · rw [if_neg hseveral] at hbroken hbroken'
      rw [← hbroken, ← hbroken']
      exact hfound.needed
  exact ⟨rfl, hqueue, hbreaks,
    (Command.Widened.refl _).append (widened_decidedDeclarations hfound.slots hbreaks)⟩

/-- Arguments that were found by two runs. -/
structure ArgumentsWiden (args args' : Rules.Arguments) : Prop where
  front : Slot.Widened args.front args'.front
  frontMultiline : args'.frontMultiline = true → args.frontMultiline = true
  last : Command.Widened args.last args'.last
  lastMultiline : args'.lastMultiline = true → args.lastMultiline = true

lemma widen_arguments {node : Json} {inner : Inner node}
    (hinner : ∀ part, Eased (inner.value part)) (hs : s.Widens s') {list : List (Part node)}
    {e e' : Emission Rules.Arguments} (h : Rules.arguments inner list s q = .ok e)
    (h' : Rules.arguments inner list s' q = .ok e') :
    ArgumentsWiden e.value e'.value ∧ e.queue = e'.queue := by
  induction list generalizing q e e' with
  | nil =>
      obtain rfl : _ = e := Except.ok.inj h
      obtain rfl : _ = e' := Except.ok.inj h'
      exact ⟨⟨Slot.widened_nil, id, .nil, id⟩, rfl⟩
  | cons argument rest ih =>
      by_cases hrest : rest = []
      · subst hrest
        obtain ⟨held, hheld, rfl⟩ := arguments_last_eq_ok_iff.mp h
        obtain ⟨held', hheld', rfl⟩ := arguments_last_eq_ok_iff.mp h'
        have hsame := hinner _ _ _ _ _ _ hs hheld hheld'
        exact ⟨⟨Slot.widened_nil, id, hsame.commands, hsame.multiline⟩, hsame.queue⟩
      · obtain ⟨held, hheld, gap, hgap, others, hothers, rfl⟩ :=
          (arguments_cons_eq_ok_iff hrest).mp h
        obtain ⟨held', hheld', gap', hgap', others', hothers', rfl⟩ :=
          (arguments_cons_eq_ok_iff hrest).mp h'
        have hsame := hinner _ _ _ _ _ _ hs hheld hheld'
        obtain ⟨hargs, hqueue⟩ := ih hothers hothers'
        -- what goes between the arguments depends on the waiting comments only
        rw [← hsame.queue] at hgap'
        obtain hgaps : gap.value = gap'.value := argumentGap_value hgap hgap'
        refine ⟨⟨?_, ?_, hargs.last, hargs.lastMultiline⟩, hqueue⟩
        · rw [hgaps]
          exact ((Slot.widened_ofCommands hsame.commands).append (Slot.widened_refl _)).append
            hargs.front
        · rw [hgaps]
          intro hneeded
          simp only [Bool.or_eq_true] at hneeded ⊢
          exact hneeded.imp (Or.imp_left hsame.multiline) hargs.frontMultiline

lemma widened_argumentList {args args' : Rules.Arguments}
    {start stop join start' stop' join' : List Command} (h : ArgumentsWiden args args')
    (hstart : Slot.Eases start start') (hjoin : Slot.Eases join join')
    (hstop : Slot.Eases stop stop') :
    Command.Widened (Rules.argumentList args start join stop)
      (Rules.argumentList args' start' join' stop') :=
  .same _ (hstart.widened _ (((h.front _ _ _ hjoin).append h.last).append
    (hstop.widened _ (.refl [.text ")"]))))

lemma widened_decidedArguments {broken broken' : Bool} {args args' : Rules.Arguments}
    (h : ArgumentsWiden args args') (hbroken : broken' = true → broken = true) :
    Command.Widened (decidedArguments broken args) (decidedArguments broken' args') := by
  have hopen : ∀ c ∈ [.indent, .newline], Command.IsSpacing c := by simp [Command.IsSpacing]
  have hcomma : ∀ c ∈ [.text ",", .newline], Command.IsSpacing c := by simp [Command.IsSpacing]
  have hclose : ∀ c ∈ [.dedent, .newline], Command.IsSpacing c := by simp [Command.IsSpacing]
  cases broken' with
  | true =>
      obtain rfl : broken = true := hbroken rfl
      exact widened_argumentList h ⟨hopen, Or.inl rfl⟩ ⟨hcomma, Or.inl rfl⟩ ⟨hclose, Or.inl rfl⟩
  | false =>
      cases broken with
      | true =>
          exact widened_argumentList h ⟨hopen, Or.inr rfl⟩ ⟨hcomma, Or.inr (by decide)⟩
            ⟨hclose, Or.inr rfl⟩
      | false =>
          exact widened_argumentList h Slot.eases_nil ⟨by simp [Command.IsSpacing], Or.inl rfl⟩
            Slot.eases_nil

lemma eased_callArguments {node : Json} {inner : Inner node}
    (hinner : ∀ part, Eased (inner.value part)) : Eased (Rules.callArguments inner) := by
  intro s s' q e e' hs h h'
  obtain ⟨part, hpart, list, hlist, args, hargs, broken, hbroken, rfl⟩ :=
    callArguments_eq_ok_iff.mp h
  obtain ⟨part', hpart', list', hlist', args', hargs', broken', hbroken', rfl⟩ :=
    callArguments_eq_ok_iff.mp h'
  obtain rfl : part = part' := Except.ok.inj (hpart.symm.trans hpart')
  obtain rfl : list = list' := Except.ok.inj (hlist.symm.trans hlist')
  obtain ⟨hwiden, hqueue⟩ := widen_arguments hinner hs hargs hargs'
  have hbreaks := breaks_of_widens hs hwiden.frontMultiline (hwiden.front.totalWidth_eq _) hbroken
    hbroken'
  refine ⟨rfl, hqueue, fun hneeded => ?_, widened_decidedArguments hwiden hbreaks⟩
  simp only [Bool.or_eq_true] at hneeded ⊢
  exact hneeded.imp hbreaks hwiden.lastMultiline

lemma widened_branches {broken broken' : Bool} {yes yes' no no' : List Command}
    (hbroken : broken' = true → broken = true) (hyes : Command.Widened yes yes')
    (hno : Command.Widened no no') :
    Command.Widened (Rules.branches broken yes no) (Rules.branches broken' yes' no') := by
  have hquestion : ∀ c ∈ [.indent, .newline, .text "? "], Command.IsSpacing c := by
    simp [Command.IsSpacing]
  have hcolon : ∀ c ∈ [.newline, .text ": "], Command.IsSpacing c := by simp [Command.IsSpacing]
  cases broken' with
  | true =>
      obtain rfl : broken = true := hbroken rfl
      exact ((Command.Widened.same _ hyes).append (.same _ hno)).append (.refl [.dedent])
  | false =>
      cases broken with
      | true =>
          have hconsequent := Command.Widened.eased "conditional-consequent" hquestion
            (by decide : [.text " ? "].all Command.isInline = true) hyes
          have halternate := Command.Widened.eased "conditional-alternate" hcolon
            (by decide : [.text " : "].all Command.isInline = true) hno
          have hlines := (hconsequent.append halternate).append (.closed .nil)
          rw [List.append_nil] at hlines
          exact hlines
      | false => exact (Command.Widened.same _ hyes).append (.same _ hno)

/-! ## The invariant -/

lemma eased_bind {α β : Type} {x : Render α} {f : α → Render β} (hx : Eased x)
    (hf : ∀ a, Eased (f a)) : Eased (x >>= f) := by
  intro s s' q e e' hs h h'
  obtain ⟨first, hfirst, second, hsecond, rfl⟩ := bind_eq_ok_iff.mp h
  obtain ⟨first', hfirst', second', hsecond', rfl⟩ := bind_eq_ok_iff.mp h'
  have hone := hx _ _ _ _ _ hs hfirst hfirst'
  rw [← hone.value, ← hone.queue] at hsecond'
  have htwo := hf _ _ _ _ _ _ hs hsecond hsecond'
  refine ⟨htwo.value, htwo.queue, fun hneeded => ?_, hone.commands.append htwo.commands⟩
  simp only [Emission.andThen, Bool.or_eq_true] at hneeded ⊢
  exact hneeded.imp hone.multiline htwo.multiline

/-- A step that does not look at the setting at all. -/
lemma eased_of_const {α : Type} {x : Render α} (h : ∀ s s' q, x s q = x s' q) : Eased x := by
  intro s s' q e e' _ he he'
  rw [h s s' q, he'] at he
  obtain rfl : _ = e := Except.ok.inj he
  exact ⟨rfl, rfl, id, .refl _⟩

/-- A step that looks at a field of the setting which is not the width. -/
lemma eased_setting {α β : Type} {get : Setting → β}
    (hget : ∀ s s' : Setting, s.Widens s' → get s = get s') {f : β → Render α}
    (hf : ∀ b, Eased (f b)) : Eased (setting >>= fun s => f (get s)) := by
  intro s s' q e e' hs h h'
  obtain ⟨_, hread, second, hsecond, rfl⟩ := bind_eq_ok_iff.mp h
  obtain ⟨_, hread', second', hsecond', rfl⟩ := bind_eq_ok_iff.mp h'
  obtain rfl := Except.ok.inj hread
  obtain rfl := Except.ok.inj hread'
  dsimp only at hsecond hsecond'
  rw [← hget s s' hs] at hsecond'
  have hsame := hf _ _ _ _ _ _ hs hsecond hsecond'
  exact ⟨hsame.value, hsame.queue, hsame.multiline, hsame.commands⟩

/-- **More width never breaks a line.** -/
def widening : Invariant where
  Applies _ := True
  applies_inside _ _ := trivial
  Holds := Eased
  pure a := eased_of_const fun _ _ _ => rfl
  bind := eased_bind
  read x := eased_of_const fun _ _ _ => rfl
  quote := eased_setting fun _ _ hs => hs.quote
  noIn := eased_setting fun _ _ hs => hs.noIn
  withNoIn b _ hx := fun s s' q e e' hs h h' =>
    hx { s with noIn := b } { s' with noIn := b } q e e' ⟨hs.quote, rfl, hs.width⟩ h h'
  emit _ := eased_of_const fun _ _ _ => rfl
  chunk _ _ _ := eased_of_const fun _ _ _ => rfl
  raiseIf b := eased_of_const fun _ _ _ => rfl
  enqueue comment := eased_of_const fun _ _ _ => rfl
  takeQueue := eased_of_const fun _ _ _ => rfl
  nested before inside behind _ _ hx :=
    eased_bind (eased_of_const fun _ _ _ => rfl) fun _ =>
      eased_bind hx fun _ => eased_of_const fun _ _ _ => rfl
  sequence _ _ _ hitem := eased_sequence hitem
  body hinner := fun _ _ _ _ _ _ hs h h' => widens_bodyAfter hinner hs .none h h'
  declarations := eased_declarations
  arguments := eased_callArguments
  branches hx hy := fun s s' q e e' hs h h' => by
    obtain ⟨yes, hyes, no, hno, rfl⟩ := branches_eq_ok_iff.mp h
    obtain ⟨yes', hyes', no', hno', rfl⟩ := branches_eq_ok_iff.mp h'
    have hfirst := hx _ _ _ _ _ hs hyes hyes'
    rw [← hfirst.queue] at hno'
    have hsecond := hy _ _ _ _ _ hs hno hno'
    have hneeded : (yes'.multiline || no'.multiline) = true →
        (yes.multiline || no.multiline) = true := by
      simp only [Bool.or_eq_true]
      exact Or.imp hfirst.multiline hsecond.multiline
    exact ⟨rfl, hsecond.queue, hneeded, widened_branches hneeded hfirst.commands hsecond.commands⟩

instance : widening.IsGlobal := ⟨fun _ => trivial⟩

/-- **The announced rendering of a tree** is eased by more width, too: the notes around its nodes
are the same under both. -/
theorem eased_announced (role : Role) (node : Json) : Eased (treeWith announced role node) := by
  have hnoted (role : Role) (node : Json) {x : Render Unit} (hx : Eased x) :
      Eased (announced role node x) := by
    have hbrackets {x : Render Unit} (hx : Eased x) :
        Eased (do emit [.bracket node true]; x; emit [.bracket node false]) :=
      eased_bind (eased_of_const fun _ _ _ => rfl) fun _ =>
        eased_bind hx fun _ => eased_of_const fun _ _ _ => rfl
    cases role with
    | type => exact hx
    | value => exact hbrackets (widening.dressed .value node hx)
    | bare => exact hbrackets (widening.dressed .bare node hx)
  have hdress : widening.correspondence.Dresses announced announced :=
    { value := fun _ _ hx => hnoted .value _ hx
      bare := fun _ _ hx => hnoted .bare _ hx
      type := fun _ _ hx => hnoted .type _ hx }
  have happlies : widening.correspondence.Applies node := trivial
  have h := widening.correspondence.treeWith hdress role happlies
  cases role with
  | _ => exact h

end Render

end EstreePrinter
