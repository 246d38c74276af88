import Mathlib
import EstreePrinter.Proofs.Grammar.Listing
import EstreePrinter.Proofs.Grammar.Token
import EstreePrinter.Proofs.Render.Emitted

/-!
# Printed lists are the lists

Between two items of a printed list stand a separator and what lays the list out: blanks, line
breaks, markers and the comments that waited.  `Command.Lists` takes the commands of a list apart
into these three kinds of pieces and says what is left without the last kind.

* `items_lists`, `arguments_lists`, `joined_lists` — the items, with whatever the open places
  between them are filled;
* **`lists_kept`** — a separated list is written in the way of an array literal that is read as
  this list and no other, holes included; and the arguments of a call and the declarators of a
  declaration have one comma between any two of them.
-/

namespace EstreePrinter

open Json (Part)
open Grammar (Sign signs)

namespace Command

/-- A command that lays out what stands around it: a marker, a line break, a comment or blanks. -/
def IsLayout : Command → Prop
  | .newline => True
  | .indent => True
  | .dedent => True
  | .comment _ _ => True
  | .text s => ∀ c ∈ s.toList, isBlank c = true
  | _ => False

lemma leaves_of_isLayout {c : Command} (h : c.IsLayout) : leaves c = [c] := by
  cases c with
  | deferred name contents => exact absurd h id
  | pending name => exact absurd h id
  | _ => simp [leaves]

/-- A piece of a printed list: what was emitted for an item, a separator, or layout. -/
inductive Piece (α : Type) where
  | item (a : α) (commands : List Command)
  | separator (content : String)
  | layout (command : Command)

namespace Piece

variable {α : Type}

/-- The commands of a piece. -/
def commands : Piece α → List Command
  | .item _ commands => commands
  | .separator content => [.text content]
  | .layout command => [command]

/-- What is left of a piece without layout. -/
def sign? : Piece α → Option (Sign α)
  | .item a _ => some (.item a)
  | .separator _ => some .separator
  | .layout _ => none

/-- A piece that is what it is taken for: an item is emitted by a run of the item, and behind the
text of a separator there are at most blanks. -/
def IsSound (item : α → Render Unit) (s : Setting) (separator : String) : Piece α → Prop
  | .item a commands => ∃ q e, item a s q = .ok e ∧ e.commands = commands
  | .separator content => ∃ blanks, content = separator ++ blanks ∧
      ∀ c ∈ blanks.toList, isBlank c = true
  | .layout command => command.IsLayout

end Piece

/-- **Commands that list items with separators between them**, apart from layout. -/
def Lists {α : Type} (item : α → Render Unit) (s : Setting) (separator : String)
    (signs : List (Sign α)) (commands : List Command) : Prop :=
  ∃ pieces : List (Piece α), leavesAll commands = leavesAll (pieces.flatMap Piece.commands) ∧
    (∀ piece ∈ pieces, piece.IsSound item s separator) ∧ pieces.filterMap Piece.sign? = signs

section Lists

variable {α : Type} {item : α → Render Unit} {s : Setting} {separator : String}
  {ts us : List (Sign α)} {cs ds : List Command}

lemma Lists.append (h : Lists item s separator ts cs) (h' : Lists item s separator us ds) :
    Lists item s separator (ts ++ us) (cs ++ ds) := by
  obtain ⟨pieces, hleaves, hsound, rfl⟩ := h
  obtain ⟨pieces', hleaves', hsound', rfl⟩ := h'
  refine ⟨pieces ++ pieces', ?_, ?_, List.filterMap_append⟩
  · rw [leavesAll_append, hleaves, hleaves', List.flatMap_append, leavesAll_append]
  · intro piece hpiece
    rcases List.mem_append.mp hpiece with hpiece | hpiece
    · exact hsound piece hpiece
    · exact hsound' piece hpiece

/-- One piece by itself. -/
lemma lists_piece {piece : Piece α} (h : piece.IsSound item s separator) :
    Lists item s separator piece.sign?.toList piece.commands := by
  refine ⟨[piece], by simp, by simpa using h, ?_⟩
  cases piece with
  | item a commands => rfl
  | separator content => rfl
  | layout command => rfl

lemma lists_item {a : α} {q : List Json} {e : Emission Unit} (h : item a s q = .ok e) :
    Lists item s separator [.item a] e.commands :=
  lists_piece (show (Piece.item a e.commands).IsSound item s separator from ⟨q, e, h, rfl⟩)

/-- A separator with blanks behind it. -/
lemma lists_separator (blanks : String) (h : ∀ c ∈ blanks.toList, isBlank c = true) :
    Lists item s separator [.separator] [.text (separator ++ blanks)] :=
  lists_piece (show (Piece.separator (separator ++ blanks)).IsSound item s separator from
    ⟨blanks, rfl, h⟩)

/-- A separator by itself. -/
lemma lists_bareSeparator : Lists item s separator [.separator] [.text separator] := by
  have h : Lists item s separator [.separator] [.text (separator ++ "")] :=
    lists_separator "" (by simp)
  rwa [String.append_empty] at h

/-- Layout by itself lists nothing. -/
lemma lists_layout (h : ∀ c ∈ leavesAll cs, c.IsLayout) : Lists item s separator [] cs := by
  refine ⟨(leavesAll cs).map .layout, ?_, ?_, ?_⟩
  · have hself : ∀ ds : List Command, (∀ c ∈ ds, c.IsLayout) →
        leavesAll ((ds.map Piece.layout : List (Piece α)).flatMap Piece.commands) = ds := by
      intro ds hds
      induction ds with
      | nil => simp
      | cons d rest ih =>
          have hd := leaves_of_isLayout (hds d (by simp))
          simpa [Piece.commands, hd] using ih fun c hc => hds c (by simp [hc])
    exact (hself _ h).symm
  · intro piece hpiece
    obtain ⟨c, hc, rfl⟩ := List.mem_map.mp hpiece
    exact h c hc
  · simp [List.filterMap_map, Piece.sign?]

/-- A placeholder lists what its contents do. -/
lemma Lists.deferred (h : Lists item s separator ts cs) (name : String) :
    Lists item s separator ts [.deferred name cs] := by
  obtain ⟨pieces, hleaves, hsound, rfl⟩ := h
  exact ⟨pieces, by simpa [leaves] using hleaves, hsound, rfl⟩

end Lists

end Command

namespace Render

open Command (Lists lists_item lists_separator lists_bareSeparator lists_layout)

variable {α : Type} {item : α → Render Unit} {s : Setting} {separator : String}
  {ts us : List (Sign α)} {q : List Json}

/-! ## Open places -/

/-- Slots that list items, whatever fills the open places between them, as long as it lists the
same signs. -/
def SlotsList (item : α → Render Unit) (s : Setting) (separator : String)
    (join signs : List (Sign α)) (slots : List Slot) : Prop :=
  ∀ name contents, Lists item s separator join contents →
    Lists item s separator signs (Slot.fill name contents slots)

lemma SlotsList.append {join : List (Sign α)} {xs ys : List Slot}
    (h : SlotsList item s separator join ts xs) (h' : SlotsList item s separator join us ys) :
    SlotsList item s separator join (ts ++ us) (xs ++ ys) := by
  intro name contents hcontents
  rw [Slot.fill_append]
  exact (h name contents hcontents).append (h' name contents hcontents)

lemma slotsList_ofCommands {join : List (Sign α)} {commands : List Command}
    (h : Lists item s separator ts commands) :
    SlotsList item s separator join ts (Slot.ofCommands commands) := by
  intro name contents _
  rwa [Slot.fill_ofCommands]

lemma slotsList_join {join : List (Sign α)} : SlotsList item s separator join join [.join] :=
  fun name _ hcontents => hcontents.deferred name

lemma slotsList_nil {join : List (Sign α)} : SlotsList item s separator join [] [] :=
  fun _ _ _ => lists_layout (by simp [Slot.fill])

/-- Layout and open places list nothing, if what fills the open places does not. -/
lemma slotsList_itemComments (isLast : Bool) (comments : List Json) :
    SlotsList item s separator [] [] (itemComments isLast comments) := by
  induction comments with
  | nil => exact slotsList_nil
  | cons comment rest ih =>
      have hcomment : SlotsList item s separator [] [] (Slot.ofCommands [.comment comment .none]) :=
        slotsList_ofCommands (lists_layout (by simp [Command.leaves, Command.IsLayout]))
      cases isLast with
      | true => exact hcomment.append ih
      | false => exact hcomment.append (slotsList_join.append ih)

/-! ## Separated lists -/

/-- The slots of one item. -/
lemma slotsList_itemSlots {a : α} {e : Emission Unit} (h : item a s q = .ok e)
    (afterHole isLast : Bool) (comments : List Json) :
    SlotsList item s separator [] (.item a :: if isLast then [] else [.separator])
      (itemSlots separator afterHole isLast e.commands comments) := by
  have hbefore : SlotsList item s separator [] [] (if afterHole then [.join] else []) := by
    cases afterHole with
    | true => exact slotsList_join
    | false => exact slotsList_nil
  have hmark : SlotsList item s separator [] (if isLast then [] else [.separator])
      (if isLast then [] else [.own (.text separator)]) := by
    cases isLast with
    | true => exact slotsList_nil
    | false => exact slotsList_ofCommands lists_bareSeparator
  have hbehind : SlotsList item s separator [] [] (if comments.isEmpty then
      (if isLast then [] else [.join]) else .own (.text " ") :: itemComments isLast comments) := by
    split
    · cases isLast with
      | true => exact slotsList_nil
      | false => exact slotsList_join
    · have hblank : SlotsList item s separator [] [] (Slot.ofCommands [.text " "]) :=
        slotsList_ofCommands (lists_layout (by simp [Command.leaves, Command.IsLayout, isBlank]))
      exact hblank.append (slotsList_itemComments isLast comments)
  simpa [itemSlots] using
    ((hbefore.append (slotsList_ofCommands (lists_item h))).append hmark).append hbehind

/-- **The items of a separated list.** -/
lemma items_lists {afterHole : Bool} {list : List (Option α)} {e : Emission (List Slot × Bool)}
    (h : items separator item afterHole list s q = .ok e) :
    SlotsList item s separator [] (signs list) e.value.1 := by
  induction list generalizing afterHole q e with
  | nil =>
      simp only [items, pure_run, Except.ok.injEq] at h
      subst h
      exact slotsList_nil
  | cons entry rest ih =>
      cases entry with
      | none =>
          obtain ⟨others, hothers, rfl⟩ := items_hole_eq_ok_iff.mp h
          have hmark : SlotsList item s separator [] [.separator]
              (Slot.ofCommands [.text separator]) := slotsList_ofCommands lists_bareSeparator
          exact hmark.append (ih hothers)
      | some a =>
          obtain ⟨inner, hinner, others, hothers, rfl⟩ := items_some_eq_ok_iff.mp h
          exact (slotsList_itemSlots hinner afterHole rest.isEmpty inner.queue).append (ih hothers)

/-- **A separated list**, broken or not. -/
lemma sequence_lists {spaces : Bool} {list : List (Option α)} (hlist : list ≠ [])
    {e : Emission Unit} (h : sequence spaces separator item list s q = .ok e) :
    Lists item s separator (signs list) e.commands := by
  obtain ⟨first, hfirst, broken, -, rfl⟩ := (sequence_eq_ok_iff hlist).mp h
  have hassemble {start join stop : List Command}
      (hstart : ∀ c ∈ Command.leavesAll start, c.IsLayout)
      (hjoin : ∀ c ∈ Command.leavesAll join, c.IsLayout)
      (hstop : ∀ c ∈ Command.leavesAll stop, c.IsLayout) :
      Lists item s separator (signs list) (assemble start join stop first.value.1) := by
    have hmiddle := items_lists hfirst "sequence-join" join (lists_layout hjoin)
    have hopen : Lists item s separator [] [.deferred "sequence-open" start] :=
      (lists_layout hstart).deferred _
    have hclose : Lists item s separator [] [.deferred "sequence-close" stop] :=
      (lists_layout hstop).deferred _
    simpa [assemble] using hopen.append (hmiddle.append hclose)
  cases broken with
  | true =>
      exact hassemble (by simp [Command.leaves, Command.IsLayout])
        (by simp [Command.leaves, Command.IsLayout]) (by simp [Command.leaves, Command.IsLayout])
  | false =>
      have hpad : ∀ c ∈ Command.leavesAll (if spaces then [.text " "] else []), c.IsLayout := by
        cases spaces with
        | true => simp [Command.leaves, Command.IsLayout, isBlank]
        | false => simp
      exact hassemble hpad (by simp [Command.leaves, Command.IsLayout, isBlank]) hpad

/-! ## Arguments -/

/-- What fills an open place between two arguments or declarators. -/
lemma lists_comma (broken : Bool) :
    Lists item s "," [.separator] (if broken then [.text ",", .newline] else [.text ", "]) := by
  cases broken with
  | true =>
      have hbreak : Lists item s "," [] [.newline] :=
        lists_layout (by simp [Command.leaves, Command.IsLayout])
      exact lists_bareSeparator.append hbreak
  | false => exact lists_separator " " (by simp [isBlank])

/-- Two or more items with separators between them. -/
lemma intersperse_cons {a : α} {rest : List α} (hrest : rest ≠ []) :
    ((a :: rest).map Sign.item).intersperse .separator =
      .item a :: .separator :: (rest.map Sign.item).intersperse .separator := by
  cases rest with
  | nil => exact absurd rfl hrest
  | cons b rest => rfl

lemma isLayout_betweenArguments {comments : List Json} {found : List Command × Bool}
    (h : betweenArguments comments = .ok found) : ∀ c ∈ Command.leavesAll found.1, c.IsLayout := by
  induction comments generalizing found with
  | nil =>
      rw [betweenArguments, Except.ok.injEq] at h
      subst h
      simp
  | cons comment rest ih =>
      rw [betweenArguments] at h
      obtain ⟨line, -, h⟩ := EstreePrinter.bind_eq_ok_iff.mp h
      obtain ⟨others, hothers, h⟩ := EstreePrinter.bind_eq_ok_iff.mp h
      obtain rfl : _ = found := Except.ok.inj h
      intro c hc
      rcases List.mem_cons.mp (by simpa [Command.leaves] using hc) with rfl | hc
      · trivial
      · exact ih hothers c hc

/-- What goes between two arguments. -/
lemma argumentGap_lists {e : Emission (List Slot × Bool)} (h : Rules.argumentGap s q = .ok e) :
    SlotsList item s "," [.separator] [.separator] e.value.1 := by
  rw [argumentGap_eq_ok_iff] at h
  split at h
  · subst h
    exact slotsList_join
  · obtain ⟨found, hfound, rfl⟩ := h
    have hcomma : SlotsList item s "," [.separator] [.separator] (Slot.ofCommands [.text ", "]) :=
      slotsList_ofCommands (lists_separator " " (by simp [isBlank]))
    exact hcomma.append (slotsList_ofCommands (lists_layout (isLayout_betweenArguments hfound)))

variable {node : Json} {inner : Inner node}

/-- **The arguments of a call**: the ones in front and the last one. -/
lemma arguments_lists {list : List (Part node)} {e : Emission Rules.Arguments}
    (h : Rules.arguments inner list s q = .ok e) :
    ∃ front last, SlotsList inner.value s "," [.separator] front e.value.front ∧
      Lists inner.value s "," last e.value.last ∧
      front ++ last = (list.map Sign.item).intersperse .separator := by
  induction list generalizing q e with
  | nil =>
      simp only [Rules.arguments, pure_run, Except.ok.injEq] at h
      subst h
      exact ⟨[], [], slotsList_nil, lists_layout (by simp), rfl⟩
  | cons argument rest ih =>
      by_cases hrest : rest = []
      · subst hrest
        obtain ⟨held, hheld, rfl⟩ := arguments_last_eq_ok_iff.mp h
        exact ⟨[], [.item argument], slotsList_nil, lists_item hheld, rfl⟩
      · obtain ⟨held, hheld, gap, hgap, others, hothers, rfl⟩ :=
          (arguments_cons_eq_ok_iff hrest).mp h
        obtain ⟨front, last, hfront, hlast, hsigns⟩ := ih hothers
        refine ⟨[.item argument] ++ [.separator] ++ front, last, ?_, hlast, ?_⟩
        · exact ((slotsList_ofCommands (lists_item hheld)).append (argumentGap_lists hgap)).append
            hfront
        · rw [intersperse_cons hrest, ← hsigns]
          simp

/-- An argument list, broken or not. -/
lemma decidedArguments_lists (broken : Bool) {list : List (Part node)}
    {args : Emission Rules.Arguments} (h : Rules.arguments inner list s q = .ok args) :
    ∃ commands, decidedArguments broken args.value = .text "(" :: (commands ++ [Command.text ")"]) ∧
      Lists inner.value s "," ((list.map Sign.item).intersperse .separator) commands := by
  obtain ⟨front, last, hfront, hlast, hsigns⟩ := arguments_lists h
  have hassemble (start join stop : List Command)
      (hstart : ∀ c ∈ Command.leavesAll start, c.IsLayout)
      (hjoin : Lists inner.value s "," [.separator] join)
      (hstop : ∀ c ∈ Command.leavesAll stop, c.IsLayout) :
      Lists inner.value s "," ((list.map Sign.item).intersperse .separator)
        ([Command.deferred "arguments-open" start] ++
          (Slot.fill "arguments-join" join args.value.front ++ args.value.last ++
            [Command.deferred "arguments-close" stop])) := by
    have hopen : Lists inner.value s "," [] [.deferred "arguments-open" start] :=
      (lists_layout hstart).deferred _
    have hclose : Lists inner.value s "," [] [.deferred "arguments-close" stop] :=
      (lists_layout hstop).deferred _
    have hmiddle := (hfront "arguments-join" join hjoin).append hlast
    rw [hsigns] at hmiddle
    simpa using hopen.append (hmiddle.append hclose)
  cases broken with
  | true =>
      exact ⟨_, by simp [decidedArguments, Rules.argumentList],
        hassemble [.indent, .newline] _ [.dedent, .newline]
          (by simp [Command.leaves, Command.IsLayout]) (lists_comma true)
          (by simp [Command.leaves, Command.IsLayout])⟩
  | false =>
      exact ⟨_, by simp [decidedArguments, Rules.argumentList],
        hassemble [] _ [] (by simp) (lists_comma false) (by simp)⟩

/-! ## Declarators -/

/-- **The declarators of a declaration.** -/
lemma joined_lists {list : List α} {e : Emission (List Slot × Bool)}
    (h : joined item list s q = .ok e) :
    SlotsList item s separator [.separator] ((list.map Sign.item).intersperse .separator)
      e.value.1 := by
  induction list generalizing q e with
  | nil =>
      simp only [joined, pure_run, Except.ok.injEq] at h
      subst h
      exact slotsList_nil
  | cons a rest ih =>
      obtain ⟨held, hheld, others, hothers, rfl⟩ := joined_cons_eq_ok h
      have hitem : SlotsList item s separator [.separator] [.item a]
          (Slot.ofCommands held.commands) := slotsList_ofCommands (lists_item hheld)
      cases rest with
      | nil => simpa using hitem.append (ih hothers)
      | cons b rest =>
          simpa using (hitem.append slotsList_join).append (ih hothers)

/-- A declaration behind its keyword, broken or not. -/
lemma decidedDeclarations_lists (keyword : String) (several broken : Bool) {list : List α}
    {first : Emission (List Slot × Bool)} (h : joined item list s q = .ok first) :
    ∃ commands, decidedDeclarations keyword several broken first.value.1 =
        .text keyword :: commands ∧
      Lists item s "," ((list.map Sign.item).intersperse .separator) commands := by
  have hassemble (start join stop : List Command)
      (hstart : ∀ c ∈ Command.leavesAll start, c.IsLayout)
      (hjoin : Lists item s "," [.separator] join)
      (hstop : ∀ c ∈ Command.leavesAll stop, c.IsLayout) :
      Lists item s "," ((list.map Sign.item).intersperse .separator)
        ([Command.deferred "declarations-open" start] ++
          (Slot.fill "declarations-join" join first.value.1 ++ stop)) := by
    have hopen : Lists item s "," [] [.deferred "declarations-open" start] :=
      (lists_layout hstart).deferred _
    have hmiddle := joined_lists h "declarations-join" join hjoin
    simpa using hopen.append (hmiddle.append (lists_layout hstop))
  have hmarker (marker : Command) (hleaves : marker.leaves = [marker]) (hlayout : marker.IsLayout) :
      ∀ c ∈ Command.leavesAll (if several then [marker] else []), c.IsLayout := by
    cases several with
    | true => simpa [hleaves] using hlayout
    | false => simp
  cases broken with
  | true =>
      exact ⟨_, by simp [decidedDeclarations, assembleDeclarations],
        hassemble _ _ _ (hmarker .indent (by simp [Command.leaves]) trivial) (lists_comma true)
          (hmarker .dedent (by simp [Command.leaves]) trivial)⟩
  | false =>
      exact ⟨_, by simp [decidedDeclarations, assembleDeclarations],
        hassemble [] _ [] (by simp) (lists_comma false) (by simp)⟩

/-! ## The constructs -/

/-- **Lists are kept.**  Whatever the width and the comments that wait, what is printed for a
separated list are its items and separators, apart from layout, and they are read by the grammar of
array literals as the list and nothing else; without holes, one separator stands between any two
items.  The same holds for the arguments of a call and for the declarators of a declaration. -/
theorem lists_kept :
    (∀ {α : Type} (item : α → Render Unit) (spaces : Bool) (separator : String)
      (list : List (Option α)) (s : Setting) (q : List Json) (e : Emission Unit), list ≠ [] →
        sequence spaces separator item list s q = .ok e →
          ∃ ts, Lists item s separator ts e.commands ∧
            (∀ other, Grammar.ArrayLiteral ts other ↔ other = list) ∧
            ∀ elements : List α, list = elements.map some →
              ts = (elements.map Sign.item).intersperse .separator) ∧
    (∀ (node : Json) (inner : Inner node) (s : Setting) (q : List Json) (e : Emission Unit),
      Rules.callArguments inner s q = .ok e →
        ∃ part, node.require "arguments" = .ok part ∧ ∃ list, Json.parts part = .ok list ∧
        ∃ commands, e.commands = .text "(" :: (commands ++ [.text ")"]) ∧
          Lists inner.value s "," ((list.map Sign.item).intersperse .separator) commands) ∧
    ∀ (node : Json) (inner : Inner node) (s : Setting) (q : List Json) (e : Emission Unit),
      declarations node inner s q = .ok e →
        ∃ part, node.require "declarations" = .ok part ∧ ∃ list, Json.parts part = .ok list ∧
        ∃ declare, node.flag "declare" = .ok declare ∧ ∃ kind, node.require "kind" = .ok kind ∧
        ∃ commands, e.commands = (if declare then [.text "declare "] else []) ++
            .text (kind.1.display ++ " ") :: commands ∧
          Lists inner.value s "," ((list.map Sign.item).intersperse .separator) commands := by
  refine ⟨?_, ?_, ?_⟩
  · intro α item spaces separator list s q e hlist h
    refine ⟨signs list, sequence_lists hlist h, Grammar.arrayLiteral_signs_iff list, ?_⟩
    rintro elements rfl
    exact Grammar.signs_map_some elements
  · intro node inner s q e h
    obtain ⟨part, hpart, list, hlist, args, hargs, broken, -, rfl⟩ := callArguments_eq_ok_iff.mp h
    exact ⟨part, hpart, list, hlist, decidedArguments_lists broken hargs⟩
  · intro node inner s q e h
    obtain ⟨part, hpart, list, hlist, declare, hdeclare, kind, hkind, first, hfirst, broken, -,
      rfl⟩ := declarations_eq_ok h
    obtain ⟨commands, hcommands, hlists⟩ :=
      decidedDeclarations_lists (kind.1.display ++ " ") (1 < list.length) broken hfirst
    exact ⟨part, hpart, list, hlist, declare, hdeclare, kind, hkind, commands,
      congrArg (_ ++ ·) hcommands, hlists⟩

/-- Values that are printed as they are and take several lines. -/
def several (v : Json) : Render Unit := do
  raise
  emit [.ofValue v]

/-- Parts that are printed as they are and take several lines. -/
def severalInside (node : Json) : Inner node where
  value part := several part.1
  bare part := several part.1
  type part := several part.1
  either part := several part.1

/-- A node with two parts in each of its lists. -/
def twoParts : Json :=
  .obj [("kind", .str "let"), ("arguments", .arr [.str "a", .str "b"]),
    ("declarations", .arr [.str "a", .str "b"])]

theorem lists_kept_twoParts :
    (∃ e, sequence false "," several [none, some (.str "a"), some (.str "b"), none] {} [] = .ok e ∧
      ∃ ts, Lists several {} "," ts e.commands ∧
        ∀ other, Grammar.ArrayLiteral ts other ↔
          other = [none, some (.str "a"), some (.str "b"), none]) ∧
    (∃ e, Rules.callArguments (severalInside twoParts) {} [] = .ok e ∧
      ∃ list : List (Part twoParts), ∃ commands,
        e.commands = .text "(" :: (commands ++ [.text ")"]) ∧
        Lists (severalInside twoParts).value {} ","
          ((list.map Sign.item).intersperse .separator) commands) ∧
    ∃ e, declarations twoParts (severalInside twoParts) {} [] = .ok e ∧
      ∃ list : List (Part twoParts), ∃ commands,
        Lists (severalInside twoParts).value {} ","
          ((list.map Sign.item).intersperse .separator) commands := by
  obtain ⟨e, he⟩ : ∃ e, sequence false "," several
      [none, some (.str "a"), some (.str "b"), none] {} [] = .ok e := ⟨_, rfl⟩
  obtain ⟨f, hf⟩ : ∃ f, Rules.callArguments (severalInside twoParts) {} [] = .ok f := ⟨_, rfl⟩
  obtain ⟨g, hg⟩ : ∃ g, declarations twoParts (severalInside twoParts) {} [] = .ok g := ⟨_, rfl⟩
  refine ⟨⟨e, he, ?_⟩, ⟨f, hf, ?_⟩, g, hg, ?_⟩
  · obtain ⟨ts, hlists, hread, -⟩ := lists_kept.1 several false "," _ {} [] e (by simp) he
    exact ⟨ts, hlists, hread⟩
  · obtain ⟨-, -, list, -, commands, hcommands, hlists⟩ :=
      lists_kept.2.1 twoParts (severalInside twoParts) {} [] f hf
    exact ⟨list, commands, hcommands, hlists⟩
  · obtain ⟨-, -, list, -, -, -, -, -, commands, -, hlists⟩ :=
      lists_kept.2.2 twoParts (severalInside twoParts) {} [] g hg
    exact ⟨list, commands, hlists⟩

end Render

end EstreePrinter
