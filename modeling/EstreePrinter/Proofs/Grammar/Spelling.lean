import Mathlib
import EstreePrinter.Proofs.Estree.Ends
import EstreePrinter.Proofs.Linearizer.Success
import EstreePrinter.Proofs.Render.Layout
import EstreePrinter.Proofs.Render.Plain
import EstreePrinter.Proofs.Render.Settled
import EstreePrinter.Proofs.Grammar.Phrase

/-!
# Commands that spell lexemes

Between the commands of a rendering and the tokens of the printed text stand the lexemes.  A comment
is no token: it is read as the blank or the line feed that a reader takes it for
(`Command.blanked`).  Which comments there may be is said by a property, `known`;
`Json.NoComment` allows none.

* `Command.Spells` — commands that are written as lexemes, whatever the indentation and the depth;
* `Render.GivesFrom` — a rendering step that emits such commands, from the comments that wait before
  it to the ones that wait behind it; `Render.Gives` — the same where no comments are involved;
* `Render.GivesAmid` — a step that gives lexemes with a property, whatever comments wait;
* **`GivesFrom.andThen`** — what two steps give one after the other;
* `gives_sequence`, `gives_callArguments`, `gives_branches` — the constructs that may break: they
  give the same tokens broken or not, and differ in the gaps only.
-/

namespace EstreePrinter

open Grammar

namespace Command

/-! ## Comments as blanks -/

/-- What a reader sees of a leaf.  A comment is a line feed to it, if there is one in the comment or
behind it, and a blank otherwise. -/
def blanked : Command → Command
  | .comment remark after =>
    if remark.spansLines.toOption.getD true = true ∨ after = .newline then .newline else .text " "
  | c => c

/-- The leaves of commands, with blanks in the place of the comments. -/
def blankedAll (commands : List Command) : List Command := (leavesAll commands).map blanked

@[simp] lemma blankedAll_append (cs ds : List Command) :
    blankedAll (cs ++ ds) = blankedAll cs ++ blankedAll ds := by simp [blankedAll]

lemma blanked_eq_self {c : Command} (h : c.comment? = none) : c.blanked = c := by
  cases c with
  | comment comment after => simp [comment?] at h
  | _ => rfl

lemma blanked_comment (remark : Json) (after : Break) :
    (comment remark after).blanked = .text " " ∨ (comment remark after).blanked = .newline := by
  rw [blanked]
  split
  · exact Or.inr rfl
  · exact Or.inl rfl

mutual

lemma leaves_of_mem_leaves (c : Command) : ∀ leaf ∈ leaves c, leaves leaf = [leaf] := by
  cases c with
  | deferred name contents =>
      rw [leaves]
      exact leaves_of_mem_leavesAll contents
  | pending name => simp [leaves]
  | _ => simp [leaves]

/-- Leaves are not taken apart any further. -/
lemma leaves_of_mem_leavesAll (commands : List Command) :
    ∀ leaf ∈ leavesAll commands, leaves leaf = [leaf] := by
  cases commands with
  | nil => simp
  | cons c rest =>
      rw [leavesAll_cons]
      exact List.forall_mem_append.mpr ⟨leaves_of_mem_leaves c, leaves_of_mem_leavesAll rest⟩

end

lemma leavesAll_of_leaves {leaves' : List Command} (h : ∀ leaf ∈ leaves', leaves leaf = [leaf]) :
    leavesAll leaves' = leaves' := by
  induction leaves' with
  | nil => simp
  | cons leaf rest ih =>
      rw [leavesAll_cons, h leaf (by simp), ih fun other hother => h other (by simp [hother])]
      rfl

lemma leavesAll_blankedAll (commands : List Command) :
    leavesAll (blankedAll commands) = blankedAll commands := by
  refine leavesAll_of_leaves fun leaf hleaf => ?_
  obtain ⟨c, hc, rfl⟩ := List.mem_map.mp hleaf
  cases hcomment : c.comment? with
  | none =>
      rw [blanked_eq_self hcomment]
      exact leaves_of_mem_leavesAll commands c hc
  | some comment =>
      cases c with
      | comment remark after =>
          rcases blanked_comment remark after with h | h
          · simp [h, leaves]
          · simp [h, leaves]
      | _ => simp [comment?] at hcomment

/-- Blanks in the place of comments move no level. -/
lemma balanced_blankedAll {commands : List Command} (h : Balanced (leavesAll commands)) :
    Balanced (leavesAll (blankedAll commands)) := by
  have hlevel (level : Nat) (c : Command) : levelAfter level c.blanked = levelAfter level c := by
    cases c with
    | comment remark after =>
        rcases blanked_comment remark after with h | h
        · rw [h]
          rfl
        · rw [h]
          rfl
    | _ => rfl
  have hlevels (level : Nat) (cs : List Command) :
      levels level (cs.map blanked) = levels level cs := by
    induction cs generalizing level with
    | nil => rfl
    | cons c rest ih => simp [hlevel, ih]
  rw [leavesAll_blankedAll, balanced_iff_levels, blankedAll, hlevels]
  exact (balanced_iff_levels _).mp h

/-! ## Commands -/

/-- **Commands that are written as lexemes**, with blanks in the place of comments, which are all
known. -/
structure Spells (known : Json → Prop) (commands : List Command) (ls : List Lexeme) : Prop where
  /-- Their width can be estimated. -/
  measured : ∀ c ∈ commands, ∃ n, c.width = .ok n
  known : ∀ c ∈ leavesAll commands, ∀ comment ∈ c.comment?, known comment
  writable : ∀ c ∈ blankedAll commands, c.IsWritable
  renders : ∀ indent depth, BlankIndent indent →
    Renders ls (written indent depth (blankedAll commands))

variable {known : Json → Prop}

lemma spells_nil : Spells known [] [] where
  measured := by simp
  known := by simp
  writable := by simp [blankedAll]
  renders _ _ _ := by simp [blankedAll, written, Renders]

lemma Spells.append {cs ds : List Command} {ls ms : List Lexeme} (h : Spells known cs ls)
    (h' : Spells known ds ms) : Spells known (cs ++ ds) (ls ++ ms) where
  measured c hc := by
    rcases List.mem_append.mp hc with hc | hc
    · exact h.measured c hc
    · exact h'.measured c hc
  known c hc := by
    rw [leavesAll_append] at hc
    rcases List.mem_append.mp hc with hc | hc
    · exact h.known c hc
    · exact h'.known c hc
  writable c hc := by
    rw [blankedAll_append] at hc
    rcases List.mem_append.mp hc with hc | hc
    · exact h.writable c hc
    · exact h'.writable c hc
  renders indent depth hindent := by
    rw [blankedAll_append, written_append]
    exact (h.renders indent depth hindent).append (h'.renders indent _ hindent)

/-- Comments that are known to be comments can be written. -/
lemma Spells.isWritable {commands : List Command} {ls : List Lexeme} (h : Spells known commands ls)
    (hknown : ∀ c, known c → c.IsComment) : ∀ c ∈ leavesAll commands, c.IsWritable := by
  intro c hc
  cases hcomment : c.comment? with
  | none => exact blanked_eq_self hcomment ▸ h.writable _ (List.mem_map_of_mem hc)
  | some remark =>
      have hremark := hknown remark (h.known c hc remark hcomment)
      cases c with
      | comment remark' after =>
          obtain rfl : remark' = remark := Option.some.inj hcomment
          exact IsPrintable.isWritable (c := .comment remark' after) hremark
      | _ => simp [comment?] at hcomment

/-- Without comments nothing is read as a blank. -/
lemma Spells.blankedAll_eq {commands : List Command} {ls : List Lexeme}
    (h : Spells known commands ls) (hnone : ∀ c, ¬known c) :
    blankedAll commands = leavesAll commands := by
  refine (List.map_congr_left fun c hc => blanked_eq_self ?_).trans (List.map_id _)
  exact Option.eq_none_iff_forall_not_mem.mpr fun comment hcomment =>
    hnone comment (h.known c hc comment hcomment)

/-- What commands are written as can be taken for other lexemes. -/
lemma Spells.mono {commands : List Command} {ls ms : List Lexeme} (h : Spells known commands ls)
    (hrenders : ∀ text, Renders ls text → Renders ms text) : Spells known commands ms where
  measured := h.measured
  known := h.known
  writable := h.writable
  renders indent depth hindent := hrenders _ (h.renders indent depth hindent)

/-- A command by itself that is no comment. -/
lemma spells_of_leaf {c : Command} {ls : List Lexeme} (hleaf : c.leaves = [c])
    (hcode : c.comment? = none) (hwidth : ∃ n, c.width = .ok n) (hwritable : c.IsWritable)
    (h : ∀ indent depth, BlankIndent indent → Renders ls (c.textAt indent depth)) :
    Spells known [c] ls where
  measured := by simpa using hwidth
  known := by simp [hleaf, hcode]
  writable := by simpa [blankedAll, hleaf, blanked_eq_self hcode] using hwritable
  renders indent depth hindent := by
    simpa [blankedAll, hleaf, blanked_eq_self hcode, written] using h indent depth hindent

lemma spells_newline : Spells known [.newline] [.gap true] := by
  refine spells_of_leaf (by simp [leaves]) rfl ⟨0, rfl⟩ trivial fun indent depth hindent => ?_
  exact ⟨lineBreakAt indent depth, [], by simp [textAt],
    ⟨by simp [lineBreakAt], lineBreakAt_blank hindent depth, by simp [lineBreakAt]⟩, rfl⟩

lemma spells_chunk {s : String} {span : Option Span} (h : (chunk s span).IsWritable) :
    Spells known [.chunk s span] [.token s] :=
  spells_of_leaf (by simp [leaves]) rfl ⟨_, rfl⟩ h fun _ _ _ =>
    ⟨s.toList, [], by simp [textAt], rfl, rfl⟩

lemma spells_indent : Spells known [.indent] [] :=
  spells_of_leaf (by simp [leaves]) rfl ⟨0, rfl⟩ trivial fun _ _ _ => rfl

lemma spells_dedent : Spells known [.dedent] [] :=
  spells_of_leaf (by simp [leaves]) rfl ⟨0, rfl⟩ trivial fun _ _ _ => rfl

/-- A placeholder spells what its contents do. -/
lemma Spells.deferred {contents : List Command} {ls : List Lexeme} (h : Spells known contents ls)
    (name : String) : Spells known [.deferred name contents] ls where
  measured := by simp [width]
  known := by simpa [leaves] using h.known
  writable := by simpa [blankedAll, leaves] using h.writable
  renders indent depth hindent := by
    simpa [blankedAll, leaves] using h.renders indent depth hindent

/-- How a lexeme looks in a text without line feeds. -/
def plainly : Lexeme → List Char
  | .gap _ => [' ']
  | .token s => s.toList

/-- A text, taken apart into lexemes without line feeds. -/
lemma spells_text {s : String} (ls : List Lexeme) (hs : s.toList = ls.flatMap plainly)
    (hls : ∀ l ∈ ls, l ≠ .gap true) : Spells known [.text s] ls := by
  have hrenders : Renders ls (ls.flatMap plainly) := by
    clear hs
    induction ls with
    | nil => rfl
    | cons l rest ih =>
        refine ⟨plainly l, rest.flatMap plainly, by simp, ?_, ih fun m hm => hls m (by simp [hm])⟩
        cases l with
        | token t => rfl
        | gap b =>
            obtain rfl : b = false := by simpa using hls (.gap b) (by simp)
            exact ⟨by simp [plainly], by simp [plainly, isBlank], by simp [plainly]⟩
  refine spells_of_leaf (by simp [leaves]) rfl ⟨_, rfl⟩ trivial fun _ _ _ => ?_
  rw [textAt, hs]
  exact hrenders

/-- A comment is a gap. -/
lemma spells_comment {remark : Json} (hcomment : remark.IsComment) (hknown : known remark)
    (after : Break) : ∃ b, Spells known [.comment remark after] [.gap b] := by
  have hblanks : blankedAll [.comment remark after] = [(comment remark after).blanked] := by
    simp [blankedAll, leaves]
  have hwidth : ∃ n, (comment remark after).width = .ok n := IsPrintable.exists_width hcomment
  have hspells {c : Command} {b : Bool} (h : (comment remark after).blanked = c)
      (hown : blankedAll [c] = [c]) (hspells : Spells known [c] [.gap b]) :
      Spells known [.comment remark after] [.gap b] :=
    ⟨by simpa using hwidth, by simp [leaves, comment?, hknown],
      by simpa only [hblanks, h, hown] using hspells.writable,
      by simpa only [hblanks, h, hown] using hspells.renders⟩
  rcases blanked_comment remark after with h | h
  · exact ⟨false, hspells h (by simp [blankedAll, leaves, blanked]) (spells_text _ rfl (by simp))⟩
  · exact ⟨true, hspells h (by simp [blankedAll, leaves, blanked]) spells_newline⟩

lemma totalWidth_of_measured {commands : List Command}
    (h : ∀ c ∈ commands, ∃ n, c.width = .ok n) : ∃ n, totalWidth commands = .ok n := by
  induction commands with
  | nil => exact ⟨0, rfl⟩
  | cons c rest ih =>
      obtain ⟨n, hn⟩ := h c (by simp)
      obtain ⟨m, hm⟩ := ih fun d hd => h d (by simp [hd])
      exact ⟨n + m, by simp [totalWidth, hn, hm]⟩

end Command

namespace Render

open Command (Spells)

/-! ## Rendering steps -/

/-- Comments that wait for their place. -/
abbrev Waiting (known : Json → Prop) : Type := { q : List Json // ∀ c ∈ q, known c }

/-- No comments wait. -/
def Waiting.none {known : Json → Prop} : Waiting known := ⟨[], by simp⟩

@[simp] lemma Waiting.none_val {known : Json → Prop} : (none : Waiting known).1 = [] := rfl

lemma Waiting.eq_none (q : Waiting Json.NoComment) : q = .none :=
  Subtype.ext (List.eq_nil_iff_forall_not_mem.mpr fun c hc => q.2 c hc)

section Steps

variable {known : Json → Prop}

/-- **A rendering step that gives lexemes**, from the comments `q` that wait before it to the
comments `q'` that wait behind it. -/
def GivesFrom (s : Setting) (q : Waiting known) (x : Render Unit) (ls : List Lexeme)
    (q' : Waiting known) : Prop :=
  ∃ e, x s q.1 = .ok e ∧ e.queue = q'.1 ∧ Spells known e.commands ls

/-- A step that gives lexemes with a property, whatever comments wait before it. -/
def GivesAmid (known : Json → Prop) (s : Setting) (x : Render Unit) (P : List Lexeme → Prop) :
    Prop :=
  ∀ q : Waiting known, ∃ q' ls, GivesFrom s q x ls q' ∧ P ls

end Steps

/-- A rendering step that gives lexemes, with no comment waiting before it or behind it and none in
it. -/
abbrev Gives (s : Setting) (x : Render Unit) (ls : List Lexeme) : Prop :=
  @GivesFrom Json.NoComment s .none x ls .none

variable {known : Json → Prop} {s : Setting} {q q' q'' : Waiting known} {x y : Render Unit}
  {ls ms : List Lexeme}

lemma gives_pure : GivesFrom s q (pure ()) [] q := ⟨_, rfl, rfl, Command.spells_nil⟩

lemma gives_emit {commands : List Command} (h : Spells known commands ls) :
    GivesFrom s q (emit commands) ls q := ⟨_, rfl, rfl, h⟩

lemma givesFrom_text {t : String} (ls : List Lexeme) (ht : t.toList = ls.flatMap Command.plainly)
    (hls : ∀ l ∈ ls, l ≠ .gap true) : GivesFrom s q (text t) ls q :=
  gives_emit (Command.spells_text ls ht hls)

lemma gives_text {t : String} (ls : List Lexeme) (ht : t.toList = ls.flatMap Command.plainly)
    (hls : ∀ l ∈ ls, l ≠ .gap true) : Gives s (text t) ls :=
  givesFrom_text ls ht hls

lemma GivesFrom.mono (h : GivesFrom s q x ls q')
    (hrenders : ∀ text, Renders ls text → Renders ms text) : GivesFrom s q x ms q' := by
  obtain ⟨e, hrun, hqueue, hspells⟩ := h
  exact ⟨e, hrun, hqueue, hspells.mono hrenders⟩

/-- **What two steps give one after the other.** -/
lemma GivesFrom.andThen (hx : GivesFrom s q x ls q') (hy : GivesFrom s q' y ms q'') :
    GivesFrom s q (x >>= fun _ => y) (ls ++ ms) q'' := by
  obtain ⟨first, hfirst, hqueue, hspells⟩ := hx
  obtain ⟨second, hsecond, hqueue', hspells'⟩ := hy
  exact ⟨_, bind_eq_of_ok hfirst (hqueue ▸ hsecond), hqueue', hspells.append hspells'⟩

lemma GivesAmid.mono {P Q : List Lexeme → Prop} (h : GivesAmid known s x P)
    (hPQ : ∀ ls, P ls → Q ls) : GivesAmid known s x Q := by
  intro q
  obtain ⟨q', ls, hgives, hP⟩ := h q
  exact ⟨q', ls, hgives, hPQ ls hP⟩

lemma gives_textIf {node : Json} {key : String} {b : Bool} (h : node.flag key = .ok b)
    {word : String} (hword : GivesFrom s q (text word) ls q) :
    GivesFrom s q (textIf node key word) (if b then ls else []) q := by
  rw [textIf, read_bind h]
  cases b with
  | true => exact hword
  | false => exact gives_pure

lemma gives_parens (h : GivesFrom s q x ls q') :
    GivesFrom s q (do text "("; x; text ")") (.token "(" :: (ls ++ [Lexeme.token ")"])) q' :=
  (givesFrom_text [.token "("] rfl (by simp)).andThen
    (h.andThen (givesFrom_text [.token ")"] rfl (by simp)))

/-- Parentheses around a part. -/
lemma gives_wrapped {node : Json} {inner : Inner node} {part : Json.Part node}
    (h : GivesFrom s q (inner.value part) ls q') (wrap : Bool) :
    GivesFrom s q (inner.wrapped part wrap)
      (if wrap then .token "(" :: (ls ++ [Lexeme.token ")"]) else ls) q' := by
  cases wrap with
  | false => exact h
  | true => exact gives_parens h

/-- Parentheses around a type. -/
lemma gives_wrappedType {node : Json} {inner : Inner node} {part : Json.Part node}
    (h : GivesFrom s q (inner.type part) ls q') (wrap : Bool) :
    GivesFrom s q (inner.wrappedType part wrap)
      (if wrap then .token "(" :: (ls ++ [Lexeme.token ")"]) else ls) q' := by
  cases wrap with
  | false => exact h
  | true => exact gives_parens h

/-! ## Comments -/

/-- The comments before a node are gaps. -/
lemma leading_spell (hknown : ∀ c, known c → c.IsComment) {node : Json} {comments : List Json}
    (h : ∀ c ∈ comments, known c) (hplace : comments ≠ [] → node.HasPlace) :
    ∃ commands, leading false node comments = .ok commands ∧
      ∃ gs, IsPadding gs ∧ Spells known commands gs := by
  induction comments with
  | nil => exact ⟨[], rfl, [], isPadding_nil, Command.spells_nil⟩
  | cons comment rest ih =>
      have hplace := hplace (by simp)
      have hcomment := hknown comment (h comment (by simp))
      obtain ⟨commands, hcommands, gs, hgs, hspells⟩ :=
        ih (fun c hc => h c (by simp [hc])) fun _ => hplace
      obtain ⟨breaks, hbreaks⟩ := exists_endsLine hcomment (Or.inr hplace)
      obtain ⟨b, hgap⟩ := Command.spells_comment hcomment (h comment (by simp))
        (if breaks then .newline else .space)
      refine ⟨_, ?_, .gap b :: gs, (isPadding_gap b).append hgs, hgap.append hspells⟩
      simp only [leading, Bool.false_eq_true, if_false, hbreaks, hcommands]
      rfl

/-- The comments between two arguments are gaps. -/
lemma betweenArguments_spell (hknown : ∀ c, known c → c.IsComment) {comments : List Json}
    (h : ∀ c ∈ comments, known c) :
    ∃ found, betweenArguments comments = .ok found ∧
      ∃ gs, IsPadding gs ∧ Spells known found.1 gs := by
  induction comments with
  | nil => exact ⟨_, rfl, [], isPadding_nil, Command.spells_nil⟩
  | cons comment rest ih =>
      have hcomment := hknown comment (h comment (by simp))
      obtain ⟨found, hfound, gs, hgs, hspells⟩ := ih fun c hc => h c (by simp [hc])
      obtain ⟨line, hline⟩ := hcomment.exists_isLineComment
      obtain ⟨b, hgap⟩ := Command.spells_comment hcomment (h comment (by simp))
        (if line then .newline else .space)
      have hcommands : betweenArguments (comment :: rest) = .ok
          (.comment comment (if line then .newline else .space) :: found.1, line || found.2) := by
        rw [betweenArguments, hline, ok_bind, hfound]
        rfl
      exact ⟨_, hcommands, .gap b :: gs, (isPadding_gap b).append hgs, hgap.append hspells⟩

/-! ## Lists -/

lemma breaks_of_measured {commands : List Command} (h : ∀ c ∈ commands, ∃ n, c.width = .ok n)
    (needed : Bool) (width : Int) : ∃ broken, breaks needed commands width = .ok broken := by
  obtain ⟨n, hn⟩ := Command.totalWidth_of_measured h
  cases needed with
  | true => exact ⟨true, rfl⟩
  | false => exact ⟨decide (width < n), by simp [breaks, hn]⟩

/-- Slots that spell lexemes once they are filled; what the open places are filled with spells
`join`. -/
structure SlotsSpell (known : Json → Prop) (slots : List Slot) (join : Bool → List Lexeme)
    (ls : Bool → List Lexeme) : Prop where
  measured : ∀ name contents, ∀ c ∈ Slot.fill name contents slots, ∃ n, c.width = .ok n
  filled : ∀ name contents b, Spells known contents (join b) →
    Spells known (Slot.fill name contents slots) (ls b)

section Slots

variable {join : Bool → List Lexeme}

lemma slotsSpell_ofCommands {commands : List Command} (h : Spells known commands ls) :
    SlotsSpell known (Slot.ofCommands commands) join fun _ => ls where
  measured name contents := by simpa using h.measured
  filled name contents b _ := by simpa using h

lemma slotsSpell_join : SlotsSpell known [.join] join join where
  measured name contents := by simp [Slot.fill, Command.width]
  filled name contents b h := h.deferred name

lemma SlotsSpell.append {xs ys : List Slot} {ls ms : Bool → List Lexeme}
    (h : SlotsSpell known xs join ls) (h' : SlotsSpell known ys join ms) :
    SlotsSpell known (xs ++ ys) join fun b => ls b ++ ms b where
  measured name contents c hc := by
    rw [Slot.fill_append] at hc
    rcases List.mem_append.mp hc with hc | hc
    · exact h.measured name contents c hc
    · exact h'.measured name contents c hc
  filled name contents b hb := by
    rw [Slot.fill_append]
    exact (h.filled name contents b hb).append (h'.filled name contents b hb)

end Slots

section Sequences

variable {α : Type} {item : α → Render Unit} {list : List α} {lss : List (List Lexeme)}
  {separator sign : String} {spaced : Bool}

/-- The items of a list, with a separator and a gap between any two of them.  If one of them takes
several lines, that is told. -/
lemma items_spell (hseparator : Spells Json.NoComment [.text separator] (marked spaced sign))
    (h : List.Forall₂ (fun a ls => Gives s (item a) ls) list lss) :
    ∃ e, items separator item false (list.map some) s [] = .ok e ∧ e.queue = [] ∧
      SlotsSpell Json.NoComment e.value.1 (fun b => [.gap b])
        (fun b => separated spaced sign b lss) ∧
      (e.value.2 = false → ∀ a ∈ list, ∀ f, item a s [] = .ok f → f.multiline = false) := by
  induction h with
  | nil =>
      exact ⟨_, rfl, rfl, ⟨fun _ _ => by simp [Slot.fill], fun _ _ _ _ => Command.spells_nil⟩,
        by simp⟩
  | @cons a ls list lss ha hlist ih =>
      obtain ⟨inner, hinner, hqueue, hspells⟩ := ha
      obtain ⟨others, hothers, hqueue', hspell, hlines⟩ := ih
      refine ⟨_, items_some_eq_ok_iff.mpr ⟨inner, hinner, others, hothers, rfl⟩, hqueue', ?_, ?_⟩
      · have hown : SlotsSpell Json.NoComment (Slot.ofCommands inner.commands) (fun b => [.gap b])
            fun _ => ls := slotsSpell_ofCommands hspells
        cases hlist with
        | nil => simpa [itemSlots, hqueue, separated] using hown.append hspell
        | cons hb hrest =>
            have hmark : SlotsSpell Json.NoComment (Slot.ofCommands [.text separator])
                (fun b => [.gap b]) fun _ => marked spaced sign := slotsSpell_ofCommands hseparator
            simpa [itemSlots, hqueue, separated, Slot.ofCommands] using
              ((hown.append hmark).append slotsSpell_join).append hspell
      · intro hsingle b hb f hf
        simp only [Bool.or_eq_false_iff] at hsingle
        rcases List.mem_cons.mp hb with rfl | hmem
        · obtain rfl : inner = f := Except.ok.inj (hinner.symm.trans hf)
          exact hsingle.1.1
        · exact hlines hsingle.2 b hmem f hf

/-- A line break inside of a bracket, with a change of the indentation before it. -/
lemma spells_inset {c : Command} (hc : Spells known [c] []) :
    Spells known [c, .newline] (inset true) := hc.append Command.spells_newline

/-- **A separated list that is not empty**, broken over several lines or not.  It tells whether it
is, and none of its items is broken if it is not. -/
lemma sequence_spells (hseparator : Spells Json.NoComment [.text separator] (marked spaced sign))
    (h : List.Forall₂ (fun a ls => Gives s (item a) ls) list lss) (hlist : list ≠ []) :
    ∃ e, sequence false separator item (list.map some) s [] = .ok e ∧ e.queue = [] ∧
      Spells Json.NoComment e.commands
        (inset e.multiline ++ separated spaced sign e.multiline lss ++ inset e.multiline) ∧
      (e.multiline = false → ∀ a ∈ list, ∀ f, item a s [] = .ok f → f.multiline = false) := by
  obtain ⟨e, he, hqueue, hspell, hlines⟩ := items_spell hseparator h
  have hmeasured : ∀ c ∈ assemble [] [] [] e.value.1, ∃ n, c.width = .ok n := by
    intro c hc
    simp only [assemble, List.mem_cons, List.mem_append, List.not_mem_nil, or_false] at hc
    rcases hc with rfl | hc | rfl
    · exact ⟨2, rfl⟩
    · exact hspell.measured _ _ c hc
    · exact ⟨2, rfl⟩
  obtain ⟨broken, hbroken⟩ := breaks_of_measured hmeasured e.value.2 s.width
  refine ⟨_, (sequence_eq_ok_iff (by simpa using hlist)).mpr ⟨e, he, broken, hbroken, rfl⟩, hqueue,
    ?_, fun hsingle => hlines ?_⟩
  · -- the three kinds of placeholders have the same lexemes in both layouts, up to line feeds
    have hassemble {start join stop : List Command}
        (hstart : Spells Json.NoComment start (inset broken))
        (hjoin : Spells Json.NoComment join [.gap broken])
        (hstop : Spells Json.NoComment stop (inset broken)) :
        Spells Json.NoComment (assemble start join stop e.value.1)
          (inset broken ++ separated spaced sign broken lss ++ inset broken) := by
      have hmiddle := hspell.filled "sequence-join" join broken hjoin
      simpa [assemble] using (hstart.deferred "sequence-open").append
        (hmiddle.append (hstop.deferred "sequence-close"))
    cases broken with
    | true =>
        exact hassemble (spells_inset Command.spells_indent) Command.spells_newline
          (spells_inset Command.spells_dedent)
    | false =>
        exact hassemble Command.spells_nil (Command.spells_text [.gap false] rfl (by simp))
          Command.spells_nil
  · -- a list with an item of several lines is broken
    obtain rfl : broken = false := hsingle
    by_contra hneeded
    rw [Bool.not_eq_false] at hneeded
    simp [breaks, hneeded] at hbroken

/-- **A list with commas**, broken over several lines or not. -/
lemma gives_sequence (h : List.Forall₂ (fun a ls => Gives s (item a) ls) list lss) :
    ∃ b, Gives s (sequence false "," item (list.map some))
      (inset b ++ commaList b lss ++ inset b) := by
  by_cases hlist : list = []
  · subst hlist
    cases h
    exact ⟨false, gives_pure⟩
  · have hcomma : Spells Json.NoComment [.text ","] (marked false ",") :=
      Command.spells_text _ rfl (by simp [marked])
    obtain ⟨e, he, hqueue, hspells, -⟩ := sequence_spells hcomma h hlist
    exact ⟨e.multiline, e, he, hqueue, commaList_eq _ lss ▸ hspells⟩

end Sequences

/-! ## Arguments -/

/-- What stands behind a comma between two arguments: a gap, or the comments that waited for their
place. -/
def BehindComma (known : Json → Prop) (b : Bool) (gs : List Lexeme) : Prop :=
  gs = [.gap b] ∨ (∃ c, known c) ∧ IsPadding gs ∧ gs ≠ []

lemma BehindComma.isPadding {b : Bool} {gs : List Lexeme} (h : BehindComma known b gs) :
    IsPadding gs ∧ gs ≠ [] := by
  rcases h with rfl | ⟨-, hgs⟩
  · exact ⟨isPadding_gap b, by simp⟩
  · exact hgs

/-- What goes between two arguments. -/
lemma argumentGap_spell (hknown : ∀ c, known c → c.IsComment) (q : Waiting known) :
    ∃ gap line, ∃ gs : Bool → List Lexeme,
      Rules.argumentGap s q.1 = .ok ⟨(gap, line), [], false, []⟩ ∧
      SlotsSpell known gap (fun b => [.token ",", .gap b]) (fun b => .token "," :: gs b) ∧
      ∀ b, BehindComma known b (gs b) := by
  by_cases hq : q.1 = []
  · refine ⟨[.join], false, fun b => [.gap b], ?_, slotsSpell_join, fun _ => Or.inl rfl⟩
    rw [argumentGap_eq_ok_iff, if_pos hq]
  · obtain ⟨found, hfound, gs, hgs, hspells⟩ := betweenArguments_spell hknown q.2
    obtain ⟨c, hc⟩ := List.exists_mem_of_ne_nil _ hq
    have hcomma : Spells known [.text ", "] [.token ",", .gap false] :=
      Command.spells_text _ rfl (by simp)
    have hgap : Rules.argumentGap s q.1 =
        .ok ⟨(.own (.text ", ") :: Slot.ofCommands found.1, found.2), [], false, []⟩ := by
      rw [argumentGap_eq_ok_iff, if_neg hq]
      exact ⟨found, hfound, rfl⟩
    exact ⟨_, _, fun _ => .gap false :: gs, hgap, slotsSpell_ofCommands (hcomma.append hspells),
      fun _ => Or.inr ⟨⟨c, q.2 c hc⟩, (isPadding_gap false).append hgs, by simp⟩⟩

section Arguments

variable {node : Json} {inner : Inner node} {list : List (Json.Part node)}

/-- The arguments of a call, with what is filled in between any two of them. -/
lemma arguments_spell (hknown : ∀ c, known c → c.IsComment) {Ps : List (List Lexeme → Prop)}
    (h : List.Forall₂ (fun a P => GivesAmid known s (inner.value a) P) list Ps)
    (q : Waiting known) :
    ∃ e lss, ∃ ls : Bool → List Lexeme, ∃ q' : Waiting known,
      Rules.arguments inner list s q.1 = .ok e ∧ e.queue = q'.1 ∧
      SlotsSpell known (e.value.front ++ Slot.ofCommands e.value.last)
        (fun b => [.token ",", .gap b]) ls ∧
      List.Forall₂ (fun P ms => P ms) Ps lss ∧ ∀ b, Commas (BehindComma known b) (ls b) lss := by
  induction h generalizing q with
  | nil =>
      have hnone : SlotsSpell known [] (fun b => [.token ",", .gap b]) fun _ => [] :=
        slotsSpell_ofCommands Command.spells_nil
      exact ⟨_, [], fun _ => [], q, rfl, rfl, hnone, .nil, fun _ => .nil⟩
  | @cons a P list Ps ha hlist ih =>
      obtain ⟨q', ms, ⟨held, hheld, hqueue, hspells⟩, hms⟩ := ha q
      have hown : SlotsSpell known (Slot.ofCommands held.commands)
          (fun b => [.token ",", .gap b]) fun _ => ms := slotsSpell_ofCommands hspells
      cases hlist with
      | nil =>
          exact ⟨_, [ms], fun _ => ms, q', arguments_last_eq_ok_iff.mpr ⟨held, hheld, rfl⟩, hqueue,
            hown, .cons hms .nil, fun _ => .one ms⟩
      | cons hb hrest =>
          obtain ⟨others, lss, rest, q'', hothers, hqueue', hspell, hlss, hcommas⟩ := ih .none
          obtain ⟨gap, line, gs, hgap, hspell', hgs⟩ := argumentGap_spell (s := s) hknown q'
          refine ⟨_, ms :: lss, fun b => ms ++ .token "," :: (gs b ++ rest b), q'',
            (arguments_cons_eq_ok_iff (by simp)).mpr
              ⟨held, hheld, _, hqueue ▸ hgap, others, hothers, rfl⟩,
            hqueue', ?_, .cons hms hlss, fun b => ?_⟩
          · simpa using (hown.append hspell').append hspell
          · cases hlss with
            | cons => exact .more ms (hgs b) (hcommas b)

/-- **The argument list of a call**, broken over several lines or not. -/
lemma givesAmid_callArguments (hknown : ∀ c, known c → c.IsComment) {part : Json.Part node}
    (hpart : node.require "arguments" = .ok part) (hlist : Json.parts part = .ok list)
    {Ps : List (List Lexeme → Prop)}
    (h : List.Forall₂ (fun a P => GivesAmid known s (inner.value a) P) list Ps) :
    GivesAmid known s (Rules.callArguments inner) fun ls => ∃ b ms lss, ls = enclosed b ms ∧
      Commas (BehindComma known b) ms lss ∧ List.Forall₂ (fun P ms => P ms) Ps lss := by
  intro q
  obtain ⟨e, lss, ls, q', he, hqueue, hspell, hlss, hcommas⟩ := arguments_spell hknown h q
  have hmeasured : ∀ c ∈ Slot.fill "arguments-join" [] e.value.front, ∃ n, c.width = .ok n := by
    intro c hc
    exact hspell.measured "arguments-join" [] c (by simp [Slot.fill_append, hc])
  obtain ⟨broken, hbroken⟩ := breaks_of_measured hmeasured e.value.frontMultiline s.width
  have hargumentList {start join stop : List Command} (hstart : Spells known start (inset broken))
      (hjoin : Spells known join [.token ",", .gap broken])
      (hstop : Spells known stop (inset broken)) :
      Spells known (Rules.argumentList e.value start join stop) (enclosed broken (ls broken)) := by
    have hmiddle := hspell.filled "arguments-join" join broken hjoin
    rw [Slot.fill_append, Slot.fill_ofCommands] at hmiddle
    have hopen : Spells known [.text "("] [.token "("] := Command.spells_text _ rfl (by simp)
    have hclose : Spells known [.text ")"] [.token ")"] := Command.spells_text _ rfl (by simp)
    have hstart := hopen.append (hstart.deferred "arguments-open")
    simpa [Rules.argumentList, enclosed] using hstart.append
      (hmiddle.append ((hstop.deferred "arguments-close").append hclose))
  have hcomma : Spells known [.text ","] [.token ","] := Command.spells_text _ rfl (by simp)
  have hspace : Spells known [.text ", "] [.token ",", .gap false] :=
    Command.spells_text _ rfl (by simp)
  refine ⟨q', _, ⟨_, callArguments_eq_ok_iff.mpr
    ⟨part, hpart, list, hlist, e, he, broken, hbroken, rfl⟩, hqueue, ?_⟩,
    broken, ls broken, lss, rfl, hcommas broken, hlss⟩
  cases broken with
  | true =>
      exact hargumentList (spells_inset Command.spells_indent)
        (hcomma.append Command.spells_newline) (spells_inset Command.spells_dedent)
  | false => exact hargumentList Command.spells_nil hspace Command.spells_nil

/-- The same without comments. -/
lemma gives_callArguments {part : Json.Part node} (hpart : node.require "arguments" = .ok part)
    (hlist : Json.parts part = .ok list) {lss : List (List Lexeme)}
    (h : List.Forall₂ (fun a ls => Gives s (inner.value a) ls) list lss) :
    ∃ b, Gives s (Rules.callArguments inner) (enclosed b (commaList b lss)) := by
  have hamid : List.Forall₂ (fun a P => GivesAmid Json.NoComment s (inner.value a) P) list
      (lss.map fun ls => (· = ls)) := by
    refine List.forall₂_map_right_iff.mpr (h.imp fun a ls ha q => ?_)
    rw [q.eq_none]
    exact ⟨.none, ls, ha, rfl⟩
  obtain ⟨q', _, hgives, b, ms, lss', rfl, hcommas, hlss⟩ :=
    givesAmid_callArguments (by simp) hpart hlist hamid .none
  rw [List.forall₂_map_left_iff] at hlss
  have hsame : lss = lss' := List.forall₂_eq_eq_eq ▸ hlss.imp fun _ _ => Eq.symm
  refine ⟨b, ?_⟩
  have hgap (gs : List Lexeme) (hgs : BehindComma Json.NoComment b gs) : gs = [.gap b] :=
    hgs.resolve_right fun hsome => hsome.1.elim fun _ => id
  rw [hsame, ← hcommas.eq_commaList hgap]
  rwa [q'.eq_none] at hgives

end Arguments

/-! ## Branches -/

variable {x y : Render Unit} {ls ms : List Lexeme} {q q' q'' : Waiting known}

/-- **The branches of a conditional expression**, on lines of their own or not. -/
lemma gives_branches (hx : GivesFrom s q x ls q') (hy : GivesFrom s q' y ms q'') :
    ∃ b, GivesFrom s q (do
      let yes ← fork x
      let no ← fork y
      raiseIf (yes.multiline || no.multiline)
      emit (Rules.branches (yes.multiline || no.multiline) yes.commands no.commands))
      (.gap b :: .token "?" :: .gap false :: (ls ++ .gap b :: .token ":" :: .gap false :: ms))
      q'' := by
  obtain ⟨yes, hyes, hqueue, hspells⟩ := hx
  obtain ⟨no, hno, hqueue', hspells'⟩ := hy
  refine ⟨yes.multiline || no.multiline, _,
    branches_eq_ok_iff.mpr ⟨yes, hyes, no, hqueue ▸ hno, rfl⟩, hqueue', ?_⟩
  generalize (yes.multiline || no.multiline) = broken
  cases broken with
  | true =>
      have hquestion : Spells known [.text "? "] [.token "?", .gap false] :=
        Command.spells_text _ rfl (by simp)
      have hcolon : Spells known [.text ": "] [.token ":", .gap false] :=
        Command.spells_text _ rfl (by simp)
      have hyes := (Command.spells_indent.append (Command.spells_newline.append hquestion)).deferred
        "conditional-consequent"
      have hno := (Command.spells_newline.append hcolon).deferred "conditional-alternate"
      simpa [Rules.branches] using (hyes.append hspells).append
        (hno.append (hspells'.append Command.spells_dedent))
  | false =>
      have hquestion : Spells known [.text " ? "] [.gap false, .token "?", .gap false] :=
        Command.spells_text _ rfl (by simp)
      have hcolon : Spells known [.text " : "] [.gap false, .token ":", .gap false] :=
        Command.spells_text _ rfl (by simp)
      have hyes := hquestion.deferred "conditional-consequent"
      have hno := hcolon.deferred "conditional-alternate"
      simpa [Rules.branches] using (hyes.append hspells).append (hno.append hspells')

end Render

end EstreePrinter
