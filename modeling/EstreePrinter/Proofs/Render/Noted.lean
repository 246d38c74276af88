import Mathlib
import EstreePrinter.Proofs.Render.Layout
import EstreePrinter.Proofs.Render.Tree

/-!
# Renderings that note what they handle

Which nodes a rendering goes through cannot be seen from its commands.  So that it can, the tree is
rendered once more, by the same rules, and whenever a node has been handled a note is left behind
it: `Render.noted`.  A note is a command that prints nothing, that no rule emits, and that has no
width, so it changes no decision about line breaks.

**`Render.mirrors_tree`** — a rendering that succeeds also succeeds with notes, and but for the
notes it is the same.

The argument is a simulation.  `Render.Mirrors R x y` relates a step `x` to a step `y` that leaves
notes; the values they find out are related by `R`, since a step that holds commands back has the
notes in its value.
-/

namespace EstreePrinter

open Json (Part)

/-! ## Notes -/

namespace Command

/-- The note that a node has been handled: a chunk without text, with the node for its place. -/
def note (node : Json) : Command := .foreignChunk (.str "") (some ⟨⟨node, .null⟩, ⟨.null, .null⟩⟩)

/-- The node of a note. -/
def noted? : Command → Option Json
  | .foreignChunk (.str s) (some span) => if s = "" then some span.start.line else none
  | _ => none

@[simp] lemma noted?_note (node : Json) : (note node).noted? = some node := rfl

/-- Commands without their notes. -/
def unnoted (commands : List Command) : List Command := commands.filter fun c => c.noted?.isNone

@[simp] lemma unnoted_nil : unnoted [] = [] := rfl

@[simp] lemma unnoted_append (cs ds : List Command) :
    unnoted (cs ++ ds) = unnoted cs ++ unnoted ds := List.filter_append cs ds

@[simp] lemma unnoted_cons (c : Command) (rest : List Command) :
    unnoted (c :: rest) = if c.noted?.isNone then c :: unnoted rest else unnoted rest :=
  List.filter_cons

/-- Commands among which there is no note. -/
lemma unnoted_eq_self {commands : List Command} (h : ∀ c ∈ commands, c.noted? = none) :
    unnoted commands = commands :=
  List.filter_eq_self.mpr fun c hc => by simp [h c hc]

lemma IsFlat.noted? {c : Command} (h : c.IsFlat) : c.noted? = none := by
  cases c with
  | foreignChunk v span => exact absurd h id
  | _ => rfl

lemma IsPlain.noted? {c : Command} (h : c.IsPlain) : c.noted? = none := by
  cases c with
  | foreignChunk v span => exact absurd h id
  | _ => rfl

lemma noted?_chunkOf (content : Json) (span : Option Span) :
    (chunkOf content span).noted? = none := by
  cases content <;> rfl

/-- A note has no width. -/
lemma width_of_noted? {c : Command} {node : Json} (h : c.noted? = some node) : c.width = .ok 0 := by
  cases c with
  | foreignChunk v span =>
      cases v with
      | str s =>
          cases span with
          | none => cases h
          | some span =>
              obtain rfl : s = "" := by
                by_contra hs
                simp [Command.noted?, hs] at h
              rfl
      | _ => cases h
  | _ => cases h

lemma totalWidth_unnoted (commands : List Command) :
    totalWidth (unnoted commands) = totalWidth commands := by
  induction commands with
  | nil => rfl
  | cons c rest ih =>
      cases h : c.noted? with
      | none => simp [h, totalWidth, ih]
      | some node =>
          simp only [unnoted_cons, h, Option.isNone_some, Bool.false_eq_true, if_false, totalWidth,
            width_of_noted? h, ok_bind, Nat.zero_add, ih]
          exact (bind_pure _).symm

end Command

namespace Slot

/-- Slots without the notes among them. -/
def unnoted (slots : List Slot) : List Slot :=
  slots.filter fun
    | .own c => c.noted?.isNone
    | .join => true

@[simp] lemma unnoted_nil : unnoted [] = [] := rfl

@[simp] lemma unnoted_append (xs ys : List Slot) :
    unnoted (xs ++ ys) = unnoted xs ++ unnoted ys := List.filter_append xs ys

lemma unnoted_ofCommands (commands : List Command) :
    unnoted (ofCommands commands) = ofCommands (Command.unnoted commands) := by
  simp only [unnoted, ofCommands, Command.unnoted, List.filter_map]
  rfl

lemma unnoted_fill (name : String) (contents : List Command) (slots : List Slot) :
    Command.unnoted (fill name contents slots) = fill name contents (unnoted slots) := by
  induction slots with
  | nil => rfl
  | cons slot rest ih =>
      cases slot with
      | join => simpa [fill, unnoted, Command.noted?] using ih
      | own c =>
          cases h : c.noted? with
          | none => simpa [fill, unnoted, h] using ih
          | some node => simpa [fill, unnoted, h] using ih

lemma unnoted_itemComments (isLast : Bool) (comments : List Json) :
    unnoted (Render.itemComments isLast comments) = Render.itemComments isLast comments := by
  induction comments with
  | nil => rfl
  | cons comment rest ih =>
      cases isLast <;> simpa [Render.itemComments, unnoted, Command.noted?] using ih

end Slot

namespace Render

variable {α β γ δ : Type}

/-! ## Steps side by side -/

/-- **A step is mirrored**: whenever it succeeds so does the other one, with a related value, and
but for its notes that does the same. -/
def Mirrors (R : α → β → Prop) (x : Render α) (y : Render β) : Prop :=
  ∀ s q e, x s q = .ok e → ∃ e', y s q = .ok e' ∧ R e.value e'.value ∧
    Command.unnoted e'.commands = e.commands ∧ e'.multiline = e.multiline ∧ e'.queue = e.queue

lemma Mirrors.bind {R : α → β → Prop} {S : γ → δ → Prop} {x : Render α} {y : Render β}
    {f : α → Render γ} {g : β → Render δ} (hx : Mirrors R x y)
    (hf : ∀ a b, R a b → Mirrors S (f a) (g b)) : Mirrors S (x >>= f) (y >>= g) := by
  intro s q e h
  obtain ⟨first, hfirst, second, hsecond, rfl⟩ := bind_eq_ok_iff.mp h
  obtain ⟨first', hfirst', hvalue, hcommands, hmultiline, hqueue⟩ := hx _ _ _ hfirst
  obtain ⟨second', hsecond', hvalue', hcommands', hmultiline', hqueue'⟩ :=
    hf _ _ hvalue _ _ _ hsecond
  rw [← hqueue] at hsecond'
  exact ⟨first'.andThen second', bind_eq_of_ok hfirst' hsecond', hvalue',
    by simp [Emission.andThen, hcommands, hcommands'],
    by simp [Emission.andThen, hmultiline, hmultiline'], hqueue'⟩

lemma mirrors_pure {R : α → β → Prop} {a : α} {b : β} (h : R a b) :
    Mirrors R (pure a) (pure b) := by
  intro s q e he
  obtain rfl := Except.ok.inj he
  exact ⟨_, rfl, h, rfl, rfl, rfl⟩

/-- A step that leaves no note is mirrored by itself. -/
lemma mirrors_self {x : Render α}
    (h : ∀ s q e, x s q = .ok e → ∀ c ∈ e.commands, c.noted? = none) : Mirrors Eq x x :=
  fun s q e he => ⟨e, he, rfl, Command.unnoted_eq_self (h s q e he), rfl, rfl⟩

/-- A step that emits nothing. -/
lemma mirrors_quiet {x : Render α} (h : ∀ s q e, x s q = .ok e → e.commands = []) :
    Mirrors Eq x x :=
  mirrors_self fun s q e he => by simp [h s q e he]

lemma mirrors_read (x : Except Fault α) : Mirrors Eq (liftM x : Render α) (liftM x) :=
  mirrors_quiet fun s q e h => by
    obtain ⟨a, -, rfl⟩ := read_eq_ok_iff.mp h
    rfl

/-- Something is read first; it is enough to look at what can be read. -/
lemma mirrors_readingOf {R : α → β → Prop} {x : Except Fault γ} {f : γ → Render α}
    {g : γ → Render β} (hf : ∀ a, x = .ok a → Mirrors R (f a) (g a)) :
    Mirrors R ((liftM x : Render γ) >>= f) ((liftM x : Render γ) >>= g) := by
  have hread : Mirrors (fun a b => b = a ∧ x = .ok a) (liftM x : Render γ) (liftM x) := by
    intro s q e h
    obtain ⟨a, ha, rfl⟩ := read_eq_ok_iff.mp h
    exact ⟨_, h, ⟨rfl, ha⟩, rfl, rfl, rfl⟩
  refine hread.bind ?_
  rintro _ a ⟨rfl, ha⟩
  exact hf a ha

lemma mirrors_reading {R : α → β → Prop} {x : Except Fault γ} {f : γ → Render α}
    {g : γ → Render β} (hf : ∀ a, Mirrors R (f a) (g a)) :
    Mirrors R ((liftM x : Render γ) >>= f) ((liftM x : Render γ) >>= g) :=
  mirrors_readingOf fun a _ => hf a

lemma mirrors_setting : Mirrors Eq setting setting :=
  mirrors_quiet fun s q e h => by
    obtain rfl := Except.ok.inj h
    rfl

lemma mirrors_raiseIf (b : Bool) : Mirrors Eq (raiseIf b) (raiseIf b) :=
  mirrors_quiet fun s q e h => by
    obtain rfl := Except.ok.inj h
    rfl

lemma mirrors_takeQueue : Mirrors Eq takeQueue takeQueue :=
  mirrors_quiet fun s q e h => by
    obtain rfl := Except.ok.inj h
    rfl

lemma mirrors_emit {cs ds : List Command} (h : Command.unnoted ds = cs) :
    Mirrors Eq (emit cs) (emit ds) := by
  intro s q e he
  obtain rfl := Except.ok.inj he
  exact ⟨_, rfl, rfl, h, rfl, rfl⟩

lemma mirrors_plain (commands : List Command)
    (h : Command.unnoted commands = commands := by rfl) :
    Mirrors Eq (emit commands) (emit commands) :=
  mirrors_emit h

/-- A step that emits flat commands only. -/
lemma mirrors_flat {x : Render α} (h : ∀ s q e, x s q = .ok e → ∀ c ∈ e.commands, c.IsFlat) :
    Mirrors Eq x x :=
  mirrors_self fun s q e he c hc => (h s q e he c hc).noted?

/-- What is held back is the same but for its notes. -/
def Held.Matches (held held' : Held) : Prop :=
  Command.unnoted held'.commands = held.commands ∧ held'.multiline = held.multiline

lemma Mirrors.fork {x y : Render Unit} (h : Mirrors Eq x y) :
    Mirrors Held.Matches (fork x) (fork y) := by
  intro s q e he
  obtain ⟨inner, hinner, rfl⟩ := fork_eq_ok_iff.mp he
  obtain ⟨inner', hinner', -, hcommands, hmultiline, hqueue⟩ := h _ _ _ hinner
  exact ⟨_, fork_eq_ok_iff.mpr ⟨inner', hinner', rfl⟩, ⟨hcommands, hmultiline⟩, rfl, rfl, hqueue⟩

/-! ## Comments -/

lemma mirrors_leadingComments (newlines : Bool) (node : Json) (comments : List Json) :
    Mirrors Eq (leadingComments newlines node comments) (leadingComments newlines node comments) :=
  mirrors_flat fun s q e h => by
    obtain ⟨commands, hcommands, rfl⟩ := leadingComments_eq_ok_iff.mp h
    exact Invariant.isFlat_leading hcommands

lemma mirrors_drainAfterStatement : Mirrors Eq drainAfterStatement drainAfterStatement :=
  mirrors_flat fun s q e h => by
    obtain ⟨commands, hcommands, rfl⟩ := drainAfterStatement_eq_ok_iff.mp h
    exact Invariant.isFlat_afterStatement hcommands

lemma mirrors_queueTrailing (node : Json) : Mirrors Eq (queueTrailing node) (queueTrailing node) :=
  mirrors_quiet fun s q e h => by rw [queueTrailing_eq_ok h]

/-! ## Lists that may break -/

/-- The slots of a list and whether it needs several lines, the same but for the notes. -/
def SlotsMatch (v v' : List Slot × Bool) : Prop := Slot.unnoted v'.1 = v.1 ∧ v'.2 = v.2

lemma mirrors_items (separator : String) {item item' : α → Render Unit}
    (hitem : ∀ a, Mirrors Eq (item a) (item' a)) (afterHole : Bool) (list : List (Option α)) :
    Mirrors SlotsMatch (items separator item afterHole list) (items separator item' afterHole list)
      := by
  induction list generalizing afterHole with
  | nil => exact mirrors_pure ⟨rfl, rfl⟩
  | cons a rest ih =>
      cases a with
      | none =>
          refine (ih true).bind ?_
          rintro ⟨_, _⟩ ⟨slots, broken⟩ ⟨rfl, rfl⟩
          exact mirrors_pure ⟨rfl, rfl⟩
      | some a =>
          refine (hitem a).fork.bind ?_
          rintro ⟨_, _⟩ ⟨held, multiline⟩ ⟨rfl, rfl⟩
          refine mirrors_takeQueue.bind ?_
          rintro comments _ rfl
          refine (ih false).bind ?_
          rintro ⟨_, _⟩ ⟨slots, broken⟩ ⟨rfl, rfl⟩
          refine mirrors_pure ⟨?_, rfl⟩
          have hgap : Slot.unnoted (if comments.isEmpty then (if rest.isEmpty then [] else [.join])
              else .own (.text " ") :: itemComments rest.isEmpty comments) =
              if comments.isEmpty then (if rest.isEmpty then [] else [.join])
              else .own (.text " ") :: itemComments rest.isEmpty comments := by
            have hcomments := Slot.unnoted_itemComments rest.isEmpty comments
            cases comments with
            | nil => cases rest <;> rfl
            | cons comment more =>
                simpa [Slot.unnoted, Command.noted?] using hcomments
          have hfront : Slot.unnoted (if afterHole then [.join] else []) =
              if afterHole then [.join] else [] := by
            cases afterHole <;> rfl
          have hseparator : Slot.unnoted (if rest.isEmpty then [] else [.own (.text separator)]) =
              if rest.isEmpty then [] else [.own (.text separator)] := by
            cases rest <;> rfl
          simp only [Slot.unnoted_append, Slot.unnoted_ofCommands, hgap, hfront, hseparator]

/-- A decision that depends on the notes in no way. -/
lemma breaks_unnoted (needed : Bool) {cs ds : List Command} (h : Command.unnoted ds = cs)
    (width : Int) : breaks needed ds width = breaks needed cs width := by
  rw [← h]
  simp only [breaks, Command.totalWidth_unnoted]

lemma unnoted_assemble (start join stop : List Command) (slots : List Slot) :
    Command.unnoted (assemble start join stop slots) =
      assemble start join stop (Slot.unnoted slots) := by
  simp [assemble, Slot.unnoted_fill, Command.noted?]

lemma mirrors_sequence (spaces : Bool) (separator : String) {item item' : α → Render Unit}
    (hitem : ∀ a, Mirrors Eq (item a) (item' a)) (list : List (Option α)) :
    Mirrors Eq (sequence spaces separator item list) (sequence spaces separator item' list) := by
  unfold sequence
  split
  · exact mirrors_pure rfl
  · refine (mirrors_items separator hitem false list).bind ?_
    rintro ⟨_, _⟩ ⟨slots, broken⟩ ⟨rfl, rfl⟩
    refine mirrors_setting.bind ?_
    rintro s _ rfl
    dsimp only
    rw [breaks_unnoted broken (unnoted_assemble [] [] [] slots)]
    refine mirrors_reading fun wide => ?_
    split
    · exact (mirrors_raiseIf true).bind fun _ _ _ => mirrors_emit (unnoted_assemble _ _ _ slots)
    · exact mirrors_emit (unnoted_assemble _ _ _ slots)

lemma mirrors_joined {item item' : α → Render Unit} (hitem : ∀ a, Mirrors Eq (item a) (item' a))
    (list : List α) : Mirrors SlotsMatch (joined item list) (joined item' list) := by
  induction list with
  | nil => exact mirrors_pure ⟨rfl, rfl⟩
  | cons a rest ih =>
      refine (hitem a).fork.bind ?_
      rintro ⟨_, _⟩ ⟨held, multiline⟩ ⟨rfl, rfl⟩
      refine ih.bind ?_
      rintro ⟨_, _⟩ ⟨slots, broken⟩ ⟨rfl, rfl⟩
      refine mirrors_pure ⟨?_, rfl⟩
      have hjoin : Slot.unnoted (if rest.isEmpty then [] else [.join]) =
          if rest.isEmpty then [] else [.join] := by
        cases rest <;> rfl
      simp only [Slot.unnoted_append, Slot.unnoted_ofCommands, hjoin]

lemma unnoted_assembleDeclarations (keyword : String) (start join : List Command)
    (slots : List Slot) : Command.unnoted (assembleDeclarations keyword start join slots) =
      assembleDeclarations keyword start join (Slot.unnoted slots) := by
  simp [assembleDeclarations, Slot.unnoted_fill, Command.noted?]

/-- The last step of a declaration. -/
lemma mirrors_emitDeclarations (keyword : String) (start : List Command) {stop : List Command}
    (hstop : Command.unnoted stop = stop) (slots : List Slot) (wide : Bool) :
    Mirrors Eq
      (if wide then do
        raise
        emit (assembleDeclarations keyword start [.text ",", .newline] (Slot.unnoted slots) ++ stop)
      else emit (assembleDeclarations keyword [] [.text ", "] (Slot.unnoted slots)))
      (if wide then do
        raise
        emit (assembleDeclarations keyword start [.text ",", .newline] slots ++ stop)
      else emit (assembleDeclarations keyword [] [.text ", "] slots)) := by
  split
  · refine (mirrors_raiseIf true).bind fun _ _ _ => mirrors_emit ?_
    rw [Command.unnoted_append, unnoted_assembleDeclarations, hstop]
  · exact mirrors_emit (unnoted_assembleDeclarations _ _ _ slots)

variable {node : Json} {inner inner' : Inner node}

lemma mirrors_declarations (hinner : ∀ part, Mirrors Eq (inner.value part) (inner'.value part)) :
    Mirrors Eq (declarations node inner) (declarations node inner') := by
  refine mirrors_reading fun list => mirrors_reading fun declarators => ?_
  have hword :
      Mirrors Eq (textIf node "declare" "declare ") (textIf node "declare" "declare ") := by
    refine mirrors_reading fun declare => ?_
    split
    · exact mirrors_emit rfl
    · exact mirrors_pure rfl
  refine hword.bind fun _ _ _ => mirrors_reading fun kind => ?_
  refine (mirrors_joined hinner declarators).bind ?_
  rintro ⟨_, _⟩ ⟨slots, broken⟩ ⟨rfl, rfl⟩
  refine mirrors_setting.bind ?_
  rintro s _ rfl
  dsimp only
  rw [breaks_unnoted broken (unnoted_assembleDeclarations _ _ _ slots)]
  split
  · exact mirrors_reading (mirrors_emitDeclarations _ [.indent] rfl slots)
  · rw [pure_bind, pure_bind]
    exact mirrors_emitDeclarations _ [] rfl slots broken

/-! ## Arguments -/

/-- Arguments that are the same but for the notes. -/
structure ArgumentsMatch (args args' : Rules.Arguments) : Prop where
  front : Slot.unnoted args'.front = args.front
  frontMultiline : args'.frontMultiline = args.frontMultiline
  last : Command.unnoted args'.last = args.last
  lastMultiline : args'.lastMultiline = args.lastMultiline

lemma noted?_betweenArguments {comments : List Json} {found : List Command × Bool}
    (h : betweenArguments comments = .ok found) : ∀ c ∈ found.1, c.noted? = none := by
  induction comments generalizing found with
  | nil =>
      obtain rfl := Except.ok.inj h
      simp
  | cons comment rest ih =>
      rw [betweenArguments] at h
      obtain ⟨line, -, h⟩ := EstreePrinter.bind_eq_ok_iff.mp h
      obtain ⟨others, hothers, h⟩ := EstreePrinter.bind_eq_ok_iff.mp h
      obtain rfl := Except.ok.inj h
      simpa [Command.noted?] using ih hothers

lemma mirrors_argumentGap : Mirrors SlotsMatch Rules.argumentGap Rules.argumentGap := by
  intro s q e h
  refine ⟨e, h, ⟨?_, rfl⟩, by simp [(argumentGap_quiet h).1], rfl, rfl⟩
  rw [argumentGap_eq_ok_iff] at h
  split at h
  · subst h
    rfl
  · obtain ⟨found, hfound, rfl⟩ := h
    have hgap := Slot.unnoted_ofCommands found.1
    rw [Command.unnoted_eq_self (noted?_betweenArguments hfound)] at hgap
    simpa [Slot.unnoted, Command.noted?] using hgap

lemma mirrors_arguments (hinner : ∀ part, Mirrors Eq (inner.value part) (inner'.value part))
    (list : List (Part node)) :
    Mirrors ArgumentsMatch (Rules.arguments inner list) (Rules.arguments inner' list) := by
  induction list with
  | nil => exact mirrors_pure ⟨rfl, rfl, rfl, rfl⟩
  | cons argument rest ih =>
      refine fun s q e h => ?_
      cases rest with
      | nil =>
          revert s q e
          refine (hinner argument).fork.bind ?_
          rintro ⟨_, _⟩ ⟨held, multiline⟩ ⟨rfl, rfl⟩
          exact mirrors_pure ⟨rfl, rfl, rfl, rfl⟩
      | cons next rest =>
          revert s q e
          refine (hinner argument).fork.bind ?_
          rintro ⟨_, _⟩ ⟨held, multiline⟩ ⟨rfl, rfl⟩
          refine mirrors_argumentGap.bind ?_
          rintro ⟨_, _⟩ ⟨gap, line⟩ ⟨rfl, rfl⟩
          refine ih.bind fun args args' hargs => mirrors_pure ⟨?_, ?_, hargs.last, hargs.lastMultiline⟩
          · simp only [Slot.unnoted_append, Slot.unnoted_ofCommands, hargs.front]
          · simp only [hargs.frontMultiline]

lemma mirrors_callArguments (hinner : ∀ part, Mirrors Eq (inner.value part) (inner'.value part)) :
    Mirrors Eq (Rules.callArguments inner) (Rules.callArguments inner') := by
  refine mirrors_reading fun part => mirrors_reading fun list => ?_
  refine (mirrors_arguments hinner list).bind fun args args' hargs => ?_
  refine mirrors_setting.bind ?_
  rintro s _ rfl
  have hlist (start join stop : List Command) :
      Command.unnoted (Rules.argumentList args' start join stop) =
        Rules.argumentList args start join stop := by
    simp [Rules.argumentList, Slot.unnoted_fill, hargs.front, hargs.last, Command.noted?]
  have hfront : Command.unnoted (Slot.fill "arguments-join" [] args'.front) =
      Slot.fill "arguments-join" [] args.front := by
    rw [Slot.unnoted_fill, hargs.front]
  rw [hargs.frontMultiline, hargs.lastMultiline, breaks_unnoted _ hfront]
  refine mirrors_reading fun broken => (mirrors_raiseIf _).bind fun _ _ _ => mirrors_emit ?_
  split
  · exact hlist _ _ _
  · exact hlist _ _ _

lemma mirrors_branches {x y x' y' : Render Unit} (hx : Mirrors Eq x x') (hy : Mirrors Eq y y') :
    Mirrors Eq
      (do
        let yes ← fork x
        let no ← fork y
        raiseIf (yes.multiline || no.multiline)
        emit (Rules.branches (yes.multiline || no.multiline) yes.commands no.commands))
      (do
        let yes ← fork x'
        let no ← fork y'
        raiseIf (yes.multiline || no.multiline)
        emit (Rules.branches (yes.multiline || no.multiline) yes.commands no.commands)) := by
  refine hx.fork.bind ?_
  rintro ⟨_, _⟩ ⟨yes, broken⟩ ⟨rfl, rfl⟩
  refine hy.fork.bind ?_
  rintro ⟨_, _⟩ ⟨no, broken'⟩ ⟨rfl, rfl⟩
  refine (mirrors_raiseIf _).bind fun _ _ _ => mirrors_emit ?_
  cases broken || broken' <;> simp [Rules.branches, Command.noted?]

/-! ## Statements -/

lemma unnoted_margin (before : Option Printed) (after : Printed) :
    Command.unnoted (margin before after) = margin before after := by
  cases before <;> rfl

lemma mirrors_bodyAfter (hinner : ∀ part, Mirrors Eq (inner.bare part) (inner'.bare part))
    (before : Option Printed) (statements : List (Part node)) :
    Mirrors Eq (bodyAfter inner before statements) (bodyAfter inner' before statements) := by
  induction statements generalizing before with
  | nil => exact mirrors_pure rfl
  | cons statement rest ih =>
      refine mirrors_reading fun kind => ?_
      split
      · exact ih before
      · refine mirrors_reading fun list => mirrors_readingOf fun comments hcomments => ?_
        have hflat := Invariant.isFlat_leading hcomments
        refine (hinner statement).fork.bind ?_
        rintro ⟨_, _⟩ ⟨held, multiline⟩ ⟨rfl, rfl⟩
        refine (mirrors_emit ?_).bind fun _ _ _ => mirrors_drainAfterStatement.bind fun _ _ _ => ih _
        rw [Command.unnoted_append, Command.unnoted_append, unnoted_margin,
          Command.unnoted_eq_self fun c hc => (hflat c hc).noted?]

lemma mirrors_braced {x y : Render Unit} (h : Mirrors Eq x y) : Mirrors Eq (braced x) (braced y) :=
  (mirrors_plain _).bind fun _ _ _ => h.bind fun _ _ _ => mirrors_plain _

/-! ## Switch statements -/

lemma mirrors_caseStatements (hinner : ∀ part, Mirrors Eq (inner.value part) (inner'.value part))
    (statements : List (Part node)) :
    Mirrors Eq (Rules.caseStatements inner statements)
      (Rules.caseStatements inner' statements) := by
  induction statements with
  | nil => exact mirrors_pure rfl
  | cons statement rest ih =>
      exact (mirrors_plain _).bind fun _ _ _ => (hinner statement).bind fun _ _ _ =>
        mirrors_drainAfterStatement.bind fun _ _ _ => ih

lemma mirrors_switchCase (hinner : ∀ part, Mirrors Eq (inner.value part) (inner'.value part)) :
    Mirrors Eq (Rules.switchCase inner) (Rules.switchCase inner') := by
  have hconsequent : Mirrors Eq
      (do
        emit [.indent]
        Rules.caseStatements inner (← Json.parts (← node.require "consequent"))
        emit [.dedent])
      (do
        emit [.indent]
        Rules.caseStatements inner' (← Json.parts (← node.require "consequent"))
        emit [.dedent]) :=
    (mirrors_plain _).bind fun _ _ _ => mirrors_reading fun part => mirrors_reading fun list =>
      (mirrors_caseStatements hinner list).bind fun _ _ _ => mirrors_plain _
  refine mirrors_reading fun comments => ?_
  refine (mirrors_leadingComments true .null comments).bind fun _ _ _ => ?_
  refine mirrors_reading fun test => ?_
  cases test with
  | none => exact (mirrors_plain _).bind fun _ _ _ => hconsequent
  | some test =>
      exact (mirrors_plain _).bind fun _ _ _ => (hinner test).bind fun _ _ _ =>
        (mirrors_plain _).bind fun _ _ _ => hconsequent

lemma mirrors_switchCases (hinner : ∀ part, Mirrors Eq (inner.value part) (inner'.value part))
    (isFirst : Bool) (cases : List (Part node)) :
    Mirrors Eq (Rules.switchCases inner isFirst cases)
      (Rules.switchCases inner' isFirst cases) := by
  induction cases generalizing isFirst with
  | nil => exact mirrors_pure rfl
  | cons case rest ih =>
      have hcase : Mirrors Eq
          (do
            emit [.newline]
            Rules.switchCase (inner.under case)
            Rules.switchCases inner false rest)
          (do
            emit [.newline]
            Rules.switchCase (inner'.under case)
            Rules.switchCases inner' false rest) :=
        (mirrors_plain _).bind fun _ _ _ =>
          (mirrors_switchCase fun part => hinner (case.within part)).bind fun _ _ _ => ih false
      unfold Rules.switchCases
      split
      · exact (mirrors_plain _).bind fun _ _ _ => hcase
      · exact hcase

lemma mirrors_switchRule (hinner : ∀ part, Mirrors Eq (inner.value part) (inner'.value part)) :
    Mirrors Eq (Rules.switchRule node inner) (Rules.switchRule node inner') := by
  refine (mirrors_raiseIf true).bind fun _ _ _ => (mirrors_plain _).bind fun _ _ _ => ?_
  refine (mirrors_reading hinner).bind fun _ _ _ => (mirrors_plain _).bind fun _ _ _ => ?_
  refine mirrors_reading fun part => mirrors_reading fun list => ?_
  exact (mirrors_switchCases hinner true list).bind fun _ _ _ => mirrors_plain _

/-! ## Trees -/

/-- **Being mirrored is a correspondence.** -/
def noting : Correspondence where
  Applies _ := True
  applies_inside _ _ := trivial
  Related _ x y := Mirrors Eq x y
  Bare _ x y := Mirrors Eq x y
  Own _ x y := Mirrors Eq x y
  mono _ h := h
  pure a := mirrors_pure rfl
  bind hx hf := hx.bind fun a _ h => h ▸ hf a
  read := mirrors_read
  quote h := mirrors_setting.bind fun s _ hs => hs ▸ h s.quote
  noIn h := mirrors_setting.bind fun s _ hs => hs ▸ h s.noIn
  withNoIn b _ _ h := fun s q e he => h { s with noIn := b } q e he
  emit h := mirrors_emit (Command.unnoted_eq_self fun c hc => (h c hc).noted?)
  chunk content {node} _ := (mirrors_read _).bind fun span _ h =>
    h ▸ mirrors_emit (Command.unnoted_eq_self (by simp [Command.noted?_chunkOf]))
  raiseIf := mirrors_raiseIf
  sequence spaces separator _ _ _ hitem := mirrors_sequence spaces separator hitem
  declarations := mirrors_declarations
  arguments := mirrors_callArguments
  branches := mirrors_branches
  braced hbare statements := mirrors_braced (mirrors_bodyAfter hbare none statements)
  bareRead := mirrors_readingOf
  own _ _ _ h := h
  program _ _ hbare := mirrors_reading fun _ => mirrors_reading fun list =>
    mirrors_bodyAfter hbare none list
  switch _ _ := mirrors_switchRule

/-- What goes with a node in a print is mirrored. -/
lemma mirrors_dressed (role : Role) (node : Json) {x y : Render Unit} (h : Mirrors Eq x y) :
    Mirrors Eq (dressed role node x) (dressed role node y) := by
  have hbehind := h.bind fun _ _ _ => mirrors_queueTrailing node
  cases role with
  | value =>
      exact mirrors_reading fun comments =>
        (mirrors_leadingComments false node comments).bind fun _ _ _ => hbehind
  | bare => exact hbehind
  | type => exact h

/-- **Leaving notes with the nodes changes nothing else**, wherever they are left. -/
theorem mirrors_treeWith {dress : Dressing}
    (hdress : ∀ (role : Role) (node : Json) {x y : Render Unit}, Mirrors Eq x y →
      Mirrors Eq (dressed role node x) (dress role node y)) (role : Role) (node : Json) :
    Mirrors Eq (tree role node) (treeWith dress role node) := by
  have hnoting : noting.Dresses dressed dress :=
    { value := fun _ _ h => hdress .value _ h
      bare := fun _ _ h => hdress .bare _ h
      type := fun _ _ h => hdress .type _ h }
  have htree : noting.Rendered role node (treeWith dressed role node) (treeWith dress role node) :=
    noting.treeWith hnoting role trivial
  rw [treeWith_dressed] at htree
  cases role with
  | _ => exact htree

/-- A node is handled as ever, and then a note of it is left. -/
def noted : Dressing := fun role node x =>
  match role with
  | .type => x
  | role => do
    dressed role node x
    emit [.note node]

lemma mirrors_noted (role : Role) (node : Json) {x y : Render Unit} (h : Mirrors Eq x y) :
    Mirrors Eq (dressed role node x) (noted role node y) := by
  have hnote {x y : Render Unit} (h : Mirrors Eq x y) :
      Mirrors Eq x (y >>= fun _ => emit [.note node]) := by
    have hbind : Mirrors Eq (x >>= fun _ => emit []) (y >>= fun _ => emit [.note node]) :=
      h.bind fun _ _ _ => mirrors_emit rfl
    have hself : (x >>= fun _ => emit []) = x := bind_pure x
    rwa [hself] at hbind
  cases role with
  | value => exact hnote (mirrors_dressed .value node h)
  | bare => exact hnote (mirrors_dressed .bare node h)
  | type => exact h

/-- **Leaving notes changes nothing else.** -/
theorem mirrors_tree (role : Role) (node : Json) :
    Mirrors Eq (tree role node) (treeWith noted role node) :=
  mirrors_treeWith mirrors_noted role node

end Render

end EstreePrinter
