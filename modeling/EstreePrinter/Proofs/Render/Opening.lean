import Mathlib
import EstreePrinter.Proofs.Command.Flattening
import EstreePrinter.Proofs.Render.Noted
import EstreePrinter.Proofs.Render.Plain

/-!
# With what an output begins

Which node the first text of an output belongs to cannot be seen from the commands.  The tree is
rendered once more, by the same rules, with a note in front of each node and one behind it
(`Render.announced`): the nodes that are open at the first text are those whose rendering emits it
(`Command.openers`).

What a rule emits first is either a text of its own or the rendering of one of the parts of its
node.  `Render.Opens P s x` says that whenever the step `x` succeeds in the setting `s`, what it
emits begins with something that `P` allows: `none` stands for a text of its own, `some part` for a
part.  The first step that emits something decides, so there is one lemma for each step a rule can
begin with and one for going past a step that may emit nothing.
-/

namespace EstreePrinter

open Json (Part)

namespace Command

/-! ## Notes in front of a node and behind it -/

/-- The note that a node begins, or ends, here. -/
def bracket (node : Json) (isOpening : Bool) : Command :=
  .foreignChunk (.str "") (some ⟨⟨node, .bool isOpening⟩, ⟨.null, .null⟩⟩)

/-- The node of such a note, and whether it begins there. -/
def bracketed? : Command → Option (Json × Bool)
  | .foreignChunk (.str _) (some ⟨⟨node, .bool isOpening⟩, _⟩) => some (node, isOpening)
  | _ => none

/-- Whether a command is text of the code, and no comment, no layout and no note. -/
def isCode : Command → Bool
  | .text _ => true
  | .chunk _ _ => true
  | .foreign _ => true
  | .foreignChunk (.str _) _ => false
  | .foreignChunk _ _ => true
  | _ => false

/-- The nodes that are open at the first text among some leaves, the innermost first, if there is a
text; `stack` are those that are open before. -/
def openers (stack : List Json) : List Command → Option (List Json)
  | [] => none
  | c :: rest =>
    match c.bracketed? with
    | some (node, true) => openers (node :: stack) rest
    | some (_, false) => openers stack.tail rest
    | none => if c.isCode then some stack else openers stack rest

@[simp] lemma noted?_bracket (node : Json) (isOpening : Bool) :
    (bracket node isOpening).noted? = some node := rfl

@[simp] lemma isCode_text (s : String) : (text s).isCode = true := rfl

@[simp] lemma isCode_ofValue (v : Json) : (ofValue v).isCode = true := by
  cases v <;> rfl

@[simp] lemma isCode_chunkOf (content : Json) (span : Option Span) :
    (chunkOf content span).isCode = true := by
  cases content <;> rfl

lemma bracketed?_of_isCode {c : Command} (h : c.isCode = true) : c.bracketed? = none := by
  cases c with
  | foreignChunk v span =>
      cases v with
      | str s => cases h
      | _ => rfl
  | _ => rfl

lemma noted?_of_isCode {c : Command} (h : c.isCode = true) : c.noted? = none := by
  cases c with
  | foreignChunk v span =>
      cases v with
      | str s => cases h
      | _ => rfl
  | _ => rfl

lemma leaves_of_isCode {c : Command} (h : c.isCode = true) : leaves c = [c] := by
  cases c with
  | deferred name contents => cases h
  | pending name => cases h
  | _ => simp [leaves]

@[simp] lemma openers_bracket (stack : List Json) (node : Json) (rest : List Command) :
    openers stack (bracket node true :: rest) = openers (node :: stack) rest := rfl

@[simp] lemma openers_comment (stack : List Json) (comment : Json) (after : Break)
    (rest : List Command) :
    openers stack (.comment comment after :: rest) = openers stack rest := rfl

lemma openers_of_isCode {c : Command} (h : c.isCode = true) (stack : List Json)
    (rest : List Command) : openers stack (c :: rest) = some stack := by
  rw [openers, bracketed?_of_isCode h]
  simp [h]

/-- The comments before a node are no text of the code. -/
lemma openers_leading {newlines : Bool} {node : Json} {comments : List Json}
    {commands : List Command} (h : Render.leading newlines node comments = .ok commands)
    (stack : List Json) (rest : List Command) :
    openers stack (leavesAll commands ++ rest) = openers stack rest := by
  induction comments generalizing commands with
  | nil =>
      obtain rfl := Except.ok.inj h
      rfl
  | cons comment more ih =>
      obtain ⟨breaks, -, others, hothers, rfl⟩ := Render.leading_cons_eq_ok h
      simp [leaves, ih hothers]

end Command

/-! ## What the output of a step begins with -/

/-- Commands that begin with a text of their own, or with the rendering of a part. -/
def Inner.Begins {node : Json} (inner : Inner node) (s : Setting) :
    Option (Part node) → List Command → Prop
  | none, commands => ∃ c rest, commands = c :: rest ∧ c.isCode = true
  | some part, commands => ∃ q e rest, inner.value part s q = .ok e ∧ commands = e.commands ++ rest

namespace Render

variable {α β : Type} {node : Json} {inner : Inner node} {P Q : Option (Part node) → Prop}
  {s : Setting}

/-- **What a step emits begins with something that `P` allows.** -/
def Opens (inner : Inner node) (P : Option (Part node) → Prop) (s : Setting) (x : Render α) :
    Prop :=
  ∀ q e, x s q = .ok e → ∃ first, P first ∧ inner.Begins s first e.commands

lemma begins_append {first : Option (Part node)} {commands : List Command}
    (h : inner.Begins s first commands) (more : List Command) :
    inner.Begins s first (commands ++ more) := by
  cases first with
  | none =>
      obtain ⟨c, rest, rfl, hc⟩ := h
      exact ⟨c, rest ++ more, rfl, hc⟩
  | some part =>
      obtain ⟨q, e, rest, he, rfl⟩ := h
      exact ⟨q, e, rest ++ more, he, List.append_assoc _ _ _⟩

lemma Opens.mono {x : Render α} (h : Opens inner P s x) (hPQ : ∀ first, P first → Q first) :
    Opens inner Q s x := by
  intro q e he
  obtain ⟨first, hfirst, hbegins⟩ := h q e he
  exact ⟨first, hPQ first hfirst, hbegins⟩

/-! ### One step after another -/

/-- The first step decides. -/
lemma Opens.bind {x : Render α} {f : α → Render β} (h : Opens inner P s x) :
    Opens inner P s (x >>= f) := by
  intro q e he
  obtain ⟨first, hfirst, second, -, rfl⟩ := bind_eq_ok_iff.mp he
  obtain ⟨part, hpart, hbegins⟩ := h q first hfirst
  exact ⟨part, hpart, begins_append hbegins _⟩

/-- A step that emits nothing decides nothing. -/
lemma opens_quiet {x : Render α} {f : α → Render β}
    (hx : ∀ q e, x s q = .ok e → e.commands = []) (hf : ∀ a, Opens inner P s (f a)) :
    Opens inner P s (x >>= f) := by
  intro q e he
  obtain ⟨first, hfirst, second, hsecond, rfl⟩ := bind_eq_ok_iff.mp he
  obtain ⟨part, hpart, hbegins⟩ := hf first.value first.queue second hsecond
  refine ⟨part, hpart, ?_⟩
  simpa [Emission.andThen, hx q first hfirst] using hbegins

lemma opens_read {x : Except Fault α} {f : α → Render β}
    (hf : ∀ a, x = .ok a → Opens inner P s (f a)) :
    Opens inner P s ((liftM x : Render α) >>= f) := by
  intro q e he
  obtain ⟨a, ha, hrest⟩ := read_bind_eq_ok_iff.mp he
  exact hf a ha q e hrest

lemma opens_setting {f : Setting → Render β} (hf : Opens inner P s (f s)) :
    Opens inner P s (setting >>= f) := by
  intro q e he
  obtain ⟨first, hfirst, second, hsecond, rfl⟩ := bind_eq_ok_iff.mp he
  obtain rfl := Except.ok.inj hfirst
  exact hf q second hsecond

lemma opens_raiseIf {b : Bool} {f : Unit → Render β} (hf : Opens inner P s (f ())) :
    Opens inner P s (raiseIf b >>= f) :=
  opens_quiet (fun q e he => by obtain rfl := Except.ok.inj he; rfl) fun _ => hf

/-- A step that emits nothing, or something that begins as `P` allows. -/
def MayOpen (inner : Inner node) (P : Option (Part node) → Prop) (s : Setting) (x : Render α) :
    Prop :=
  ∀ q e, x s q = .ok e → e.commands = [] ∨ ∃ first, P first ∧ inner.Begins s first e.commands

lemma Opens.mayOpen {x : Render α} (h : Opens inner P s x) : MayOpen inner P s x :=
  fun q e he => Or.inr (h q e he)

lemma mayOpen_pure (a : α) : MayOpen inner P s (pure a : Render α) := fun q e he => by
  obtain rfl := Except.ok.inj he
  exact Or.inl rfl

/-- If the first step emits nothing, the second decides. -/
lemma MayOpen.andThen {x : Render α} {f : α → Render β} (hx : MayOpen inner P s x)
    (hf : ∀ a, Opens inner P s (f a)) : Opens inner P s (x >>= f) := by
  intro q e he
  obtain ⟨first, hfirst, second, hsecond, rfl⟩ := bind_eq_ok_iff.mp he
  rcases hx q first hfirst with hnothing | ⟨part, hpart, hbegins⟩
  · obtain ⟨part, hpart, hbegins⟩ := hf first.value first.queue second hsecond
    refine ⟨part, hpart, ?_⟩
    simpa [Emission.andThen, hnothing] using hbegins
  · exact ⟨part, hpart, begins_append hbegins _⟩

lemma MayOpen.bind {x : Render α} {f : α → Render β} (hx : MayOpen inner P s x)
    (hf : ∀ a, MayOpen inner P s (f a)) : MayOpen inner P s (x >>= f) := by
  intro q e he
  obtain ⟨first, hfirst, second, hsecond, rfl⟩ := bind_eq_ok_iff.mp he
  rcases hx q first hfirst with hnothing | ⟨part, hpart, hbegins⟩
  · have hcommands : (Emission.andThen first second).commands = second.commands := by
      simp [Emission.andThen, hnothing]
    rw [hcommands]
    exact hf first.value first.queue second hsecond
  · exact Or.inr ⟨part, hpart, begins_append hbegins _⟩

lemma mayOpen_read {x : Except Fault α} {f : α → Render β}
    (hf : ∀ a, x = .ok a → MayOpen inner P s (f a)) :
    MayOpen inner P s ((liftM x : Render α) >>= f) := by
  intro q e he
  obtain ⟨a, ha, hrest⟩ := read_bind_eq_ok_iff.mp he
  exact hf a ha q e hrest

/-! ### Texts -/

lemma opens_emit (hP : P none) {c : Command} (hc : c.isCode = true) (rest : List Command) :
    Opens inner P s (emit (c :: rest)) := by
  intro q e he
  obtain rfl := Except.ok.inj he
  exact ⟨none, hP, c, rest, rfl, hc⟩

lemma opens_text (hP : P none) (word : String) : Opens inner P s (text word) :=
  opens_emit hP rfl []

lemma opens_chunk (hP : P none) (content : Json) (source : Json) :
    Opens inner P s (chunk content source) :=
  opens_read fun _ _ => opens_emit hP (Command.isCode_chunkOf _ _) []

/-- A word that may be left out. -/
lemma mayOpen_textIf (hP : P none) (source : Json) (key word : String) :
    MayOpen inner P s (textIf source key word) := by
  refine mayOpen_read fun isGiven _ => ?_
  split
  · exact (opens_text hP word).mayOpen
  · exact mayOpen_pure _

lemma opens_textIf (hP : P none) (source : Json) (key word : String) {f : Unit → Render β}
    (hf : Opens inner P s (f ())) : Opens inner P s (textIf source key word >>= f) :=
  (mayOpen_textIf hP source key word).andThen fun _ => hf

/-! ### Parts -/

lemma opens_value {part : Part node} (hP : P (some part)) : Opens inner P s (inner.value part) :=
  fun q e he => ⟨some part, hP, q, e, [], he, (List.append_nil _).symm⟩

lemma opens_field {key : String} (hP : ∀ part, node.require key = .ok part → P (some part)) :
    Opens inner P s (inner.field key) :=
  opens_read fun part hpart => opens_value (hP part hpart)

lemma opens_wrapped {part : Part node} {wrap : Bool} (hP : P (if wrap then none else some part)) :
    Opens inner P s (inner.wrapped part wrap) := by
  cases wrap with
  | true => exact (opens_text hP "(").bind
  | false => exact opens_value hP

/-! ## Notes around every node -/

/-- A node is handled as ever, between two notes of it. -/
def announced : Dressing := fun role node x =>
  match role with
  | .type => x
  | role => do
    emit [.bracket node true]
    dressed role node x
    emit [.bracket node false]

lemma mirrors_announced (role : Role) (node : Json) {x y : Render Unit} (h : Mirrors Eq x y) :
    Mirrors Eq (dressed role node x) (announced role node y) := by
  have hbrackets {x y : Render Unit} (h : Mirrors Eq x y) :
      Mirrors Eq x (do emit [.bracket node true]; y; emit [.bracket node false]) := by
    have hquiet (isOpening : Bool) : Mirrors Eq (emit []) (emit [.bracket node isOpening]) :=
      mirrors_emit rfl
    have hbind : Mirrors Eq (do emit []; x; emit [])
        (do emit [.bracket node true]; y; emit [.bracket node false]) :=
      (hquiet true).bind fun _ _ _ => h.bind fun _ _ _ => hquiet false
    have hself : (do emit []; x; emit []) = x := (pure_bind _ _).trans (bind_pure x)
    rwa [hself] at hbind
  cases role with
  | value => exact hbrackets (mirrors_dressed .value node h)
  | bare => exact hbrackets (mirrors_dressed .bare node h)
  | type => exact h

/-- **The notes change nothing else.** -/
theorem mirrors_tree_announced (role : Role) (node : Json) :
    Mirrors Eq (tree role node) (treeWith announced role node) :=
  mirrors_treeWith mirrors_announced role node

/-- A node is rendered by the rule for its kind. -/
lemma treeWith_of_find {dress : Dressing} {role : Role} {name : String} {rule : Rule}
    (hkind : node.kind = .ok (.str name))
    (hfind : Rules.find role.rules (.str name) = .ok (some rule)) :
    treeWith dress role node = dress role node (rule node (partsWith dress node)) := by
  rw [treeWith_eq, read_bind hkind, read_bind hfind]

/-- A node that is rendered has a rule. -/
lemma rule_of_treeWith {dress : Dressing} {role : Role} {node : Json} {q : List Json}
    {e : Emission Unit} (h : treeWith dress role node s q = .ok e) :
    ∃ kind rule, node.kind = .ok kind ∧ Rules.find role.rules kind = .ok (some rule) ∧
      dress role node (rule node (partsWith dress node)) s q = .ok e := by
  rw [treeWith_eq] at h
  obtain ⟨kind, hkind, h⟩ := read_bind_eq_ok_iff.mp h
  obtain ⟨found, hfound, h⟩ := read_bind_eq_ok_iff.mp h
  cases found with
  | none =>
      obtain ⟨_, -, hreport⟩ := read_bind_eq_ok_iff.mp h
      obtain ⟨a, hthrow, -⟩ := read_eq_ok_iff.mp hreport
      exact absurd hthrow (Unhandled.throw_ne_ok _ a)
  | some rule => exact ⟨kind, rule, hkind, hfound, h⟩

/-- A node of a kind that is no type is rendered as a value or not at all, and by its rule. -/
lemma valueRule_of_treeWith {dress : Dressing} {role : Role} {name : String} {rule : Rule}
    {q : List Json} {e : Emission Unit} (hkind : node.kind = .ok (.str name))
    (hvalue : Rules.find Rules.valueRules (.str name) = .ok (some rule))
    (htype : Rules.find Rules.typeRules (.str name) = .ok none)
    (h : treeWith dress role node s q = .ok e) :
    role ≠ .type ∧ dress role node (rule node (partsWith dress node)) s q = .ok e := by
  obtain ⟨kind, found, hself, hfound, hrun⟩ := rule_of_treeWith h
  obtain rfl := Except.ok.inj (hkind.symm.trans hself)
  cases role with
  | type => cases htype.symm.trans hfound
  | value | bare =>
      obtain rfl := Option.some.inj (Except.ok.inj (hvalue.symm.trans hfound))
      exact ⟨by decide, hrun⟩

/-- What is emitted for a node: the comments before it, and what its rule emits. -/
lemma dressed_value_eq_ok {x : Render Unit} {q : List Json} {e : Emission Unit}
    (h : dressed .value node x s q = .ok e) :
    ∃ comments commands own, node.comments "leadingComments" = .ok comments ∧
      leading false node comments = .ok commands ∧ x s q = .ok own ∧
      e.commands = commands ++ own.commands := by
  obtain ⟨comments, hcomments, h⟩ := read_bind_eq_ok_iff.mp h
  obtain ⟨_, hleading, second, hsecond, rfl⟩ := bind_eq_ok_iff.mp h
  obtain ⟨commands, hcommands, rfl⟩ := leadingComments_eq_ok_iff.mp hleading
  obtain ⟨own, hown, _, hqueue, rfl⟩ := bind_eq_ok_iff.mp hsecond
  obtain rfl := queueTrailing_eq_ok hqueue
  exact ⟨comments, commands, own, hcomments, hcommands, hown, by simp [Emission.andThen]⟩

lemma dressed_bare_eq_ok {x : Render Unit} {q : List Json} {e : Emission Unit}
    (h : dressed .bare node x s q = .ok e) :
    ∃ own, x s q = .ok own ∧ e.commands = own.commands := by
  obtain ⟨own, hown, _, hqueue, rfl⟩ := bind_eq_ok_iff.mp h
  obtain rfl := queueTrailing_eq_ok hqueue
  exact ⟨own, hown, by simp [Emission.andThen]⟩

/-- A node that is announced is open while its rule is run; the comments before it come first. -/
lemma announced_eq_ok {role : Role} (hrole : role ≠ .type) {x : Render Unit} {q : List Json}
    {e : Emission Unit} (h : announced role node x s q = .ok e) :
    ∃ comments leads own, (role = .value → node.comments "leadingComments" = .ok comments) ∧
      leading false node comments = .ok leads ∧ x s q = .ok own ∧
      e.commands =
        .bracket node true :: (leads ++ own.commands ++ [Command.bracket node false]) := by
  have hbrackets : (do
      emit [.bracket node true]
      dressed role node x
      emit [.bracket node false]) s q = .ok e := by
    cases role with
    | type => exact absurd rfl hrole
    | _ => exact h
  obtain ⟨_, hfirst, second, hsecond, rfl⟩ := bind_eq_ok_iff.mp hbrackets
  obtain rfl := Except.ok.inj hfirst
  obtain ⟨dress, hdress, _, hlast, rfl⟩ := bind_eq_ok_iff.mp hsecond
  obtain rfl := Except.ok.inj hlast
  cases role with
  | value =>
      obtain ⟨comments, commands, own, hcomments, hcommands, hown, heq⟩ :=
        dressed_value_eq_ok hdress
      exact ⟨comments, commands, own, fun _ => hcomments, hcommands, hown,
        by simp [Emission.andThen, heq]⟩
  | bare =>
      obtain ⟨own, hown, heq⟩ := dressed_bare_eq_ok hdress
      exact ⟨[], [], own, fun h => absurd h (by decide), rfl, hown, by simp [Emission.andThen, heq]⟩
  | type => exact absurd rfl hrole

/-- The first text of what an announced node emits is the first text its rule emits. -/
lemma openers_of_announced {role : Role} (hrole : role ≠ .type) {x : Render Unit} {q : List Json}
    {e : Emission Unit} (h : announced role node x s q = .ok e) :
    ∃ own, x s q = .ok own ∧ ∀ stack rest, ∃ more,
      Command.openers stack (Command.leavesAll e.commands ++ rest) =
        Command.openers (node :: stack) (Command.leavesAll own.commands ++ more) := by
  obtain ⟨comments, leads, own, -, hleads, hown, heq⟩ := announced_eq_ok hrole h
  refine ⟨own, hown, fun stack rest => ⟨.bracket node false :: rest, ?_⟩⟩
  have hbracket (isOpening : Bool) :
      Command.leaves (.bracket node isOpening) = [.bracket node isOpening] := by
    simp [Command.bracket, Command.leaves]
  simp [heq, hbracket, Command.openers_leading hleads]

end Render

end EstreePrinter
