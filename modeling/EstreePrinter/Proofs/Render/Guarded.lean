import Mathlib
import EstreePrinter.Proofs.Made.Type
import EstreePrinter.Proofs.Render.Opening

/-!
# Where a bare `in` would be misread

In the head of a loop a bare `in` would be read as the word between a variable and what it ranges
over.  There a binary expression with this operator goes in parentheses, and inside of those the
word is not misread any more.

The nodes of a rendering are found in its commands by the notes around them (`Render.announced`).
`Command.Nested guard` says of leaves that the notes are nested, and that every node which `guard`
selects, and which is not inside of another such node, emits an opening parenthesis first and a
closing one last (`Nested.parens`).

**`Render.guards_tree`** — the notes of a rendering are nested, and where `in` would be misread the
outermost `in` expressions are in parentheses.

Both are proved together by induction on the size of the tree, and for each rule by what its steps
are made of (`Made.emitsAt`): inside of the parentheses of an `in` expression, in the body of
`Nested.parens`, only the first is known.
-/

namespace EstreePrinter

open Json (Part)

namespace Command

/-! ## Nested notes -/

/-- **Notes are nested, and selected nodes are in parentheses**: each node that `guard` selects,
unless it is inside of another one, emits nothing but the comments before it outside of its
parentheses. -/
inductive Nested : (Json → Bool) → List Command → Prop
  | nil {guard : Json → Bool} : Nested guard []
  | cons {guard : Json → Bool} {c : Command} {rest : List Command} :
      c.bracketed? = none → Nested guard rest → Nested guard (c :: rest)
  | node {guard : Json → Bool} {node : Json} {body rest : List Command} :
      guard node = false → Nested guard body → Nested guard rest →
      Nested guard (.bracket node true :: (body ++ .bracket node false :: rest))
  | parens {guard : Json → Bool} {node : Json} {comments body rest : List Command} :
      guard node = true → (∀ c ∈ comments, c.comment?.isSome) → Nested (fun _ => false) body →
      Nested guard rest →
      Nested guard (.bracket node true ::
        (comments ++ .text "(" :: (body ++ .text ")" :: .bracket node false :: rest)))

namespace Nested

variable {guard : Json → Bool} {cs ds : List Command}

lemma of_plain (h : ∀ c ∈ cs, c.bracketed? = none) : Nested guard cs := by
  induction cs with
  | nil => exact nil
  | cons c rest ih =>
      exact cons (h c List.mem_cons_self) (ih fun d hd => h d (List.mem_cons_of_mem _ hd))

lemma append (h : Nested guard cs) (h' : Nested guard ds) : Nested guard (cs ++ ds) := by
  induction h with
  | nil => exact h'
  | cons hc _ ih => exact cons hc (ih h')
  | node hnode hbody _ _ ih => simpa using node hnode hbody (ih h')
  | parens hnode hcomments hbody _ _ ih => simpa using parens hnode hcomments hbody (ih h')

lemma bracketed?_of_comment? {c : Command} (h : c.comment?.isSome) : c.bracketed? = none := by
  cases c with
  | comment c after => rfl
  | _ => cases h

/-- Commands that are nested with some nodes in parentheses are nested. -/
lemma weaken (h : Nested guard cs) : Nested (fun _ => false) cs := by
  induction h with
  | nil => exact nil
  | cons hc _ ih => exact cons hc ih
  | node _ _ _ ihbody ih => exact node rfl ihbody ih
  | @parens guard node comments body rest _ hcomments hbody _ _ ih =>
      have hinside : Nested (fun _ => false)
          (comments ++ .text "(" :: (body ++ [Command.text ")"])) :=
        (of_plain fun c hc => bracketed?_of_comment? (hcomments c hc)).append
          (cons rfl (hbody.append (cons rfl nil)))
      have hwhole : Nested (fun _ => false) (.bracket node true ::
          (comments ++ .text "(" :: (body ++ [Command.text ")"]) ++ .bracket node false :: rest)) :=
        .node rfl hinside ih
      simpa using hwhole

/-- Being nested is a closed property of commands. -/
lemma closed (guard : Json → Bool) :
    Closed (fun _ => True) fun commands => Nested guard (leavesAll commands) := by
  have hmoves {marker : Command} (hmarker : marker.bracketed? = none) {commands : List Command}
      (h : Moves marker commands) : Nested guard (leavesAll commands) := by
    obtain ⟨rest, hleaves, hrest⟩ := h.leaves
    rw [hleaves]
    refine cons hmarker (of_plain fun c hc => ?_)
    rcases hrest c hc with rfl | ⟨s, rfl⟩ <;> rfl
  have hone {c : Command} (hleaves : leaves c = [c]) (hc : c.bracketed? = none) :
      Nested guard (leavesAll [c]) := by
    simpa [hleaves] using cons hc nil
  exact
    { nil := by simpa using nil
      append := fun hcs hds => by simpa using hcs.append hds
      text := fun s => hone (by simp [leaves]) rfl
      newline := hone (by simp [leaves]) rfl
      foreign := fun v => hone (by simp [leaves]) rfl
      comment := fun after _ => hone (by simp [leaves]) rfl
      deferred := fun name contents h => by simpa [leaves] using h
      between := fun hstart hmiddle hstop => by
        simpa using ((hmoves rfl hstart).append hmiddle).append (hmoves rfl hstop) }

end Nested

end Command

/-! ## What is made of parts that emit something closed -/

/-- The parts of a node emit commands with a property, which may be another one for another setting.
-/
structure Inner.Emits {node : Json} (inner : Inner node) (K : Setting → List Command → Prop) :
    Prop where
  value : ∀ part s, Render.EmitsAt (K s) s (inner.value part)
  bare : ∀ part s, Render.EmitsAt (K s) s (inner.bare part)
  type : ∀ part s, Render.EmitsAt (K s) s (inner.type part)
  either : ∀ part s, Render.EmitsAt (K s) s (inner.either part)

lemma Inner.Emits.under {node : Json} {inner : Inner node} {K : Setting → List Command → Prop}
    (h : inner.Emits K) (part : Part node) : (inner.under part).Emits K :=
  ⟨fun p => h.value (part.within p), fun p => h.bare (part.within p),
    fun p => h.type (part.within p), fun p => h.either (part.within p)⟩

/-- **What is made of parts emits what the parts emit**, if that is a closed property which chunks
and markers have, and which is kept when `in` would not be misread any more. -/
theorem Made.emitsAt {K : Setting → List Command → Prop}
    (hK : ∀ s, Command.Closed (fun _ => True) (K s))
    (hspacing : ∀ s (c : Command), c.IsSpacing → K s [c])
    (hchunk : ∀ s content span, K s [.chunkOf content span])
    (hnoIn : ∀ s cs, K { s with noIn := true } cs → K s cs)
    {node : Json} {inner : Inner node} {strict : Bool} {α : Type} {x : Render α}
    (h : Made inner strict x) (hinner : inner.Emits K) (s : Setting) :
    Render.EmitsAt (K s) s x := by
  have hquiet {α : Type} {x : Render α} {s : Setting}
      (hx : ∀ s q e, x s q = .ok e → e.commands = []) : Render.EmitsAt (K s) s x :=
    Render.emits_of_quiet (hK s) hx s
  have hread {α : Type} (x : Except Fault α) (s : Setting) :
      Render.EmitsAt (K s) s (liftM x : Render α) :=
    hquiet fun s q e he => by
      obtain ⟨a, -, rfl⟩ := Render.read_eq_ok_iff.mp he
      rfl
  have hraiseIf (b : Bool) (s : Setting) : Render.EmitsAt (K s) s (Render.raiseIf b) :=
    hquiet fun s q e he => by
      obtain rfl := Except.ok.inj he
      rfl
  have hemit {commands : List Command} {s : Setting} (h : K s commands) :
      Render.EmitsAt (K s) s (Render.emit commands) := fun q e he => by
    obtain rfl := Except.ok.inj he
    exact h
  have hchunks (content place : Json) (s : Setting) :
      Render.EmitsAt (K s) s (Render.chunk content place) :=
    Render.emitsAt_bind (hK s) (hread _ s) fun span => hemit (hchunk s content span)
  have hvalue (v : Json) (s : Setting) : K s [.ofValue v] := by
    cases v with
    | str t => exact (hK s).text t
    | _ => exact (hK s).foreign _
  induction h generalizing s with
  | pure a =>
      exact hquiet fun s q e he => by
        obtain rfl := Except.ok.inj he
        rfl
  | bind _ _ ihx ihf => exact Render.emitsAt_bind (hK s) (ihx hinner s) fun a => ihf a hinner s
  | @reading node inner strict α β x f _ ih =>
      intro q e he
      obtain ⟨a, ha, hrest⟩ := Render.read_bind_eq_ok_iff.mp he
      exact ih a ha hinner s q e hrest
  | quote _ ih =>
      intro q e he
      obtain ⟨_, hfirst, second, hsecond, rfl⟩ := Render.bind_eq_ok_iff.mp he
      obtain rfl := Except.ok.inj hfirst
      exact ih s.quote hinner s q second hsecond
  | text _ => exact hemit ((hK s).text _)
  | ofValue _ => exact hemit (hvalue _ s)
  | chunk place _ => exact hchunks _ place s
  | literal place _ =>
      exact Render.emitsAt_bind (hK s) (hread _ s) fun b =>
        Render.emitsAt_bind (hK s) (hraiseIf b s) fun _ => hchunks _ place s
  | piece place hx _ =>
      refine Render.emitsAt_bind (hK s) ?_ fun _ =>
        Render.emitsAt_bind (hK s) (hread _ s) fun b => hraiseIf b s
      rcases hx with rfl | rfl
      · exact hchunks _ place s
      · exact hemit (hvalue _ s)
  | value part => exact hinner.value part s
  | type part => exact hinner.type part s
  | either part => exact hinner.either part s
  | under part _ ih => exact ih (hinner.under part) s
  | withNoIn _ ih => exact fun q e he => hnoIn s _ (ih hinner { s with noIn := true } q e he)
  | sequence spaces _ _ list ih =>
      exact Render.emitsAt_sequence (hK s) spaces _ (fun a => ih a hinner s) list
  | declarations inner => exact Render.emitsAt_declarations (hK s) fun part => hinner.value part s
  | arguments inner =>
      exact Render.emitsAt_callArguments (hK s) (fun _ _ => Render.emits_argumentGap (hK s))
        fun part => hinner.value part s
  | branches _ _ ihx ihy => exact Render.emitsAt_branches (hK s) (ihx hinner s) (ihy hinner s)
  | raised _ _ ih => exact Render.emitsAt_bind (hK s) (hraiseIf true s) fun _ => ih hinner s
  | @lines node inner commands hcommands =>
      refine hemit ?_
      clear * - hcommands hspacing hK
      induction commands with
      | nil => exact (hK s).nil
      | cons c rest ih =>
          exact (hK s).append (hspacing s c (hcommands c List.mem_cons_self))
            (ih fun d hd => hcommands d (List.mem_cons_of_mem _ hd))
  | leadingComments newlines place comments =>
      exact Render.emits_leadingComments (hK s) newlines place comments s
  | drainAfterStatement => exact Render.emits_drainAfterStatement (hK s) s
  | body inner statements =>
      exact Render.emitsAt_bodyAfter (hK s) (fun part => hinner.bare part s) none statements

/-! ## `in` expressions -/

/-- Whether a node is an `in` expression.  Logical expressions are rendered by the same rule, so
they count if they have this operator. -/
def Json.isInExpression (node : Json) : Bool :=
  match node.kind, node.require "operator" with
  | .ok kind, .ok operator => kind.isOneOf Rules.binaryKinds && operator.1.isText "in"
  | _, _ => false

/-- The nodes that go in parentheses under a setting. -/
def Setting.guards (s : Setting) (node : Json) : Bool := s.noIn && node.isInExpression

/-- What is emitted under a setting has its `in` expressions in parentheses, if they would be
misread. -/
def Setting.Guards (s : Setting) (commands : List Command) : Prop :=
  Command.Nested s.guards (Command.leavesAll commands)

lemma Setting.guards_of_noIn {s : Setting} (h : s.noIn = false) : s.guards = fun _ => false := by
  funext node
  simp [guards, h]

/-- Whatever goes in parentheses, commands are nested under any setting in which nothing has to. -/
lemma Setting.Guards.withNoIn {s : Setting} {commands : List Command}
    (h : { s with noIn := true }.Guards commands) : s.Guards commands := by
  cases hnoIn : s.noIn with
  | false =>
      rw [Guards, Setting.guards_of_noIn hnoIn]
      exact h.weaken
  | true =>
      have hself : { s with noIn := true } = s := by rw [← hnoIn]
      rwa [hself] at h

/-- What is made of parts that have their `in` expressions in parentheses. -/
lemma Made.guards {node : Json} {inner : Inner node} {strict : Bool} {α : Type} {x : Render α}
    (h : Made inner strict x) (hinner : inner.Emits Setting.Guards) (s : Setting) :
    Render.EmitsAt s.Guards s x := by
  refine h.emitsAt (fun s => Command.Nested.closed s.guards) ?_ ?_
    (fun _ _ => Setting.Guards.withNoIn) hinner s
  · intro s c hc
    cases c with
    | text _ | newline | indent | dedent =>
        simpa [Setting.Guards, Command.leaves] using .cons rfl .nil
    | _ => exact absurd hc id
  · intro s content span
    have hplain : (Command.chunkOf content span).bracketed? = none :=
      Command.bracketed?_of_isCode (Command.isCode_chunkOf _ _)
    simpa [Setting.Guards, Command.leaves_of_isCode (Command.isCode_chunkOf _ _)] using
      Command.Nested.cons hplain .nil

namespace Render

variable {s : Setting}

lemma leavesAll_of_comments {commands : List Command} (h : ∀ c ∈ commands, c.comment?.isSome) :
    Command.leavesAll commands = commands := by
  induction commands with
  | nil => simp
  | cons c rest ih =>
      have hc : Command.leaves c = [c] := by
        have hcomment := h c List.mem_cons_self
        cases c with
        | comment c after => simp [Command.leaves]
        | _ => cases hcomment
      simp [hc, ih fun d hd => h d (List.mem_cons_of_mem _ hd)]

lemma leaves_bracket (node : Json) (isOpening : Bool) :
    Command.leaves (.bracket node isOpening) = [.bracket node isOpening] := by
  simp [Command.bracket, Command.leaves]

/-- A node that need not be in parentheses. -/
lemma guards_announced {role : Role} {node : Json} {x : Render Unit} (hnode : s.guards node = false)
    (hx : EmitsAt s.Guards s x) : EmitsAt s.Guards s (announced role node x) := by
  intro q e he
  by_cases hrole : role = .type
  · subst hrole
    exact hx q e he
  · obtain ⟨_, leads, own, -, hleads, hown, hcommands⟩ := announced_eq_ok hrole he
    have hcomments := isSome_comment?_of_leading hleads
    have hbody : Command.Nested s.guards (leads ++ Command.leavesAll own.commands) :=
      (Command.Nested.of_plain fun c hc =>
        Command.Nested.bracketed?_of_comment? (hcomments c hc)).append (hx q own hown)
    have hwhole := Command.Nested.node hnode hbody .nil
    simpa [Setting.Guards, hcommands, leaves_bracket, leavesAll_of_comments hcomments] using hwhole

/-- A run of a binary expression: where `in` would be misread it is in parentheses, and inside of
them `in` is not misread. -/
lemma binary_eq_ok {node : Json} {inner : Inner node} {q : List Json} {e : Emission Unit}
    (h : Rules.binary node inner s q = .ok e) :
    ∃ operator, node.require "operator" = .ok operator ∧
      if operator.1.isText "in" && s.noIn then
        ∃ inside, Rules.operands inner operator.1 { s with noIn := false } q = .ok inside ∧
          e.commands = .text "(" :: (inside.commands ++ [Command.text ")"])
      else Rules.operands inner operator.1 s q = .ok e := by
  obtain ⟨operator, hoperator, h⟩ := read_bind_eq_ok_iff.mp h
  obtain ⟨_, hsetting, third, hthird, rfl⟩ := bind_eq_ok_iff.mp h
  obtain rfl := Except.ok.inj hsetting
  refine ⟨operator, hoperator, ?_⟩
  dsimp only at hthird
  cases hmisread : operator.1.isText "in" && s.noIn with
  | false =>
      rw [hmisread, if_neg (by decide)] at hthird
      rw [if_neg (by decide)]
      exact hthird
  | true =>
      rw [hmisread, if_pos rfl] at hthird
      obtain ⟨_, hopen, fourth, hfourth, rfl⟩ := bind_eq_ok_iff.mp hthird
      obtain rfl := Except.ok.inj hopen
      obtain ⟨inside, hinside, _, hclose, rfl⟩ := bind_eq_ok_iff.mp hfourth
      obtain rfl := Except.ok.inj hclose
      rw [if_pos rfl]
      exact ⟨inside, hinside, rfl⟩

/-- What is emitted where nothing has to be in parentheses. -/
lemma nested_of_guards {commands : List Command} (h : { s with noIn := false }.Guards commands) :
    Command.Nested (fun _ => false) (Command.leavesAll commands) := by
  rwa [Setting.Guards, Setting.guards_of_noIn rfl] at h

lemma made_operands {node : Json} {inner : Inner node} {operator : Part node}
    (h : node.require "operator" = .ok operator) :
    Made inner true (Rules.operands inner operator.1) :=
  Made.operands fun hnode => Json.isInline_of_require hnode (by decide) h

/-- A binary expression, whose rule puts it in parentheses where it has to be. -/
lemma guards_binary {role : Role} (hrole : role ≠ .type) {node kind : Json}
    (hkind : node.kind = .ok kind) (hbinary : kind.isOneOf Rules.binaryKinds = true)
    {inner : Inner node}
    (hoperands : ∀ operator, node.require "operator" = .ok operator → ∀ s : Setting,
      EmitsAt s.Guards s (Rules.operands inner operator.1)) :
    EmitsAt s.Guards s (announced role node (Rules.binary node inner)) := by
  cases hguard : s.guards node with
  | false =>
      refine guards_announced hguard fun q e he => ?_
      obtain ⟨operator, hoperator, hrun⟩ := binary_eq_ok he
      have hbare : (operator.1.isText "in" && s.noIn) = false := by
        simpa [Setting.guards, Json.isInExpression, hkind, hoperator, hbinary, Bool.and_comm]
          using hguard
      rw [hbare, if_neg (by decide)] at hrun
      exact hoperands operator hoperator s q e hrun
  | true =>
      intro q e he
      obtain ⟨_, leads, own, -, hleads, hown, hcommands⟩ := announced_eq_ok hrole he
      have hcomments := isSome_comment?_of_leading hleads
      obtain ⟨operator, hoperator, hrun⟩ := binary_eq_ok hown
      have hmisread : (operator.1.isText "in" && s.noIn) = true := by
        simpa [Setting.guards, Json.isInExpression, hkind, hoperator, hbinary, and_comm] using hguard
      rw [hmisread, if_pos rfl] at hrun
      obtain ⟨inside, hinside, hown⟩ := hrun
      have hwhole := Command.Nested.parens hguard hcomments
        (nested_of_guards (hoperands operator hoperator _ _ inside hinside)) .nil
      simpa [Setting.Guards, hcommands, hown, leaves_bracket, leavesAll_of_comments hcomments,
        Command.leaves] using hwhole

lemma guards_reading {α : Type} {x : Except Fault α} {f : α → Render Unit}
    (hf : ∀ a, x = .ok a → EmitsAt s.Guards s (f a)) :
    EmitsAt s.Guards s ((liftM x : Render α) >>= f) := by
  intro q e he
  obtain ⟨a, ha, hrest⟩ := read_bind_eq_ok_iff.mp he
  exact hf a ha q e hrest

lemma guards_partsWith {node : Json}
    (hpart : ∀ role (part : Part node) (s : Setting),
      EmitsAt s.Guards s (treeWith announced role part.1)) :
    (partsWith announced node).Emits Setting.Guards where
  value := hpart .value
  bare := hpart .bare
  type := hpart .type
  either part s := guards_reading fun _ _ => guards_reading fun isType _ => by
    cases isType with
    | true => exact hpart .type part s
    | false => exact hpart .value part s

/-- **What is emitted for a tree** is nested, and where `in` would be misread its `in` expressions
are in parentheses. -/
theorem guards_tree (role : Role) (node : Json) (s : Setting) :
    EmitsAt s.Guards s (treeWith announced role node) := by
  induction hn : sizeOf node using Nat.strong_induction_on generalizing role node s with
  | h n ih =>
      have hparts : (partsWith announced node).Emits Setting.Guards :=
        guards_partsWith fun role part s => ih _ (hn ▸ part.2.sizeOf_lt) role part.1 s rfl
      intro q e he
      obtain ⟨kind, rule, hkind, hrule, hrun⟩ := rule_of_treeWith he
      cases hbinary : kind.isOneOf Rules.binaryKinds with
      | true =>
          have hfound := Except.ok.inj (hrule.symm.trans (Rules.find_of_binaryKinds hbinary))
          split at hfound
          · cases hfound
          · rename_i hrole
            obtain rfl := Option.some.inj hfound
            exact guards_binary hrole hkind hbinary
              (fun operator hoperator s => (made_operands hoperator).guards hparts s) q e hrun
      | false =>
          have hnode : s.guards node = false := by
            have hin : node.isInExpression = false := by
              unfold Json.isInExpression
              rw [hkind]
              split
              · rename_i kind operator hself _
                obtain rfl := Except.ok.inj hself
                rw [hbinary, Bool.false_and]
              · rfl
            rw [Setting.guards, hin, Bool.and_false]
          rcases Rules.isMade_of_find hrule with ⟨hcontra, -⟩ | h
          · rw [hbinary] at hcontra
            cases hcontra
          · exact guards_announced hnode ((h node _).guards hparts s) q e hrun

/-- What a rule emits for a node leaves no part open. -/
lemma nested_rule {role : Role} {node kind : Json} {rule : Rule}
    (hrule : Rules.find role.rules kind = .ok (some rule)) :
    EmitsAt (fun commands => Command.Nested (fun _ => false) (Command.leavesAll commands)) s
      (rule node (partsWith announced node)) := by
  have hparts : (partsWith announced node).Emits Setting.Guards :=
    guards_partsWith fun role part s => guards_tree role part.1 s
  intro q e he
  rcases Rules.isMade_of_find hrule with ⟨-, rfl⟩ | hmade
  · obtain ⟨operator, hoperator, hrun⟩ := binary_eq_ok he
    have hoperands : Made (partsWith announced node) true _ := made_operands hoperator
    split at hrun
    · obtain ⟨inside, hinside, hcommands⟩ := hrun
      have hbody := nested_of_guards (hoperands.guards hparts _ _ inside hinside)
      have hwhole := (Command.Nested.cons (c := .text "(") rfl hbody).append
        (.cons (c := .text ")") rfl .nil)
      simpa [hcommands, Command.leaves] using hwhole
    · exact (hoperands.guards hparts s q e hrun).weaken
  · exact ((hmade node _).guards hparts s q e he).weaken

end Render

end EstreePrinter
