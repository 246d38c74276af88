import Mathlib
import EstreePrinter.Proofs.Printer.Total
import EstreePrinter.Proofs.Render.Following
import EstreePrinter.Proofs.Render.Layout
import EstreePrinter.Proofs.Render.Opening

/-!
# The last argument of a call

The last argument of a call hugs the parentheses, so nothing about it may have a say in how the
others are laid out.  Two calls are compared that have everything but their last arguments in common
(`Json.VaryInLast`), and are handled in the same state.

* Before the argument list they are read and rendered alike (`Render.follows_callHead`).
* The arguments before the last one are rendered with the same comments waiting, and what is between
  them is the same (`Render.arguments_agree`).  Only those are measured.

So the three placeholders of the argument list have the same contents in both, and the commands are
the same up to those of the last argument (**`handle_last_argument`**).
-/

namespace EstreePrinter

open Json (Part)

namespace Json

/-- The value under a key, if there is one. -/
def value? (node : Json) (key : String) : Option Json := (node.field? key).map Subtype.val

/-- **Two nodes that differ in the last argument only**: `b` is the last argument of one and `b'`
that of the other, and all other fields hold the same. -/
structure VaryInLast (node node' : Json) (front : List Json) (b b' : Json) : Prop where
  isObject : node.isObject = true
  isObject' : node'.isObject = true
  same : ∀ key, key ≠ "arguments" → node.value? key = node'.value? key
  arguments : node.value? "arguments" = some (.arr (front ++ [b]))
  arguments' : node'.value? "arguments" = some (.arr (front ++ [b']))

variable {node node' : Json} {key : String}

lemma isNull_of_isObject (h : node.isObject = true) : node.isNull = false := by
  cases node with
  | obj fields => rfl
  | _ => cases h

/-- A field that has the same value in both nodes, or is in neither of them. -/
lemma meets_of_value? (hobject : node'.isObject = true) (h : node.value? key = node'.value? key) :
    Meets Eq node node' key := by
  intro found hfound
  rw [get] at hfound
  split at hfound
  · obtain rfl := Except.ok.inj hfound
    refine ⟨node'.field? key, by rw [get, if_pos hobject], ?_⟩
    rw [value?, value?] at h
    cases hpart : node.field? key with
    | none =>
        rw [Option.map_eq_none_iff.mp (h.symm.trans (by rw [hpart]; rfl))]
        exact .none
    | some part =>
        obtain ⟨part', hpart', hsame⟩ := Option.map_eq_some_iff.mp (h.symm.trans (by rw [hpart]; rfl))
        rw [hpart']
        exact .some hsame.symm
  · cases hfound

/-- The elements of a list that is under a key. -/
lemma parts_of_value? {items : List Json} (h : node.value? key = some (.arr items))
    {list : Part node} (hlist : node.require key = .ok list) {parts : List (Part node)}
    (hparts : Json.parts list = .ok parts) : parts.map Subtype.val = items := by
  obtain ⟨part, hpart, hvalue⟩ := Option.map_eq_some_iff.mp h
  rw [require] at hlist
  split at hlist
  · rw [hpart] at hlist
    obtain rfl := Except.ok.inj hlist
    obtain ⟨v, hinside⟩ := part
    obtain rfl : v = .arr items := hvalue
    obtain rfl := Option.some.inj (orMalformed_eq_ok_iff.mp hparts)
    simp [Function.comp_def]
  · cases hlist

end Json

namespace Rules

open Render

/-- What a call renders before its arguments. -/
def callHead (isNew : Bool) : Rule := fun node inner => do
  if isNew then text "new "
  let head ← node.require "callee"
  let wrap ←
    if ← Precedence.wrapsAsHead head.1 Precedence.call then pure true
    else if isNew then Precedence.hasCall head.1
    else pure false
  inner.wrapped head wrap
  textIf node "optional" "?."
  typeArguments inner

lemma call_eq (isNew : Bool) (node : Json) (inner : Inner node) :
    call isNew node inner = (do
      callHead isNew node inner
      callArguments inner) := by
  cases isNew with
  | false =>
      simp only [call, callHead, bind_assoc, Bool.false_eq_true, if_false]
      refine bind_congr fun head => bind_congr fun wraps => ?_
      cases wraps <;> simp [bind_assoc]
  | true =>
      simp only [call, callHead, bind_assoc, if_true]
      refine bind_congr fun _ => bind_congr fun head => bind_congr fun wraps => ?_
      cases wraps <;> simp [bind_assoc]

end Rules

namespace Render

variable {node node' : Json} {inner : Inner node} {inner' : Inner node'} {s : Setting}

/-! ## Before the argument list -/

lemma follows_callHead (hinner : inner.Follows Eq Eq inner') (isNew : Bool)
    (hmeets : ∀ key, key ≠ "arguments" → Json.Meets Eq node node' key) :
    Follows Eq (Rules.callHead isNew node inner) (Rules.callHead isNew node' inner') := by
  have hwraps {head : Part node} {head' : Part node'} (hrel : Part.Rel Eq head head')
      (wrap : Bool) : Follows Eq (do
          inner.wrapped head wrap
          textIf node "optional" "?."
          Rules.typeArguments inner) (do
          inner'.wrapped head' wrap
          textIf node' "optional" "?."
          Rules.typeArguments inner') :=
    (hinner.wrapped hrel wrap).andThen <|
      (follows_textIf (hmeets _ (by decide)) "?.").andThen <|
        .reading ((hmeets _ (by decide)).givenOr (hmeets _ (by decide))) fun _ _ => hinner.typeIf
  refine .optional (.refl _) fun _ =>
    .reading (hmeets _ (by decide)).require fun head head' hrel => ?_
  have hsame : head.1 = head'.1 := hrel
  rw [hsame]
  refine .readingSame (.refl _) fun _ => .ite (.known (.refl _) (hwraps hrel)) ?_
  exact .ite (.readingSame (.refl _) (hwraps hrel)) (.known (.refl _) (hwraps hrel))

/-! ## The argument list -/

/-- Argument lists that have all but the last argument in common: they have the same commands before
the last argument, and the same comments wait for it. -/
lemma arguments_agree (hinner : inner.Follows Eq Eq inner') {front : List (Part node)}
    {front' : List (Part node')} (hfront : List.Forall₂ (Part.Rel Eq) front front')
    {last : Part node} {last' : Part node'} {q : List Json} {e e' : Emission Rules.Arguments}
    (h : Rules.arguments inner (front ++ [last]) s q = .ok e)
    (h' : Rules.arguments inner' (front' ++ [last']) s q = .ok e') :
    e.value.front = e'.value.front ∧ e.value.frontMultiline = e'.value.frontMultiline ∧
      ∃ queue held held', inner.value last s queue = .ok held ∧
        inner'.value last' s queue = .ok held' ∧
        e.value.last = held.commands ∧ e'.value.last = held'.commands := by
  induction hfront generalizing q e e' with
  | nil =>
      obtain ⟨held, hheld, rfl⟩ := arguments_last_eq_ok_iff.mp h
      obtain ⟨held', hheld', rfl⟩ := arguments_last_eq_ok_iff.mp h'
      exact ⟨rfl, rfl, q, held, held', hheld, hheld', rfl, rfl⟩
  | cons hhead htail ih =>
      obtain ⟨held, hheld, gap, hgap, others, hothers, rfl⟩ :=
        (arguments_cons_eq_ok_iff (by simp)).mp h
      obtain ⟨held', hheld', gap', hgap', others', hothers', rfl⟩ :=
        (arguments_cons_eq_ok_iff (by simp)).mp h'
      obtain rfl := Except.ok.inj (((hinner.value hhead).run hheld).symm.trans hheld')
      obtain rfl := Except.ok.inj (hgap.symm.trans hgap')
      obtain ⟨hslots, hneeded, hlast⟩ := ih hothers hothers'
      exact ⟨by rw [hslots], by rw [hneeded], hlast⟩

/-- The elements of two lists that differ in their last elements. -/
lemma exists_front {front : List Json} {b b' : Json} {list : List (Part node)}
    {list' : List (Part node')} (h : list.map Subtype.val = front ++ [b])
    (h' : list'.map Subtype.val = front ++ [b']) :
    ∃ parts parts', List.Forall₂ (Part.Rel Eq) parts parts' ∧
      ∃ last last', list = parts ++ [last] ∧ list' = parts' ++ [last'] ∧
        last.1 = b ∧ last'.1 = b' := by
  obtain ⟨parts, lasts, rfl, hparts, hlasts⟩ := List.map_eq_append_iff.mp h
  obtain ⟨parts', lasts', rfl, hparts', hlasts'⟩ := List.map_eq_append_iff.mp h'
  obtain ⟨last, rfl, hlast⟩ := List.map_eq_singleton_iff.mp hlasts
  obtain ⟨last', rfl, hlast'⟩ := List.map_eq_singleton_iff.mp hlasts'
  refine ⟨parts, parts', ?_, last, last', rfl, rfl, hlast, hlast'⟩
  have hsame : List.Forall₂ Eq (parts.map Subtype.val) (parts'.map Subtype.val) := by
    rw [List.forall₂_eq_eq_eq, hparts, hparts']
  rwa [List.forall₂_map_left_iff, List.forall₂_map_right_iff] at hsame

/-- The commands of an argument list, up to the last argument and behind it. -/
def aroundLast (start join stop : List Command) (slots : List Slot) (last : List Command) :
    List Command :=
  .text "(" :: .deferred "arguments-open" start ::
    (Slot.fill "arguments-join" join slots ++ (last ++ [.deferred "arguments-close" stop, .text ")"]))

/-- The runs of two argument lists that differ in the last argument. -/
lemma callArguments_agree (hinner : inner.Follows Eq Eq inner') {front : List Json} {b b' : Json}
    (hvary : node.VaryInLast node' front b b') {q : List Json} {e e' : Emission Unit}
    (h : Rules.callArguments inner s q = .ok e) (h' : Rules.callArguments inner' s q = .ok e') :
    ∃ start join stop slots queue, ∃ last : Part node, ∃ last' : Part node', ∃ held held',
      last.1 = b ∧ last'.1 = b' ∧ inner.value last s queue = .ok held ∧
      inner'.value last' s queue = .ok held' ∧
      e.commands = aroundLast start join stop slots held.commands ∧
      e'.commands = aroundLast start join stop slots held'.commands := by
  obtain ⟨part, hpart, list, hlist, args, hargs, broken, hbroken, rfl⟩ :=
    callArguments_eq_ok_iff.mp h
  obtain ⟨part', hpart', list', hlist', args', hargs', broken', hbroken', rfl⟩ :=
    callArguments_eq_ok_iff.mp h'
  obtain ⟨parts, parts', hparts, last, last', rfl, rfl, hb, hb'⟩ :=
    exists_front (Json.parts_of_value? hvary.arguments hpart hlist)
      (Json.parts_of_value? hvary.arguments' hpart' hlist')
  obtain ⟨hslots, hneeded, queue, held, held', hheld, hheld', hlast, hlast'⟩ :=
    arguments_agree hinner hparts hargs hargs'
  -- what is measured is the same, so the decision is
  rw [hslots, hneeded] at hbroken
  obtain rfl := Except.ok.inj (hbroken.symm.trans hbroken')
  cases broken with
  | true =>
      exact ⟨[.indent, .newline], [.text ",", .newline], [.dedent, .newline], args'.value.front,
        queue, last, last', held, held', hb, hb', hheld, hheld',
        by simp [decidedArguments, Rules.argumentList, aroundLast, hslots, hlast],
        by simp [decidedArguments, Rules.argumentList, aroundLast, hlast']⟩
  | false =>
      exact ⟨[], [.text ", "], [], args'.value.front, queue, last, last', held, held', hb, hb',
        hheld, hheld',
        by simp [decidedArguments, Rules.argumentList, aroundLast, hslots, hlast],
        by simp [decidedArguments, Rules.argumentList, aroundLast, hlast']⟩

/-! ## The call as a whole -/

/-- Two nodes with the same comments in front of them. -/
lemma dressed_agree {role : Role} (hrole : role ≠ .type)
    (hcomments : Json.Meets Eq node node' "leadingComments")
    (hplace : Json.Meets Eq node node' "loc") (hnull : node.isNull = node'.isNull)
    {x y : Render Unit} {q : List Json} {e e' : Emission Unit}
    (h : dressed role node x s q = .ok e) (h' : dressed role node' y s q = .ok e') :
    ∃ leads own own', x s q = .ok own ∧ y s q = .ok own' ∧
      e.commands = leads ++ own.commands ∧ e'.commands = leads ++ own'.commands := by
  cases role with
  | type => exact absurd rfl hrole
  | bare =>
      obtain ⟨own, hown, hcommands⟩ := dressed_bare_eq_ok h
      obtain ⟨own', hown', hcommands'⟩ := dressed_bare_eq_ok h'
      exact ⟨[], own, own', hown, hown', hcommands, hcommands'⟩
  | value =>
      obtain ⟨list, leads, own, hlist, hleads, hown, hcommands⟩ := dressed_value_eq_ok h
      obtain ⟨list', leads', own', hlist', hleads', hown', hcommands'⟩ := dressed_value_eq_ok h'
      obtain ⟨_, hsame, rfl⟩ := hcomments.comments list hlist
      obtain rfl := Except.ok.inj (hsame.symm.trans hlist')
      obtain ⟨_, hsame, rfl⟩ := follows_leading hplace hnull false _ leads hleads
      obtain rfl := Except.ok.inj (hsame.symm.trans hleads')
      exact ⟨leads, own, own', hown, hown', hcommands, hcommands'⟩

/-- The runs of two calls that differ in the last argument. -/
lemma call_agree (hinner : inner.Follows Eq Eq inner') {front : List Json} {b b' : Json}
    (hvary : node.VaryInLast node' front b b') (isNew : Bool) {q : List Json}
    {e e' : Emission Unit} (h : Rules.call isNew node inner s q = .ok e)
    (h' : Rules.call isNew node' inner' s q = .ok e') :
    ∃ lead start join stop slots queue, ∃ last : Part node, ∃ last' : Part node', ∃ held held',
      last.1 = b ∧ last'.1 = b' ∧ inner.value last s queue = .ok held ∧
      inner'.value last' s queue = .ok held' ∧
      e.commands = lead ++ aroundLast start join stop slots held.commands ∧
      e'.commands = lead ++ aroundLast start join stop slots held'.commands := by
  rw [Rules.call_eq] at h h'
  obtain ⟨head, hhead, list, hlist, rfl⟩ := bind_eq_ok_iff.mp h
  obtain ⟨head', hhead', list', hlist', rfl⟩ := bind_eq_ok_iff.mp h'
  have hfollows := follows_callHead hinner isNew fun key hkey =>
    Json.meets_of_value? hvary.isObject' (hvary.same key hkey)
  obtain rfl := Except.ok.inj ((hfollows.run hhead).symm.trans hhead')
  obtain ⟨start, join, stop, slots, queue, last, last', held, held', hb, hb', hheld, hheld',
    hcommands, hcommands'⟩ := callArguments_agree hinner hvary hlist hlist'
  exact ⟨head.commands, start, join, stop, slots, queue, last, last', held, held', hb, hb', hheld,
    hheld', by rw [Emission.andThen, hcommands], by rw [Emission.andThen, hcommands']⟩

/-- Equal parts are rendered alike. -/
lemma follows_parts (node node' : Json) :
    (partsWith dressed node).Follows Eq Eq (partsWith dressed node') where
  value hrel := .of_eq (congrArg (treeWith dressed .value) hrel)
  bare hrel := .of_eq (congrArg (treeWith dressed .bare) hrel)
  type hrel := .of_eq (congrArg (treeWith dressed .type) hrel)
  either {part part'} hrel := by
    have hsame : part.1 = part'.1 := hrel
    simp only [partsWith, hsame]
    exact .refl _

end Render

/-- **The last argument never decides the layout of the others.**  Let two calls of the same kind be
handled in the same state that have everything in common but their last arguments, and let both
succeed.  Then they add the same commands up to the last argument and behind it: what stands before
the argument list, the argument list with the same contents of its placeholders `arguments-open`,
`arguments-join` and `arguments-close`, and the arguments before the last one with what is between
them.  The last arguments are rendered with the same comments waiting. -/
theorem handle_last_argument {before after after' : Rendering} {role : Role} {node node' : Json}
    {front : List Json} {b b' : Json} {kind : String}
    (hcall : kind = "CallExpression" ∨ kind = "NewExpression") (hkind : node.kind = .ok (.str kind))
    (hvary : node.VaryInLast node' front b b') (h : before.handle role node = .ok after)
    (h' : before.handle role node' = .ok after') :
    ∃ lead start join stop slots queue last last',
      Render.tree .value b before.setting queue = .ok last ∧
      Render.tree .value b' before.setting queue = .ok last' ∧
      after.draft.commands = before.draft.commands ++
        (lead ++ Render.aroundLast start join stop slots last.commands) ∧
      after'.draft.commands = before.draft.commands ++
        (lead ++ Render.aroundLast start join stop slots last'.commands) := by
  obtain ⟨e, he, -, rfl⟩ := Rendering.run_eq_ok_iff.mp (Rendering.handle_eq_ok_iff.mp h)
  obtain ⟨e', he', -, rfl⟩ := Rendering.run_eq_ok_iff.mp (Rendering.handle_eq_ok_iff.mp h')
  have hmeets (key : String) (hkey : key ≠ "arguments") : Json.Meets Eq node node' key :=
    Json.meets_of_value? hvary.isObject' (hvary.same key hkey)
  obtain ⟨_, hkind', rfl⟩ := (hmeets "type" (by decide)).kind _ hkind
  obtain ⟨isNew, hvalue, htype⟩ : ∃ isNew,
      Rules.find Rules.valueRules (.str kind) = .ok (some (Rules.call isNew)) ∧
        Rules.find Rules.typeRules (.str kind) = .ok none := by
    obtain rfl | rfl := hcall
    · exact ⟨false, rfl, rfl⟩
    · exact ⟨true, rfl, rfl⟩
  rw [← Render.treeWith_dressed] at he he'
  obtain ⟨hrole, hrun⟩ := Render.valueRule_of_treeWith hkind hvalue htype he
  obtain ⟨-, hrun'⟩ := Render.valueRule_of_treeWith hkind' hvalue htype he'
  have hnull : node.isNull = node'.isNull := by
    rw [Json.isNull_of_isObject hvary.isObject, Json.isNull_of_isObject hvary.isObject']
  obtain ⟨leads, own, own', hown, hown', hcommands, hcommands'⟩ :=
    Render.dressed_agree hrole (hmeets _ (by decide)) (hmeets _ (by decide)) hnull hrun hrun'
  obtain ⟨lead, start, join, stop, slots, queue, last, last', held, held', rfl, rfl, hheld, hheld',
    hlist, hlist'⟩ := Render.call_agree (Render.follows_parts node node') hvary isNew hown hown'
  refine ⟨leads ++ lead, start, join, stop, slots, queue, held, held', ?_, ?_, ?_, ?_⟩
  · rwa [← Render.treeWith_dressed]
  · rwa [← Render.treeWith_dressed]
  · rw [Draft.commands_append, hcommands, hlist, List.append_assoc]
  · rw [Draft.commands_append, hcommands', hlist', List.append_assoc]

/-- The call `f(a, …)` with a last argument. -/
def callOfTwoArguments (last : Json) : Json :=
  let name (s : String) : Json := .obj [("type", .str "Identifier"), ("name", .str s)]
  .obj [("type", .str "CallExpression"), ("callee", name "f"), ("arguments", .arr [name "a", last])]

/-- With a name or with a function of several lines for its last argument, the call begins alike. -/
theorem handle_last_argument_nameOrFunction :
    let name : Json := .obj [("type", .str "Identifier"), ("name", .str "b")]
    let function : Json := .obj [("type", .str "ArrowFunctionExpression"), ("params", .arr []),
      ("body", .obj [("type", .str "BlockStatement"),
        ("body", .arr [.obj [("type", .str "DebuggerStatement")]])])]
    ∃ after after',
      ({ setting := {} } : Rendering).handle .value (callOfTwoArguments name) = .ok after ∧
      ({ setting := {} } : Rendering).handle .value (callOfTwoArguments function) = .ok after' ∧
      ∃ lead start join stop slots last last',
        after.draft.commands = lead ++ Render.aroundLast start join stop slots last ∧
        after'.draft.commands = lead ++ Render.aroundLast start join stop slots last' := by
  intro name function
  have hrun (last : Json)
      (hfits : (callOfTwoArguments last).fits (.node ["CallExpression"]) = true) :
      ∃ after, ({ setting := {} } : Rendering).handle .value (callOfTwoArguments last) =
        .ok after := by
    obtain ⟨kind, -, hkind⟩ := Json.isA_of_fits hfits
    obtain ⟨e, he, -⟩ := Render.safe_tree .value (by decide) hkind {} [] (by simp)
    exact ⟨_, Rendering.handle_eq_ok_iff.mpr (Rendering.run_eq_ok_iff.mpr ⟨e, he, rfl, rfl⟩)⟩
  obtain ⟨after, hafter⟩ := hrun name (by decide)
  obtain ⟨after', hafter'⟩ := hrun function (by decide)
  have hvary : (callOfTwoArguments name).VaryInLast (callOfTwoArguments function)
      [.obj [("type", .str "Identifier"), ("name", .str "a")]] name function :=
    { isObject := rfl
      isObject' := rfl
      same := fun key hkey => by
        simp [callOfTwoArguments, Json.value?, Json.field?, Json.lookup, Ne.symm hkey, apply_dite]
      arguments := rfl
      arguments' := rfl }
  obtain ⟨lead, start, join, stop, slots, -, last, last', -, -, hcommands, hcommands'⟩ :=
    handle_last_argument (Or.inl rfl) rfl hvary hafter hafter'
  exact ⟨after, after', hafter, hafter', lead, start, join, stop, slots, last.commands,
    last'.commands, hcommands, hcommands'⟩

end EstreePrinter
