import Mathlib
import EstreePrinter.Proofs.Printer.Finished
import EstreePrinter.Proofs.Printer.Opening
import EstreePrinter.Proofs.Render.Layout

/-!
# The line of an arrow

No line may end in front of the arrow `=>` of a function.  What stands there is a parenthesis or the
end of a type, and the text of a type ends with a bracket or a word, or as the text of one of its
parts does (`Json.LastPart`).  A list of types without brackets, that is a union or an intersection,
ends with a line break if it is broken; everything else ends with a token
(`Json.Ended.finishes`).

So **`handle_keeps_arrow`**: the arrow stands on the line of the token before it, unless the result
type ends with a union or an intersection that needs several lines.  `print_breaks_arrow` is such a
function.
-/

namespace EstreePrinter

open Json (Part)

/-! ## Tokens at the end -/

namespace Command

/-- Whether a command ends with a token: a name, a literal, or a text that does not end in a blank.
-/
def isToken : Command → Bool
  | .text s => s.toList.getLast?.any fun c => !c.isWhitespace
  | .chunk _ _ => true
  | .foreignChunk _ _ => true
  | _ => false

/-- **Commands end with a token**: nothing stands behind it, in particular no line break. -/
def EndsInToken (commands : List Command) : Prop :=
  ∃ front token, leavesAll commands = front ++ [token] ∧ token.isToken = true

namespace EndsInToken

variable {commands : List Command}

lemma of_leaves {commands' : List Command} (h : EndsInToken commands) {front : List Command}
    (hleaves : leavesAll commands' = front ++ leavesAll commands) : EndsInToken commands' := by
  obtain ⟨before, token, heq, htoken⟩ := h
  exact ⟨front ++ before, token, by rw [hleaves, heq, List.append_assoc], htoken⟩

lemma append (before : List Command) (h : EndsInToken commands) :
    EndsInToken (before ++ commands) :=
  h.of_leaves (leavesAll_append _ _)

lemma token {c : Command} (hleaf : leaves c = [c]) (hc : c.isToken = true) : EndsInToken [c] :=
  ⟨[], c, by simp [hleaf], hc⟩

end EndsInToken

end Command

open Command (EndsInToken leavesAll)

namespace Render

variable {α : Type} {s : Setting} {q : List Json}

/-- **A step ends with a token or as another step does**: whenever it succeeds it keeps the line of
its last token, or its last commands are those of a run of `y`. -/
def EndsAs (x y : Render Unit) : Prop :=
  ∀ s q e, x s q = .ok e → EndsInToken e.commands ∨
    ∃ front waiting last, y s waiting = .ok last ∧
      leavesAll e.commands = front ++ leavesAll last.commands

variable {x y : Render Unit} {first : Render α} {f : α → Render Unit}

lemma EndsAs.refl (x : Render Unit) : EndsAs x x := fun _ q e h =>
  .inr ⟨[], q, e, h, by simp⟩

lemma EndsAs.trans {z : Render Unit} (hx : EndsAs x y) (hy : EndsAs y z) : EndsAs x z := by
  intro s q e he
  obtain htoken | ⟨front, waiting, last, hlast, hleaves⟩ := hx s q e he
  · exact .inl htoken
  · obtain htoken | ⟨front', waiting', last', hlast', hleaves'⟩ := hy s waiting last hlast
    · exact .inl (htoken.of_leaves hleaves)
    · exact .inr ⟨front ++ front', waiting', last', hlast', by
        rw [hleaves, hleaves', List.append_assoc]⟩

/-- What comes first does not matter. -/
lemma EndsAs.behind (h : ∀ a, EndsAs (f a) y) : EndsAs (first >>= f) y := by
  intro s q e he
  obtain ⟨head, -, tail, htail, rfl⟩ := bind_eq_ok_iff.mp he
  obtain htoken | ⟨front, waiting, last, hlast, hleaves⟩ := h _ _ _ _ htail
  · exact .inl (htoken.append _)
  · exact .inr ⟨leavesAll head.commands ++ front, waiting, last, hlast, by
      simp [Emission.andThen, hleaves]⟩

lemma EndsAs.reading {a : α} {z : Except Fault α} (ha : z = .ok a) (h : EndsAs (f a) y) :
    EndsAs ((liftM z : Render α) >>= f) y := by
  rwa [read_bind ha]

lemma endsAs_text {content : String} (h : (Command.text content).isToken = true) :
    EndsAs (text content) y := by
  intro s q e he
  obtain rfl := Except.ok.inj he
  exact .inl (.token rfl h)

lemma endsAs_chunk (content node : Json) : EndsAs (chunk content node) y := by
  refine .behind fun span s q e he => .inl ?_
  obtain rfl := Except.ok.inj he
  cases content <;> exact .token rfl rfl

/-- A step that ends as whatever step ends with a token. -/
lemma endsInToken_of_endsAs (h : ∀ y, EndsAs x y) {e : Emission Unit} (he : x s q = .ok e) :
    EndsInToken e.commands := by
  -- it ends as a step that never succeeds, so not as a run of it
  obtain htoken | ⟨_, _, _, hnever, _⟩ := h (fun _ _ => .error .malformed) s q e he
  · exact htoken
  · cases hnever

/-! ### What may be missing -/

/-- A step that emits nothing, or ends with a token. -/
def MayClose (x : Render Unit) : Prop :=
  ∀ s q e, x s q = .ok e → e.commands = [] ∨ EndsInToken e.commands

variable {g : Unit → Render Unit}

lemma mayClose_pure (a : Unit) : MayClose (pure a) := fun s q e h => by
  obtain rfl := Except.ok.inj h
  exact .inl rfl

lemma MayClose.bind (hx : MayClose x) (hg : MayClose (g ())) : MayClose (x >>= g) := by
  intro s q e he
  obtain ⟨head, hhead, tail, htail, rfl⟩ := bind_eq_ok_iff.mp he
  obtain hnothing | htoken := hg _ _ _ htail
  · have hcommands : (Emission.andThen head tail).commands = head.commands := by
      simp [Emission.andThen, hnothing]
    simpa only [hcommands] using hx _ _ _ hhead
  · exact .inr (htoken.append _)

lemma MayClose.reading {a : α} {z : Except Fault α} (ha : z = .ok a) (h : MayClose (f a)) :
    MayClose ((liftM z : Render α) >>= f) := by
  rwa [read_bind ha]

lemma mayClose_textIf {content : String} (node : Json) (key : String)
    (h : (Command.text content).isToken = true) : MayClose (textIf node key content) := by
  intro s q e he
  obtain ⟨given, -, rfl⟩ := textIf_eq_ok_iff.mp he
  cases given with
  | true => exact .inr (.token rfl h)
  | false => exact .inl rfl

/-- What may be missing behind a step does not matter if it ends with a token. -/
lemma EndsAs.before (h : EndsAs x y) (hg : MayClose (g ())) : EndsAs (x >>= g) y := by
  intro s q e he
  obtain ⟨head, hhead, tail, htail, rfl⟩ := bind_eq_ok_iff.mp he
  obtain hnothing | htoken := hg _ _ _ htail
  · have hcommands : (Emission.andThen head tail).commands = head.commands := by
      simp [Emission.andThen, hnothing]
    simpa only [hcommands] using h _ _ _ hhead
  · exact .inl (htoken.append _)

/-- A value is rendered by its rule, behind the comments before it. -/
lemma EndsAs.value {node : Json} {name : String} {rule : Rule} (hkind : node.kind = .ok (.str name))
    (hfind : Rules.find Rules.valueRules (.str name) = .ok (some rule))
    (h : EndsAs (rule node (partsOf node)) y) : EndsAs (tree .value node) y := by
  intro s q e he
  rw [tree_eq, read_bind hkind, read_bind (show Rules.find Role.value.rules _ = _ from hfind)] at he
  obtain ⟨_, lead, own, -, -, hown, hcommands⟩ := dressed_value_eq_ok he
  obtain htoken | ⟨front, waiting, last, hlast, hleaves⟩ := h _ _ _ hown
  · exact .inl (hcommands ▸ htoken.append _)
  · exact .inr ⟨leavesAll lead ++ front, waiting, last, hlast, by simp [hcommands, hleaves]⟩

/-! ## Lists without brackets -/

/-- The last item of a list.  If no several lines are needed, nothing stands behind it. -/
lemma items_last {β : Type} {separator : String} {item : β → Render Unit} {front : List (Option β)}
    {a : β} {afterHole : Bool} {e : Emission (List Slot × Bool)}
    (h : items separator item afterHole (front ++ [some a]) s q = .ok e) :
    ∃ waiting run, item a s waiting = .ok run ∧
      (e.value.2 = false → ∃ slots, e.value.1 = slots ++ Slot.ofCommands run.commands) := by
  induction front generalizing afterHole q e with
  | nil =>
      obtain ⟨run, hrun, others, hothers, rfl⟩ := items_some_eq_ok_iff.mp h
      obtain rfl := Except.ok.inj hothers
      refine ⟨q, run, hrun, fun hquiet => ⟨if afterHole then [.join] else [], ?_⟩⟩
      simp only [Bool.or_false, Bool.or_eq_false_iff, Bool.not_eq_false'] at hquiet
      simp [itemSlots, hquiet.2]
  | cons b front ih =>
      cases b with
      | none =>
          obtain ⟨others, hothers, rfl⟩ := items_hole_eq_ok_iff.mp h
          obtain ⟨waiting, run, hrun, hlast⟩ := ih hothers
          refine ⟨waiting, run, hrun, fun hquiet => ?_⟩
          obtain ⟨slots, hslots⟩ := hlast hquiet
          exact ⟨.own (.text separator) :: slots, by simp [hslots]⟩
      | some b =>
          obtain ⟨inner, -, others, hothers, rfl⟩ := items_some_eq_ok_iff.mp h
          obtain ⟨waiting, run, hrun, hlast⟩ := ih hothers
          refine ⟨waiting, run, hrun, fun hquiet => ?_⟩
          obtain ⟨slots, hslots⟩ := hlast (Bool.or_eq_false_iff.mp hquiet).2
          exact ⟨_ ++ slots, by rw [hslots, List.append_assoc]⟩

/-- **A list without brackets** ends with a line break if it is broken, and with its last item
otherwise. -/
lemma sequence_last {β : Type} {separator : String} {item : β → Render Unit}
    {front : List (Option β)} {a : β} {e : Emission Unit}
    (h : sequence false separator item (front ++ [some a]) s q = .ok e) :
    (e.multiline = true ∧ ∃ before, leavesAll e.commands = before ++ [Command.dedent, .newline]) ∨
      ∃ before waiting run, item a s waiting = .ok run ∧
        leavesAll e.commands = before ++ leavesAll run.commands := by
  obtain ⟨first, hfirst, broken, hbroken, rfl⟩ := (sequence_eq_ok_iff (by simp)).mp h
  obtain ⟨waiting, run, hrun, hlast⟩ := items_last hfirst
  cases broken with
  | true =>
      exact .inl ⟨rfl, leavesAll (.deferred "sequence-open" [.indent, .newline] ::
        Slot.fill "sequence-join" [.newline] first.value.1), by
          simp [decided, assemble, Command.leaves]⟩
  | false =>
      have hquiet : first.value.2 = false := by
        cases hneeded : first.value.2 with
        | false => rfl
        | true =>
            rw [hneeded] at hbroken
            cases hbroken
      obtain ⟨slots, hslots⟩ := hlast hquiet
      exact .inr ⟨leavesAll (.deferred "sequence-open" [] ::
        Slot.fill "sequence-join" [.text " "] slots), waiting, run, hrun, by
          simp [decided, assemble, Command.leaves, hslots, Slot.fill_append]⟩

end Render

/-! ## The ends of types -/

namespace Json

open Rules (resultType isTypeKind)

/-- The kinds of types whose text ends with a bracket or a word of their own. -/
def closedTypes : List String :=
  Rules.keywordTypes.map Prod.fst ++
    ["TSTypeParameterInstantiation", "TSTypeParameterDeclaration", "TSArrayType", "TSTupleType",
      "TSOptionalType", "TSTypeLiteral", "TSMappedType", "TSIndexedAccessType",
      "TSTemplateLiteralType", "TSParenthesizedType"]

/-- The kinds of names and literals in types whose text ends with a token. -/
def closedValues : List String := ["ThisExpression", "Literal", "TemplateLiteral"]

/-- The types whose text always ends with the type in some field. -/
def lastFields : List (String × String) :=
  [("TSTypeAnnotation", "typeAnnotation"), ("TSNamedTupleMember", "elementType"),
    ("TSRestType", "typeAnnotation"), ("TSConditionalType", "falseType"),
    ("TSInferType", "typeParameter"), ("TSTypeOperator", "typeAnnotation")]

/-- The kinds of types that are written with an arrow. -/
def arrowTypes : List String := ["TSFunctionType", "TSConstructorType"]

/-- The kinds of types that may have arguments behind them. -/
def appliedTypes : List String := ["TSTypeReference", "TSTypeQuery", "TSImportType"]

/-- The kinds of types that are lists without brackets. -/
def openLists : List String := ["TSUnionType", "TSIntersectionType"]

/-- **The text of a node ends with a token of its own.** -/
inductive Closed : Role → Json → Prop
  | type {node : Json} {kind : String} : node.kind = .ok (.str kind) → kind ∈ closedTypes →
      Closed .type node
  | result {node : Json} {kind : String} : node.kind = .ok (.str kind) → kind ∈ arrowTypes →
      resultType node = .ok none → Closed .type node
  | imported {node : Json} : node.kind = .ok (.str "TSImportType") →
      node.givenOr "typeArguments" "typeParameters" = .ok none →
      node.given "qualifier" = .ok none → Closed .type node
  | parameter {node : Json} {name : Part node} {text : String} :
      node.kind = .ok (.str "TSTypeParameter") → node.given "constraint" = .ok none →
      node.given "default" = .ok none → node.require "name" = .ok name → name.1 = .str text →
      (Command.text text).isToken = true → Closed .type node
  | value {node : Json} {kind : String} : node.kind = .ok (.str kind) → kind ∈ closedValues →
      Closed .value node
  | name {node : Json} : node.kind = .ok (.str "Identifier") →
      node.given "typeAnnotation" = .ok none → Closed .value node

/-- **The text of a node ends as that of one of its parts does.** -/
inductive LastPart : Role → Json → Role → Json → Prop
  | field {node : Json} {kind key : String} {part : Part node} :
      node.kind = .ok (.str kind) → (kind, key) ∈ lastFields → node.require key = .ok part →
      LastPart .type node .type part.1
  | result {node : Json} {kind : String} {part : Part node} : node.kind = .ok (.str kind) →
      kind ∈ arrowTypes → resultType node = .ok (some part) → LastPart .type node .type part.1
  | arguments {node : Json} {kind : String} {part : Part node} : node.kind = .ok (.str kind) →
      kind ∈ appliedTypes → node.givenOr "typeArguments" "typeParameters" = .ok (some part) →
      LastPart .type node .type part.1
  | reference {node : Json} {part : Part node} : node.kind = .ok (.str "TSTypeReference") →
      node.givenOr "typeArguments" "typeParameters" = .ok none →
      node.require "typeName" = .ok part → LastPart .type node .value part.1
  | query {node kind : Json} {part : Part node} {isType : Bool} :
      node.kind = .ok (.str "TSTypeQuery") →
      node.givenOr "typeArguments" "typeParameters" = .ok none →
      node.require "exprName" = .ok part → part.1.requireKind = .ok kind →
      isTypeKind kind = .ok isType → LastPart .type node (if isType then .type else .value) part.1
  | qualifier {node : Json} {part : Part node} : node.kind = .ok (.str "TSImportType") →
      node.givenOr "typeArguments" "typeParameters" = .ok none →
      node.given "qualifier" = .ok (some part) → LastPart .type node .value part.1
  | literal {node : Json} {part : Part node} : node.kind = .ok (.str "TSLiteralType") →
      node.require "literal" = .ok part → LastPart .type node .value part.1
  | default {node : Json} {part : Part node} : node.kind = .ok (.str "TSTypeParameter") →
      node.given "default" = .ok (some part) → LastPart .type node .type part.1
  | bound {node : Json} {part : Part node} : node.kind = .ok (.str "TSTypeParameter") →
      node.given "default" = .ok none → node.given "constraint" = .ok (some part) →
      LastPart .type node .type part.1
  | parameter {node : Json} {name : Part node} : node.kind = .ok (.str "TSTypeParameter") →
      node.given "constraint" = .ok none → node.given "default" = .ok none →
      node.require "name" = .ok name → name.1.isObject = true → LastPart .type node .value name.1
  | subject {node kind : Json} {part : Part node} {isType : Bool} :
      node.kind = .ok (.str "TSTypePredicate") → node.given "typeAnnotation" = .ok none →
      node.require "parameterName" = .ok part → part.1.requireKind = .ok kind →
      isTypeKind kind = .ok isType → LastPart .type node (if isType then .type else .value) part.1
  | predicate {node kind : Json} {part : Part node} : node.kind = .ok (.str "TSTypePredicate") →
      node.given "typeAnnotation" = .ok (some part) → part.1.requireKind = .ok kind →
      kind.isText "TSTypeAnnotation" = false → LastPart .type node .type part.1
  | annotated {node : Json} {part : Part node} {inside : Part part.1} :
      node.kind = .ok (.str "TSTypePredicate") → node.given "typeAnnotation" = .ok (some part) →
      part.1.requireKind = .ok (.str "TSTypeAnnotation") →
      part.1.require "typeAnnotation" = .ok inside → LastPart .type node .type inside.1
  | right {node : Json} {part : Part node} : node.kind = .ok (.str "TSQualifiedName") →
      node.require "right" = .ok part → LastPart .value node .value part.1
  | annotation {node : Json} {part : Part node} : node.kind = .ok (.str "Identifier") →
      node.given "typeAnnotation" = .ok (some part) → LastPart .value node .type part.1
  | argument {node : Json} {part : Part node} : node.kind = .ok (.str "UnaryExpression") →
      node.require "argument" = .ok part → LastPart .value node .value part.1

/-- A union or an intersection with its last type. -/
structure LastItem (list last : Json) : Prop where
  kind : ∃ kind ∈ openLists, list.kind = .ok (.str kind)
  last : ∃ types front, ∃ part : Part list, list.require "types" = .ok types ∧
    Json.itemsOf types = .ok (front ++ [some part]) ∧ part.1 = last

/-- **The end of a type can be found**, going from each type to the part with which its text ends.
-/
inductive Ended : Role → Json → Prop
  | closed {role : Role} {node : Json} : Closed role node → Ended role node
  | last {role role' : Role} {node part : Json} : LastPart role node role' part →
      Ended role' part → Ended role node
  | item {list last : Json} : LastItem list last → Ended .type last → Ended .type list

/-- **The text of a node ends with a list without brackets.** -/
inductive EndsWithList : Role → Json → Json → Prop
  | self {list last : Json} : LastItem list last → EndsWithList .type list list
  | last {role role' : Role} {node part list : Json} : LastPart role node role' part →
      EndsWithList role' part list → EndsWithList role node list
  | item {outer last list : Json} : LastItem outer last → EndsWithList .type last list →
      EndsWithList .type outer list

end Json

open Json (Closed LastPart LastItem Ended EndsWithList)

namespace Rules

open Render (EndsAs MayClose endsAs_text endsAs_chunk mayClose_pure mayClose_textIf partsOf tree)

variable {node : Json} {inner : Inner node} {y : Render Unit}

/-! ### Types that end with a token -/

lemma endsAs_closedTypes {kind : String} (hkind : kind ∈ Json.closedTypes) : ∃ rule,
    find typeRules (.str kind) = .ok (some rule) ∧
      ∀ (node : Json) (inner : Inner node) (y : Render Unit), EndsAs (rule node inner) y := by
  obtain hword | hbracket := List.mem_append.mp hkind
  · obtain ⟨entry, hentry, rfl⟩ := List.mem_map.mp hword
    have hwords : ∀ entry ∈ keywordTypes, (Command.text entry.2).isToken = true := by decide
    exact ⟨_, find_keywordType hentry, fun _ _ _ => endsAs_text (hwords _ hentry)⟩
  · fin_cases hbracket
    -- a rule for brackets ends with the closing one, whatever it does before
    all_goals
      refine ⟨_, rfl, fun node inner y => ?_⟩
      repeat
        first
          | exact endsAs_text (by decide)
          | refine EndsAs.behind fun _ => ?_

/-! ### Types that end as a part does -/

lemma endsAs_wrappedType (inner : Inner node) (part : Part node) (wrap : Bool) :
    EndsAs (inner.wrappedType part wrap) (inner.type part) := by
  cases wrap with
  | true => exact .behind fun _ => .behind fun _ => endsAs_text (by decide)
  | false => exact .refl _

lemma endsAs_wrapped (inner : Inner node) (part : Part node) (wrap : Bool) :
    EndsAs (inner.wrapped part wrap) (inner.value part) := by
  cases wrap with
  | true => exact .behind fun _ => .behind fun _ => endsAs_text (by decide)
  | false => exact .refl _

lemma endsAs_wrappedIfKind (inner : Inner node) (kinds : List String) (part : Part node) :
    EndsAs (wrappedIfKind inner kinds part) (inner.type part) :=
  .behind fun _ => .behind fun _ => endsAs_wrappedType inner part _

lemma endsAs_either {kind : Json} {part : Part node} {isType : Bool}
    (hkind : part.1.requireKind = .ok kind) (htype : isTypeKind kind = .ok isType) :
    EndsAs ((partsOf node).either part) (tree (if isType then .type else .value) part.1) := by
  refine .reading hkind (.reading htype ?_)
  cases isType with
  | true => exact .refl _
  | false => exact .refl _

lemma endsAs_lastFields : ∀ field ∈ Json.lastFields, ∃ rule,
    find typeRules (.str field.1) = .ok (some rule) ∧
      ∀ (node : Json) (inner : Inner node) (part : Part node), node.require field.2 = .ok part →
        EndsAs (rule node inner) (inner.type part) := by
  simp only [Json.lastFields, List.forall_mem_cons]
  refine ⟨⟨_, rfl, fun node inner part hpart => ?_⟩, ⟨_, rfl, fun node inner part hpart => ?_⟩,
    ⟨_, rfl, fun node inner part hpart => ?_⟩, ⟨_, rfl, fun node inner part hpart => ?_⟩,
    ⟨_, rfl, fun node inner part hpart => ?_⟩, ⟨_, rfl, fun node inner part hpart => ?_⟩, by simp⟩
  all_goals
    repeat
      first
        | exact .reading hpart (.refl _)
        | refine EndsAs.behind fun _ => ?_

/-- What stands behind the arrow of a function type. -/
def arrowResult (inner : Inner node) : Option (Part node) → Render Unit
  | some part => inner.type part
  | none => Render.text "void"

/-- The result of a function type comes last. -/
lemma endsAs_functionType {result : Option (Part node)} (inner : Inner node)
    (hresult : resultType node = .ok result) :
    EndsAs (functionType node inner) (arrowResult inner result) := by
  refine .behind fun _ => .behind fun _ => .behind fun _ => .behind fun _ => .reading hresult ?_
  cases result with
  | some part => exact .refl _
  | none => exact .refl _

lemma endsAs_arrowTypes {kind : String} (hkind : kind ∈ Json.arrowTypes)
    {result : Option (Part node)} (hresult : resultType node = .ok result) : ∃ rule,
    find typeRules (.str kind) = .ok (some rule) ∧ ∀ inner : Inner node,
      EndsAs (rule node inner) (arrowResult inner result) := by
  simp only [Json.arrowTypes, List.mem_cons, List.not_mem_nil, or_false] at hkind
  obtain rfl | rfl := hkind
  · exact ⟨_, rfl, fun inner => endsAs_functionType inner hresult⟩
  · exact ⟨_, rfl, fun inner => .behind fun _ => .behind fun _ =>
      endsAs_functionType inner hresult⟩

/-- Behind the module of an imported type come its qualifier and its arguments. -/
lemma endsAs_importType {inner : Inner node} (h : EndsAs (do
      Render.text ")"
      inner.valueAfter "." (← node.given "qualifier")
      typeArguments inner) y) : EndsAs (importType node inner) y := by
  refine .behind fun _ => .behind fun argument => ?_
  cases argument with
  | some argument => exact .behind fun _ => h
  | none => exact .behind fun _ => .behind fun _ => h

/-- Type arguments come last, if there are any. -/
lemma endsAs_appliedTypes {kind : String} (hkind : kind ∈ Json.appliedTypes) {part : Part node}
    (harguments : node.givenOr "typeArguments" "typeParameters" = .ok (some part)) : ∃ rule,
    find typeRules (.str kind) = .ok (some rule) ∧ ∀ inner : Inner node,
      EndsAs (rule node inner) (inner.type part) := by
  have hlast (inner : Inner node) : EndsAs (typeArguments inner) (inner.type part) :=
    .reading harguments (.refl _)
  simp only [Json.appliedTypes, List.mem_cons, List.not_mem_nil, or_false] at hkind
  obtain rfl | rfl | rfl := hkind
  · exact ⟨_, rfl, fun inner => .behind fun _ => hlast inner⟩
  · exact ⟨_, rfl, fun inner => .behind fun _ => .behind fun _ => .behind fun _ => hlast inner⟩
  · exact ⟨_, rfl, fun inner => endsAs_importType (.behind fun _ => .behind fun _ =>
      .behind fun _ => hlast inner)⟩

/-- No type arguments, nothing behind the type. -/
lemma mayClose_typeArguments (inner : Inner node)
    (harguments : node.givenOr "typeArguments" "typeParameters" = .ok none) :
    MayClose (typeArguments inner) :=
  .reading harguments (mayClose_pure ())

/-- A type parameter without a bound and a default is a name. -/
lemma endsAs_typeParameter {name : Part node} {inner : Inner node}
    (hconstraint : node.given "constraint" = .ok none) (hdefault : node.given "default" = .ok none)
    (hname : node.require "name" = .ok name) (h : EndsAs (nameOrText inner name) y) :
    EndsAs (typeParameter node inner) y := by
  refine .behind fun _ => .behind fun _ => .behind fun _ => .reading hname (h.before ?_)
  refine .reading hconstraint (.bind (mayClose_pure ()) ?_)
  exact .reading hdefault (mayClose_pure ())

/-- **A node whose text ends with a token of its own.** -/
lemma endsAs_closed {role : Role} (h : Closed role node) (y : Render Unit) :
    EndsAs (tree role node) y := by
  cases h with
  | type hkind hmem =>
      obtain ⟨rule, hfind, hends⟩ := endsAs_closedTypes hmem
      rw [Render.tree_type _ hkind hfind]
      exact hends _ _ _
  | result hkind hmem hresult =>
      obtain ⟨rule, hfind, hends⟩ := endsAs_arrowTypes hmem hresult
      rw [Render.tree_type _ hkind hfind]
      exact (hends _).trans (endsAs_text (by decide))
  | imported hkind harguments hqualifier =>
      rw [Render.tree_type _ hkind rfl]
      exact endsAs_importType ((endsAs_text (by decide)).before
        (.reading hqualifier (.bind (mayClose_pure ()) (mayClose_typeArguments _ harguments))))
  | parameter hkind hconstraint hdefault hname htext htoken =>
      rw [Render.tree_type _ hkind rfl]
      refine endsAs_typeParameter hconstraint hdefault hname ?_
      rw [nameOrText, htext]
      exact endsAs_text htoken
  | value hkind hmem =>
      simp only [Json.closedValues, List.mem_cons, List.not_mem_nil, or_false] at hmem
      obtain rfl | rfl | rfl := hmem
      · exact .value hkind rfl (endsAs_chunk _ _)
      · exact .value hkind rfl (.behind fun _ => .behind fun _ => .behind fun _ => .behind fun _ =>
          endsAs_chunk _ _)
      · exact .value hkind rfl (.behind fun _ => .behind fun _ => .behind fun _ => .behind fun _ =>
          .behind fun _ => endsAs_text (by decide))
  | name hkind hannotation =>
      exact .value hkind rfl (.behind fun _ => (endsAs_chunk _ _).before
        (.bind (mayClose_textIf _ _ (by decide)) (.reading hannotation (mayClose_pure ()))))

/-- **A node whose text ends as that of a part does.** -/
lemma endsAs_lastPart {role role' : Role} {part : Json} (h : LastPart role node role' part) :
    EndsAs (tree role node) (tree role' part) := by
  cases h with
  | field hkind hmem hpart =>
      obtain ⟨rule, hfind, hends⟩ := endsAs_lastFields _ hmem
      rw [Render.tree_type _ hkind hfind]
      exact hends _ _ _ hpart
  | result hkind hmem hresult =>
      obtain ⟨rule, hfind, hends⟩ := endsAs_arrowTypes hmem hresult
      rw [Render.tree_type _ hkind hfind]
      exact hends _
  | arguments hkind hmem harguments =>
      obtain ⟨rule, hfind, hends⟩ := endsAs_appliedTypes hmem harguments
      rw [Render.tree_type _ hkind hfind]
      exact hends _
  | reference hkind harguments hname =>
      rw [Render.tree_type _ hkind rfl]
      exact (EndsAs.reading hname (.refl _)).before (mayClose_typeArguments _ harguments)
  | query hkind harguments hname hinner htype =>
      rw [Render.tree_type _ hkind rfl]
      exact .behind fun _ => .reading hname <|
        (endsAs_either hinner htype).before (mayClose_typeArguments _ harguments)
  | qualifier hkind harguments hqualifier =>
      rw [Render.tree_type _ hkind rfl]
      exact endsAs_importType (.behind fun _ => .reading hqualifier <|
        (EndsAs.behind fun _ => .refl _).before (mayClose_typeArguments _ harguments))
  | literal hkind hliteral =>
      rw [Render.tree_type _ hkind rfl]
      exact .reading hliteral (.refl _)
  | default hkind hdefault =>
      rw [Render.tree_type _ hkind rfl]
      exact .behind fun _ => .behind fun _ => .behind fun _ => .behind fun _ => .behind fun _ =>
        .behind fun _ => .behind fun _ => .reading hdefault (.behind fun _ => .refl _)
  | bound hkind hdefault hconstraint =>
      rw [Render.tree_type _ hkind rfl]
      exact .behind fun _ => .behind fun _ => .behind fun _ => .behind fun _ => .behind fun _ =>
        .reading hconstraint <| (EndsAs.behind fun _ => .refl _).before <|
          .reading hdefault (mayClose_pure ())
  | parameter hkind hconstraint hdefault hname hobject =>
      rw [Render.tree_type _ hkind rfl]
      refine endsAs_typeParameter hconstraint hdefault hname ?_
      rw [nameOrText]
      split
      · rename_i heq
        simp [heq, Json.isObject] at hobject
      · exact .refl _
  | subject hkind hannotation hname hinner htype =>
      rw [Render.tree_type _ hkind rfl]
      exact .behind fun _ => .reading hname <| (endsAs_either hinner htype).before <|
        .reading hannotation (mayClose_pure ())
  | predicate hkind hannotation hinner hother =>
      rw [Render.tree_type _ hkind rfl]
      refine .behind fun _ => .behind fun _ => .behind fun _ => .reading hannotation <|
        .behind fun _ => .reading hinner ?_
      simp only [hother]
      exact .refl _
  | annotated hkind hannotation hinner hpart =>
      rw [Render.tree_type _ hkind rfl]
      refine .behind fun _ => .behind fun _ => .behind fun _ => .reading hannotation <|
        .behind fun _ => .reading hinner ?_
      exact .reading hpart (.refl _)
  | right hkind hright =>
      exact .value hkind rfl (.behind fun _ => .behind fun _ => .reading hright (.refl _))
  | annotation hkind hannotation =>
      exact .value hkind rfl (.behind fun _ => .behind fun _ => .behind fun _ =>
        .reading hannotation (.refl _))
  | argument hkind hargument =>
      refine .value hkind rfl (.behind fun _ => .reading hargument <| .behind fun _ =>
        .behind fun isSpaced => ?_)
      cases isSpaced with
      | true => exact .behind fun _ => .behind fun _ => endsAs_wrapped _ _ _
      | false => exact .behind fun _ => endsAs_wrapped _ _ _

/-! ### Lists without brackets -/

/-- A union or an intersection is rendered as its list of types. -/
lemma tree_openList {list : Json} {kind : String} (hmem : kind ∈ Json.openLists)
    (hkind : list.kind = .ok (.str kind)) {found : Part list}
    {items : List (Option (Part list))} (htypes : list.require "types" = .ok found)
    (hitems : Json.itemsOf found = .ok items) : ∃ separator kinds,
    tree .type list = Render.sequence false separator (wrappedIfKind (partsOf list) kinds) items := by
  simp only [Json.openLists, List.mem_cons, List.not_mem_nil, or_false] at hmem
  obtain rfl | rfl := hmem
  · exact ⟨_, _, by rw [Render.tree_type _ hkind rfl, unionType, Render.read_bind htypes,
      Render.read_bind hitems]⟩
  · exact ⟨_, _, by rw [Render.tree_type _ hkind rfl, intersectionType, Render.read_bind htypes,
      Render.read_bind hitems]⟩

/-- **A union or an intersection** ends with a line break if it is broken, and as its last type does
otherwise. -/
lemma endsAs_lastItem {list last : Json} (h : LastItem list last) {s : Setting} {q : List Json}
    {e : Emission Unit} (he : tree .type list s q = .ok e) :
    (e.multiline = true ∧ ∃ before, leavesAll e.commands = before ++ [Command.dedent, .newline]) ∨
      EndsInToken e.commands ∨ ∃ front waiting run, tree .type last s waiting = .ok run ∧
        leavesAll e.commands = front ++ leavesAll run.commands := by
  obtain ⟨⟨kind, hmem, hkind⟩, types, front, part, htypes, hitems, rfl⟩ := h
  obtain ⟨separator, kinds, htree⟩ := tree_openList hmem hkind htypes hitems
  rw [htree] at he
  refine (Render.sequence_last he).imp_right ?_
  rintro ⟨before, waiting, run, hrun, hleaves⟩
  obtain htoken | ⟨front', waiting', last, hlast, hleaves'⟩ :=
    endsAs_wrappedIfKind (partsOf list) kinds part s waiting run hrun
  · exact .inl (htoken.of_leaves hleaves)
  · exact .inr ⟨before ++ front', waiting', last, hlast, by
      rw [hleaves, hleaves', List.append_assoc]⟩

end Rules

open Render (partsOf tree)

/-- **Commands end with the line break of a broken list**: a union or an intersection with which the
text of the node ends has been broken, and its commands, the last of which is a line break, are the
last ones. -/
def Render.EndsBroken (role : Role) (node : Json) (s : Setting) (commands : List Command) : Prop :=
  ∃ list waiting run front before, EndsWithList role node list ∧ tree .type list s waiting = .ok run ∧
    run.multiline = true ∧ leavesAll commands = front ++ leavesAll run.commands ∧
    leavesAll run.commands = before ++ [.dedent, .newline]

/-- Commands end as those of a part do, also with the list with which these end. -/
lemma Render.EndsBroken.of_leaves {role role' : Role} {node part : Json} {s : Setting}
    {front commands commands' : List Command} (h : Render.EndsBroken role' part s commands')
    (hlists : ∀ list, EndsWithList role' part list → EndsWithList role node list)
    (hleaves : leavesAll commands = front ++ leavesAll commands') :
    Render.EndsBroken role node s commands := by
  obtain ⟨list, waiting, run, front', before, hends, htree, hbroken, hrest, hbreak⟩ := h
  exact ⟨list, waiting, run, front ++ front', before, hlists list hends, htree, hbroken,
    by rw [hleaves, hrest, List.append_assoc], hbreak⟩

namespace Json.Ended

open Render (EndsBroken)

/-- **The text of a type ends with a token, or with the line break of a list without brackets.** -/
lemma finishes {role : Role} {node : Json} (h : Ended role node) {s : Setting} {q : List Json}
    {e : Emission Unit} (he : tree role node s q = .ok e) :
    EndsInToken e.commands ∨ EndsBroken role node s e.commands := by
  -- the induction goes from a type to the part with which its text ends
  induction h generalizing q e with
  | closed hclosed =>
      exact .inl (Render.endsInToken_of_endsAs (Rules.endsAs_closed hclosed) he)
  | last hpart _ ih =>
      obtain htoken | ⟨front, waiting, run, hrun, hleaves⟩ := Rules.endsAs_lastPart hpart _ _ _ he
      · exact .inl htoken
      · exact (ih hrun).imp (.of_leaves · hleaves)
          (.of_leaves · (fun _ => EndsWithList.last hpart) hleaves)
  | @item list _ hitem _ ih =>
      obtain ⟨hbroken, before, hbreak⟩ | htoken | ⟨front, waiting, run, hrun, hleaves⟩ :=
        Rules.endsAs_lastItem hitem he
      · exact .inr ⟨list, q, e, [], before, .self hitem, he, hbroken, rfl, hbreak⟩
      · exact .inl htoken
      · exact (ih hrun).imp (.of_leaves · hleaves)
          (.of_leaves · (fun _ => EndsWithList.item hitem) hleaves)

end Json.Ended

/-! ## The arrow -/

namespace Rules

open Render (EndsBroken EndsAs endsAs_text mayClose_pure)

variable {node : Json} {s : Setting} {q : List Json} {e : Emission Unit}

/-- **What stands before an arrow** ends with a token, or with the line break of a list without
brackets at the end of the result type. -/
lemma arrowHead_finishes
    (htype : ∀ type, node.given "returnType" = .ok (some type) → Ended .type type.1)
    (he : arrowHead node (partsOf node) s q = .ok e) :
    EndsInToken e.commands ∨ ∃ type, node.given "returnType" = .ok (some type) ∧
      EndsBroken .type type.1 s e.commands := by
  cases hfound : node.given "returnType" with
  | error fault =>
      have hnever (y : Render Unit) : EndsAs (arrowHead node (partsOf node)) y :=
        .behind fun _ => .behind fun _ => .behind fun _ => .behind fun _ => .behind fun _ s q e he => by
          obtain ⟨found, hread, -⟩ := Render.read_bind_eq_ok_iff.mp he
          cases hfound.symm.trans hread
      exact .inl (Render.endsInToken_of_endsAs hnever he)
  | ok found =>
      cases found with
      | none =>
          have hparenthesis (y : Render Unit) : EndsAs (arrowHead node (partsOf node)) y :=
            .behind fun _ => .behind fun _ => .behind fun _ => .behind fun _ =>
              (endsAs_text (by decide)).before (.reading hfound (mayClose_pure ()))
          exact .inl (Render.endsInToken_of_endsAs hparenthesis he)
      | some type =>
          have hlast : EndsAs (arrowHead node (partsOf node)) (tree .type type.1) :=
            .behind fun _ => .behind fun _ => .behind fun _ => .behind fun _ => .behind fun _ =>
              .reading hfound (.refl _)
          obtain htoken | ⟨front, waiting, run, hrun, hleaves⟩ := hlast s q e he
          · exact .inl htoken
          · exact ((htype type hfound).finishes hrun).imp (.of_leaves · hleaves) fun hlist =>
              ⟨type, rfl, hlist.of_leaves (fun _ => id) hleaves⟩

end Rules

/-- What is emitted for a node that is no type: comments, and what its rule emits. -/
lemma Render.exists_own {role : Role} {node : Json} {name : String} {rule : Rule} {s : Setting}
    {q : List Json} {e : Emission Unit} (hkind : node.kind = .ok (.str name))
    (hvalue : Rules.find Rules.valueRules (.str name) = .ok (some rule))
    (htype : Rules.find Rules.typeRules (.str name) = .ok none) (h : tree role node s q = .ok e) :
    ∃ lead own, rule node (partsOf node) s q = .ok own ∧ e.commands = lead ++ own.commands ∧
      ∀ c ∈ lead, c.comment?.isSome := by
  have hrole := (valueRule_of_treeWith hkind hvalue htype (treeWith_dressed role node ▸ h)).1
  rw [tree_eq, read_bind hkind] at h
  cases role with
  | type => exact absurd rfl hrole
  | value =>
      rw [read_bind (show Rules.find Role.value.rules _ = _ from hvalue)] at h
      obtain ⟨_, lead, own, -, hlead, hown, hcommands⟩ := dressed_value_eq_ok h
      exact ⟨lead, own, hown, hcommands, isSome_comment?_of_leading hlead⟩
  | bare =>
      rw [read_bind (show Rules.find Role.bare.rules _ = _ from hvalue)] at h
      obtain ⟨own, hown, hcommands⟩ := dressed_bare_eq_ok h
      exact ⟨[], own, hown, hcommands, List.forall_mem_nil _⟩

/-- **The arrow stands on the line of the token before it.**  Let an arrow function be handled, in
whatever role and at whatever width.  Then the commands that are added are `lead`, which are the
comments before the function; `head`, its parameters and its result type; and its arrow and its
body.  And `head` ends with a token, behind which nothing stands: so the arrow follows it directly.
There is one exception: the text of the result type ends with a union or an intersection that needs
several lines, and then `head` ends with the line break of it. -/
theorem handle_keeps_arrow {before after : Rendering} {role : Role} {node : Json}
    (hkind : node.kind = .ok (.str "ArrowFunctionExpression"))
    (htype : ∀ type, node.given "returnType" = .ok (some type) → Ended .type type.1)
    (h : before.handle role node = .ok after) :
    ∃ lead waiting head body, after.draft.commands = before.draft.commands ++
        (lead ++ head.commands ++ .text " => " :: body) ∧
      (∀ c ∈ lead, c.comment?.isSome) ∧
      Rules.arrowHead node (partsOf node) before.setting waiting = .ok head ∧
      (EndsInToken head.commands ∨ ∃ type, node.given "returnType" = .ok (some type) ∧
        Render.EndsBroken .type type.1 before.setting head.commands) := by
  obtain ⟨e, he, -, rfl⟩ := Rendering.run_eq_ok_iff.mp (Rendering.handle_eq_ok_iff.mp h)
  obtain ⟨lead, own, hown, hcommands, hlead⟩ := Render.exists_own hkind rfl rfl he
  rw [Rules.arrow_eq] at hown
  obtain ⟨head, hhead, _, hbehind, rfl⟩ := Render.bind_eq_ok_iff.mp hown
  obtain ⟨_, htext, body, hbody, rfl⟩ := Render.bind_eq_ok_iff.mp hbehind
  obtain rfl := Except.ok.inj htext
  refine ⟨lead, _, head, body.commands, ?_, hlead, hhead, Rules.arrowHead_finishes htype hhead⟩
  rw [Draft.commands_append, hcommands]
  simp [Emission.andThen]

/-- The result type `any | void`. -/
def anyOrVoid : Json :=
  let node (kind : String) (fields : List (String × Json)) : Json :=
    .obj (("type", .str kind) :: fields)
  node "TSTypeAnnotation" [("typeAnnotation", node "TSUnionType"
    [("types", .arr [node "TSAnyKeyword" [], node "TSVoidKeyword" []])])]

/-- The arrow function `(): any | void => x`. -/
def unionArrow : Json :=
  .obj [("type", .str "ArrowFunctionExpression"), ("params", .arr []),
    ("body", .obj [("type", .str "Identifier"), ("name", .str "x")]), ("returnType", anyOrVoid)]

lemma ended_anyOrVoid : Ended .type anyOrVoid := by
  have hfield : ("TSTypeAnnotation", "typeAnnotation") ∈ Json.lastFields := by decide
  have hkind : "TSVoidKeyword" ∈ Json.closedTypes := by decide
  have hvoid : Closed .type (.obj [("type", .str "TSVoidKeyword")]) := .type rfl hkind
  refine .last (.field rfl hfield rfl) (.item ⟨⟨"TSUnionType", by decide, rfl⟩, ?_⟩ (.closed hvoid))
  exact ⟨_, [_], _, rfl, rfl, rfl⟩

theorem handle_keeps_arrow_unionArrow :
    unionArrow.kind = .ok (.str "ArrowFunctionExpression") ∧ Ended .type anyOrVoid ∧
      ∃ after, ({ setting := {} } : Rendering).handle .value unionArrow = .ok after ∧
        ∃ lead head body, after.draft.commands = lead ++ head ++ .text " => " :: body ∧
          (EndsInToken head ∨ Render.EndsBroken .type anyOrVoid {} head) := by
  have hdone : (({ setting := {} } : Rendering).handle .value unionArrow).isOk = true := by
    decide +kernel
  cases hhandle : ({ setting := {} } : Rendering).handle .value unionArrow with
  | error fault =>
      rw [hhandle] at hdone
      cases hdone
  | ok after =>
      have htype (type : Part unionArrow) (h : unionArrow.given "returnType" = .ok (some type)) :
          Ended .type type.1 := by
        obtain rfl := Option.some.inj (Except.ok.inj h)
        exact ended_anyOrVoid
      obtain ⟨lead, waiting, head, body, hcommands, -, -, hends⟩ :=
        handle_keeps_arrow rfl htype hhandle
      refine ⟨rfl, ended_anyOrVoid, after, rfl, lead, head.commands, body, hcommands,
        hends.imp_right ?_⟩
      rintro ⟨type, hgiven, hbroken⟩
      obtain rfl := Option.some.inj (Except.ok.inj hgiven)
      exact hbroken

/-- The arrow stands on a line of its own: the union of the result type needs several lines. -/
theorem print_breaks_arrow :
    (printTree { width := 1 } (.obj [("type", .str "ExpressionStatement"),
      ("expression", unionArrow)])).toOption.map Output.code =
        some "(): \n\tany |\n\tvoid\n => x;" := by
  decide +kernel

end EstreePrinter
