import Mathlib
import EstreePrinter.Proofs.Render.Opening

/-!
# With what each rule begins

For each rule for nodes that are no types: what it emits begins with a text of its own, or with the
rendering of a part, which is named.  Where a rule asks for parentheses around its first part the
answer stands in the hypothesis, since it decides between the two.

At the end the table as a whole: every rule except the one for programs begins with something
(`Rules.starts_valueRules`).  A program may be empty, and the comments before its statements are its
own.
-/

namespace EstreePrinter

namespace Rules

open Render
open Json (Part)

variable {node : Json} {inner : Inner node} {P : Option (Part node) → Prop} {s : Setting}

/-! ## Names, literals and templates -/

lemma opens_identifier (hP : P none) : Opens inner P s (identifier node inner) :=
  opens_read fun _ _ => (opens_chunk hP _ _).bind

lemma opens_privateIdentifier (hP : P none) : Opens inner P s (privateIdentifier node inner) :=
  opens_read fun _ _ => opens_read fun _ _ => opens_chunk hP _ _

lemma opens_word (hP : P none) (content : String) : Opens inner P s (word content node inner) :=
  opens_chunk hP _ _

lemma opens_literal (hP : P none) : Opens inner P s (literal node inner) :=
  opens_setting <| opens_read fun _ _ => opens_read fun _ _ => opens_raiseIf (opens_chunk hP _ _)

lemma opens_template (hP : P none) : Opens inner P s (template node inner) :=
  opens_read fun _ _ => opens_read fun _ _ => (opens_text hP _).bind

lemma opens_taggedTemplate
    (hP : ∀ tag wrap, node.require "tag" = .ok tag →
      Precedence.wrapsAsHead tag.1 Precedence.member = .ok wrap →
        P (if wrap then none else some tag)) :
    Opens inner P s (taggedTemplate node inner) :=
  opens_read fun tag htag => opens_read fun wrap hwrap => (opens_wrapped (hP tag wrap htag hwrap)).bind

lemma opens_transparent (hP : ∀ part, node.require "expression" = .ok part → P (some part)) :
    Opens inner P s (transparent node inner) :=
  opens_field hP

lemma opens_metaProperty (hP : ∀ part, node.require "meta" = .ok part → P (some part)) :
    Opens inner P s (metaProperty node inner) :=
  (opens_field hP).bind

lemma opens_importCall (hP : P none) : Opens inner P s (importCall node inner) :=
  (opens_chunk hP _ _).bind

/-! ## Arrays, objects and patterns -/

lemma opens_array (hP : P none) : Opens inner P s (array node inner) := (opens_text hP _).bind

lemma opens_object (hP : P none) : Opens inner P s (object node inner) := (opens_text hP _).bind

lemma opens_objectPattern (hP : P none) : Opens inner P s (objectPattern node inner) :=
  (opens_text hP _).bind

lemma opens_key (hP : ∀ first, P first) : Opens inner P s (key inner) := by
  refine opens_read fun computed _ => ?_
  split
  · exact (opens_text (hP _) _).bind
  · exact opens_field fun part _ => hP _

lemma opens_property (hP : ∀ first, P first) : Opens inner P s (property node inner) := by
  refine opens_read fun name _ => opens_read fun value _ => opens_read fun short _ => ?_
  split
  · exact opens_value (hP _)
  · exact (opens_key hP).bind

lemma opens_defaulted (hP : ∀ part, node.require "left" = .ok part → P (some part)) :
    Opens inner P s (defaulted node inner) :=
  (opens_field hP).bind

lemma opens_spread (hP : P none) : Opens inner P s (spread node inner) := (opens_text hP _).bind

/-! ## Operators, accesses and calls -/

lemma opens_binary (hbare : s.noIn = true → P none)
    (hP : ∀ left wrap, node.require "left" = .ok left →
      Precedence.needsParens left.1 node false = .ok wrap → P (if wrap then none else some left)) :
    Opens inner P s (binary node inner) := by
  have hoperands (operator : Json) : Opens inner P s (operands inner operator) :=
    opens_read fun left hleft => opens_read fun _ _ => opens_read fun wrap hwrap =>
      (opens_wrapped (hP left wrap hleft hwrap)).bind
  refine opens_read fun operator _ => opens_setting ?_
  split
  · rename_i hin
    exact (opens_text (hbare (by simp_all)) _).bind
  · exact hoperands _

lemma opens_unary (hP : P none) : Opens inner P s (unary node inner) :=
  opens_read fun _ _ => opens_read fun _ _ => (opens_emit hP (Command.isCode_ofValue _) []).bind

lemma opens_update (hbefore : node.flag "prefix" = .ok true → P none)
    (hP : node.flag "prefix" = .ok false → ∀ part, node.require "argument" = .ok part →
      P (some part)) : Opens inner P s (update node inner) := by
  refine opens_read fun isBefore hflag => ?_
  cases isBefore with
  | true =>
      exact opens_read fun _ _ => (opens_emit (hbefore hflag) (Command.isCode_ofValue _) []).bind
  | false => exact (opens_field (hP hflag)).bind

lemma opens_assignment (hP : ∀ part, node.require "left" = .ok part → P (some part)) :
    Opens inner P s (assignment node inner) :=
  (opens_field hP).bind

lemma opens_conditional
    (hP : ∀ test wrap, node.require "test" = .ok test → Precedence.wrapsAsTest test.1 = .ok wrap →
      P (if wrap then none else some test)) : Opens inner P s (conditional node inner) :=
  opens_read fun test htest => opens_read fun wrap hwrap =>
    (opens_wrapped (hP test wrap htest hwrap)).bind

lemma opens_commaExpression (hP : P none) : Opens inner P s (commaExpression node inner) :=
  (opens_text hP _).bind

lemma opens_await (hP : P none) : Opens inner P s (await node inner) := by
  refine opens_read fun argument _ => ?_
  split
  · exact opens_text hP _
  · refine opens_read fun wrap _ => ?_
    split
    · exact (opens_text hP _).bind
    · exact (opens_text hP _).bind

lemma opens_yield (hP : P none) : Opens inner P s (yield node inner) := by
  refine opens_read fun delegates _ => opens_read fun argument _ => ?_
  split
  · exact opens_text hP _
  · exact (opens_text hP _).bind

lemma opens_member
    (hP : ∀ head wrap, node.require "object" = .ok head →
      Precedence.wrapsAsHead head.1 Precedence.member = .ok wrap →
        P (if wrap then none else some head)) :
    Opens inner P s (member node inner) :=
  opens_read fun head hhead => opens_read fun wrap hwrap =>
    (opens_wrapped (hP head wrap hhead hwrap)).bind

/-- A call begins with what is called. -/
lemma opens_call
    (hP : ∀ head wrap, node.require "callee" = .ok head →
      Precedence.wrapsAsHead head.1 Precedence.call = .ok wrap →
        P (if wrap then none else some head)) :
    Opens inner P s (call false node inner) := by
  refine opens_read fun head hhead => opens_read fun wrap hwrap => ?_
  have hopens : Opens inner P s (inner.wrapped head wrap) :=
    opens_wrapped (hP head wrap hhead hwrap)
  cases wrap with
  | true =>
      rw [if_pos rfl, pure_bind]
      exact hopens.bind
  | false =>
      rw [if_neg Bool.false_ne_true, if_neg Bool.false_ne_true, pure_bind]
      exact hopens.bind

/-- The making of an object begins with its keyword. -/
lemma opens_new (hP : P none) : Opens inner P s (call true node inner) := (opens_text hP _).bind

/-! ## Statements -/

lemma opens_block (hP : P none) : Opens inner P s (block node inner) := by
  refine opens_read fun list _ => opens_read fun statements _ => opens_read fun isEmpty _ => ?_
  split
  · exact opens_text hP _
  · exact opens_raiseIf (opens_emit hP rfl _).bind

lemma opens_expressionStatement
    (hP : ∀ part wrap, node.require "expression" = .ok part →
      Precedence.startsWith part.1 statementHeaded = .ok wrap →
        P (if wrap then none else some part)) :
    Opens inner P s (expressionStatement node inner) :=
  opens_read fun part hpart => opens_read fun wrap hwrap =>
    (opens_wrapped (hP part wrap hpart hwrap)).bind

lemma opens_jump (hP : P none) (keyword : String) : Opens inner P s (jump keyword node inner) := by
  refine opens_read fun label _ => ?_
  split
  · exact (opens_text hP _).bind
  · exact opens_text hP _

lemma opens_labeled (hP : ∀ part, node.require "label" = .ok part → P (some part)) :
    Opens inner P s (labeled node inner) :=
  (opens_field hP).bind

lemma opens_leave (hP : P none) (keyword : String) :
    Opens inner P s (leave keyword node inner) := by
  refine opens_read fun argument _ => ?_
  split
  · exact opens_text hP _
  · refine opens_read fun comments _ => opens_read fun wrap _ => ?_
    split
    · exact (opens_text hP _).bind
    · exact (opens_text hP _).bind

/-- A declaration begins with a word before its keyword, or with the keyword. -/
lemma opens_declarations (hP : P none) : Opens inner P s (declarations node inner) := by
  have hkeyword (keyword : String) (start join : List Command) (slots : List Slot) :
      Opens inner P s (emit (assembleDeclarations keyword start join slots)) :=
    opens_emit hP rfl _
  refine opens_read fun list _ => opens_read fun declarators _ =>
    opens_textIf hP _ _ _ <| opens_read fun kind _ => ?_
  refine opens_quiet (fun q e he => (joined_quiet he).1) fun slots => opens_setting ?_
  dsimp only
  have hwide (wide : Bool) (keyword : String) (start stop : List Command) (slots : List Slot) :
      Opens inner P s (if wide then do
          raise
          emit (assembleDeclarations keyword start [.text ",", .newline] slots ++ stop)
        else emit (assembleDeclarations keyword [] [.text ", "] slots)) := by
    cases wide with
    | true => exact opens_raiseIf (opens_emit hP rfl _)
    | false => exact opens_emit hP rfl _
  split
  · exact opens_read fun wide _ => hwide wide _ _ _ _
  · rw [pure_bind]
    exact hwide _ _ _ _ _

lemma opens_variableDeclaration (hP : P none) :
    Opens inner P s (variableDeclaration node inner) :=
  (opens_declarations hP).bind

lemma opens_declarator (hP : ∀ part, node.require "id" = .ok part → P (some part)) :
    Opens inner P s (declarator node inner) :=
  (opens_field hP).bind

lemma opens_switchRule (hP : P none) : Opens inner P s (switchRule node inner) :=
  opens_raiseIf (opens_text hP _).bind

/-! ## Functions and classes -/

lemma opens_function (hP : P none) : Opens inner P s (function node inner) := by
  refine opens_textIf hP _ _ _ (opens_textIf hP _ _ _ ?_)
  exact opens_read fun generator _ => (opens_text hP _).bind

/-- Type parameters, if there are any, begin with a text. -/
def OpensTypes (inner : Inner node) (s : Setting) : Prop :=
  ∀ part, node.given "typeParameters" = .ok (some part) →
    ∀ q e, inner.type part s q = .ok e → inner.Begins s none e.commands

lemma opens_signature (hP : P none) (htypes : OpensTypes inner s) :
    Opens inner P s (signature inner) := by
  have hparameters : MayOpen inner P s (typeParameters inner) := by
    refine mayOpen_read fun found hfound => ?_
    cases found with
    | none => exact mayOpen_pure _
    | some part => exact fun q e he => Or.inr ⟨none, hP, htypes part hfound q e he⟩
  exact hparameters.andThen fun _ => (opens_text hP _).bind

lemma opens_arrow (hP : P none) (htypes : OpensTypes inner s) :
    Opens inner P s (arrow node inner) :=
  opens_textIf hP _ _ _ (opens_signature hP htypes).bind

lemma opens_decorator (hP : P none) : Opens inner P s (decorator node inner) :=
  opens_read fun _ _ => (opens_text hP _).bind

/-- The first of some decorators, if there are any. -/
lemma mayOpen_decorators
    (hP : ∀ list parts, node.given "decorators" = .ok (some list) → Json.parts list = .ok parts →
      ∀ part ∈ parts, P (some part)) : MayOpen inner P s (decorators inner) := by
  refine mayOpen_read fun list hlist => ?_
  cases list with
  | none => exact mayOpen_pure _
  | some list =>
      refine mayOpen_read fun parts hparts => ?_
      cases parts with
      | nil => exact mayOpen_pure _
      | cons part rest =>
          exact (opens_value (hP list _ hlist hparts part List.mem_cons_self)).bind.mayOpen

lemma opens_classRule (hP : P none)
    (hdecorators : ∀ list parts, node.given "decorators" = .ok (some list) →
      Json.parts list = .ok parts → ∀ part ∈ parts, P (some part)) :
    Opens inner P s (classRule node inner) := by
  refine (mayOpen_decorators hdecorators).andThen fun _ => ?_
  exact opens_textIf hP _ _ _ (opens_textIf hP _ _ _ (opens_text hP _).bind)

/-- Modifiers are texts. -/
lemma mayOpen_modifiers (hP : P none) : MayOpen inner P s (modifiers node) := by
  have hif {c : Bool} {word : String} {f : Unit → Render Unit}
      (hf : MayOpen inner P s (f ())) :
      MayOpen inner P s (if c then text word >>= f else f ()) := by
    cases c with
    | true => exact (opens_text hP word).bind.mayOpen
    | false => exact hf
  have hwords : MayOpen inner P s (do
      textIf node "override" "override "
      textIf node "readonly" "readonly ") :=
    (mayOpen_textIf hP _ _ _).bind fun _ => mayOpen_textIf hP _ _ _
  refine mayOpen_read fun kind _ => mayOpen_read fun name _ =>
    (mayOpen_textIf hP _ _ _).bind fun _ => mayOpen_read fun accessibility _ => hif ?_
  exact (mayOpen_textIf hP _ _ _).bind fun _ => mayOpen_read fun _ _ => hif hwords

lemma mayOpen_accessor (hP : P none) : MayOpen inner P s (accessor node) := by
  refine mayOpen_read fun kind _ => ?_
  split
  · exact (opens_text hP _).bind.mayOpen
  · exact (opens_text hP _).bind.mayOpen
  · exact mayOpen_pure _

section

variable (hP : ∀ first, P first)

include hP

lemma opens_classMethod : Opens inner P s (classMethod node inner) := by
  refine (mayOpen_decorators fun _ _ _ _ _ _ => hP _).andThen fun _ => ?_
  refine (mayOpen_modifiers (hP none)).andThen fun _ => opens_read fun function _ => ?_
  refine (mayOpen_accessor (hP none)).andThen fun _ => ?_
  exact opens_textIf (hP none) _ _ _ (opens_textIf (hP none) _ _ _ (opens_key hP).bind)

lemma opens_classProperty (isAccessor : Bool) :
    Opens inner P s (classProperty isAccessor node inner) := by
  refine (mayOpen_decorators fun _ _ _ _ _ _ => hP _).andThen fun _ =>
    (mayOpen_modifiers (hP none)).andThen fun _ => ?_
  cases isAccessor with
  | true => exact (opens_text (hP none) _).bind
  | false => exact (opens_key hP).bind

lemma opens_parameterProperty : Opens inner P s (parameterProperty node inner) :=
  (mayOpen_modifiers (hP none)).andThen fun _ => opens_field fun _ _ => hP _

/-! ## Imports, exports and declarations of types -/

lemma opens_importAttribute : Opens inner P s (importAttribute node inner) :=
  (opens_field fun _ _ => hP _).bind

end

lemma opens_exportDefault (hP : P none) : Opens inner P s (exportDefault node inner) :=
  opens_read fun _ _ => (opens_text hP _).bind

lemma opens_typedExpression {strength : Nat} {word : String}
    (hP : ∀ part wrap, node.require "expression" = .ok part →
      Precedence.bindsLooser part.1 strength = .ok wrap → P (if wrap then none else some part)) :
    Opens inner P s (typedExpression strength word node inner) :=
  opens_read fun part hpart => opens_read fun wrap hwrap =>
    (opens_wrapped (hP part wrap hpart hwrap)).bind

lemma opens_nonNull
    (hP : ∀ part wrap, node.require "expression" = .ok part →
      Precedence.bindsLooser part.1 Precedence.nonNull = .ok wrap →
        P (if wrap then none else some part)) : Opens inner P s (nonNull node inner) :=
  opens_read fun part hpart => opens_read fun wrap hwrap =>
    (opens_wrapped (hP part wrap hpart hwrap)).bind

lemma opens_enumMember (hP : ∀ first, P first) : Opens inner P s (enumMember node inner) := by
  refine opens_read fun computed _ => ?_
  split
  · exact (opens_text (hP _) _).bind
  · exact (opens_field fun _ _ => hP _).bind

lemma opens_namespaceRule (hP : ∀ first, P first) : Opens inner P s (namespaceRule node inner) := by
  refine opens_textIf (hP none) _ _ _ <| opens_read fun word _ => ?_
  split
  · exact opens_read fun _ _ => (opens_text (hP _) _).bind
  · exact (opens_field fun _ _ => hP _).bind

lemma opens_classIndexSignature (hP : P none) :
    Opens inner P s (classIndexSignature node inner) :=
  Opens.bind <| (mayOpen_modifiers hP).andThen fun _ => (opens_text hP _).bind

/-! ## The table -/

/-- What the rule for a kind emits begins with something.  An arrow function begins with its type
parameters, which are asked to begin with a text. -/
def Starts (name : String) (rule : Rule) : Prop :=
  ∀ (node : Json) (inner : Inner node) (s : Setting),
    (name = "ArrowFunctionExpression" → OpensTypes inner s) →
      Opens inner (fun _ => True) s (rule node inner)

lemma starts_primaryRules : ∀ entry ∈ primaryRules, Starts entry.1 entry.2 := by
  simp only [primaryRules, List.forall_mem_cons]
  exact ⟨fun _ _ _ _ => opens_identifier trivial, fun _ _ _ _ => opens_privateIdentifier trivial,
    fun _ _ _ _ => opens_word trivial _, fun _ _ _ _ => opens_word trivial _,
    fun _ _ _ _ => opens_literal trivial, fun _ _ _ _ => opens_template trivial,
    fun _ _ _ _ => opens_taggedTemplate fun _ _ _ _ => trivial,
    fun _ _ _ _ => opens_transparent fun _ _ => trivial,
    fun _ _ _ _ => opens_metaProperty fun _ _ => trivial,
    fun _ _ _ _ => opens_importCall trivial, List.forall_mem_nil _⟩

lemma starts_collectionRules : ∀ entry ∈ collectionRules, Starts entry.1 entry.2 := by
  simp only [collectionRules, List.forall_mem_cons]
  exact ⟨fun _ _ _ _ => opens_array trivial, fun _ _ _ _ => opens_array trivial,
    fun _ _ _ _ => opens_object trivial, fun _ _ _ _ => opens_objectPattern trivial,
    fun _ _ _ _ => opens_property fun _ => trivial,
    fun _ _ _ _ => opens_defaulted fun _ _ => trivial, fun _ _ _ _ => opens_spread trivial,
    fun _ _ _ _ => opens_spread trivial, List.forall_mem_nil _⟩

lemma starts_operatorRules : ∀ entry ∈ operatorRules, Starts entry.1 entry.2 := by
  have hbinary {name : String} : Starts name binary := fun _ _ _ _ =>
    opens_binary (fun _ => trivial) fun _ _ _ _ => trivial
  simp only [operatorRules, List.forall_mem_cons]
  exact ⟨hbinary, hbinary, fun _ _ _ _ => opens_unary trivial,
    fun _ _ _ _ => opens_update (fun _ => trivial) fun _ _ _ => trivial,
    fun _ _ _ _ => opens_assignment fun _ _ => trivial,
    fun _ _ _ _ => opens_conditional fun _ _ _ _ => trivial,
    fun _ _ _ _ => opens_commaExpression trivial, fun _ _ _ _ => opens_await trivial,
    fun _ _ _ _ => opens_yield trivial, fun _ _ _ _ => opens_member fun _ _ _ _ => trivial,
    fun _ _ _ _ => opens_transparent fun _ _ => trivial,
    fun _ _ _ _ => opens_call fun _ _ _ _ => trivial, fun _ _ _ _ => opens_new trivial,
    List.forall_mem_nil _⟩

/-- The rules for statements, but for the one for programs. -/
lemma starts_statementRules :
    ∀ entry ∈ statementRules, entry.1 ≠ "Program" → Starts entry.1 entry.2 := by
  have htext {name : String} {rule : Rule} {word : String}
      {rest : (node : Json) → Inner node → Unit → Render Unit}
      (h : rule = fun node inner => text word >>= rest node inner) : Starts name rule := by
    intro _ _ _ _
    rw [h]
    exact (opens_text trivial _).bind
  simp only [statementRules, List.forall_mem_cons]
  exact ⟨fun h => absurd rfl h, fun _ _ _ _ _ => opens_block trivial,
    fun _ _ _ _ _ => opens_block trivial, fun _ _ _ _ _ => opens_block trivial,
    fun _ => htext rfl, fun _ _ _ _ _ => opens_text trivial _,
    fun _ _ _ _ _ => opens_expressionStatement fun _ _ _ _ => trivial,
    fun _ _ _ _ _ => (opens_chunk trivial _ _).bind, fun _ _ _ _ _ => opens_jump trivial _,
    fun _ _ _ _ _ => opens_jump trivial _, fun _ _ _ _ _ => opens_labeled fun _ _ => trivial,
    fun _ _ _ _ _ => opens_leave trivial _, fun _ _ _ _ _ => opens_leave trivial _,
    fun _ _ _ _ _ => opens_variableDeclaration trivial,
    fun _ _ _ _ _ => opens_declarator fun _ _ => trivial, fun _ => htext rfl, fun _ => htext rfl,
    fun _ => htext rfl, fun _ => htext rfl, fun _ => htext rfl, fun _ => htext rfl,
    fun _ => htext rfl, fun _ => htext rfl, fun _ _ _ _ _ => opens_switchRule trivial,
    List.forall_mem_nil _⟩

lemma starts_functionRules : ∀ entry ∈ functionRules, Starts entry.1 entry.2 := by
  simp only [functionRules, List.forall_mem_cons]
  exact ⟨fun _ _ _ _ => opens_function trivial, fun _ _ _ _ => opens_function trivial,
    fun _ _ _ _ => opens_function trivial, fun _ _ _ htypes => opens_arrow trivial (htypes rfl),
    fun _ _ _ _ => opens_decorator trivial,
    fun _ _ _ _ => opens_classRule trivial fun _ _ _ _ _ _ => trivial,
    fun _ _ _ _ => opens_classRule trivial fun _ _ _ _ _ _ => trivial,
    fun _ _ _ _ => opens_classMethod fun _ => trivial,
    fun _ _ _ _ => opens_classMethod fun _ => trivial,
    fun _ _ _ _ => opens_classProperty (fun _ => trivial) _,
    fun _ _ _ _ => opens_classProperty (fun _ => trivial) _,
    fun _ _ _ _ => opens_classProperty (fun _ => trivial) _,
    fun _ _ _ _ => opens_parameterProperty fun _ => trivial, List.forall_mem_nil _⟩

lemma starts_exchangeRules : ∀ entry ∈ exchangeRules, Starts entry.1 entry.2 := by
  simp only [exchangeRules, List.forall_mem_cons]
  exact ⟨fun _ _ _ _ => opens_importAttribute fun _ => trivial,
    fun _ _ _ _ => (opens_text trivial _).bind, fun _ _ _ _ => (opens_text trivial _).bind,
    fun _ _ _ _ => opens_exportDefault trivial, fun _ _ _ _ => (opens_text trivial _).bind,
    List.forall_mem_nil _⟩

lemma starts_typedRules : ∀ entry ∈ typedRules, Starts entry.1 entry.2 := by
  simp only [typedRules, List.forall_mem_cons]
  exact ⟨fun _ _ _ _ => opens_typedExpression fun _ _ _ _ => trivial,
    fun _ _ _ _ => opens_typedExpression fun _ _ _ _ => trivial,
    fun _ _ _ _ => opens_nonNull fun _ _ _ _ => trivial,
    fun _ _ _ _ => (opens_text trivial _).bind,
    fun _ _ _ _ => (opens_field fun _ _ => trivial).bind,
    fun _ _ _ _ => (opens_field fun _ _ => trivial).bind,
    fun _ _ _ _ => opens_textIf trivial _ _ _ (opens_text trivial _).bind,
    fun _ _ _ _ => opens_textIf trivial _ _ _ (opens_text trivial _).bind,
    fun _ _ _ _ => (opens_text trivial _).bind,
    fun _ _ _ _ => opens_textIf trivial _ _ _ <| opens_textIf trivial _ _ _
      (opens_text trivial _).bind,
    fun _ _ _ _ => opens_enumMember fun _ => trivial,
    fun _ _ _ _ => opens_namespaceRule fun _ => trivial,
    fun _ _ _ _ => opens_classIndexSignature trivial, List.forall_mem_nil _⟩

/-- **What a rule emits begins with something**, unless it is the rule for programs. -/
lemma starts_valueRules : ∀ entry ∈ valueRules, entry.1 ≠ "Program" → Starts entry.1 entry.2 := by
  simp only [valueRules, List.forall_mem_append]
  exact ⟨⟨⟨⟨⟨⟨fun entry h _ => starts_primaryRules entry h,
    fun entry h _ => starts_collectionRules entry h⟩,
    fun entry h _ => starts_operatorRules entry h⟩, starts_statementRules⟩,
    fun entry h _ => starts_functionRules entry h⟩,
    fun entry h _ => starts_exchangeRules entry h⟩,
    fun entry h _ => starts_typedRules entry h⟩

end Rules

end EstreePrinter
