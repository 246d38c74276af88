import Mathlib
import EstreePrinter.Render.Tree
import EstreePrinter.Proofs.Render.Steps

/-!
# Nodes without comments

A node without comments of its own is rendered by its rule and nothing else (`tree_of_isPlain`).
Any other node is rendered with its comments around that (`tree_of_kind`).
-/

namespace EstreePrinter

/-- The property of no comment. -/
abbrev Json.NoComment (_ : Json) : Prop := False

/-- A node to which no comments are attached. -/
structure Json.IsPlain (node : Json) : Prop where
  leading : node.comments "leadingComments" = .ok []
  trailing : node.given "trailingComments" = .ok none

namespace Render

/-- Reading something that is known. -/
lemma read_bind {α β : Type} {x : Except Fault α} {a : α} (h : x = .ok a) (f : α → Render β) :
    ((liftM x : Render α) >>= f) = f a := by
  subst h
  exact pure_bind a f

lemma dressed_of_isPlain (role : Role) {node : Json} (hplain : node.IsPlain) (x : Render Unit) :
    dressed role node x = x := by
  have hleading : leadingComments false node [] = pure () := rfl
  have htrailing : queueTrailing node = pure () := by
    rw [queueTrailing, read_bind hplain.trailing]
  cases role with
  | value =>
      simp only [dressed]
      rw [read_bind hplain.leading, hleading, htrailing, pure_bind]
      exact bind_pure x
  | bare =>
      simp only [dressed]
      rw [htrailing]
      exact bind_pure x
  | type => rfl

/-- A node is rendered by the rule for its kind, with its comments around that. -/
lemma tree_of_kind {role : Role} {node : Json} {name : String} {rule : Rule}
    (hkind : node.kind = .ok (.str name))
    (hfind : Rules.find role.rules (.str name) = .ok (some rule)) :
    tree role node = dressed role node (rule node (partsOf node)) := by
  rw [tree_eq, read_bind hkind, read_bind hfind]

/-- A plain node is rendered by the rule for its kind. -/
lemma tree_of_isPlain {role : Role} {node : Json} (name : String) {rule : Rule}
    (hplain : node.IsPlain) (hkind : node.kind = .ok (.str name))
    (hfind : Rules.find role.rules (.str name) = .ok (some rule)) :
    tree role node = rule node (partsOf node) := by
  rw [tree_of_kind hkind hfind]
  exact dressed_of_isPlain role hplain _

/-- A type is rendered by the rule for its kind, whether comments are attached to it or not. -/
lemma tree_type {node : Json} (name : String) {rule : Rule} (hkind : node.kind = .ok (.str name))
    (hfind : Rules.find Rules.typeRules (.str name) = .ok (some rule)) :
    tree .type node = rule node (partsOf node) := by
  rw [tree_eq, read_bind hkind, Role.rules, read_bind hfind]
  rfl

end Render

/-- A type that is a single word has the rule that writes it. -/
lemma Rules.find_keywordType {entry : String × String} (h : entry ∈ Rules.keywordTypes) :
    Rules.find Rules.typeRules (.str entry.1) = .ok (some (Rules.keywordType entry.2)) := by
  fin_cases h <;> rfl

end EstreePrinter
