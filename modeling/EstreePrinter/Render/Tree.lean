import EstreePrinter.Rules.Table

/-!
# Rendering a tree

The rules say how a node is rendered once it is known how its parts are; `Render.tree` ties the
knot.  It ends because a part is smaller than the node it is a part of.
-/

namespace EstreePrinter

/-- What a node is rendered as. -/
inductive Role where
  /-- A node with the comments before it. -/
  | value
  /-- A node whose leading comments have been emitted already. -/
  | bare
  /-- A type. -/
  | type
  deriving Repr, DecidableEq

namespace Role

/-- The rules that apply. -/
def rules : Role → List (String × Rule)
  | .type => Rules.typeRules
  | _ => Rules.valueRules

/-- What a node without a rule is called in reports. -/
def category : Role → String
  | .type => "type annotation"
  | _ => "node"

end Role

namespace Render

/-- Render what goes with a node: comments before it, the node itself, the comment behind it.  A
type has no comments of its own. -/
def dressed (role : Role) (node : Json) (x : Render Unit) : Render Unit := do
  match role with
  | .type => x
  | .value =>
    leadingComments false node (← node.comments "leadingComments")
    x
    queueTrailing node
  | .bare =>
    x
    queueTrailing node

/-- Render a node by the rule for its kind. -/
def tree (role : Role) (node : Json) : Render Unit := do
  let kind ← node.kind
  match ← Rules.find role.rules kind with
  | none =>
    let span ← node.span
    Unhandled.throw { kind, span, category := role.category }
  | some rule =>
    dressed role node <| rule node
      { value := fun part => tree .value part.1
        bare := fun part => tree .bare part.1
        type := fun part => tree .type part.1
        either := fun part => do
          if ← Rules.isTypeKind (← part.1.requireKind) then tree .type part.1
          else tree .value part.1 }
termination_by sizeOf node
decreasing_by all_goals exact part.2.sizeOf_lt

/-- How the parts of a node are rendered. -/
def partsOf (node : Json) : Inner node where
  value part := tree .value part.1
  bare part := tree .bare part.1
  type part := tree .type part.1
  either part := do
    if ← Rules.isTypeKind (← part.1.requireKind) then tree .type part.1
    else tree .value part.1

/-- A node is rendered by the rule for its kind, which is given how the parts are rendered. -/
theorem tree_eq (role : Role) (node : Json) :
    tree role node = (do
      let kind ← node.kind
      match ← Rules.find role.rules kind with
      | none =>
        let span ← node.span
        Unhandled.throw { kind, span, category := role.category }
      | some rule => dressed role node (rule node (partsOf node))) := by
  rw [tree]
  rfl

/-- Render a node in parentheses if `wrap` says so. -/
def wrappedTree (node : Json) (wrap : Bool) : Render Unit := do
  if wrap then
    text "("
    tree .value node
    text ")"
  else tree .value node

/-- Render a list of statements. -/
def statementList (statements : Json) : Render Unit := do
  let whole : Json := .arr [statements]
  let list : Json.Part whole := ⟨statements, (Json.Child.element (by simp)).inside⟩
  body (partsOf whole) (← Json.parts list)

/-- Render a separated list of nodes, null standing for a hole. -/
def nodeList (role : Role) (spaces : Bool) (separator : String) (nodes : Json) : Render Unit := do
  let whole : Json := .arr [nodes]
  let list : Json.Part whole := ⟨nodes, (Json.Child.element (by simp)).inside⟩
  sequence spaces separator (fun part => tree role part.1) (← Json.itemsOf list)

end Render

end EstreePrinter
