import Mathlib
import EstreePrinter.Proofs.Estree.Reading
import EstreePrinter.Proofs.Render.Following
import EstreePrinter.Proofs.Render.Plain

/-!
# Trees with other parentheses

A tree may say of an expression that it stands in parentheses, by a node of its own around it.  This
file says when two trees differ in nothing else: one comes out of the other by putting expressions
in such nodes, at some of the places where an expression stands.

* `Grouping.places` — the fields in which expressions stand, for every kind of node.  What stands in
  any other field is a statement, a pattern, a name or a type, or is no part of the syntax at all.
* **`Json.Regroups`** — two values are the same up to parentheses around expressions.
* `Json.Alike`, `Json.Listed`, `Json.Loose` — what is left of that when the place is forgotten: not
  put in parentheses itself, a list perhaps of expressions, or anything.

Two nodes that are alike have the same fields.  What stands in one of them is as much the same as
its place says (`Alike.meets`), and the lemmas behind that say how much this is for the fields that
the rules read.
-/

namespace EstreePrinter

open Json (Part)

/-! ## Places -/

/-- What stands in a field of a node. -/
inductive Place where
  /-- A text, a flag or a place in the source, and whatever is no part of the syntax. -/
  | fixed
  /-- A node that is no expression, or a list of such nodes. -/
  | part
  /-- An expression, if there is no declaration or block in its place. -/
  | expression
  /-- A list of expressions. -/
  | expressions
  deriving Repr, DecidableEq

namespace Grouping

/-- The kinds of expressions, those with types in them included. -/
def expressionKinds : List String :=
  Estree.expressions ++
    ["TSAsExpression", "TSSatisfiesExpression", "TSNonNullExpression", "TSTypeAssertion",
      "TSInstantiationExpression"]

/-- The fields that hold texts, flags and places in the source, whatever the node is. -/
def fixedFields : List String :=
  ["type", "loc", "leadingComments", "trailingComments", "name", "operator", "kind", "raw", "regex",
    "bigint", "quasis", "optional", "readonly", "accessibility", "importKind", "exportKind"]

/-- Where expressions stand, for every kind of node.  The name of a member is one only if it is
computed: `name` is what it is then, or what it is otherwise. -/
def places (name : Place) : List (String × List (String × Place)) :=
  [("Literal", [("value", .fixed)]),
    ("TemplateLiteral", [("expressions", .expressions)]),
    ("TaggedTemplateExpression", [("tag", .expression)]),
    ("ParenthesizedExpression", [("expression", .expression)]),
    ("ImportExpression", [("source", .expression), ("options", .expression),
      ("attributes", .expression)]),
    ("ArrayExpression", [("elements", .expressions)]),
    ("Property", [("key", name)]),
    ("AssignmentPattern", [("right", .expression)]),
    ("SpreadElement", [("argument", .expression)]),
    ("BinaryExpression", [("left", .expression), ("right", .expression)]),
    ("LogicalExpression", [("left", .expression), ("right", .expression)]),
    ("UnaryExpression", [("argument", .expression)]),
    ("UpdateExpression", [("argument", .expression)]),
    ("AssignmentExpression", [("right", .expression)]),
    ("ConditionalExpression", [("test", .expression), ("consequent", .expression),
      ("alternate", .expression)]),
    ("SequenceExpression", [("expressions", .expressions)]),
    ("AwaitExpression", [("argument", .expression)]),
    ("YieldExpression", [("argument", .expression)]),
    ("MemberExpression", [("object", .expression), ("property", name)]),
    ("ChainExpression", [("expression", .expression)]),
    ("CallExpression", [("callee", .expression), ("arguments", .expressions)]),
    ("NewExpression", [("callee", .expression), ("arguments", .expressions)]),
    ("ExpressionStatement", [("expression", .expression)]),
    ("ReturnStatement", [("argument", .expression)]),
    ("ThrowStatement", [("argument", .expression)]),
    ("VariableDeclarator", [("init", .expression)]),
    ("IfStatement", [("test", .expression)]),
    ("ForStatement", [("init", .expression), ("test", .expression), ("update", .expression)]),
    ("ForInStatement", [("right", .expression)]),
    ("ForOfStatement", [("right", .expression)]),
    ("WhileStatement", [("test", .expression)]),
    ("DoWhileStatement", [("test", .expression)]),
    ("WithStatement", [("object", .expression)]),
    ("SwitchStatement", [("discriminant", .expression)]),
    ("SwitchCase", [("test", .expression)]),
    ("ArrowFunctionExpression", [("body", .expression)]),
    ("Decorator", [("expression", .expression)]),
    ("ClassDeclaration", [("superClass", .expression)]),
    ("ClassExpression", [("superClass", .expression)]),
    ("MethodDefinition", [("key", name)]),
    ("TSAbstractMethodDefinition", [("key", name)]),
    ("PropertyDefinition", [("key", name), ("value", .expression)]),
    ("TSAbstractPropertyDefinition", [("key", name), ("value", .expression)]),
    ("AccessorProperty", [("key", name), ("value", .expression)]),
    ("ExportDefaultDeclaration", [("declaration", .expression)]),
    ("TSAsExpression", [("expression", .expression)]),
    ("TSSatisfiesExpression", [("expression", .expression)]),
    ("TSNonNullExpression", [("expression", .expression)]),
    ("TSTypeAssertion", [("expression", .expression)]),
    ("TSInstantiationExpression", [("expression", .expression)]),
    ("TSExpressionWithTypeArguments", [("expression", .expression)]),
    ("TSClassImplements", [("expression", .expression)]),
    ("TSInterfaceHeritage", [("expression", .expression)]),
    ("TSEnumMember", [("id", name), ("initializer", .expression)]),
    ("TSPropertySignature", [("key", name)]),
    ("TSMethodSignature", [("key", name)])]

/-- What stands in the field `key` of a node of some kind. -/
def placeIn (isComputed : Bool) (kind key : String) : Place :=
  if fixedFields.contains key then .fixed
  else
    let fields := (places (if isComputed then .expression else .part)).lookup kind
    (fields.bind fun fields => fields.lookup key).getD .part

end Grouping

namespace Json

/-- Whether the name of a member is computed. -/
def isComputed (node : Json) : Bool := (node.field? "computed").any fun part => part.1.isGiven

/-- What stands in the field `key` of a node. -/
def place (node : Json) (key : String) : Place :=
  Grouping.placeIn node.isComputed (node.kindName?.getD "") key

/-! ## The same up to parentheses -/

/-- A node that puts `inside` in parentheses, and has no comments of its own. -/
structure Parenthesizes (node inside : Json) : Prop where
  kind : node.kind = .ok (.str "ParenthesizedExpression")
  inside : ∃ part, node.require "expression" = .ok part ∧ part.1 = inside
  plain : node.IsPlain

/-- Whether a node is an expression. -/
def isExpression (node : Json) : Bool :=
  node.kindName?.any fun kind => Grouping.expressionKinds.contains kind

mutual

/-- **A value with parentheses around some of its expressions**, any number of them around each: an
expression without comments, where an expression stands, may be put in parentheses. -/
inductive Regroups : Place → Json → Json → Prop where
  | same (place : Place) (v : Json) : Regroups place v v
  | wrap {v u w : Json} : v.isExpression = true → v.IsPlain → Regroups .expression v u →
      w.Parenthesizes u → Regroups .expression v w
  | parts {vs ws : List Json} : RegroupsAll .part vs ws → Regroups .part (.arr vs) (.arr ws)
  | expressions {vs ws : List Json} : RegroupsAll .expression vs ws →
      Regroups .expressions (.arr vs) (.arr ws)
  | node {place : Place} {fields fields' : List (String × Json)} : place ≠ .fixed →
      RegroupsFields (Json.obj fields).place fields fields' →
      Regroups place (.obj fields) (.obj fields')

/-- The elements of a list with parentheses around some of their expressions. -/
inductive RegroupsAll : Place → List Json → List Json → Prop where
  | nil (place : Place) : RegroupsAll place [] []
  | cons {place : Place} {v w : Json} {vs ws : List Json} : Regroups place v w →
      RegroupsAll place vs ws → RegroupsAll place (v :: vs) (w :: ws)

/-- The fields of an object with parentheses around some of their expressions. -/
inductive RegroupsFields : (String → Place) → List (String × Json) → List (String × Json) → Prop
  where
  | nil (place : String → Place) : RegroupsFields place [] []
  | cons {place : String → Place} {key : String} {v w : Json}
      {fields fields' : List (String × Json)} : Regroups (place key) v w →
      RegroupsFields place fields fields' →
      RegroupsFields place ((key, v) :: fields) ((key, w) :: fields')

end

/-- Two values that are the same up to parentheses, and are not put in parentheses themselves. -/
abbrev Alike : Json → Json → Prop := Regroups .part

/-- Two values that are the same up to parentheses, where no expression stands. -/
def Listed (v w : Json) : Prop := ∃ place, place ≠ .expression ∧ Regroups place v w

/-- Two values that are the same up to parentheses. -/
def Loose (v w : Json) : Prop := ∃ place, Regroups place v w

/-! ## What parentheses leave as it is -/

variable {v w : Json} {key name : String} {place : Place}

lemma kindName?_of_kind (h : v.kind = .ok (.str name)) : v.kindName? = some name := by
  obtain ⟨found, hfound, h⟩ := bind_eq_ok_iff.mp h
  rw [get] at hfound
  split at hfound
  · unfold kindName?
    rw [Except.ok.inj hfound]
    cases found with
    | none => cases h
    | some part =>
        obtain ⟨inside, _⟩ := part
        obtain rfl : inside = .str name := Except.ok.inj h
        rfl
  · cases hfound

lemma requireKind_of_kindName? (h : v.kindName? = some name) : v.requireKind = .ok (.str name) := by
  unfold kindName? at h
  split at h
  · rename_i found hinside hfield
    obtain rfl := Option.some.inj h
    cases v with
    | obj fields =>
        rw [requireKind, require, if_pos (show (Json.obj fields).isObject = true from rfl), hfield]
        rfl
    | _ => cases hfield
  · cases h

lemma kind_of_requireKind {found : Json} (h : v.requireKind = .ok found) : v.kind = .ok found := by
  obtain ⟨part, hpart, h⟩ := bind_eq_ok_iff.mp h
  obtain rfl := Except.ok.inj h
  unfold require at hpart
  split at hpart
  · rename_i hobject
    split at hpart
    · rename_i hfield
      obtain rfl := Except.ok.inj hpart
      rw [kind, getValue, get_eq hobject, hfield]
      rfl
    · cases hpart
  · cases hpart

lemma isComputed_of_flag {b : Bool} (h : v.flag "computed" = .ok b) : v.isComputed = b := by
  obtain ⟨value, hvalue, h⟩ := bind_eq_ok_iff.mp h
  obtain ⟨found, hfound, hvalue⟩ := bind_eq_ok_iff.mp hvalue
  obtain rfl := Except.ok.inj h
  rw [get] at hfound
  split at hfound
  · rw [isComputed, Except.ok.inj hfound]
    cases found <;> exact congrArg Json.isGiven (Except.ok.inj hvalue)
  · cases hfound

lemma isGiven_of_kindName? (h : v.kindName? = some name) : v.isGiven = true := by
  cases v with
  | obj fields =>
      cases fields with
      | nil => cases h
      | cons field rest => rfl
  | _ => cases h

lemma isObject_of_kindName? (h : v.kindName? = some name) : v.isObject = true := by
  cases v with
  | obj fields => rfl
  | _ => cases h

lemma exists_kindName? (h : v.isExpression = true) :
    ∃ name ∈ Grouping.expressionKinds, v.kindName? = some name := by
  unfold isExpression at h
  cases hname : v.kindName? with
  | none => simp [hname] at h
  | some name => exact ⟨name, by simpa [hname] using h, rfl⟩

lemma rel_map {α β α' β' : Type} {R : α → β → Prop} {S : α' → β' → Prop} {f : α → α'} {g : β → β'}
    {found : Option α} {found' : Option β} (h : Option.Rel R found found')
    (hS : ∀ a b, R a b → S (f a) (g b)) : Option.Rel S (found.map f) (found'.map g) := by
  cases h with
  | none => exact .none
  | some hrel => exact .some (hS _ _ hrel)

namespace RegroupsAll

lemma forall₂ {vs ws : List Json} (h : RegroupsAll place vs ws) :
    List.Forall₂ (Regroups place) vs ws := by
  induction vs generalizing ws with
  | nil =>
      cases h
      exact .nil
  | cons v vs ih =>
      cases h with
      | cons hhead htail => exact .cons hhead (ih htail)

end RegroupsAll

namespace RegroupsFields

variable {held : String → Place} {fields fields' : List (String × Json)}

lemma keys (h : RegroupsFields held fields fields') :
    fields.map Prod.fst = fields'.map Prod.fst := by
  induction fields generalizing fields' with
  | nil =>
      cases h
      rfl
  | cons field rest ih =>
      cases h with
      | cons _ htail => rw [List.map_cons, List.map_cons, ih htail]

lemma lookup (h : RegroupsFields held fields fields') (key : String) :
    Option.Rel (fun found found' => Regroups (held key) found.1 found'.1) (Json.lookup key fields)
      (Json.lookup key fields') := by
  induction fields generalizing fields' with
  | nil =>
      cases h
      exact .none
  | cons field rest ih =>
      cases h with
      | @cons _ k v w _ rest' hhead htail =>
          by_cases hk : k = key
          · subst hk
            simpa [Json.lookup] using hhead
          · simp only [Json.lookup, dif_neg hk]
            exact rel_map (ih htail) fun _ _ hrel => hrel

end RegroupsFields

/-! ## Two nodes that are alike -/

lemma Regroups.eq (h : Regroups .fixed v w) : v = w := by
  cases h with
  | same => rfl
  | node hplace => exact absurd rfl hplace

lemma Alike.loose (h : Alike v w) : Loose v w := ⟨.part, h⟩

lemma Alike.listed (h : Alike v w) : Listed v w := ⟨.part, by decide, h⟩

lemma Listed.loose (h : Listed v w) : Loose v w := ⟨h.choose, h.choose_spec.2⟩

lemma Alike.refl (v : Json) : Alike v v := .same _ v

lemma Loose.refl (v : Json) : Loose v v := (Alike.refl v).loose

/-- What is put in parentheses is a node, and so are the parentheses. -/
lemma Loose.isNull (h : Loose v w) : v.isNull = w.isNull := by
  obtain ⟨_, h⟩ := h
  cases h with
  | same => rfl
  | wrap hv _ _ hw =>
      obtain ⟨_, _, hv⟩ := exists_kindName? hv
      rw [isNull_of_isGiven (isGiven_of_kindName? hv),
        isNull_of_isGiven (isGiven_of_kindName? (kindName?_of_kind hw.kind))]
  | parts => rfl
  | expressions => rfl
  | node => rfl

lemma Loose.isGiven (h : Loose v w) : v.isGiven = w.isGiven := by
  obtain ⟨_, h⟩ := h
  cases h with
  | same => rfl
  | wrap hv _ _ hw =>
      obtain ⟨_, _, hv⟩ := exists_kindName? hv
      rw [isGiven_of_kindName? hv, isGiven_of_kindName? (kindName?_of_kind hw.kind)]
  | parts h => cases h <;> rfl
  | expressions h => cases h <;> rfl
  | node _ h => cases h <;> rfl

instance : Discreet Loose := ⟨.refl _, Loose.isNull, Loose.isGiven⟩

instance : Discreet Listed :=
  ⟨(Alike.refl _).listed, fun h => h.loose.isNull, fun h => h.loose.isGiven⟩

instance : Discreet Alike := ⟨.refl _, fun h => h.loose.isNull, fun h => h.loose.isGiven⟩

lemma place_eq (h : v.kind = .ok (.str name)) (key : String) :
    v.place key = Grouping.placeIn v.isComputed name key := by
  rw [Json.place, kindName?_of_kind h, Option.getD_some]

/-- What stands under a key is as much the same as its place says. -/
lemma Alike.meets (h : Alike v w) (key : String) : Meets (Regroups (v.place key)) v w key := by
  cases h with
  | same =>
      intro found hfound
      refine ⟨found, hfound, ?_⟩
      cases found with
      | none => exact .none
      | some part => exact .some (.same _ part.1)
  | parts => exact fun _ h => by cases h
  | @node _ fields fields' _ hfields =>
      rintro _ ⟨⟩
      exact ⟨_, rfl, rel_map (hfields.lookup key) fun _ _ hrel => hrel⟩

/-- The fields that hold expressions, in nodes of one kind or another. -/
def openFields : List String :=
  ["value", "expressions", "tag", "expression", "source", "options", "attributes", "elements", "key",
    "right", "argument", "left", "test", "consequent", "alternate", "object", "property", "callee",
    "arguments", "init", "update", "discriminant", "body", "superClass", "declaration", "id",
    "initializer"]

/-- The fields that hold lists of expressions, in nodes of one kind or another. -/
def listFields : List String := ["expressions", "elements", "arguments"]

lemma mem_places {name : Place} {kind : String} {fields : List (String × Place)}
    (hfields : (Grouping.places name).lookup kind = some fields) {field : String × Place}
    (hfield : field ∈ fields) :
    field.1 ∈ openFields ∧ (field.1 ∈ listFields → field.2 ≠ .expression) := by
  have hall : ∀ entry ∈ Grouping.places name, ∀ field ∈ entry.2,
      field.1 ∈ openFields ∧ (field.1 ∈ listFields → field.2 ≠ .expression) := by
    cases name <;> decide
  obtain ⟨_, _, hsplit, -⟩ := List.lookup_eq_some_iff.mp hfields
  exact hall (kind, fields) (by simp [hsplit]) field hfield

/-- The place of a field is the one that the table gives. -/
lemma place_cases (v : Json) (key : String) :
    v.place key = .fixed ∨ v.place key = .part ∨
      key ∈ openFields ∧ (key ∈ listFields → v.place key ≠ .expression) := by
  unfold place Grouping.placeIn
  split
  · exact .inl rfl
  · generalize (if v.isComputed then Place.expression else Place.part) = name
    cases hfields : (Grouping.places name).lookup (v.kindName?.getD "") with
    | none => exact .inr (.inl rfl)
    | some fields =>
        cases hfield : fields.lookup key with
        | none => exact .inr (.inl (by simp [hfield]))
        | some place =>
            obtain ⟨_, _, hsplit, -⟩ := List.lookup_eq_some_iff.mp hfield
            have hmem := mem_places hfields (show (key, place) ∈ fields by simp [hsplit])
            exact .inr (.inr (by simpa [hfield] using hmem))

namespace Alike

/-- What is under a key is the same up to parentheses. -/
lemma loose_at (h : Alike v w) (key : String) : Meets Loose v w key :=
  (h.meets key).mono fun _ _ hrel => ⟨_, hrel⟩

/-- What is no node is the same. -/
lemma fixed (h : Alike v w) (hkey : key ∈ Grouping.fixedFields) : Meets Eq v w key := by
  have hplace : v.place key = .fixed := if_pos (List.contains_iff_mem.mpr hkey)
  exact (h.meets key).mono fun _ _ hrel => (hplace ▸ hrel).eq

/-- What is under a key that is never that of an expression is alike. -/
lemma closed (h : Alike v w) (hkey : key ∉ openFields) : Meets Alike v w key := by
  refine (h.meets key).mono fun _ _ hrel => ?_
  obtain hplace | hplace | ⟨hmem, -⟩ := v.place_cases key
  · exact (hplace ▸ hrel).eq ▸ .refl _
  · rwa [hplace] at hrel
  · exact absurd hmem hkey

/-- What is under a key of lists is a list on both sides, if it is one at all. -/
lemma listed_at (h : Alike v w) (hkey : key ∈ listFields ∨ key ∉ openFields) :
    Meets Listed v w key := by
  refine (h.meets key).mono fun _ _ hrel => ⟨_, ?_, hrel⟩
  obtain hplace | hplace | ⟨hmem, hlist⟩ := v.place_cases key
  · simp [hplace]
  · simp [hplace]
  · exact hlist (hkey.resolve_right fun hnot => hnot hmem)

/-- What is under a key of a node of a known kind. -/
lemma at_kind (h : Alike v w) (hkind : v.kind = .ok (.str name))
    (hplace : ∀ isComputed, Grouping.placeIn isComputed name key = place) :
    Meets (Regroups place) v w key := by
  have hmeets := h.meets key
  rwa [place_eq hkind, hplace] at hmeets

/-- What is under the key of a node of a kind for which no expression stands there. -/
lemma part_at (h : Alike v w) (hkind : v.kind = .ok (.str name))
    (hplace : ∀ isComputed, Grouping.placeIn isComputed name key = .part) : Meets Alike v w key :=
  h.at_kind hkind hplace

lemma type (h : Alike v w) : Meets Eq v w "type" := h.fixed (by decide)

end Alike

/-! ## Kinds as they stand in the tree -/

/-- The kinds of two values that are the same up to parentheses: the same, or those of an expression
and of parentheses around it. -/
inductive KindRel : Json → Json → Prop where
  | same (kind : Json) : KindRel kind kind
  | wrapped {name : String} : name ∈ Grouping.expressionKinds →
      KindRel (.str name) (.str "ParenthesizedExpression")

namespace KindRel

variable {kind kind' : Json}

lemma isText (h : KindRel kind kind') (hname : name ∉ Grouping.expressionKinds) :
    kind.isText name = kind'.isText name := by
  have hother {other : String} (hmem : other ∈ Grouping.expressionKinds) :
      (Json.str other).isText name = false := by
    rw [Json.isText, beq_eq_false_iff_ne]
    rintro rfl
    exact hname hmem
  cases h with
  | same => rfl
  | wrapped hmem => rw [hother hmem, hother (by decide)]

lemma isIn (h : KindRel kind kind') {options : List String}
    (hoptions : ∀ option ∈ options, option ∉ Grouping.expressionKinds) :
    Follows Eq (kind.isIn options) (kind'.isIn options) := by
  have hother {other : String} (hmem : other ∈ Grouping.expressionKinds) :
      (Json.str other).isIn options = .ok false := by
    have hnot : other ∉ options := fun h => hoptions other h hmem
    simp [Json.isIn, Json.key, isOneOf, hnot]
  cases h with
  | same => exact .refl _
  | wrapped hmem =>
      rw [hother hmem, hother (by decide)]
      exact .refl _

end KindRel

namespace Loose

lemma requireKind (h : Loose v w) : Follows KindRel v.requireKind w.requireKind := by
  obtain ⟨_, h⟩ := h
  cases h with
  | same => exact (Follows.refl _).mono fun _ _ hrel => hrel ▸ .same _
  | wrap hv _ _ hw =>
      obtain ⟨name, hname, hv⟩ := exists_kindName? hv
      rw [requireKind_of_kindName? hv, requireKind_of_kindName? (kindName?_of_kind hw.kind)]
      exact .ok (.wrapped hname)
  | parts => exact fun _ h => by cases h
  | expressions => exact fun _ h => by cases h
  | node _ hfields =>
      have h : Alike _ _ := .node (by decide) hfields
      exact h.type.requireKind.mono fun _ _ hrel => hrel ▸ .same _

/-- What is no expression is not put in parentheses. -/
lemma alike (h : Loose v w) (hkind : v.kind = .ok (.str name))
    (hname : name ∉ Grouping.expressionKinds) : Alike v w := by
  obtain ⟨_, h⟩ := h
  cases h with
  | same => exact .refl _
  | wrap hv =>
      obtain ⟨other, hother, hv⟩ := exists_kindName? hv
      obtain rfl := Option.some.inj (hv.symm.trans (kindName?_of_kind hkind))
      exact absurd hother hname
  | parts => cases hkind
  | expressions => cases hkind
  | node _ hfields => exact .node (by decide) hfields

/-- An expression that is put in parentheses has no comments, and neither have those. -/
lemma comments (h : Loose v w) :
    Follows Eq (v.comments "leadingComments") (w.comments "leadingComments") := by
  obtain ⟨_, h⟩ := h
  cases h with
  | same => exact .refl _
  | wrap _ hv _ hw =>
      rw [hv.leading, hw.plain.leading]
      exact .refl _
  | parts => exact fun _ h => by cases h
  | expressions => exact fun _ h => by cases h
  | node _ hfields =>
      have h : Alike _ _ := .node (by decide) hfields
      exact (h.fixed (by decide)).comments

end Loose

/-! ## Lists -/

section Lists

variable {R : Json → Json → Prop} {whole whole' : Json} {list : Part whole} {list' : Part whole'}

/-- What two lists have in common whose elements are related: the keys of an object and the
characters of a text are the same. -/
inductive SameList (R : Json → Json → Prop) : Json → Json → Prop where
  | same (v : Json) : (∀ u, R u u) → SameList R v v
  | list {vs ws : List Json} : List.Forall₂ R vs ws → SameList R (.arr vs) (.arr ws)
  | object {fields fields' : List (String × Json)} : (∀ u, R u u) →
      fields.map Prod.fst = fields'.map Prod.fst → SameList R (.obj fields) (.obj fields')

lemma Listed.sameList (h : Listed v w) : SameList Loose v w := by
  obtain ⟨_, hplace, h⟩ := h
  cases h with
  | same => exact .same _ .refl
  | wrap => exact absurd rfl hplace
  | parts h => exact .list (h.forall₂.imp fun _ _ hrel => ⟨_, hrel⟩)
  | expressions h => exact .list (h.forall₂.imp fun _ _ hrel => ⟨_, hrel⟩)
  | node _ h => exact .object .refl h.keys

/-- A value that is gone through one by one, or an expression. -/
lemma Loose.sameList_or (h : Loose v w) : SameList Loose v w ∨ v.isExpression = true := by
  obtain ⟨_, h⟩ := h
  cases h with
  | same => exact .inl (.same _ .refl)
  | wrap hv => exact .inr hv
  | parts h => exact .inl (.list (h.forall₂.imp fun _ _ hrel => ⟨_, hrel⟩))
  | expressions h => exact .inl (.list (h.forall₂.imp fun _ _ hrel => ⟨_, hrel⟩))
  | node _ h => exact .inl (.object .refl h.keys)

lemma Alike.sameList (h : Alike v w) : SameList Alike v w := by
  cases h with
  | same => exact .same _ .refl
  | parts h => exact .list h.forall₂
  | node _ h => exact .object .refl h.keys

/-- What a value holds when it is gone through one by one, without where it is. -/
def items? : Json → Option (List Json)
  | .arr items => some items
  | .str s => some (if s = "" then [] else [.str s])
  | .obj fields => some (fields.map fun field => .str field.1)
  | _ => none

lemma map_parts? (list : Part whole) :
    (parts? list).map (List.map Subtype.val) = list.1.items? := by
  obtain ⟨v, hinside⟩ := list
  cases v with
  | str s => by_cases hs : s = "" <;> simp [parts?, items?, hs]
  | obj fields =>
      have hkeys := congrArg (List.map fun field => Json.str field.1) fields.attach_map_subtype_val
      rw [List.map_map] at hkeys
      simpa [parts?, items?, Function.comp_def] using hkeys
  | _ => simp [parts?, items?]

lemma SameList.items? (h : SameList R v w) : Option.Rel (List.Forall₂ R) v.items? w.items? := by
  have hself (hrefl : ∀ u, R u u) (items : List Json) : List.Forall₂ R items items :=
    List.forall₂_same.mpr fun u _ => hrefl u
  cases h with
  | same v hrefl =>
      cases v.items? with
      | none => exact .none
      | some items => exact .some (hself hrefl items)
  | list h => exact .some h
  | @object fields fields' hrefl hkeys =>
      have hsame : fields.map (fun field => Json.str field.1) =
          fields'.map (fun field => Json.str field.1) := by
        simpa [Function.comp_def] using congrArg (List.map Json.str) hkeys
      exact .some (hsame ▸ hself hrefl _)

/-- The elements of two lists are related one by one. -/
lemma SameList.parts (h : SameList R list.1 list'.1) :
    Follows (List.Forall₂ (Part.Rel R)) (parts list) (parts list') := by
  intro found hfound
  have hitems := h.items?
  rw [← map_parts? list, ← map_parts? list', orMalformed_eq_ok_iff.mp hfound] at hitems
  cases hfound' : parts? list' with
  | none =>
      rw [hfound'] at hitems
      cases hitems
  | some found' =>
      rw [hfound'] at hitems
      cases hitems with
      | some hrel =>
          rw [List.forall₂_map_left_iff, List.forall₂_map_right_iff] at hrel
          exact ⟨found', by rw [Json.parts, hfound']; rfl, hrel⟩

/-- What is found in an expression that is gone through one by one is its keys. -/
lemma parts_of_isExpression (h : list.1.isExpression = true)
    {found : List (Part whole)} (hfound : parts list = .ok found) :
    ∃ first rest, found = first :: rest ∧ first.1.isObject = false := by
  obtain ⟨v, hv⟩ := list
  obtain ⟨_, _, hname⟩ := exists_kindName? h
  cases v with
  | obj fields =>
      cases fields with
      | nil => cases hname
      | cons field rest =>
          obtain rfl := Option.some.inj (orMalformed_eq_ok_iff.mp hfound)
          exact ⟨_, _, rfl, rfl⟩
  | _ => cases hname

/-- A list with holes in it. -/
lemma SameList.itemsOf [Discreet R] (h : SameList R list.1 list'.1)
    (hgiven : list.1.isGiven = list'.1.isGiven) :
    Follows (List.Forall₂ (Option.Rel (Part.Rel R))) (itemsOf list) (itemsOf list') := by
  unfold Json.itemsOf
  rw [hgiven]
  refine .ite (h.parts.bind fun _ _ hrel => .pure ?_) (.pure .nil)
  rw [List.forall₂_map_left_iff, List.forall₂_map_right_iff]
  refine hrel.imp fun part part' hpart => ?_
  rw [Discreet.isNull hpart]
  split
  · exact .none
  · exact .some hpart

lemma rel_getElem? {α β : Type} {S : α → β → Prop} {xs : List α} {ys : List β}
    (h : List.Forall₂ S xs ys) (i : Nat) : Option.Rel S xs[i]? ys[i]? := by
  induction h generalizing i with
  | nil => exact .none
  | cons hhead _ ih =>
      cases i with
      | zero => exact .some hhead
      | succ i => simpa using ih i

lemma SameList.length? (h : SameList R v w) : v.length? = w.length? := by
  cases h with
  | same => rfl
  | list h => exact congrArg some h.length_eq
  | object _ hkeys => exact congrArg some (by simpa using congrArg List.length hkeys)

/-- The element at an index. -/
lemma SameList.element (h : SameList R list.1 list'.1) (i : Nat) :
    Follows (Option.Rel (Part.Rel R)) (element list i) (element list' i) := by
  have hread : Follows (Option.Rel (Part.Rel R)) (do pure (← Json.parts list)[i]?)
      (do pure (← Json.parts list')[i]?) := h.parts.bind fun _ _ hrel => .pure (rel_getElem? hrel i)
  unfold Json.element
  rw [h.length?]
  refine (Follows.refl _).known fun length => ?_
  obtain ⟨v, hv⟩ := list
  obtain ⟨w, hw⟩ := list'
  split
  · cases h with
    | same v => cases v <;> first | exact hread | exact fun _ h => by cases h
    | list => exact hread
    | object => exact fun _ h => by cases h
  · exact .pure .none

end Lists

end Json

end EstreePrinter
