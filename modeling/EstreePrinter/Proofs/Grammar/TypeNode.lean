import Mathlib
import EstreePrinter.Proofs.Grammar.Description
import EstreePrinter.Proofs.Grammar.TypeExpression

/-!
# Trees of types

Which trees describe a type (`DescribesType`).  Comments on the nodes of types are not printed, so
that such nodes may have any; the names in types are ordinary nodes and have none here.

What is asked about the parts of a type is which kind they are of, and the kind tells at which
levels a type fits (`kind_of_type`).  Not every parent asks what it should: `TypeTree.groups` says
that no operator stands before a type that binds looser than it, and that no type behind the word
`extends` ends in a conditional type unless it is one.
-/

namespace EstreePrinter

namespace Grammar

/-! ## Which trees describe a type -/

/-- A tree that names a type. -/
inductive NamesType : Json → List String → Prop
  | name {node : Json} {s : String} (h : node.IsIdentifier s) (hs : IsWord s) : NamesType node [s]
  | qualified {node left right : Json} {path : List String} {s : String}
      (hnode : node.IsNode "TSQualifiedName") (hleft : node.Has "left" left)
      (hright : node.Has "right" right) (h : NamesType left path) (hname : right.IsIdentifier s)
      (hs : IsWord s) : NamesType node (path ++ [s])

/-- A tree that gives the name of a parameter and its mark. -/
inductive BindsName : Json → String → Mark → Prop
  | name {node : Json} {s : String} {isOptional : Bool} (hnode : node.IsNode "Identifier")
      (hname : node.Has "name" (.str s)) (hoptional : node.flag "optional" = .ok isOptional)
      (hplaced : node.IsPlaced) : BindsName node s (if isOptional then .optional else .none)
  | rest {node argument : Json} {s : String} (hnode : node.IsNode "RestElement")
      (hargument : node.Has "argument" argument) (h : argument.IsIdentifier s) :
      BindsName node s .rest

/-- The node of a function type or a constructor type. -/
inductive IsFunctionType : Json → FunctionForm → Prop
  | plain {node : Json} (h : node.kind = .ok (.str "TSFunctionType")) : IsFunctionType node .plain
  | newable {node : Json} {isAbstract : Bool} (h : node.kind = .ok (.str "TSConstructorType"))
      (habstract : node.flag "abstract" = .ok isAbstract) :
      IsFunctionType node (if isAbstract then .abstractNewable else .newable)

mutual

/-- **Which trees describe a type.**  A function type without a result has the result `void`.  A
union or an intersection before the word `extends` has the property `Flat`. -/
inductive DescribesType (Flat : Json → Prop) : Json → TypeTree → Prop
  | keyword {node : Json} {kind word : String} (hnode : node.kind = .ok (.str kind))
      (hkind : (kind, word) ∈ Rules.keywordTypes) : DescribesType Flat node (.keyword word)
  | reference {node name : Json} {path : List String}
      (hnode : node.kind = .ok (.str "TSTypeReference")) (hname : node.Has "typeName" name)
      (h : NamesType name path) (hpath : IsTypePath path)
      (hargs : node.givenOr "typeArguments" "typeParameters" = .ok none) :
      DescribesType Flat node (.reference path [])
  | generic {node name list : Json} {hinside : list.Inside node} {items : List Json}
      {path : List String} {args : List TypeTree}
      (hnode : node.kind = .ok (.str "TSTypeReference")) (hname : node.Has "typeName" name)
      (h : NamesType name path) (hpath : IsTypePath path)
      (hlist : node.givenOr "typeArguments" "typeParameters" = .ok (some ⟨list, hinside⟩))
      (hkind : list.kind = .ok (.str "TSTypeParameterInstantiation"))
      (hitems : list.Has "params" (.arr items)) (hne : args ≠ [])
      (hargs : List.Forall₂ (DescribesType Flat) items args) :
      DescribesType Flat node (.reference path args)
  | array {node element : Json} {e : TypeTree} (hnode : node.kind = .ok (.str "TSArrayType"))
      (helement : node.Has "elementType" element) (h : DescribesType Flat element e) :
      DescribesType Flat node (.array e)
  | index {node object key : Json} {e f : TypeTree}
      (hnode : node.kind = .ok (.str "TSIndexedAccessType"))
      (hobject : node.Has "objectType" object) (hkey : node.Has "indexType" key)
      (h : DescribesType Flat object e)
      (hf : DescribesType Flat key f) : DescribesType Flat node (.index e f)
  | operator {node operand : Json} {op : String} {e : TypeTree}
      (hnode : node.kind = .ok (.str "TSTypeOperator")) (hop : node.Has "operator" (.str op))
      (hmem : op ∈ typeOperators) (hoperand : node.Has "typeAnnotation" operand)
      (h : DescribesType Flat operand e) : DescribesType Flat node (.operator op e)
  | intersection {node : Json} {items : List Json} {first second : TypeTree} {rest : List TypeTree}
      (hnode : node.kind = .ok (.str "TSIntersectionType")) (hitems : node.Has "types" (.arr items))
      (h : List.Forall₂ (DescribesType Flat) items (first :: second :: rest))
      (hmembers : ∀ e ∈ first :: second :: rest, e.level ≠ .intersection) :
      DescribesType Flat node (.intersection first second rest)
  | union {node : Json} {items : List Json} {first second : TypeTree} {rest : List TypeTree}
      (hnode : node.kind = .ok (.str "TSUnionType")) (hitems : node.Has "types" (.arr items))
      (h : List.Forall₂ (DescribesType Flat) items (first :: second :: rest))
      (hmembers : ∀ e ∈ first :: second :: rest, e.level ≠ .union) :
      DescribesType Flat node (.union first second rest)
  | conditional {node check bound yes no : Json} {e f g k : TypeTree}
      (hnode : node.kind = .ok (.str "TSConditionalType")) (hcheck : node.Has "checkType" check)
      (hbound : node.Has "extendsType" bound) (hyes : node.Has "trueType" yes)
      (hno : node.Has "falseType" no) (hflat : e.isList = true → Flat check)
      (h : DescribesType Flat check e)
      (hf : DescribesType Flat bound f) (hg : DescribesType Flat yes g)
      (hk : DescribesType Flat no k) : DescribesType Flat node (.conditional e f g k)
  | function {node result : Json} {items : List Json} {hinside : (Json.arr items).Inside node}
      {hinside' : result.Inside node} {form : FunctionForm} {params : List Parameter} {e : TypeTree}
      (hnode : IsFunctionType node form) (hgeneric : node.given "typeParameters" = .ok none)
      (hparams : Rules.parametersOf node = .ok (some ⟨.arr items, hinside⟩))
      (hresult : Rules.resultType node = .ok (some ⟨result, hinside'⟩))
      (h : List.Forall₂ (DescribesParameter Flat) items params) (he : DescribesType Flat result e) :
      DescribesType Flat node (.function form params e)
  | procedure {node : Json} {items : List Json} {hinside : (Json.arr items).Inside node}
      {form : FunctionForm} {params : List Parameter} (hnode : IsFunctionType node form)
      (hgeneric : node.given "typeParameters" = .ok none)
      (hparams : Rules.parametersOf node = .ok (some ⟨.arr items, hinside⟩))
      (hresult : Rules.resultType node = .ok none)
      (h : List.Forall₂ (DescribesParameter Flat) items params) :
      DescribesType Flat node (.function form params (.keyword "void"))

/-- Which trees describe a parameter. -/
inductive DescribesParameter (Flat : Json → Prop) : Json → Parameter → Prop
  | bare {node : Json} {s : String} {mark : Mark} (h : BindsName node s mark)
      (hs : IsParameterName s) (htype : node.given "typeAnnotation" = .ok none) :
      DescribesParameter Flat node (.bare s mark)
  | typed {node ascribed type : Json} {hinside : ascribed.Inside node} {s : String}
      {mark : Mark} {e : TypeTree} (h : BindsName node s mark) (hs : IsParameterName s)
      (htype : node.given "typeAnnotation" = .ok (some ⟨ascribed, hinside⟩))
      (hkind : ascribed.kind = .ok (.str "TSTypeAnnotation"))
      (hinner : ascribed.Has "typeAnnotation" type) (he : DescribesType Flat type e) :
      DescribesParameter Flat node (.typed s mark e)

end

/-! ## Types that are grouped -/

mutual

/-- **Whether a type keeps its grouping.**  Each operator stands before a type that binds as tightly
as it does, and behind each `extends` stands a conditional type, which goes in parentheses, or a
type that does not end in one. -/
def TypeTree.groups : TypeTree → Bool
  | .keyword _ => true
  | .reference _ args => groupsAll args
  | .array e => e.groups
  | .index e f => e.groups && f.groups
  | .operator _ e => e.fits .operator && e.groups
  | .intersection first second rest => first.groups && (second.groups && groupsAll rest)
  | .union first second rest => first.groups && (second.groups && groupsAll rest)
  | .conditional e f g k =>
    (f.isConditional || f.fits .bound) && (e.groups && (f.groups && (g.groups && k.groups)))
  | .function _ params result => groupsParameters params && result.groups

/-- The same for a parameter. -/
def Parameter.groups : Parameter → Bool
  | .bare _ _ => true
  | .typed _ _ e => e.groups

/-- The same for a list of types. -/
def groupsAll : List TypeTree → Bool
  | [] => true
  | e :: rest => e.groups && groupsAll rest

/-- The same for a list of parameters. -/
def groupsParameters : List Parameter → Bool
  | [] => true
  | p :: rest => p.groups && groupsParameters rest

end

/-! ## The kinds of types -/

/-- A kind answers all that is asked about a type. -/
structure TellsKind (kind : String) (e : TypeTree) : Prop where
  bracket : Rules.looseTypes.contains kind = !e.fits .bracket
  intersection : (Rules.functionLike ++ ["TSUnionType"]).contains kind = !e.fits .intersection
  union : Rules.functionLike.contains kind = !e.fits .union
  conditional : (kind == "TSConditionalType") = e.isConditional

/-- A function type fits nowhere but behind `extends` and where every type does. -/
lemma tellsKind_function {kind : String}
    (hkind : kind = "TSFunctionType" ∨ kind = "TSConstructorType")
    (form : FunctionForm) (params : List Parameter) (result : TypeTree) :
    TellsKind kind (.function form params result) := by
  have hlevel : 4 < (TypeTree.function form params result).level.rank := by
    unfold TypeTree.level
    split <;> decide
  have hfits {l : TypeLevel} (hl : l.rank ≤ 4) :
      (!(TypeTree.function form params result).fits l) = true := by
    simp only [TypeTree.fits, Bool.not_eq_true', decide_eq_false_iff_not]
    omega
  have hunion := hfits (l := .union) (by decide)
  have hintersection := hfits (l := .intersection) (by decide)
  have hbracket := hfits (l := .bracket) (by decide)
  rcases hkind with rfl | rfl
  · exact ⟨hbracket ▸ rfl, hintersection ▸ rfl, hunion ▸ rfl, rfl⟩
  · exact ⟨hbracket ▸ rfl, hintersection ▸ rfl, hunion ▸ rfl, rfl⟩

/-- **The kind of a described node** tells what its type is. -/
lemma kind_of_type {Flat : Json → Prop} {node : Json} {e : TypeTree}
    (h : DescribesType Flat node e) :
    ∃ kind, node.kind = .ok (.str kind) ∧ TellsKind kind e := by
  have hwords : ∀ entry ∈ Rules.keywordTypes, Rules.looseTypes.contains entry.1 = false ∧
      (Rules.functionLike ++ ["TSUnionType"]).contains entry.1 = false ∧
      Rules.functionLike.contains entry.1 = false ∧ (entry.1 == "TSConditionalType") = false := by
    decide
  cases h with
  | keyword hnode hkind =>
      obtain ⟨hbracket, hintersection, hunion, hconditional⟩ := hwords _ hkind
      exact ⟨_, hnode, hbracket, hintersection, hunion, hconditional⟩
  | reference hnode => exact ⟨_, hnode, rfl, rfl, rfl, rfl⟩
  | generic hnode => exact ⟨_, hnode, rfl, rfl, rfl, rfl⟩
  | array hnode => exact ⟨_, hnode, rfl, rfl, rfl, rfl⟩
  | index hnode => exact ⟨_, hnode, rfl, rfl, rfl, rfl⟩
  | operator hnode => exact ⟨_, hnode, rfl, rfl, rfl, rfl⟩
  | intersection hnode => exact ⟨_, hnode, rfl, rfl, rfl, rfl⟩
  | union hnode => exact ⟨_, hnode, rfl, rfl, rfl, rfl⟩
  | conditional hnode => exact ⟨_, hnode, rfl, rfl, rfl, rfl⟩
  | function hnode =>
      cases hnode with
      | plain h => exact ⟨_, h, tellsKind_function (Or.inl rfl) _ _ _⟩
      | newable h => exact ⟨_, h, tellsKind_function (Or.inr rfl) _ _ _⟩
  | procedure hnode =>
      cases hnode with
      | plain h => exact ⟨_, h, tellsKind_function (Or.inl rfl) _ _ _⟩
      | newable h => exact ⟨_, h, tellsKind_function (Or.inr rfl) _ _ _⟩

/-- A described type is a node. -/
lemma DescribesType.ne_null {Flat : Json → Prop} {node : Json} {e : TypeTree}
    (h : DescribesType Flat node e) : node.isNull = false := by
  obtain ⟨kind, hkind, -⟩ := kind_of_type h
  exact Json.ne_null_of_kind hkind

/-- So is a described parameter. -/
lemma DescribesParameter.ne_null {Flat : Json → Prop} {node : Json} {p : Parameter}
    (h : DescribesParameter Flat node p) : node.isNull = false := by
  have hbinds {s : String} {mark : Mark} (h : BindsName node s mark) : node.isNull = false := by
    cases h with
    | name hnode => exact hnode.ne_null
    | rest hnode => exact hnode.ne_null
  cases h with
  | bare h => exact hbinds h
  | typed h => exact hbinds h

end Grammar

end EstreePrinter
