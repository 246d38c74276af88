import Mathlib
import EstreePrinter.Rules.Table
import EstreePrinter.Proofs.Json.Nodes
import EstreePrinter.Proofs.Estree.Reading

/-!
# The words of a tree

The leaves of a tree are its names and literals, the texts of its templates, and the words `this`
and `super`.  They are listed in the order in which the source has them (`Json.words`): first the
word that a node stands for itself, then those of the nodes under its fields, in the order of its
form.  Two keywords that are printed with a place of their own are in the list as well, but they are
no leaves (`Word.leaf?`).

Three kinds of nodes are spoken in another order (`Json.spoken`):

* the texts of a template take turns with what stands in its holes;
* a property, or a name in an import or export, both of whose names are the same is written once;
* an import of everything is one word, which has the name in it.

A tree that was read from a source has more to it than its form.  A method has no name of its own
beside its key, the names that an import brings in stand in a fixed order, and some fields stand for
one another.  `Json.isCoherent` asks for that.
-/

namespace EstreePrinter

open Json (Part)

/-! ## Words -/

/-- A word of the source. -/
inductive Word where
  /-- A leaf that is written as it is. -/
  | leaf (content : String)
  /-- A private name. -/
  | secret (name : String)
  /-- A name for everything that a module exports. -/
  | everything (name : String)
  /-- A keyword that has a place. -/
  | keyword (content : String)
  deriving Repr, DecidableEq

namespace Word

/-- What is printed. -/
def printed : Word → String
  | .leaf content => content
  | .secret name => "#" ++ name
  | .everything name => "* as " ++ name
  | .keyword content => content

/-- The leaf of the tree that a word stands for. -/
def leaf? : Word → Option String
  | .leaf content => some content
  | .secret name => some name
  | .everything name => some name
  | .keyword _ => none

end Word

/-! ## Fields that hold nodes -/

/-- Whether nodes may stand in a value of a shape. -/
def Shape.holdsNodes : Shape → Bool
  | .node _ => true
  | .piece _ => true
  | .list _ item => item.holdsNodes
  | _ => false

/-- The keys under which nodes stand, in the order of the form. -/
def Form.nodeKeys (form : Form) : List String :=
  (form.filter fun entry => entry.2.shape.holdsNodes).map Prod.fst

/-- The keys under which the nodes inside of a node of some kind stand. -/
def Estree.nodeKeys (kind : String) : List String :=
  match (Estree.forms ++ Estree.pieces).lookup kind with
  | some form => form.nodeKeys
  | none => []

/-- Two lists that take turns. -/
def weave {α : Type} : List α → List α → List α
  | [], ys => ys
  | x :: xs, [] => x :: xs
  | x :: xs, y :: ys => x :: y :: weave xs ys

namespace Json

/-- The text that a reading gives. -/
def textOf : Except Fault Json → String
  | .ok (.str s) => s
  | _ => ""

/-- Whether a reading says yes. -/
def holds : Except Fault Bool → Bool
  | .ok b => b
  | .error _ => false

/-- An element of a part is a part. -/
lemma inside_of_element {v whole : Json} {items : List Json} (hv : v ∈ items)
    (h : (Json.arr items).Inside whole) : v.Inside whole :=
  (Child.element hv).inside.trans h

/-- What a field holds: the elements of a list, or else its value. -/
def held (node : Json) (key : String) : List (Part node) :=
  match node.field? key with
  | some ⟨.arr items, h⟩ => items.attach.map fun ⟨v, hv⟩ => ⟨v, inside_of_element hv h⟩
  | some part => [part]
  | none => []

/-- Whether a property is written once for its key and its value. -/
def isWrittenOnce (node : Json) : Bool :=
  holds do
    let key ← node.require "key"
    let value ← node.require "value"
    Rules.isShorthand node key.1 value.1

/-- Whether two names are the same. -/
def sameNames (node : Json) (key other : String) : Bool :=
  holds do
    let first ← node.require key
    let second ← node.require other
    pure ((← first.1.nameOf).same (← second.1.nameOf))

/-- The parts of a node that are spoken, in the order in which they are. -/
def spoken (node : Json) : List (Part node) :=
  match node.kindName? with
  | some "TemplateLiteral" => weave (node.held "quasis") (node.held "expressions")
  | some "Property" =>
    if node.isWrittenOnce then node.held "value" else node.held "key" ++ node.held "value"
  | some "ImportSpecifier" =>
    if node.sameNames "imported" "local" then node.held "local"
    else node.held "imported" ++ node.held "local"
  | some "ExportSpecifier" =>
    if node.sameNames "local" "exported" then node.held "local"
    else node.held "local" ++ node.held "exported"
  | some "ImportNamespaceSpecifier" => []
  | some kind => (Estree.nodeKeys kind).flatMap node.held
  | none => []

/-- The word that a node stands for itself.  The text of a literal is the one it had in the source,
if the tree has it; otherwise `quote` is the delimiter of strings. -/
def ownWords (quote : Char) (node : Json) : List Word :=
  match node.kindName? with
  | some "Identifier" => [.leaf (textOf (node.getValue "name"))]
  | some "PrivateIdentifier" => [.secret (textOf (node.getValue "name"))]
  | some "ThisExpression" => [.leaf "this"]
  | some "Super" => [.leaf "super"]
  | some "Literal" => [.leaf (textOf (Rules.literalText quote node))]
  | some "TemplateElement" => [.leaf (textOf (Rules.quasiText node))]
  | some "ImportNamespaceSpecifier" => [.everything (textOf (Rules.localName node))]
  | some "ImportExpression" => [.keyword "import"]
  | some "DebuggerStatement" => [.keyword "debugger"]
  | _ => []

/-- **The words of a tree**, in the order of the source. -/
def words (quote : Char) (node : Json) : List Word :=
  node.ownWords quote ++ node.spoken.flatMap fun part => words quote part.1
termination_by sizeOf node
decreasing_by exact part.2.sizeOf_lt

/-- **The leaves of a tree**, in the order of the source. -/
def leafTexts (quote : Char) (node : Json) : List String := (node.words quote).filterMap Word.leaf?

/-- The words under a key. -/
def wordsAt (quote : Char) (node : Json) (key : String) : List Word :=
  (node.held key).flatMap fun part => part.1.words quote

/-- The words under some keys, one after the other. -/
def wordsUnder (quote : Char) (node : Json) (keys : List String) : List Word :=
  keys.flatMap (node.wordsAt quote)

/-! ## Trees that a source can have -/

/-- Whether a field is given. -/
def has (node : Json) (key : String) : Bool :=
  (node.field? key).any fun part => part.1.isGiven

/-- Whether a name in an import or export is a text. -/
def isNamed (node : Json) (key : String) : Bool :=
  match node.require key >>= fun part => part.1.nameOf with
  | .ok (.str _) => true
  | _ => false

/-- Where a name that an import brings in has its place: the default, everything, and the names in
braces. -/
def specifierRank (specifier : Json) : Nat :=
  if specifier.kindName? = some "ImportDefaultSpecifier" then 0
  else if specifier.kindName? = some "ImportNamespaceSpecifier" then 1
  else 2

/-- Whether the names that an import brings in stand in their places; only those in braces are more
than one. -/
def isSorted (specifiers : List Json) : Bool :=
  (specifiers.map specifierRank).Pairwise fun a b => a < b ∨ b = 2

/-- Whether the fields of a node go together as they do if it has been read from a source. -/
def isCoherent (node : Json) : Bool :=
  match node.kindName? with
  | some "MethodDefinition" => (node.held "value").all fun value => !value.1.has "id"
  | some "ImportExpression" => !(node.has "options" && node.has "attributes")
  | some "ImportDeclaration" =>
    isSorted ((node.held "specifiers").map Subtype.val) &&
      !(node.has "attributes" && node.has "assertions")
  | some "ImportSpecifier" => node.isNamed "imported" && node.isNamed "local"
  | some "ExportSpecifier" => node.isNamed "local" && node.isNamed "exported"
  | some "ExportNamedDeclaration" =>
    !(node.has "declaration" && (node.has "specifiers" || node.has "source")) &&
      (node.has "source" || !(node.has "attributes" || node.has "assertions")) &&
      !(node.has "attributes" && node.has "assertions")
  | some "ExportAllDeclaration" => !(node.has "attributes" && node.has "assertions")
  | _ => true

/-- **A tree that a source can have**: all nodes in it are coherent. -/
def Coherent (tree : Json) : Prop := ∀ node ∈ tree.nodes, node.isCoherent = true

/-! ## The words of a node -/

variable {node : Json} {quote : Char} {key kind : String} {table : List (String × Form)}

lemma words_eq (quote : Char) (node : Json) : node.words quote =
    node.ownWords quote ++ node.spoken.flatMap fun part => part.1.words quote := by
  rw [words]

@[simp] lemma wordsUnder_nil : node.wordsUnder quote [] = [] := rfl

@[simp] lemma wordsUnder_cons (keys : List String) :
    node.wordsUnder quote (key :: keys) = node.wordsAt quote key ++ node.wordsUnder quote keys :=
  rfl

/-- What is no node has no words. -/
lemma words_of_kindName?_none (h : node.kindName? = none) : node.words quote = [] := by
  rw [words_eq]
  simp [ownWords, spoken, h]

/-- The kinds of nodes that stand for a word. -/
def speakingKinds : List String :=
  ["Identifier", "PrivateIdentifier", "ThisExpression", "Super", "Literal", "TemplateElement",
    "ImportNamespaceSpecifier", "ImportExpression", "DebuggerStatement"]

/-- The kinds of nodes whose parts are not spoken in the order of their form. -/
def rearrangedKinds : List String :=
  ["TemplateLiteral", "Property", "ImportSpecifier", "ExportSpecifier", "ImportNamespaceSpecifier"]

lemma IsOf.ownWords_eq (h : node.IsOf table kind) (hsilent : kind ∉ speakingKinds) :
    node.ownWords quote = [] := by
  unfold ownWords
  rw [h.kindName]
  split <;> simp_all [speakingKinds]

lemma IsOf.spoken_eq (h : node.IsOf table kind) (hplain : kind ∉ rearrangedKinds) :
    node.spoken = (Estree.nodeKeys kind).flatMap node.held := by
  unfold spoken
  rw [h.kindName]
  split <;> simp_all [rearrangedKinds]

/-- The words of a node whose parts are spoken in the order of its form. -/
lemma IsOf.words_own (h : node.IsOf table kind) (hplain : kind ∉ rearrangedKinds) :
    node.words quote = node.ownWords quote ++ node.wordsUnder quote (Estree.nodeKeys kind) := by
  rw [Json.words_eq, h.spoken_eq hplain, List.flatMap_assoc]
  rfl

/-- **The words of most nodes** are those under the keys of their form. -/
lemma IsOf.words_eq (h : node.IsOf table kind) (hplain : kind ∉ speakingKinds ++ rearrangedKinds) :
    node.words quote = node.wordsUnder quote (Estree.nodeKeys kind) := by
  simp only [List.mem_append, not_or] at hplain
  rw [h.words_own hplain.2, h.ownWords_eq hplain.1, List.nil_append]

/-! ## The words under a key -/

lemma held_of_ne_arr {part : Part node} (hfield : node.field? key = some part)
    (h : ∀ items, part.1 ≠ .arr items) : node.held key = [part] := by
  obtain ⟨v, hinside⟩ := part
  cases v with
  | arr items => exact absurd rfl (h items)
  | _ => rw [held, hfield]

lemma held_of_isObject {part : Part node} (hfield : node.field? key = some part)
    (h : part.1.isObject = true) : node.held key = [part] := by
  refine held_of_ne_arr hfield fun items hitems => ?_
  rw [hitems] at h
  cases h

lemma wordsAt_of_isObject {part : Part node} (hfield : node.field? key = some part)
    (h : part.1.isObject = true) : node.wordsAt quote key = part.1.words quote := by
  simp [wordsAt, held_of_isObject hfield h]

lemma held_of_parts {list : Part node} (hfield : node.field? key = some list)
    (hlist : ∃ items, list.1 = .arr items) {parts : List (Part node)}
    (hparts : Json.parts list = .ok parts) : node.held key = parts := by
  obtain ⟨v, hinside⟩ := list
  obtain ⟨items, rfl⟩ := hlist
  rw [held, hfield]
  exact Except.ok.inj hparts

lemma wordsAt_of_parts (quote : Char) {list : Part node} (hfield : node.field? key = some list)
    (hlist : ∃ items, list.1 = .arr items) {parts : List (Part node)}
    (hparts : Json.parts list = .ok parts) :
    node.wordsAt quote key = parts.flatMap fun part => part.1.words quote := by
  rw [wordsAt, held_of_parts hfield hlist hparts]

/-- What does not count as given has no words. -/
lemma wordsAt_of_not_has (h : node.has key = false) : node.wordsAt quote key = [] := by
  rw [has] at h
  cases hfield : node.field? key with
  | none => rw [wordsAt, held, hfield]; rfl
  | some part =>
      have hgiven : part.1.isGiven = false := by simpa [hfield] using h
      obtain ⟨v, hinside⟩ := part
      cases v with
      | arr items =>
          obtain rfl : items = [] := by simpa [isGiven] using hgiven
          exact wordsAt_of_parts quote hfield ⟨[], rfl⟩ rfl
      | obj fields =>
          obtain rfl : fields = [] := by simpa [isGiven] using hgiven
          rw [wordsAt_of_isObject hfield rfl, words_of_kindName?_none rfl]
      | _ =>
          rw [wordsAt, held_of_ne_arr hfield (by simp), List.flatMap_singleton,
            words_of_kindName?_none rfl]

lemma has_of_given (hobject : node.isObject = true) {found : Option (Part node)}
    (h : node.given key = .ok found) : node.has key = found.isSome := by
  rw [given, get_eq hobject] at h
  obtain rfl := Except.ok.inj h
  rw [has]
  cases node.field? key with
  | none => rfl
  | some part => cases hgiven : part.1.isGiven <;> simp [hgiven]

/-- A node counts as given. -/
lemma IsOf.isGiven_self {table : List (String × Form)} {node : Json} {kind : String}
    (h : node.IsOf table kind) : node.isGiven = true := by
  obtain ⟨hinside, hfield⟩ := h.field?_type
  obtain ⟨fields, rfl, hmem⟩ := field?_eq_some hfield
  cases fields with
  | nil => cases hmem
  | cons => rfl

/-- The parts of a coherent tree are coherent. -/
lemma Coherent.part (h : node.Coherent) (part : Part node) : part.1.Coherent :=
  fun n hn => h n (Multiset.mem_of_le (nodes_le_of_inside part.2) hn)

lemma Coherent.self (h : node.Coherent) (hobject : node.isObject = true) :
    node.isCoherent = true :=
  h node (by simp [nodes_eq_cons hobject])

end Json

end EstreePrinter
