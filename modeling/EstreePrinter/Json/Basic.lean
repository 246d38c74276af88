/-!
# JSON values

Syntax trees, comments, options and settings all arrive as JSON.  This file has the value type
and the few questions the rest of the library asks of a value without caring what it stands for.

* `Json` — whole numbers and binary fractions are kept apart, and an object keeps its fields in
  the order in which they were written.
* `Json.isGiven` — the reading of a value as a flag: absent, empty and zero all mean "no".
* `Json.Part` — a value that lies inside another one.  Every field and every element that is handed
  out comes as a `Part`, so a recursion over a tree ends because its argument shrinks, and what is
  true of all that is inside of a tree is true of every value that is read from it.
-/

namespace EstreePrinter

/-- A JSON value.  Whole numbers are unbounded; an object has each key at most once, in the order
in which the keys were first written. -/
inductive Json where
  | null
  | bool (b : Bool)
  | int (n : Int)
  | float (x : Float)
  | str (s : String)
  | arr (items : List Json)
  | obj (fields : List (String × Json))
  deriving Inhabited

namespace Json

/-! ## Values as flags -/

/-- Whether a value counts as given: null, `false`, zero, and an empty text, list or object do
not. -/
def isGiven : Json → Bool
  | .null => false
  | .bool b => b
  | .int n => n != 0
  | .float x => x != 0
  | .str s => s != ""
  | .arr items => !items.isEmpty
  | .obj fields => !fields.isEmpty

/-- Whether a value is null. -/
def isNull : Json → Bool
  | .null => true
  | _ => false

/-- Whether a value is an object. -/
def isObject : Json → Bool
  | .obj _ => true
  | _ => false

/-- Whether a value is the text `s`. -/
def isText (s : String) : Json → Bool
  | .str t => t == s
  | _ => false

/-- Whether a value is one of the texts in `options`. -/
def isOneOf (options : List String) : Json → Bool
  | .str t => options.contains t
  | _ => false

/-! ## Parts of a value -/

/-- A value right inside another one: an element of a list, the value of a field of an object, or
one of its keys. -/
inductive Child : Json → Json → Prop
  | element {v : Json} {items : List Json} (h : v ∈ items) : Child v (.arr items)
  | field {key : String} {v : Json} {fields : List (String × Json)} (h : (key, v) ∈ fields) :
      Child v (.obj fields)
  | key {key : String} {v : Json} {fields : List (String × Json)} (h : (key, v) ∈ fields) :
      Child (.str key) (.obj fields)

/-- A value inside another one, at any depth. -/
def Inside : Json → Json → Prop := Relation.TransGen Child

theorem Child.inside {v w : Json} (h : Child v w) : v.Inside w := .single h

theorem Inside.trans {u v w : Json} (h : u.Inside v) (h' : v.Inside w) : u.Inside w :=
  Relation.TransGen.trans h h'

theorem Child.sizeOf_lt {v w : Json} (h : Child v w) : sizeOf v < sizeOf w := by
  cases h with
  | element h =>
    have := List.sizeOf_lt_of_mem h
    simp only [Json.arr.sizeOf_spec]
    omega
  | field h =>
    have := List.sizeOf_lt_of_mem h
    simp only [Json.obj.sizeOf_spec, Prod.mk.sizeOf_spec] at *
    omega
  | key h =>
    have := List.sizeOf_lt_of_mem h
    simp only [Json.obj.sizeOf_spec, Json.str.sizeOf_spec, Prod.mk.sizeOf_spec] at *
    omega

/-- What is inside of a value is smaller. -/
theorem Inside.sizeOf_lt {v w : Json} (h : v.Inside w) : sizeOf v < sizeOf w := by
  induction h with
  | single h => exact h.sizeOf_lt
  | tail _ h ih => exact Nat.lt_trans ih h.sizeOf_lt

/-- A value inside of `whole`. -/
abbrev Part (whole : Json) := { part : Json // part.Inside whole }

namespace Part

/-- A part of a part is a part of the whole. -/
def within {whole : Json} (outer : Part whole) (inner : Part outer.1) : Part whole :=
  ⟨inner.1, inner.2.trans outer.2⟩

end Part

/-- The value stored under `key`, with the fact that it is stored there. -/
def lookup (key : String) :
    (fields : List (String × Json)) → Option { v : Json // (key, v) ∈ fields }
  | [] => none
  | (k, v) :: rest =>
    if h : k = key then some ⟨v, by simp [h]⟩
    else (lookup key rest).map fun p => ⟨p.1, List.mem_cons_of_mem _ p.2⟩

/-- The field `key` of an object; nothing for a missing field and for any other value. -/
def field? (node : Json) (key : String) : Option (Part node) :=
  match node with
  | .obj fields => (lookup key fields).map fun p => ⟨p.1, (Child.field p.2).inside⟩
  | _ => none

/-- What a value holds when it is gone through one by one: the elements of a list and the keys of
an object.  A text stands for its characters; since none of them is ever a node, the text itself
stands for all of them here.  Nothing for a value that cannot be gone through. -/
def parts? {whole : Json} (list : Part whole) : Option (List (Part whole)) :=
  match list with
  | ⟨.arr items, h⟩ => some (items.attach.map fun p => ⟨p.1, (Child.element p.2).inside.trans h⟩)
  | ⟨.str s, h⟩ => some (if s = "" then [] else [⟨.str s, h⟩])
  | ⟨.obj fields, h⟩ =>
    some (fields.attach.map fun p => ⟨.str p.1.1, (Child.key p.2).inside.trans h⟩)
  | _ => none

/-- The elements of a list, the keys of an object or the characters of a text. -/
def elements? : Json → Option (List Json)
  | .arr items => some items
  | .obj fields => some (fields.map fun f => .str f.1)
  | .str s => some (s.toList.map fun c => .str (String.singleton c))
  | _ => none

/-- The number of elements, keys or characters. -/
def length? : Json → Option Nat
  | .arr items => some items.length
  | .obj fields => some fields.length
  | .str s => some s.length
  | _ => none

/-! ## Building objects -/

/-- Put a field into a list of fields: the last value written wins, at the place where the key was
first written. -/
def insertField {α : Type} (key : String) (value : α) : List (String × α) → List (String × α)
  | [] => [(key, value)]
  | (k, v) :: rest =>
    if k = key then (k, value) :: rest else (k, v) :: insertField key value rest

end Json

end EstreePrinter
