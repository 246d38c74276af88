import EstreePrinter.Json.Display
import EstreePrinter.Toml.Moment

/-!
# Values of settings

A setting is given in a configuration text or by a caller, and what it is given can be anything that
such a text can hold: numbers, flags and texts, which are values of JSON too, moments, which are
not, and lists and tables of all of these.
-/

namespace EstreePrinter

namespace Toml

/-- A value of a setting. -/
inductive Value where
  /-- A value of JSON. -/
  | plain (v : Json)
  | moment (m : Moment)
  | list (items : List Value)
  | table (fields : List (String × Value))

namespace Value

/-- A text. -/
def text (s : String) : Value := .plain (.str s)

/-- A value as far as a check looks at it, which is its kind and, if it is plain, what it is.  A
moment is of no kind that a check knows. -/
def seen : Value → Json
  | .plain v => v
  | .moment _ => .null
  | .list _ => .arr []
  | .table _ => .obj []

mutual

/-- The form of a value with its texts quoted. -/
def shown : Value → String
  | .plain v => v.shown
  | .moment m => m.shown
  | .list items => "[" ++ String.intercalate ", " (shownItems items) ++ "]"
  | .table fields => "\x7b" ++ String.intercalate ", " (shownFields fields) ++ "\x7d"

/-- The forms of the elements of a list. -/
def shownItems : List Value → List String
  | [] => []
  | v :: rest => shown v :: shownItems rest

/-- The forms of the fields of a table. -/
def shownFields : List (String × Value) → List String
  | [] => []
  | (k, v) :: rest => (Json.shownText k ++ ": " ++ shown v) :: shownFields rest

end

/-- The form of a value on its own: texts and moments as they are, everything else as shown. -/
def display : Value → String
  | .plain v => v.display
  | .moment m => m.display
  | v => v.shown

mutual

/-- Whether a value can be shown: no whole number in it has too many digits. -/
def isShowable : Value → Bool
  | .plain v => v.isShowable
  | .moment _ => true
  | .list items => areShowable items
  | .table fields => haveShowable fields

/-- Whether all elements of a list can be shown. -/
def areShowable : List Value → Bool
  | [] => true
  | v :: rest => isShowable v && areShowable rest

/-- Whether all fields of a table can be shown. -/
def haveShowable : List (String × Value) → Bool
  | [] => true
  | (_, v) :: rest => isShowable v && haveShowable rest

end

end Value

end Toml

end EstreePrinter
