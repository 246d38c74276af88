import EstreePrinter.Decimal.Reader

/-!
# Days and times

A configuration text can give a day of the calendar, a time of day, or both, and then possibly the
zone that they are meant in.  Each has two written forms: one on its own (`Moment.display`), and one
that stands where a value is shown for what it is (`Moment.shown`).
-/

namespace EstreePrinter

namespace Toml

/-- Whether a year has a day more in February. -/
def isLeap (year : Nat) : Bool := year % 4 == 0 && (year % 100 != 0 || year % 400 == 0)

/-- How many days a month has. -/
def daysIn (year month : Nat) : Nat :=
  if month = 2 then if isLeap year then 29 else 28
  else if month = 4 ∨ month = 6 ∨ month = 9 ∨ month = 11 then 30
  else 31

/-- A day of the calendar. -/
structure Day where
  year : Nat
  month : Nat
  day : Nat
  year_mem : 1 ≤ year ∧ year ≤ 9999
  month_mem : 1 ≤ month ∧ month ≤ 12
  day_mem : 1 ≤ day ∧ day ≤ daysIn year month
  deriving DecidableEq

/-- A time of day, up to a millionth of a second. -/
structure Clock where
  hour : Nat
  minute : Nat
  second : Nat
  micro : Nat
  hour_lt : hour < 24
  minute_lt : minute < 60
  second_lt : second < 60
  micro_lt : micro < 1000000
  deriving DecidableEq

/-- How many minutes a zone is ahead; less than a day, in either direction. -/
abbrev Zone := { minutes : Int // minutes.natAbs < 1440 }

/-- A day, a time of day, or both. -/
inductive Moment where
  | day (d : Day)
  | clock (t : Clock)
  | both (d : Day) (t : Clock) (zone : Option Zone)
  deriving DecidableEq

/-- The digits of a number, with zeros in front of them up to a width. -/
def padded (width n : Nat) : String :=
  let digits := Nat.toDigits 10 n
  String.ofList (List.replicate (width - digits.length) '0' ++ digits)

namespace Day

/-- The day with these numbers, if there is one. -/
def ofNumbers? (year month day : Nat) : Option Day :=
  if h : (1 ≤ year ∧ year ≤ 9999) ∧ (1 ≤ month ∧ month ≤ 12) ∧ 1 ≤ day ∧ day ≤ daysIn year month then
    some ⟨year, month, day, h.1, h.2.1, h.2.2⟩
  else none

/-- A day on its own. -/
def display (d : Day) : String :=
  padded 4 d.year ++ "-" ++ padded 2 d.month ++ "-" ++ padded 2 d.day

/-- The numbers of a day. -/
def numbers (d : Day) : List Nat := [d.year, d.month, d.day]

end Day

namespace Clock

/-- The time of day with these numbers, if there is one. -/
def ofNumbers? (hour minute second micro : Nat) : Option Clock :=
  if h : hour < 24 ∧ minute < 60 ∧ second < 60 ∧ micro < 1000000 then
    some ⟨hour, minute, second, micro, h.1, h.2.1, h.2.2.1, h.2.2.2⟩
  else none

/-- A time of day on its own, with parts of a second only if there are any. -/
def display (t : Clock) : String :=
  padded 2 t.hour ++ ":" ++ padded 2 t.minute ++ ":" ++ padded 2 t.second ++
    (if t.micro = 0 then "" else "." ++ padded 6 t.micro)

/-- The numbers of a time of day, without zeros at the end. -/
def numbers (t : Clock) : List Nat :=
  [t.hour, t.minute] ++
    (if t.micro ≠ 0 then [t.second, t.micro] else if t.second ≠ 0 then [t.second] else [])

end Clock

namespace Zone

/-- A zone on its own. -/
def display (zone : Zone) : String :=
  (if zone.1 < 0 then "-" else "+") ++ padded 2 (zone.1.natAbs / 60) ++ ":" ++
    padded 2 (zone.1.natAbs % 60)

/-- A zone for what it is: a zone behind is a day behind and some seconds ahead. -/
def shown (zone : Zone) : String :=
  if zone.1 = 0 then "datetime.timezone.utc"
  else
    let seconds := zone.1 * 60
    let difference :=
      if seconds < 0 then "days=-1, seconds=" ++ toString (seconds + 86400)
      else "seconds=" ++ toString seconds
    "datetime.timezone(datetime.timedelta(" ++ difference ++ "))"

end Zone

namespace Moment

/-- A moment on its own. -/
def display : Moment → String
  | .day d => d.display
  | .clock t => t.display
  | .both d t zone => d.display ++ " " ++ t.display ++ (zone.map Zone.display).getD ""

/-- A moment for what it is: its numbers, in brackets behind the name of its kind. -/
def shown (m : Moment) : String :=
  let listed (kind : String) (numbers : List Nat) (more : List String) : String :=
    "datetime." ++ kind ++ "(" ++ String.intercalate ", " (numbers.map toString ++ more) ++ ")"
  match m with
  | .day d => listed "date" d.numbers []
  | .clock t => listed "time" t.numbers []
  | .both d t zone =>
    listed "datetime" (d.numbers ++ t.numbers)
      (zone.map fun zone => "tzinfo=" ++ zone.shown).toList

end Moment

end Toml

end EstreePrinter
