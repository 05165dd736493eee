/-!
# Dates and times

Calendar dates, times of day and offsets from universal time, with the text in which a settings
message shows them.
-/

namespace Intcode.Toml

structure Date where
  year : Nat
  month : Nat
  day : Nat
deriving DecidableEq

structure Time where
  hour : Nat
  minute : Nat
  second : Nat
  microsecond : Nat
deriving DecidableEq

namespace Date

def isLeap (year : Nat) : Bool :=
  year % 4 == 0 && (year % 100 != 0 || year % 400 == 0)

def daysIn (year : Nat) : (month : Nat) → Nat
  | 2 => if isLeap year then 29 else 28
  | 4 | 6 | 9 | 11 => 30
  | _ => 31

def Valid (d : Date) : Prop :=
  1 ≤ d.year ∧ d.year ≤ 9999 ∧ 1 ≤ d.month ∧ d.month ≤ 12 ∧ 1 ≤ d.day ∧ d.day ≤ daysIn d.year d.month

instance (d : Date) : Decidable d.Valid :=
  inferInstanceAs (Decidable (_ ∧ _))

def parts (d : Date) : List Nat := [d.year, d.month, d.day]

def text (d : Date) : String :=
  "datetime.date(" ++ ", ".intercalate (d.parts.map toString) ++ ")"

end Date

namespace Time

def parts (t : Time) : List Nat :=
  if t.microsecond ≠ 0 then [t.hour, t.minute, t.second, t.microsecond]
  else if t.second ≠ 0 then [t.hour, t.minute, t.second]
  else [t.hour, t.minute]

def text (t : Time) : String :=
  "datetime.time(" ++ ", ".intercalate (t.parts.map toString) ++ ")"

end Time

/-- The text of an offset in minutes. A negative offset is shown as a day less and the seconds
that are left of it. -/
def offsetText (minutes : Int) : String :=
  if minutes = 0 then "datetime.timezone.utc"
  else if 0 < minutes then
    "datetime.timezone(datetime.timedelta(seconds=" ++ toString (60 * minutes) ++ "))"
  else
    "datetime.timezone(datetime.timedelta(days=-1, seconds=" ++ toString (86400 + 60 * minutes) ++ "))"

def dateTimeText (d : Date) (t : Time) (offset : Option Int) : String :=
  let zone := match offset with
    | some minutes => ", tzinfo=" ++ offsetText minutes
    | none => ""
  "datetime.datetime(" ++ ", ".intercalate ((d.parts ++ t.parts).map toString) ++ zone ++ ")"

end Intcode.Toml
