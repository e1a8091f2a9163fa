import ChunkBuild.Text.Integer
import ChunkBuild.Yaml.Cursor
/-!
# Dates and times

A day of the calendar, alone or with a time of day. A time may be a distance away from universal
time; two such times are the same when they are the same instant.
-/
namespace ChunkBuild.Yaml

open ChunkBuild.Text

structure Clock where
  hour : Nat
  minute : Nat
  second : Nat
  /-- The millionths of a second. -/
  fraction : Nat := 0
  /-- The minutes by which the place is ahead of universal time, when they are known. -/
  ahead : Option Int := none
  deriving DecidableEq, Repr

structure Moment where
  year : Nat
  month : Nat
  day : Nat
  clock : Option Clock := none
  deriving DecidableEq, Repr

def daysIn (year month : Nat) : Nat :=
  if month = 2 then
    if year % 4 = 0 && (year % 100 ≠ 0 || year % 400 = 0) then 29 else 28
  else if [4, 6, 9, 11].contains month then 30
  else 31

def padded (width n : Nat) : String :=
  let digits := natText n
  String.ofList (List.replicate (width - digits.length) '0') ++ digits

namespace Clock

def distanceProblem? (ahead : Int) : Option String :=
  if ahead.natAbs < 1440 then none
  else
    let seconds := ahead * 60 % 86400
    some ("offset must be a timedelta strictly between -timedelta(hours=24) and "
      ++ "timedelta(hours=24), not datetime.timedelta(days=" ++ intText (ahead * 60 / 86400)
      ++ (if seconds = 0 then "" else ", seconds=" ++ intText seconds) ++ ").")

def problem? (c : Clock) : Option String :=
  if 23 < c.hour then some "hour must be in 0..23"
  else if 59 < c.minute then some "minute must be in 0..59"
  else if 59 < c.second then some "second must be in 0..59"
  else none

def distanceText (ahead : Int) : String :=
  (if ahead < 0 then "-" else "+") ++ padded 2 (ahead.natAbs / 60) ++ ":"
    ++ padded 2 (ahead.natAbs % 60)

def text (c : Clock) : String :=
  padded 2 c.hour ++ ":" ++ padded 2 c.minute ++ ":" ++ padded 2 c.second ++
    (if c.fraction = 0 then "" else "." ++ padded 6 c.fraction) ++
    ((c.ahead.map distanceText).getD "")

end Clock

namespace Moment

def kind (m : Moment) : String := if m.clock.isSome then "datetime" else "date"

def dayProblem? (m : Moment) : Option String :=
  if m.year = 0 then some "year 0 is out of range"
  else if m.month < 1 || 12 < m.month then some "month must be in 1..12"
  else if m.day < 1 || daysIn m.year m.month < m.day then some "day is out of range for month"
  else none

/-- Why there is no such moment. The distance from universal time is looked at first. -/
def problem? (m : Moment) : Option String :=
  (((m.clock.bind (·.ahead)).bind Clock.distanceProblem?).or m.dayProblem?).or
    (m.clock.bind Clock.problem?)

def check (m : Moment) : Except ReadError Moment :=
  match m.problem? with
  | some message => .error (.noSuchValue message)
  | none => .ok m

def text (m : Moment) : String :=
  padded 4 m.year ++ "-" ++ padded 2 m.month ++ "-" ++ padded 2 m.day ++
    ((m.clock.map fun c => " " ++ c.text).getD "")

def daysBefore (m : Moment) : Nat :=
  let years := m.year - 1
  years * 365 + years / 4 - years / 100 + years / 400 +
    (List.range (m.month - 1)).foldl (fun n k => n + daysIn m.year (k + 1)) 0 + m.day

/-- The millionths of a second up to a moment in universal time, when the distance from that is
known. -/
def instant? (m : Moment) : Option Int :=
  m.clock.bind fun c => c.ahead.map fun ahead =>
    let minutes : Int := (m.daysBefore * 24 + c.hour) * 60 + c.minute
    ((minutes - ahead) * 60 + c.second) * 1000000 + c.fraction

def isSame (m n : Moment) : Bool :=
  match m.instant?, n.instant? with
  | some a, some b => a == b
  | _, _ => m == n

end Moment

end ChunkBuild.Yaml
