import GaugeConsole.Text.Numeral

/-!
# Dates

A date is a year in four digits, a month and a day, with hyphens between them. A time of day may
follow it, and after the time a zone, which is told by its distance from the universal time. What
is written like a date need not be in the calendar (`Date.problem?`).
-/

namespace GaugeConsole.Document

/-- How far the time of a zone is from the universal time, and to which side. -/
structure Zone where
  behind : Bool
  hours : Nat
  minutes : Nat
deriving DecidableEq, Repr

structure Time where
  hour : Nat
  minute : Nat
  second : Nat
  /-- There is none where none is stated, and none is needed for the universal time. -/
  zone : Option Zone
deriving DecidableEq, Repr

structure Date where
  year : Nat
  month : Nat
  day : Nat
  time : Option Time
deriving DecidableEq, Repr

inductive DateProblem where
  | year (year : Nat)
  | month
  | day
  | hour
  | minute
  | second
  /-- The distance of a zone, in minutes, is a day or more. -/
  | zone (minutes : Int)
deriving DecidableEq, Repr

namespace DateProblem

/-- A distance in minutes as whole days and the seconds beyond them, without those of the two that
are zero. -/
def distance (minutes : Int) : String :=
  let days := minutes / 1440
  let seconds := minutes % 1440 * 60
  let part := fun (name : String) (n : Int) => if n = 0 then [] else [name ++ "=" ++ intText n]
  "datetime.timedelta(" ++ ", ".intercalate (part "days" days ++ part "seconds" seconds) ++ ")"

def message : DateProblem → String
  | year n => "year " ++ intText n ++ " is out of range"
  | month => "month must be in 1..12"
  | day => "day is out of range for month"
  | hour => "hour must be in 0..23"
  | minute => "minute must be in 0..59"
  | second => "second must be in 0..59"
  | zone minutes => "offset must be a timedelta strictly between -timedelta(hours=24) and "
      ++ "timedelta(hours=24), not " ++ distance minutes ++ "."

end DateProblem

namespace Zone

/-- The distance in minutes, below zero for a zone that is behind. -/
def distance (z : Zone) : Int :=
  let minutes : Int := 60 * z.hours + z.minutes
  if z.behind then -minutes else minutes

end Zone

/-! ## Reading -/

abbrev DateReader := StateT (List Char) Option

namespace DateReader

/-- A number of at least `least` digits. At most `most` are taken. -/
def number (least most : Nat) : DateReader Nat := fun cs =>
  let n := min most (cs.takeWhile isDigit).length
  if n < least then none else some (ofDigits (cs.take n), cs.drop n)

def mark (c : Char) : DateReader Unit := fun cs =>
  if cs.head? = some c then some ((), cs.tail) else none

/-- Whether a mark is next. If so it is taken. -/
def mark? (c : Char) : DateReader Bool := fun cs =>
  if cs.head? = some c then some (true, cs.tail) else some (false, cs)

/-- Skips the characters of a class, and tells how many there were. -/
def skipWhile (p : Char → Bool) : DateReader Nat := fun cs =>
  some ((cs.takeWhile p).length, cs.dropWhile p)

def atEnd : DateReader Bool := fun cs => some (cs.isEmpty, cs)

def isBlank (c : Char) : Bool := c = ' ' || c = '\t'

/-- A zone, which reaches to the end of the text. The letter stands for the universal time. -/
def zone : DateReader (Option Zone) := do
  if ← atEnd then return none
  let _ ← skipWhile isBlank
  if ← mark? 'Z' then return none
  let behind ← mark? '-'
  if !behind then mark '+'
  let hours ← number 1 2
  let minutes ← if ← mark? ':' then number 2 2 else pure 0
  return some ⟨behind, hours, minutes⟩

/-- A time of day, with what keeps it apart from the date. Fractions of a second do not count. -/
def time : DateReader Time := do
  let lettered ← if ← mark? 'T' then pure true else mark? 't'
  if !lettered then
    if (← skipWhile isBlank) = 0 then failure
  let hour ← number 1 2
  mark ':'
  let minute ← number 2 2
  mark ':'
  let second ← number 2 2
  if ← mark? '.' then
    let _ ← skipWhile isDigit
  return ⟨hour, minute, second, ← zone⟩

def date : DateReader Date := do
  let year ← number 4 4
  mark '-'
  let month ← number 1 2
  mark '-'
  let day ← number 1 2
  if ← atEnd then return ⟨year, month, day, none⟩
  return ⟨year, month, day, some (← time)⟩

end DateReader

namespace Date

/-- The date that a text is, whether or not it is in the calendar. -/
def read? (cs : List Char) : Option Date :=
  match DateReader.date cs with
  | some (d, []) => some d
  | _ => none

/-! ## The calendar -/

def isLeapYear (year : Nat) : Bool := year % 4 = 0 && (year % 100 ≠ 0 || year % 400 = 0)

def daysIn (year month : Nat) : Nat :=
  if month = 2 then if isLeapYear year then 29 else 28
  else if month ∈ [4, 6, 9, 11] then 30
  else 31

/-- The first thing that is wrong with a date, the zone before all else. -/
def problem? (d : Date) : Option DateProblem :=
  let zone := (d.time.bind Time.zone).map Zone.distance
  let hasTime := fun (p : Time → Bool) => d.time.any p
  if zone.any (1440 ≤ ·.natAbs) then zone.map .zone
  else if d.year = 0 then some (.year d.year)
  else if d.month = 0 ∨ 12 < d.month then some .month
  else if d.day = 0 ∨ daysIn d.year d.month < d.day then some .day
  else if hasTime (23 < ·.hour) then some .hour
  else if hasTime (59 < ·.minute) then some .minute
  else if hasTime (59 < ·.second) then some .second
  else none

end Date

end GaugeConsole.Document
