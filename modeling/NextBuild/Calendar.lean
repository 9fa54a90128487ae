/-!
# Calendar days

Days of the proleptic Gregorian calendar, numbered from 1970-01-01, over the years from -262143 to
262142.  A day is found from its number by cutting off whole cycles of 400, 100, 4 and 1 years.  An
almanac tells of these days which one comes some days before another, and when a day begins.
-/

namespace NextBuild

/-- A day of the proleptic Gregorian calendar. -/
structure Date where
  /-- The year; 0 is the year before 1. -/
  year : Int
  /-- The month, from 1. -/
  month : Nat
  /-- The day of the month, from 1. -/
  day : Nat
deriving DecidableEq, Repr

namespace Date

/-- The year has a 29th of February. -/
def isLeapYear (y : Int) : Bool :=
  y % 4 == 0 && (y % 100 != 0 || y % 400 == 0)

/-- The number of days of a month. -/
def daysInMonth (y : Int) : Nat → Nat
  | 2 => if isLeapYear y then 29 else 28
  | 4 | 6 | 9 | 11 => 30
  | _ => 31

/-- The number of days from 0001-01-01 to the first day of a year. -/
def daysBeforeYear (y : Int) : Int :=
  365 * (y - 1) + (y - 1) / 4 - (y - 1) / 100 + (y - 1) / 400

/-- The number of days of a year before its `m`th month, for `m` counted from 0. -/
def daysBeforeMonth (y : Int) : Nat → Nat
  | 0 => 0
  | m + 1 => if m = 0 then 0 else daysBeforeMonth y m + daysInMonth y m

/-- The number of days from 0001-01-01 to 1970-01-01. -/
def epochOffset : Int := 719162

/-- The number of days from 1970-01-01 to a day. -/
def dayNumber (d : Date) : Int :=
  daysBeforeYear d.year + daysBeforeMonth d.year d.month + ((d.day : Int) - 1) - epochOffset

/-- The month and day with a given number of days of the year before it, from month `m` on. -/
def monthAndDay (y : Int) (n : Nat) : Nat → Nat → Nat × Nat
  | 0, m => (m, n + 1)
  | left + 1, m =>
    if n < daysInMonth y m then (m, n + 1)
    else monthAndDay y (n - daysInMonth y m) left (m + 1)

/-- The day with a given number. -/
def ofDayNumber (n : Int) : Date :=
  let t := n + epochOffset
  let cycle400 := t / 146097
  let r400 := t % 146097
  let cycle100 := min 3 (r400 / 36524)
  let r100 := r400 - 36524 * cycle100
  let cycle4 := r100 / 1461
  let r4 := r100 % 1461
  let cycle1 := min 3 (r4 / 365)
  let y := 400 * cycle400 + 100 * cycle100 + 4 * cycle4 + cycle1 + 1
  let (m, d) := monthAndDay y (r4 - 365 * cycle1).toNat 11 1
  ⟨y, m, d⟩

/-- The first day of the calendar. -/
def first : Date := ⟨-262143, 1, 1⟩

/-- The last day of the calendar. -/
def last : Date := ⟨262142, 12, 31⟩

/-- A number written with leading zeros up to a width. -/
def padded (width n : Nat) : String :=
  let ds := (toString n).toList
  String.ofList (List.replicate (width - ds.length) '0' ++ ds)

/-- The day as year, month and day; a year outside 0 to 9999 carries its sign. -/
def text (d : Date) : String :=
  let y :=
    if 0 ≤ d.year ∧ d.year ≤ 9999 then padded 4 d.year.toNat
    else (if d.year < 0 then "-" else "+") ++ padded 4 d.year.natAbs
  y ++ "-" ++ padded 2 d.month ++ "-" ++ padded 2 d.day

example : dayNumber ⟨1970, 1, 1⟩ = 0 := by decide
example : ofDayNumber (dayNumber ⟨2024, 2, 29⟩) = ⟨2024, 2, 29⟩ := by decide
example : ofDayNumber (dayNumber first) = first := by decide

end Date

/-- The number of seconds of a day. -/
def secondsPerDay : Int := 86400

/-- What is known of the days of a calendar. -/
structure Almanac where
  /-- The day that comes a number of days before a day. -/
  daysBefore (d : Date) (n : Nat) : Option Date
  /-- The time at which a day begins, in seconds from 1970, where local time is ahead of universal
  time by `offset` seconds. -/
  midnight (d : Date) (offset : Int) : Option Int

/-- The almanac of the Gregorian calendar, which knows nothing before its first day and behind its
last one. -/
def Almanac.gregorian : Almanac where
  daysBefore d n :=
    let day := d.dayNumber - n
    if day < Date.first.dayNumber then none else some (Date.ofDayNumber day)
  midnight d offset :=
    let instant := secondsPerDay * d.dayNumber - offset
    if instant < secondsPerDay * Date.first.dayNumber
        ∨ secondsPerDay * (Date.last.dayNumber + 1) ≤ instant then none
    else some instant

end NextBuild
