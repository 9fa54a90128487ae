import Mathlib.Logic.Function.Iterate
import NextBuild.Calendar

/-!
# Counting days

The day after a day is found on the calendar alone: by the length of the month and the number of
months.  The number of a day counts these steps from 1970-01-01, so two days have different numbers,
and the day with a given number is found back by cutting off whole cycles of years.

An almanac is one of the Gregorian calendar if it goes from day to day by such steps and tells of an
instant how many seconds it comes behind the begin of 1970-01-01.
-/

namespace NextBuild.Date

variable {d e : Date} {y : Int} {m n : Nat}

/-- The month has such a day, and the year such a month. -/
structure IsDay (d : Date) : Prop where
  one_le_month : 1 ≤ d.month
  month_le : d.month ≤ 12
  one_le_day : 1 ≤ d.day
  day_le : d.day ≤ daysInMonth d.year d.month

/-- The day after a day. -/
def next (d : Date) : Date :=
  if d.day < daysInMonth d.year d.month then ⟨d.year, d.month, d.day + 1⟩
  else if d.month < 12 then ⟨d.year, d.month + 1, 1⟩
  else ⟨d.year + 1, 1, 1⟩

/-- As many steps from day to day as the number says lead from the first day to the second one, and
for a negative number from the second one to the first. -/
def IsDaysFrom (n : Int) (d e : Date) : Prop :=
  next^[n.toNat] d = next^[(-n).toNat] e

/-- The day from which days are counted. -/
def epoch : Date := ⟨1970, 1, 1⟩

/-! ## Months and years -/

/-- Every month has a day. -/
theorem one_le_daysInMonth (y : Int) (m : Nat) : 1 ≤ daysInMonth y m := by
  unfold daysInMonth
  split
  · split <;> omega
  · omega
  · omega
  · omega
  · omega
  · omega

/-- The number of days of a year. -/
def daysInYear (y : Int) : Nat :=
  if isLeapYear y then 366 else 365

/-- Leap years are the multiples of four, without the centuries that are no multiples of 400. -/
theorem isLeapYear_iff : isLeapYear y = true ↔ y % 4 = 0 ∧ (y % 100 ≠ 0 ∨ y % 400 = 0) := by
  simp [isLeapYear]

/-- The days before the next month are those before this one and those in it. -/
theorem daysBeforeMonth_succ (hm : 1 ≤ m) :
    daysBeforeMonth y (m + 1) = daysBeforeMonth y m + daysInMonth y m := by
  rw [daysBeforeMonth, if_neg (by omega)]

/-- No day of a year is before January. -/
theorem daysBeforeMonth_one (y : Int) : daysBeforeMonth y 1 = 0 := rfl

/-- December has 31 days. -/
theorem daysInMonth_december (y : Int) : daysInMonth y 12 = 31 := rfl

/-- With December the year is complete. -/
theorem daysBeforeMonth_december (y : Int) : daysBeforeMonth y 12 + 31 = daysInYear y := by
  cases h : isLeapYear y <;> simp [daysBeforeMonth, daysInMonth, daysInYear, h]

/-- A year follows on the one before it. -/
theorem daysBeforeYear_succ (y : Int) :
    daysBeforeYear (y + 1) = daysBeforeYear y + daysInYear y := by
  have hleap := isLeapYear_iff (y := y)
  unfold daysBeforeYear daysInYear
  split
  · next h =>
    have := hleap.1 h
    omega
  · next h =>
    have : ¬ (y % 4 = 0 ∧ (y % 100 ≠ 0 ∨ y % 400 = 0)) := fun hy => h (hleap.2 hy)
    omega

/-- Later months have more days before them. -/
theorem daysBeforeMonth_mono (hm : 1 ≤ m) (h : m ≤ n) : daysBeforeMonth y m ≤ daysBeforeMonth y n := by
  induction h with
  | refl => exact Nat.le_refl _
  | step h ih =>
    rw [daysBeforeMonth_succ (Nat.le_trans hm h)]
    omega

/-- A month ends before the year does. -/
theorem daysBeforeMonth_add_le (hm : 1 ≤ m) (hm' : m ≤ 12) :
    daysBeforeMonth y m + daysInMonth y m ≤ daysInYear y := by
  have hmono := daysBeforeMonth_mono (y := y) (n := 13) (by omega : 1 ≤ m + 1) (by omega)
  have hyear := daysBeforeMonth_december y
  have hdecember := daysInMonth_december y
  rw [daysBeforeMonth_succ hm, daysBeforeMonth_succ (by decide)] at hmono
  omega

/-- Later years have more days before them. -/
theorem daysBeforeYear_mono {z : Int} (h : y ≤ z) : daysBeforeYear y ≤ daysBeforeYear z := by
  unfold daysBeforeYear
  omega

/-! ## Steps from day to day -/

/-- The day after a day is a day. -/
theorem IsDay.next (h : d.IsDay) : d.next.IsDay := by
  obtain ⟨hmonth, hmonth', hday, hday'⟩ := h
  unfold Date.next
  split
  · next hlt => exact ⟨hmonth, hmonth', by simp, hlt⟩
  · split
    · next hlt => exact ⟨by simp, hlt, Nat.le_refl 1, one_le_daysInMonth _ _⟩
    · exact ⟨Nat.le_refl 1, by simp, Nat.le_refl 1, one_le_daysInMonth _ _⟩

/-- The day after a day has the number after its number. -/
theorem dayNumber_next (h : d.IsDay) : d.next.dayNumber = d.dayNumber + 1 := by
  obtain ⟨hmonth, hmonth', hday, hday'⟩ := h
  unfold Date.next
  split
  · simp only [dayNumber]
    omega
  · next hlast =>
    split
    · have hlength := daysBeforeMonth_succ (y := d.year) hmonth
      simp only [dayNumber]
      omega
    · have hdecember : d.month = 12 := by omega
      have hlength := daysBeforeMonth_december d.year
      have hyear := daysBeforeYear_succ d.year
      have hone := daysBeforeMonth_one (d.year + 1)
      rw [hdecember, daysInMonth_december] at hday' hlast
      simp only [dayNumber, hdecember]
      omega

/-- So is every day after it. -/
theorem IsDay.iterate_next (h : d.IsDay) (n : Nat) : (Date.next^[n] d).IsDay := by
  induction n with
  | zero => exact h
  | succ n ih =>
    rw [Function.iterate_succ_apply']
    exact ih.next

/-- Each step counts. -/
theorem dayNumber_iterate_next (h : d.IsDay) (n : Nat) :
    (Date.next^[n] d).dayNumber = d.dayNumber + n := by
  induction n with
  | zero => simp
  | succ n ih =>
    rw [Function.iterate_succ_apply', dayNumber_next (h.iterate_next n), ih]
    omega

/-! ## Days and their numbers -/

/-- The number of a day lies in its year. -/
theorem IsDay.dayNumber_bounds (h : d.IsDay) :
    daysBeforeYear d.year ≤ d.dayNumber + epochOffset ∧
      d.dayNumber + epochOffset < daysBeforeYear (d.year + 1) := by
  obtain ⟨hmonth, hmonth', hday, hday'⟩ := h
  have hend := daysBeforeMonth_add_le (y := d.year) hmonth hmonth'
  have hyear := daysBeforeYear_succ d.year
  simp only [dayNumber]
  omega

/-- Days have the same number only if they are the same. -/
theorem eq_of_dayNumber_eq (hd : d.IsDay) (he : e.IsDay) (h : d.dayNumber = e.dayNumber) : d = e := by
  have hyear : d.year = e.year := by
    have hbounds := hd.dayNumber_bounds
    have hbounds' := he.dayNumber_bounds
    rcases Int.lt_trichotomy d.year e.year with hlt | heq | hgt
    · have := daysBeforeYear_mono (y := d.year + 1) (z := e.year) (by omega)
      omega
    · exact heq
    · have := daysBeforeYear_mono (y := e.year + 1) (z := d.year) (by omega)
      omega
  simp only [dayNumber, hyear] at h
  obtain ⟨hmonth, -, hday, hday'⟩ := hd
  obtain ⟨hmonth', -, heday, heday'⟩ := he
  rw [hyear] at hday'
  have hmonths : d.month = e.month := by
    rcases Nat.lt_trichotomy d.month e.month with hlt | heq | hgt
    · have hmono := daysBeforeMonth_mono (y := e.year) (m := d.month + 1) (by omega) hlt
      rw [daysBeforeMonth_succ hmonth] at hmono
      omega
    · exact heq
    · have hmono := daysBeforeMonth_mono (y := e.year) (m := e.month + 1) (by omega) hgt
      rw [daysBeforeMonth_succ hmonth'] at hmono
      omega
  have hdays : d.day = e.day := by
    rw [hmonths] at h
    omega
  cases d
  cases e
  exact (Date.mk.injEq ..).mpr ⟨hyear, hmonths, hdays⟩

/-- Cutting off months from the begin of one of them ends at a day of the year. -/
theorem monthAndDay_spec {left : Nat} (hm : 1 ≤ m) (hleft : m + left = 12)
    (hn : daysBeforeMonth y m + n < daysInYear y) :
    IsDay ⟨y, (monthAndDay y n left m).1, (monthAndDay y n left m).2⟩ ∧
      daysBeforeMonth y (monthAndDay y n left m).1 + (monthAndDay y n left m).2 =
        daysBeforeMonth y m + n + 1 := by
  induction left generalizing m n with
  | zero =>
    have hdecember : m = 12 := by omega
    subst hdecember
    have hyear := daysBeforeMonth_december y
    refine ⟨⟨hm, Nat.le_refl 12, Nat.le_add_left 1 n, ?_⟩, rfl⟩
    show n + 1 ≤ daysInMonth y 12
    rw [daysInMonth_december]
    omega
  | succ left ih =>
    rw [monthAndDay]
    split
    · next hlt =>
      have hmonth : m ≤ 12 := by omega
      exact ⟨⟨hm, hmonth, Nat.le_add_left 1 n, hlt⟩, rfl⟩
    · next hlt =>
      have hmonth := daysBeforeMonth_succ (y := y) hm
      have htail := ih (m := m + 1) (n := n - daysInMonth y m) (by omega) (by omega) (by omega)
      refine ⟨htail.1, htail.2.trans ?_⟩
      omega

/-- The years of whole cycles have their days. -/
theorem daysBeforeYear_cycles {a b c k : Int} (hb : 0 ≤ b ∧ b ≤ 3) (hc : 0 ≤ c ∧ c ≤ 24)
    (hk : 0 ≤ k ∧ k ≤ 3) :
    daysBeforeYear (400 * a + 100 * b + 4 * c + k + 1) =
      146097 * a + 36524 * b + 1461 * c + 365 * k := by
  unfold daysBeforeYear
  omega

/-- The last year of a cycle of four is the longer one, unless a cycle of 100 years ends with it that
does not end one of 400. -/
theorem daysInYear_cycles {a b c k : Int} (hb : 0 ≤ b ∧ b ≤ 3) (hc : 0 ≤ c ∧ c ≤ 24)
    (hk : 0 ≤ k ∧ k ≤ 3) :
    daysInYear (400 * a + 100 * b + 4 * c + k + 1) =
      if k = 3 ∧ (c ≠ 24 ∨ b = 3) then 366 else 365 := by
  have hleap : isLeapYear (400 * a + 100 * b + 4 * c + k + 1) = true ↔ k = 3 ∧ (c ≠ 24 ∨ b = 3) := by
    rw [isLeapYear_iff]
    omega
  simp only [daysInYear, hleap]

/-- Every number is that of a day. -/
theorem ofDayNumber_spec (n : Int) : (ofDayNumber n).IsDay ∧ (ofDayNumber n).dayNumber = n := by
  let t := n + epochOffset
  let a := t / 146097
  let r400 := t % 146097
  let b := min 3 (r400 / 36524)
  let r100 := r400 - 36524 * b
  let c := r100 / 1461
  let r4 := r100 % 1461
  let k := min 3 (r4 / 365)
  let y := 400 * a + 100 * b + 4 * c + k + 1
  let r := r4 - 365 * k
  have hb : 0 ≤ b ∧ b ≤ 3 := by omega
  have hr100 : 0 ≤ r100 ∧ (r100 < 36524 ∨ b = 3 ∧ r100 ≤ 36524) := by omega
  have hc : 0 ≤ c ∧ c ≤ 24 := by omega
  have hk : 0 ≤ k ∧ k ≤ 3 := by omega
  have hdays : daysBeforeYear y + r = t := by
    rw [daysBeforeYear_cycles hb hc hk]
    omega
  have hlength := daysInYear_cycles (a := a) hb hc hk
  have hr : 0 ≤ r ∧ r < daysInYear y := by
    rw [hlength]
    split <;> omega
  have hsize : daysBeforeMonth y 1 + r.toNat < daysInYear y := by
    rw [daysBeforeMonth_one]
    omega
  obtain ⟨hday, hsum⟩ := monthAndDay_spec (Nat.le_refl 1) (show 1 + 11 = 12 from rfl) hsize
  rw [daysBeforeMonth_one] at hsum
  have hdate : ofDayNumber n =
      ⟨y, (monthAndDay y r.toNat 11 1).1, (monthAndDay y r.toNat 11 1).2⟩ := rfl
  rw [hdate]
  refine ⟨hday, ?_⟩
  simp only [dayNumber]
  omega

/-- Steps lead from one day to another exactly if their numbers are so far apart. -/
theorem iterate_next_eq_iff (hd : d.IsDay) (he : e.IsDay) :
    Date.next^[n] d = e ↔ e.dayNumber = d.dayNumber + n := by
  constructor
  · intro h
    rw [← h, dayNumber_iterate_next hd]
  · intro h
    apply eq_of_dayNumber_eq (hd.iterate_next n) he
    rw [dayNumber_iterate_next hd, h]

/-- The number of a day is the number of days from 1970-01-01 to it. -/
theorem isDaysFrom_iff {k : Int} (hd : d.IsDay) (he : e.IsDay) :
    IsDaysFrom k d e ↔ k = e.dayNumber - d.dayNumber := by
  rw [IsDaysFrom, iterate_next_eq_iff hd (he.iterate_next _), dayNumber_iterate_next he]
  omega

/-- The epoch is a day of the calendar. -/
theorem isDay_epoch : epoch.IsDay := ⟨by decide, by decide, by decide, by decide⟩

/-- Days are counted from the epoch. -/
theorem dayNumber_epoch : epoch.dayNumber = 0 := by decide

/-- The number of a day is how far it is from the epoch. -/
theorem isDaysFrom_epoch_iff {k : Int} (hd : d.IsDay) : IsDaysFrom k epoch d ↔ k = d.dayNumber := by
  rw [isDaysFrom_iff isDay_epoch hd, dayNumber_epoch, Int.sub_zero]

/-! ## The range of the calendar -/

/-- The day lies between the first and the last day of the calendar. -/
structure InCalendar (d : Date) : Prop extends d.IsDay where
  first_le : first.year ≤ d.year
  le_last : d.year ≤ last.year

/-- The instant, in seconds from 1970, lies in a day of the calendar. -/
def HasInstant (t : Int) : Prop :=
  secondsPerDay * first.dayNumber ≤ t ∧ t < secondsPerDay * (last.dayNumber + 1)

/-- The number of the first day that can be written. -/
theorem dayNumber_first : first.dayNumber = -96465292 := by decide

/-- The number of the last day that can be written. -/
theorem dayNumber_last : last.dayNumber = 95026236 := by decide

/-- A day lies in the calendar exactly if its number does. -/
theorem IsDay.inCalendar_iff (h : d.IsDay) :
    d.InCalendar ↔ first.dayNumber ≤ d.dayNumber ∧ d.dayNumber ≤ last.dayNumber := by
  have hbounds := h.dayNumber_bounds
  have hfirst : daysBeforeYear first.year = first.dayNumber + epochOffset := by decide
  have hlast : daysBeforeYear (last.year + 1) = last.dayNumber + epochOffset + 1 := by decide
  constructor
  · intro hd
    have hlow := daysBeforeYear_mono hd.first_le
    have hhigh := daysBeforeYear_mono (y := d.year + 1) (z := last.year + 1)
      (Int.add_le_add_right hd.le_last 1)
    omega
  · intro hnumber
    refine ⟨h, ?_, ?_⟩
    · by_contra hbefore
      have := daysBeforeYear_mono (y := d.year + 1) (z := first.year) (by omega)
      omega
    · by_contra hbehind
      have := daysBeforeYear_mono (y := last.year + 1) (z := d.year) (by omega)
      omega

/-- A number of days before a day of the calendar there is one exactly if its number is not before the
first one. -/
theorem inCalendar_and_iterate_next_iff (hd : d.InCalendar) :
    e.InCalendar ∧ Date.next^[n] e = d ↔
      e.IsDay ∧ e.dayNumber = d.dayNumber - n ∧ first.dayNumber ≤ d.dayNumber - n := by
  have hlast := (hd.toIsDay.inCalendar_iff.1 hd).2
  constructor
  · intro h
    obtain ⟨he, hsteps⟩ := h
    rw [iterate_next_eq_iff he.toIsDay hd.toIsDay] at hsteps
    have hfirst := (he.toIsDay.inCalendar_iff.1 he).1
    exact ⟨he.toIsDay, by omega, by omega⟩
  · intro h
    obtain ⟨he, hnumber, hfirst⟩ := h
    rw [iterate_next_eq_iff he hd.toIsDay, he.inCalendar_iff]
    omega

/-! ## Almanacs -/

/-- Where local time is ahead of universal time by `offset` seconds, less than a day, the day `d`
begins `seconds` into the day `e` of universal time. -/
def BeginsAt (d : Date) (offset : Int) (e : Date) (seconds : Int) : Prop :=
  offset ≤ 0 ∧ e = d ∧ seconds = -offset ∨
    0 < offset ∧ e.next = d ∧ seconds = secondsPerDay - offset

/-- The seconds from 1970 to the begin of a day, if universal time has a day of the calendar then. -/
theorem exists_beginsAt_iff {offset t : Int} (hd : d.InCalendar) (hoffset : offset.natAbs ≤ 86399) :
    (∃ e k seconds, e.InCalendar ∧ d.BeginsAt offset e seconds ∧ IsDaysFrom k epoch e ∧
        t = secondsPerDay * k + seconds) ↔
      t = secondsPerDay * d.dayNumber - offset ∧ HasInstant t := by
  have hrange := hd.toIsDay.inCalendar_iff.1 hd
  unfold HasInstant secondsPerDay
  constructor
  · intro h
    obtain ⟨e, k, seconds, he, hbegin, hk, rfl⟩ := h
    rw [isDaysFrom_epoch_iff he.toIsDay] at hk
    have hrange' := he.toIsDay.inCalendar_iff.1 he
    rcases hbegin with ⟨hbehind, rfl, rfl⟩ | ⟨hahead, rfl, rfl⟩
    · omega
    · rw [dayNumber_next he.toIsDay]
      unfold secondsPerDay
      omega
  · intro h
    obtain ⟨rfl, hfrom, hto⟩ := h
    by_cases hahead : 0 < offset
    · -- Universal time is still in the day before, which is one of the calendar.
      obtain ⟨e, he, hnumber⟩ : ∃ e : Date, e.IsDay ∧ e.dayNumber = d.dayNumber - 1 :=
        ⟨_, ofDayNumber_spec _⟩
      have hcalendar : e.InCalendar := by
        rw [he.inCalendar_iff]
        omega
      have hnext : e.next = d := by
        apply eq_of_dayNumber_eq he.next hd.toIsDay
        rw [dayNumber_next he]
        omega
      refine ⟨e, e.dayNumber, _, hcalendar, .inr ⟨hahead, hnext, rfl⟩,
        (isDaysFrom_epoch_iff he).2 rfl, ?_⟩
      unfold secondsPerDay
      omega
    · refine ⟨d, d.dayNumber, _, hd, .inl ⟨by omega, rfl, rfl⟩,
        (isDaysFrom_epoch_iff hd.toIsDay).2 rfl, ?_⟩
      omega

end NextBuild.Date

namespace NextBuild.Almanac

open Date (InCalendar BeginsAt IsDaysFrom HasInstant)

/-- The almanac goes back day by day, and finds the begin of a day in universal time; what lies outside
the calendar it does not find. -/
structure IsGregorian (a : Almanac) : Prop where
  daysBefore_iff {d e : Date} {n : Nat} : d.InCalendar →
    (a.daysBefore d n = some e ↔ e.InCalendar ∧ Date.next^[n] e = d)
  midnight_iff {d : Date} {offset t : Int} : d.InCalendar → offset.natAbs ≤ 86399 →
    (a.midnight d offset = some t ↔ ∃ e k seconds, e.InCalendar ∧ d.BeginsAt offset e seconds ∧
      IsDaysFrom k .epoch e ∧ t = secondsPerDay * k + seconds)

/-- The calendar of the model steps from day to day. -/
theorem isGregorian_gregorian : gregorian.IsGregorian where
  daysBefore_iff {d e n} hd := by
    rw [Date.inCalendar_and_iterate_next_iff hd]
    obtain ⟨hday, hnumber⟩ := Date.ofDayNumber_spec (d.dayNumber - n)
    show (if d.dayNumber - n < Date.first.dayNumber then none
      else some (Date.ofDayNumber (d.dayNumber - n))) = some e ↔ _
    split
    · next hbefore =>
      refine iff_of_false nofun fun h => ?_
      omega
    · next hbefore =>
      rw [Option.some_inj]
      constructor
      · intro h
        rw [← h]
        exact ⟨hday, hnumber, by omega⟩
      · intro h
        exact Date.eq_of_dayNumber_eq hday h.1 (hnumber.trans h.2.1.symm)
  midnight_iff {d offset t} hd hoffset := by
    rw [Date.exists_beginsAt_iff hd hoffset]
    show (if secondsPerDay * d.dayNumber - offset < secondsPerDay * Date.first.dayNumber ∨
        secondsPerDay * (Date.last.dayNumber + 1) ≤ secondsPerDay * d.dayNumber - offset then none
      else some (secondsPerDay * d.dayNumber - offset)) = some t ↔ _
    unfold HasInstant
    split
    · next houtside =>
      refine iff_of_false nofun fun h => ?_
      omega
    · next houtside =>
      rw [Option.some_inj]
      constructor
      · intro h
        omega
      · intro h
        exact h.1.symm

end NextBuild.Almanac
