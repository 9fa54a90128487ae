import NextBuild.Proofs.Calendar
import NextBuild.Strategy.Bounds

/-!
# The cutoff of an age

The greatest age of a candidate is counted in days back from the day of the selection, and commits
from before the local midnight of the day that is found are too old.  By any almanac of the Gregorian
calendar this is plain arithmetic on the number of the day: the months and leap years in between, and
the years before the first one, make no difference to it.  An age fails where this arithmetic leaves
the calendar.
-/

namespace NextBuild

/-- The cutoffs of the ages in days are those of a day in a place whose local time is ahead of
universal time by `offset` seconds. -/
structure AreCutoffs (today : Date) (offset : Int) (cutoff : Int → Except Failure Int) : Prop where
  /-- No age is negative. -/
  negative : ∀ days < 0, cutoff days = .error (.invalidConfig (.negativeAge days))
  /-- The day may come before the first day of the calendar. -/
  beforeFirst : ∀ days, 0 ≤ days → today.dayNumber - days < Date.first.dayNumber →
    cutoff days = .error (.invalidConfig (.ageOutOfRange days))
  /-- The day may begin at an instant that lies outside the calendar. -/
  outside : ∀ days, 0 ≤ days → Date.first.dayNumber ≤ today.dayNumber - days →
    ¬ Date.HasInstant (secondsPerDay * (today.dayNumber - days) - offset) →
    ∃ day, Date.IsDaysFrom days day today ∧ cutoff days = .error (.invalidConfig (.noCutoff day))
  /-- Otherwise the cutoff is the begin of the day. -/
  inside : ∀ days, 0 ≤ days → Date.first.dayNumber ≤ today.dayNumber - days →
    Date.HasInstant (secondsPerDay * (today.dayNumber - days) - offset) →
    cutoff days = .ok (secondsPerDay * (today.dayNumber - days) - offset)

namespace Almanac

variable {a : Almanac} {today d : Date} {offset t days : Int} {n : Nat}

/-- An almanac finds a day if its number is one of the calendar. -/
theorem IsGregorian.exists_daysBefore (ha : a.IsGregorian) (hd : d.InCalendar)
    (h : Date.first.dayNumber ≤ d.dayNumber - n) :
    ∃ e, a.daysBefore d n = some e ∧ e.InCalendar ∧ e.dayNumber = d.dayNumber - n := by
  obtain ⟨e, he, hnumber⟩ : ∃ e : Date, e.IsDay ∧ e.dayNumber = d.dayNumber - n :=
    ⟨_, Date.ofDayNumber_spec _⟩
  have hfound := (Date.inCalendar_and_iterate_next_iff hd).2 ⟨he, hnumber, h⟩
  exact ⟨e, (ha.daysBefore_iff hd).2 hfound, hfound.1, hnumber⟩

/-- An almanac finds no day before the first one. -/
theorem IsGregorian.daysBefore_eq_none (ha : a.IsGregorian) (hd : d.InCalendar)
    (h : d.dayNumber - n < Date.first.dayNumber) : a.daysBefore d n = none := by
  apply Option.eq_none_iff_forall_ne_some.2
  intro e he
  have hfound := (Date.inCalendar_and_iterate_next_iff hd).1 ((ha.daysBefore_iff hd).1 he)
  omega

/-- The begin of a day is found if it lies in the calendar. -/
theorem IsGregorian.midnight_eq_some_iff (ha : a.IsGregorian) (hd : d.InCalendar)
    (hoffset : offset.natAbs ≤ 86399) :
    a.midnight d offset = some t ↔ t = secondsPerDay * d.dayNumber - offset ∧ Date.HasInstant t := by
  rw [ha.midnight_iff hd hoffset, Date.exists_beginsAt_iff hd hoffset]

/-- A midnight that is out of range is not given. -/
theorem IsGregorian.midnight_eq_none (ha : a.IsGregorian) (hd : d.InCalendar)
    (hoffset : offset.natAbs ≤ 86399)
    (h : ¬ Date.HasInstant (secondsPerDay * d.dayNumber - offset)) : a.midnight d offset = none := by
  apply Option.eq_none_iff_forall_ne_some.2
  intro t ht
  obtain ⟨rfl, hinstant⟩ := (ha.midnight_eq_some_iff hd hoffset).1 ht
  exact h hinstant

/-- The steps from day to day come out as arithmetic. -/
theorem IsGregorian.areCutoffs (ha : a.IsGregorian) (htoday : today.InCalendar)
    (hoffset : offset.natAbs ≤ 86399) : AreCutoffs today offset (ageCutoffBy a today offset) where
  negative days hneg := by rw [ageCutoffBy, if_pos hneg]
  beforeFirst days hdays hbefore := by
    have hnone := ha.daysBefore_eq_none (n := days.toNat) htoday (by omega)
    rw [ageCutoffBy, if_neg (by omega), hnone]
  outside days hdays hfirst houtside := by
    obtain ⟨day, hday, hcalendar, hnumber⟩ :=
      ha.exists_daysBefore (n := days.toNat) htoday (by omega)
    rw [Int.toNat_of_nonneg hdays] at hnumber
    have hnone := ha.midnight_eq_none hcalendar hoffset (by rwa [hnumber])
    refine ⟨day, (Date.isDaysFrom_iff hcalendar.toIsDay htoday.toIsDay).2 (by omega), ?_⟩
    simp only [ageCutoffBy, if_neg (Int.not_lt.2 hdays), hday, hnone]
  inside days hdays hfirst hinside := by
    obtain ⟨day, hday, hcalendar, hnumber⟩ :=
      ha.exists_daysBefore (n := days.toNat) htoday (by omega)
    rw [Int.toNat_of_nonneg hdays] at hnumber
    have hbegin := (ha.midnight_eq_some_iff hcalendar hoffset).2 ⟨rfl, by rwa [hnumber]⟩
    simp only [ageCutoffBy, if_neg (Int.not_lt.2 hdays), hday, hbegin, hnumber]

end Almanac

namespace AreCutoffs

variable {today : Date} {offset days t : Int} {cutoff : Int → Except Failure Int}

/-- A cutoff is the begin of a day, and lies in the calendar. -/
theorem eq_of_ok (h : AreCutoffs today offset cutoff) (ht : cutoff days = .ok t) :
    t = secondsPerDay * (today.dayNumber - days) - offset ∧ Date.HasInstant t := by
  by_cases hneg : days < 0
  · rw [h.negative days hneg] at ht
    cases ht
  have hdays : 0 ≤ days := Int.not_lt.1 hneg
  by_cases hbefore : today.dayNumber - days < Date.first.dayNumber
  · rw [h.beforeFirst days hdays hbefore] at ht
    cases ht
  have hfirst := Int.not_lt.1 hbefore
  by_cases hinstant : Date.HasInstant (secondsPerDay * (today.dayNumber - days) - offset)
  · rw [h.inside days hdays hfirst hinstant] at ht
    cases ht
    exact ⟨rfl, hinstant⟩
  · obtain ⟨day, -, hfails⟩ := h.outside days hdays hfirst hinstant
    rw [hfails] at ht
    cases ht

/-- One more day is one day earlier. -/
theorem sub_of_ok_of_ok {u : Int} (h : AreCutoffs today offset cutoff) (ht : cutoff days = .ok t)
    (hu : cutoff (days + 1) = .ok u) : u = t - secondsPerDay := by
  obtain ⟨rfl, -⟩ := h.eq_of_ok ht
  obtain ⟨rfl, -⟩ := h.eq_of_ok hu
  unfold secondsPerDay
  omega

end AreCutoffs

/-- The instants of the calendar fit into 64 bits. -/
theorem Date.HasInstant.fits {t : Int} (h : HasInstant t) :
    Int64.minValue.toInt ≤ t ∧ t ≤ Int64.maxValue.toInt := by
  have hmin : Int64.minValue.toInt = -9223372036854775808 := by decide
  have hmax : Int64.maxValue.toInt = 9223372036854775807 := by decide
  unfold HasInstant secondsPerDay at h
  rw [dayNumber_first, dayNumber_last] at h
  omega

/-- On every day of the calendar and in every place the cutoff of an age is the begin of the day so
many days before, counted by the number of the day from 1970-01-01, as far as the calendar reaches.
It fits into 64 bits, and one more day makes it exactly a day earlier. -/
theorem ageCutoffBy_exact {a : Almanac} (ha : a.IsGregorian) {today : Date}
    (htoday : today.InCalendar) {offset : Int} (hoffset : offset.natAbs ≤ 86399) :
    (∀ d : Date, d.InCalendar → Date.IsDaysFrom d.dayNumber .epoch d) ∧
      AreCutoffs today offset (ageCutoffBy a today offset) ∧
      (∀ days t, ageCutoffBy a today offset days = .ok t →
        Int64.minValue.toInt ≤ t ∧ t ≤ Int64.maxValue.toInt) ∧
      ∀ days t u, ageCutoffBy a today offset days = .ok t →
        ageCutoffBy a today offset (days + 1) = .ok u → u = t - secondsPerDay := by
  have hcutoffs := ha.areCutoffs htoday hoffset
  refine ⟨fun d hd => ?_, hcutoffs, fun days t ht => ?_, fun days t u ht hu => ?_⟩
  · exact (Date.isDaysFrom_epoch_iff hd.toIsDay).2 rfl
  · exact (hcutoffs.eq_of_ok ht).2.fits
  · exact hcutoffs.sub_of_ok_of_ok ht hu

/-- A day before the first of March of a leap year is the 29th of February, and before the first day of
the calendar there is none. -/
theorem ageCutoff_beforeMarch :
    Almanac.gregorian.IsGregorian ∧ Date.InCalendar ⟨2024, 3, 1⟩ ∧ (3600 : Int).natAbs ≤ 86399 ∧
      ageCutoff ⟨2024, 3, 1⟩ 3600 1 = .ok (secondsPerDay * Date.dayNumber ⟨2024, 2, 29⟩ - 3600) ∧
      ageCutoff ⟨2024, 3, 1⟩ 3600 100000000 =
        .error (.invalidConfig (.ageOutOfRange 100000000)) := by
  have htoday : Date.InCalendar ⟨2024, 3, 1⟩ := by
    refine ⟨⟨?_, ?_, ?_, ?_⟩, ?_, ?_⟩ <;> decide
  have hoffset : (3600 : Int).natAbs ≤ 86399 := by decide
  obtain ⟨-, hcutoffs, -, -⟩ := ageCutoffBy_exact Almanac.isGregorian_gregorian htoday hoffset
  refine ⟨Almanac.isGregorian_gregorian, htoday, hoffset, ?_, ?_⟩
  · exact hcutoffs.inside 1 (by decide) (by decide) ⟨by decide, by decide⟩
  · exact hcutoffs.beforeFirst 100000000 (by decide) (by decide)

end NextBuild
