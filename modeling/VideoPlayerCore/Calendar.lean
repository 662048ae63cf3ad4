import Mathlib.Tactic.Common

/-!
# Calendar: days and dates

`dateOf` gives the date of a day of the Gregorian calendar, counted from 1970-01-01, and
`daysOf` the day of a date.  A year begins in March here, so that the leap day is its last
one; 400 years have 146097 days.

    daysOf (dateOf days) = days                                            (daysOf_dateOf)
    days < days' → (dateOf days).fields < (dateOf days').fields              (dateOf_lt)
-/

namespace Calendar

structure Date where
  year : Int
  /-- from 1 on -/
  month : Int
  /-- from 1 on -/
  day : Int
  deriving DecidableEq

/-- The days of the first `years` years of 400, March to February. -/
def yearStart (years : Int) : Int := 365 * years + years / 4 - years / 100

/-- The days of the first `months` months of a year, from March on. -/
def monthStart (months : Int) : Int := (153 * months + 2) / 5

/-- The year of a day of the 400 years: the last century of the 400 years and the last year
of four may be a day longer than the others. -/
def yearAt (day : Int) : Int :=
  let century := min (day / 36524) 3
  let rest := day - 36524 * century
  100 * century + 4 * (rest / 1461) + min (rest % 1461 / 365) 3

/-- The month of a day of the year. -/
def monthAt (day : Int) : Int := (5 * day + 2) / 153

def dateOf (days : Int) : Date :=
  let z := days + 719468
  let year := yearAt (z % 146097)
  let day := z % 146097 - yearStart year
  let month := monthAt day
  { year := 400 * (z / 146097) + year + if month < 10 then 0 else 1
    month := if month < 10 then month + 3 else month - 9
    day := day - monthStart month + 1 }

/-- The day may be any; the month is from 1 to 12. -/
def daysOf (d : Date) : Int :=
  let year := if d.month ≤ 2 then d.year - 1 else d.year
  let month := if d.month ≤ 2 then d.month + 9 else d.month - 3
  146097 * (year / 400) + yearStart (year % 400) + monthStart month + d.day - 1 - 719468

/-- Centuries, fours and single years. -/
theorem yearStart_eq {century fours years : Int} (hfours : 0 ≤ fours) (hfours' : fours < 25)
    (hyears : 0 ≤ years) (hyears' : years < 4) :
    yearStart (100 * century + 4 * fours + years) =
      36524 * century + 1461 * fours + 365 * years := by
  have hleap : (100 * century + 4 * fours + years) / 4 = 25 * century + fours := by omega
  have hcentury : (100 * century + 4 * fours + years) / 100 = century := by omega
  unfold yearStart
  rw [hleap, hcentury]
  omega

/-- A day of the 400 years is one of the days of its year. -/
theorem yearAt_spec {day : Int} (h0 : 0 ≤ day) (h : day < 146097) :
    0 ≤ yearAt day ∧ yearAt day < 400 ∧
      yearStart (yearAt day) ≤ day ∧ day - yearStart (yearAt day) < 366 := by
  unfold yearAt
  dsimp only
  obtain ⟨century, hcentury⟩ : ∃ c, c = min (day / 36524) 3 := ⟨_, rfl⟩
  obtain ⟨rest, hrest⟩ : ∃ r, r = day - 36524 * century := ⟨_, rfl⟩
  obtain ⟨years, hyears⟩ : ∃ y, y = min (rest % 1461 / 365) 3 := ⟨_, rfl⟩
  rw [← hcentury, ← hrest, ← hyears]
  have hlow : 0 ≤ century ∧ century ≤ 3 := by omega
  have hrest0 : 0 ≤ rest ∧ rest < 36525 := by omega
  rw [yearStart_eq (by omega) (by omega) (by omega) (by omega)]
  omega

theorem monthAt_range {day : Int} (h0 : 0 ≤ day) (h : day < 366) :
    0 ≤ monthAt day ∧ monthAt day < 12 := by
  unfold monthAt
  omega

theorem monthStart_monthAt (day : Int) :
    monthStart (monthAt day) ≤ day ∧ day - monthStart (monthAt day) < 31 := by
  unfold monthStart monthAt
  omega

/-- The fields of a date. -/
theorem dateOf_range (days : Int) : 1 ≤ (dateOf days).month ∧ (dateOf days).month ≤ 12 ∧
    1 ≤ (dateOf days).day ∧ (dateOf days).day ≤ 31 := by
  have hday := Int.emod_nonneg (days + 719468) (by decide : (146097 : Int) ≠ 0)
  have hday' := Int.emod_lt_of_pos (days + 719468) (by decide : (0 : Int) < 146097)
  obtain ⟨-, -, hstart, hlast⟩ := yearAt_spec hday hday'
  obtain ⟨hmonth, hmonth'⟩ := monthAt_range (Int.sub_nonneg.mpr hstart) hlast
  obtain ⟨hfirst, hend⟩ := monthStart_monthAt
    ((days + 719468) % 146097 - yearStart (yearAt ((days + 719468) % 146097)))
  unfold dateOf
  dsimp only
  refine ⟨?_, ?_, by omega, by omega⟩ <;> split <;> omega

theorem daysOf_dateOf (days : Int) : daysOf (dateOf days) = days := by
  obtain ⟨z, hz⟩ : ∃ z, z = days + 719468 := ⟨_, rfl⟩
  have hday := Int.emod_nonneg z (by decide : (146097 : Int) ≠ 0)
  have hday' := Int.emod_lt_of_pos z (by decide : (0 : Int) < 146097)
  have hsplit := Int.mul_ediv_add_emod z 146097
  obtain ⟨hyear, hyear', hstart, hlast⟩ := yearAt_spec hday hday'
  obtain ⟨hmonth, hmonth'⟩ := monthAt_range (Int.sub_nonneg.mpr hstart) hlast
  unfold dateOf
  rw [← hz]
  dsimp only
  generalize yearAt (z % 146097) = year at *
  generalize monthAt (z % 146097 - yearStart year) = month at *
  -- year and month of the date begin in March again
  have hmarch : (if (if month < 10 then month + 3 else month - 9) ≤ 2 then
      400 * (z / 146097) + year + (if month < 10 then 0 else 1) - 1
      else 400 * (z / 146097) + year + if month < 10 then 0 else 1) =
        400 * (z / 146097) + year := by
    split <;> split at * <;> omega
  have hmonths : (if (if month < 10 then month + 3 else month - 9) ≤ 2 then
      (if month < 10 then month + 3 else month - 9) + 9
      else (if month < 10 then month + 3 else month - 9) - 3) = month := by
    split <;> split at * <;> omega
  have hera : (400 * (z / 146097) + year) / 400 = z / 146097 := by omega
  have hyears : (400 * (z / 146097) + year) % 400 = year := by omega
  unfold daysOf
  dsimp only
  rw [hmarch, hmonths, hera, hyears]
  omega

/-! ## The order of the dates -/

/-- From the slowest to the fastest. -/
def Date.fields (d : Date) : List Int := [d.year, d.month, d.day]

theorem yearStart_lt {years years' : Int} (h : years < years') :
    yearStart years + 365 ≤ yearStart years' := by
  -- the years divisible by 100 are of those divisible by 4
  have hcentury : years / 100 = years / 4 / 25 := by omega
  have hcentury' : years' / 100 = years' / 4 / 25 := by omega
  unfold yearStart
  rw [hcentury, hcentury']
  omega

theorem yearAt_mono {day day' : Int} (h0 : 0 ≤ day) (h : day ≤ day') (h' : day' < 146097) :
    yearAt day ≤ yearAt day' := by
  obtain ⟨-, -, hstart, -⟩ := yearAt_spec h0 (by omega)
  obtain ⟨-, -, -, hlast⟩ := yearAt_spec (by omega) h'
  by_contra hlt
  have hyears := yearStart_lt (Int.not_le.mp hlt)
  obtain rfl : day = day' := by omega
  exact hlt (Int.le_refl _)

theorem dateOf_lt {days days' : Int} (h : days < days') :
    (dateOf days).fields < (dateOf days').fields := by
  obtain ⟨z, hz⟩ : ∃ z, z = days + 719468 := ⟨_, rfl⟩
  obtain ⟨z', hz'⟩ : ∃ z', z' = days' + 719468 := ⟨_, rfl⟩
  have h0 := Int.emod_nonneg z (by decide : (146097 : Int) ≠ 0)
  have h0' := Int.emod_nonneg z' (by decide : (146097 : Int) ≠ 0)
  have hlt := Int.emod_lt_of_pos z (by decide : (0 : Int) < 146097)
  have hlt' := Int.emod_lt_of_pos z' (by decide : (0 : Int) < 146097)
  obtain ⟨hyear, hyear400, hstart, hlast⟩ := yearAt_spec h0 hlt
  obtain ⟨hyear', hyear400', hstart', hlast'⟩ := yearAt_spec h0' hlt'
  have hmono : z / 146097 = z' / 146097 → yearAt (z % 146097) ≤ yearAt (z' % 146097) :=
    fun heras => yearAt_mono h0 (by omega) hlt'
  unfold dateOf Date.fields monthAt monthStart
  rw [← hz, ← hz']
  dsimp only
  simp only [List.cons_lt_cons_iff, List.lt_irrefl, and_false, or_false]
  generalize yearAt (z % 146097) = year at *
  generalize yearAt (z' % 146097) = year' at *
  by_cases hyears : 400 * (z / 146097) + year = 400 * (z' / 146097) + year'
  · -- the same year, March to February
    have heras : z / 146097 = z' / 146097 := by omega
    obtain rfl : year = year' := by omega
    generalize yearStart year = first at *
    split <;> split <;> omega
  · have hless : 400 * (z / 146097) + year < 400 * (z' / 146097) + year' := by omega
    generalize yearStart year = first at *
    generalize yearStart year' = first' at *
    split <;> split <;> omega

end Calendar
