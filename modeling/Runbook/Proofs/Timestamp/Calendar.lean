import Runbook.Timestamp

/-!
# The calendar

The date of a day leads back to the day, for every day there is.  Days are counted within an era of
400 years and years from March, so that a leap day is the last day of its year.  `dayOfEra_bounds`
says which years and days of the year an era has, `toDays_ofDays` that a date leads back to its day,
and `isValid_ofDays` that the date of every day that can be held is one of the calendar.
-/

namespace Runbook.Date

/-! ## Within an era -/

/-- The year within an era of the day within it, counted from March. -/
def yearOfEra (e : Int) : Int := (e - e / 1460 + e / 36524 - e / 146096) / 365

/-- The day of the year of a day of an era, counted from the first of March. -/
def dayOfYear (e : Int) : Int :=
  e - (365 * yearOfEra e + yearOfEra e / 4 - yearOfEra e / 100)

/-- A day of a cycle of four years, in a century of an era. -/
theorem yearOfEra_eq {d q s : Int} (hd0 : 0 ≤ d) (hd : d ≤ 3) (hq0 : 0 ≤ q) (hq : q ≤ 24)
    (hs0 : 0 ≤ s) (hs : s ≤ 1460) (hr : 1461 * q + s < 36524) :
    ∃ w, 0 ≤ w ∧ w ≤ 3 ∧ 365 * w ≤ s ∧ s ≤ 365 * w + 365 ∧ (s = 365 * w + 365 → w = 3) ∧
      yearOfEra (36524 * d + 1461 * q + s) = 100 * d + 4 * q + w := by
  have hc : (36524 * d + 1461 * q + s) / 1460 = q + 25 * d + (24 * d + q + s) / 1460 := by
    omega
  have hd' : (36524 * d + 1461 * q + s) / 36524 = d := by omega
  have hf : (36524 * d + 1461 * q + s) / 146096 = 0 := by omega
  refine ⟨(s - (24 * d + q + s) / 1460) / 365, ?_⟩
  rw [yearOfEra, hc, hd', hf]
  omega

theorem dayOfYear_eq {d q s : Int} (hd0 : 0 ≤ d) (hd : d ≤ 3) (hq0 : 0 ≤ q) (hq : q ≤ 24)
    (hs0 : 0 ≤ s) (hs : s ≤ 1460) (hr : 1461 * q + s < 36524) :
    ∃ w, 0 ≤ w ∧ w ≤ 3 ∧ yearOfEra (36524 * d + 1461 * q + s) = 100 * d + 4 * q + w ∧
      dayOfYear (36524 * d + 1461 * q + s) = s - 365 * w ∧ 365 * w ≤ s ∧ s ≤ 365 * w + 365 ∧
      (s = 365 * w + 365 → w = 3) := by
  obtain ⟨w, hw0, hw, hlo, hhi, hw3, hy⟩ := yearOfEra_eq hd0 hd hq0 hq hs0 hs hr
  have h4 : (100 * d + 4 * q + w) / 4 = 25 * d + q := by omega
  have h100 : (100 * d + 4 * q + w) / 100 = d := by omega
  refine ⟨w, hw0, hw, hy, ?_, hlo, hhi, hw3⟩
  rw [dayOfYear, hy, h4, h100]
  omega

/-- What the calendar needs to know of a day of an era. -/
theorem dayOfEra_bounds {e : Int} (h0 : 0 ≤ e) (h1 : e < 146097) :
    0 ≤ yearOfEra e ∧ yearOfEra e ≤ 399 ∧ 0 ≤ dayOfYear e ∧ dayOfYear e ≤ 365 ∧
      (dayOfYear e = 365 → (yearOfEra e + 1) % 4 = 0 ∧
        ((yearOfEra e + 1) % 100 = 0 → yearOfEra e = 399)) := by
  by_cases he : e = 146096
  · subst he
    decide
  · obtain ⟨w, hw0, hw, hy, hd, hlo, hhi, hw3⟩ :=
      dayOfYear_eq (d := e / 36524) (q := e % 36524 / 1461) (s := e % 36524 % 1461)
        (by omega) (by omega) (by omega) (by omega) (by omega) (by omega) (by omega)
    rw [show 36524 * (e / 36524) + 1461 * (e % 36524 / 1461) + e % 36524 % 1461 = e by omega]
      at hy hd
    rw [hy, hd]
    omega

/-- The month counted from March and the day of it. -/
theorem month_bounds {y : Int} (h0 : 0 ≤ y) (h1 : y ≤ 365) :
    0 ≤ (5 * y + 2) / 153 ∧ (5 * y + 2) / 153 ≤ 11 ∧
      1 ≤ y - (153 * ((5 * y + 2) / 153) + 2) / 5 + 1 := by
  omega

/-! ## Dates and days -/

/-- The date of a day, by the day of its era. -/
theorem ofDays_eq (n : Int) :
    let e := (n + 719468) % 146097
    let m := (5 * dayOfYear e + 2) / 153
    let month := if m < 10 then m + 3 else m - 9
    ofDays n = ⟨yearOfEra e + (n + 719468) / 146097 * 400 + (if month ≤ 2 then 1 else 0),
      month.toNat, (dayOfYear e - (153 * m + 2) / 5 + 1).toNat⟩ := by
  have he : n + 719468 - (n + 719468) / 146097 * 146097 = (n + 719468) % 146097 := by omega
  simp only [ofDays, Int.fdiv_eq_ediv_of_nonneg _ (show (0 : Int) ≤ 146097 by decide), he]
  rfl

/-- The day of a date whose month is counted from March. -/
theorem toDays_fromMarch {era y m day : Int} (hy0 : 0 ≤ y) (hy : y ≤ 399) (hm0 : 0 ≤ m)
    (hm : m ≤ 11) (hday : 1 ≤ day) :
    let month := if m < 10 then m + 3 else m - 9
    toDays ⟨y + era * 400 + (if month ≤ 2 then 1 else 0), month.toNat, day.toNat⟩ =
      era * 146097 + y * 365 + y / 4 - y / 100 + (153 * m + 2) / 5 + day - 1 - 719468 := by
  have hera : (y + era * 400) / 400 = era := by omega
  have hrest : y + era * 400 - era * 400 = y := by omega
  by_cases h : m < 10
  · have h2 : ¬ m + 3 ≤ 2 := by omega
    have h2' : ¬ (m + 3).toNat ≤ 2 := by omega
    have hback : ((m + 3).toNat : Int) - 3 = m := by omega
    simp only [toDays, Int.fdiv_eq_ediv_of_nonneg _ (show (0 : Int) ≤ 400 by decide), if_pos h,
      if_neg h2, if_neg h2', Int.add_zero, hera, hrest, hback]
    omega
  · have h2 : m - 9 ≤ 2 := by omega
    have h2' : (m - 9).toNat ≤ 2 := by omega
    have hback : ((m - 9).toNat : Int) + 9 = m := by omega
    simp only [toDays, Int.fdiv_eq_ediv_of_nonneg _ (show (0 : Int) ≤ 400 by decide), if_neg h,
      if_pos h2, if_pos h2', Int.add_sub_cancel, hera, hrest, hback]
    omega

theorem toDays_ofDays (n : Int) : (ofDays n).toDays = n := by
  obtain ⟨hy0, hy, hd0, hd, -⟩ := dayOfEra_bounds (e := (n + 719468) % 146097)
    (by omega) (by omega)
  obtain ⟨hm0, hm, hday⟩ := month_bounds hd0 hd
  rw [ofDays_eq, toDays_fromMarch hy0 hy hm0 hm hday]
  generalize he : (n + 719468) % 146097 = e at *
  have hdoy : dayOfYear e = e - (365 * yearOfEra e + yearOfEra e / 4 - yearOfEra e / 100) := rfl
  omega

/-- A February has a twenty-ninth day only in a year with a leap day. -/
theorem isLeap_of_dayOfYear {era y : Int} (h4 : (y + 1) % 4 = 0)
    (h100 : (y + 1) % 100 = 0 → y = 399) : isLeap (y + era * 400 + 1) = true := by
  have h4' : (y + era * 400 + 1) % 4 = 0 := by omega
  have h100' : (y + era * 400 + 1) % 100 = 0 → (y + era * 400 + 1) % 400 = 0 := by omega
  simpa [isLeap, h4', ← Decidable.imp_iff_not_or] using h100'

/-- The date of a day names a day. -/
theorem ofDays_bounds (n : Int) :
    1 ≤ (ofDays n).month ∧ (ofDays n).month ≤ 12 ∧ 1 ≤ (ofDays n).day ∧
      (ofDays n).day ≤ monthLength (ofDays n).year (ofDays n).month := by
  obtain ⟨hy0, hy, hd0, hd, hleap⟩ := dayOfEra_bounds (e := (n + 719468) % 146097)
    (by omega) (by omega)
  obtain ⟨hm0, hm, hday⟩ := month_bounds hd0 hd
  rw [ofDays_eq]
  generalize yearOfEra ((n + 719468) % 146097) = y at *
  generalize dayOfYear ((n + 719468) % 146097) = d at *
  generalize (n + 719468) / 146097 = era
  simp only
  by_cases h : (5 * d + 2) / 153 < 10
  · have h2 : ¬ (5 * d + 2) / 153 + 3 ≤ 2 := by omega
    rw [if_pos h, if_neg h2]
    refine ⟨by omega, by omega, by omega, ?_⟩
    rw [monthLength]
    split
    · omega
    · split <;> omega
  · have h2 : (5 * d + 2) / 153 - 9 ≤ 2 := by omega
    rw [if_neg h, if_pos h2]
    refine ⟨by omega, by omega, by omega, ?_⟩
    rw [monthLength]
    split
    · by_cases h365 : d = 365
      · rw [if_pos (isLeap_of_dayOfYear (hleap h365).1 (hleap h365).2)]
        omega
      · split <;> omega
    · rw [if_neg (by omega)]
      omega

/-- The years that can be held are those of the days that can be held. -/
theorem year_bounds {n : Int} (h0 : toDays ⟨minYear, 1, 1⟩ ≤ n)
    (h1 : n ≤ toDays ⟨maxYear, 12, 31⟩) :
    minYear ≤ (ofDays n).year ∧ (ofDays n).year ≤ maxYear := by
  have hlo : toDays ⟨minYear, 1, 1⟩ = -96465292 := by decide
  have hhi : toDays ⟨maxYear, 12, 31⟩ = 95026236 := by decide
  obtain ⟨hy0, hy, hd0, hd, -⟩ := dayOfEra_bounds (e := (n + 719468) % 146097)
    (by omega) (by omega)
  have hdoy : dayOfYear ((n + 719468) % 146097) = (n + 719468) % 146097 -
      (365 * yearOfEra ((n + 719468) % 146097) + yearOfEra ((n + 719468) % 146097) / 4 -
        yearOfEra ((n + 719468) % 146097) / 100) := rfl
  rw [ofDays_eq]
  generalize yearOfEra ((n + 719468) % 146097) = y at *
  generalize dayOfYear ((n + 719468) % 146097) = d at *
  simp only [minYear, maxYear]
  rw [hlo] at h0
  rw [hhi] at h1
  have hera : (n + 719468) / 146097 = -656 ∨
      -655 ≤ (n + 719468) / 146097 ∧ (n + 719468) / 146097 ≤ 654 ∨
      (n + 719468) / 146097 = 655 := by omega
  by_cases h : (5 * d + 2) / 153 < 10
  · rw [if_pos h, if_neg (by omega)]
    rcases hera with he | he | he <;> omega
  · rw [if_neg h, if_pos (by omega)]
    rcases hera with he | he | he <;> omega

theorem isValid_ofDays {n : Int} (h0 : toDays ⟨minYear, 1, 1⟩ ≤ n)
    (h1 : n ≤ toDays ⟨maxYear, 12, 31⟩) : (ofDays n).isValid = true := by
  obtain ⟨hy0, hy⟩ := year_bounds h0 h1
  obtain ⟨hm0, hm, hd0, hd⟩ := ofDays_bounds n
  simp [isValid, hy0, hy, hm0, hm, hd0, hd]

end Runbook.Date
