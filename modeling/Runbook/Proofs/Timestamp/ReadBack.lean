import Runbook.Proofs.Timestamp.Calendar
import Runbook.Proofs.Timestamp.Digits

/-!
# Timestamps are read back

A point in time that a reading or a clock can give is `Proper`: it can be held, and a leap second
comes at the end of a minute.  Its text is read back to it, by the strict reading if the year has
four digits (`readStrict_text`) and by the relaxed one in any year (`readRelaxed_text`).

Both follow the text part by part.  What the parts amount to is the same for both:
`ofFields_fields`.
-/

namespace Runbook.Timestamp

open Runbook.Text

/-! ## What is written -/

/-- The point in time can be held, and is no leap second but at the end of a minute. -/
structure Proper (t : Timestamp) : Prop where
  /-- The count of seconds can be held. -/
  held : isHeld t.seconds = true
  /-- The fraction is one of a second, or of a leap second. -/
  nanos_lt : t.nanos < 2 * perSecond
  /-- A leap second comes last in its minute. -/
  leap_last : perSecond ≤ t.nanos → t.secondOfDay % 60 = 59

/-- The year of a point in time. -/
def year (t : Timestamp) : Int := (Date.ofDays t.day).year

/-- One within a leap second. -/
def leap (t : Timestamp) : Nat := if perSecond ≤ t.nanos then 1 else 0

/-- The fields that are written. -/
def fields (t : Timestamp) : Fields :=
  ⟨t.year, (Date.ofDays t.day).month, (Date.ofDays t.day).day, t.secondOfDay / 3600,
    t.secondOfDay / 60 % 60, t.secondOfDay % 60 + t.leap, t.nanos - t.leap * perSecond, 0⟩

/-- The written form of fields in UTC, part by part. -/
def Fields.chars (f : Fields) : List Char :=
  (yearText f.year).toList ++ '-' :: ((padded 2 f.month).toList ++
    '-' :: ((padded 2 f.day).toList ++ 'T' :: ((padded 2 f.hour).toList ++
    ':' :: ((padded 2 f.minute).toList ++ ':' :: ((padded 2 f.second).toList ++
    ((fractionText f.nano).toList ++ ['Z']))))))

theorem toList_text (t : Timestamp) : t.text.toList = t.fields.chars := by
  simp [text, fields, year, leap, Fields.chars]

/-- The fields have the digits that they are written with. -/
structure Fields.Fit (f : Fields) : Prop where
  /-- The month is one of the year. -/
  month : 1 ≤ f.month ∧ f.month ≤ 12
  /-- The day is one of some month. -/
  day : 1 ≤ f.day ∧ f.day ≤ 31
  /-- The hour is one of the day. -/
  hour : f.hour ≤ 23
  /-- The minute is one of the hour. -/
  minute : f.minute ≤ 59
  /-- The second is one of the minute, or a leap second. -/
  second : f.second ≤ 60
  /-- The fraction is less than a second. -/
  nano : f.nano < 10 ^ 9
  /-- Time is that of UTC. -/
  ahead : f.ahead = 0

theorem secondOfDay_lt (t : Timestamp) : t.secondOfDay < 86400 := by
  rw [secondOfDay, Int.fmod_eq_emod_of_nonneg _ (by decide), show (perDay : Int) = 86400 from rfl]
  omega

theorem seconds_eq (t : Timestamp) : t.day * 86400 + t.secondOfDay = t.seconds := by
  rw [day, secondOfDay, Int.fmod_eq_emod_of_nonneg _ (by decide),
    Int.fdiv_eq_ediv_of_nonneg _ (by decide), show (perDay : Int) = 86400 from rfl]
  omega

/-- The day of a point in time that can be held. -/
theorem day_bounds {t : Timestamp} (h : isHeld t.seconds = true) :
    Date.toDays ⟨Date.minYear, 1, 1⟩ ≤ t.day ∧ t.day ≤ Date.toDays ⟨Date.maxYear, 12, 31⟩ := by
  have hs := t.seconds_eq
  have hlt := t.secondOfDay_lt
  simp only [isHeld, show (perDay : Int) = 86400 from rfl, Bool.and_eq_true,
    decide_eq_true_eq] at h
  omega

/-- Written and read fields name the same point in time. -/
theorem ofFields_fields {t : Timestamp} (h : t.Proper) : ofFields t.fields = .ok t := by
  obtain ⟨hd0, hd⟩ := day_bounds h.held
  have hvalid : (Date.ofDays t.day).isValid = true := Date.isValid_ofDays hd0 hd
  have hlt := t.secondOfDay_lt
  have hsec := t.seconds_eq
  have hleap : (if t.secondOfDay % 60 + t.leap = 60 then 1 else 0) = t.leap := by
    by_cases hn : perSecond ≤ t.nanos
    · have hlast := h.leap_last hn
      have h1 : t.leap = 1 := if_pos hn
      rw [h1, if_pos (by omega)]
    · have h0 : t.leap = 0 := if_neg hn
      rw [h0, if_neg (by omega)]
  have hnanos : t.nanos - t.leap * perSecond + t.leap * perSecond = t.nanos := by
    simp only [leap]
    split <;> omega
  have hseconds : (Date.ofDays t.day).toDays * perDay + (t.secondOfDay / 3600 : Nat) * 3600 +
      (t.secondOfDay / 60 % 60 : Nat) * 60 + (t.secondOfDay % 60 + t.leap - t.leap : Nat) - 0 =
      t.seconds := by
    rw [Date.toDays_ofDays, show (perDay : Int) = 86400 from rfl]
    omega
  have hfields : t.fields = ⟨(Date.ofDays t.day).year, (Date.ofDays t.day).month,
    (Date.ofDays t.day).day, t.secondOfDay / 3600, t.secondOfDay / 60 % 60,
    t.secondOfDay % 60 + t.leap, t.nanos - t.leap * perSecond, 0⟩ := rfl
  rw [ofFields, hfields]
  simp only [hleap, hvalid, hseconds, h.held, hnanos]
  rfl

/-! ## The bounds of what is written -/

theorem nano_lt {t : Timestamp} (h : t.Proper) : t.fields.nano < 10 ^ 9 := by
  have hlt := h.nanos_lt
  simp only [fields, leap]
  by_cases hn : perSecond ≤ t.nanos
  · rw [if_pos hn]
    simp only [perSecond] at hlt ⊢
    omega
  · rw [if_neg hn]
    simp only [perSecond] at hn ⊢
    omega

theorem fields_fit {t : Timestamp} (h : t.Proper) : t.fields.Fit := by
  obtain ⟨hm0, hm, hd0, hd⟩ := Date.ofDays_bounds t.day
  have hlt := t.secondOfDay_lt
  have hleap : t.leap ≤ 1 := by
    rw [leap]
    split <;> decide
  refine ⟨⟨hm0, hm⟩, ⟨hd0, Nat.le_trans hd ?_⟩, ?_, ?_, ?_, nano_lt h, rfl⟩
  · rw [Date.monthLength]
    split
    · split <;> decide
    · split <;> decide
  · simp only [fields]
    omega
  · simp only [fields]
    omega
  · simp only [fields]
    omega

/-! ## The parts that both readings share -/

theorem mark_cons (c : Char) (cs : List Char) : mark c (c :: cs) = .ok ((), cs) := by
  simp [mark]

theorem divider_cons (cs : List Char) : divider ('T' :: cs) = .ok ((), cs) := by
  simp [divider]

theorem within_padded {low high least n : Nat} {cs : List Char} (hleast : least ≤ 2)
    (hlow : low ≤ n) (hhigh : n ≤ high) (hn : n < 100) :
    within low high (number least (some 2)) ((padded 2 n).toList ++ cs) = .ok (n, cs) := by
  rw [within, number_padded (by decide) hleast hn (by simp only [accumulated]; omega)]
  exact if_pos ⟨hlow, hhigh⟩

theorem fractionDigits_padded {width n : Nat} (hw : 0 < width) (hw9 : width ≤ 9)
    (hn : n < 10 ^ width) :
    fractionDigits ((padded width n).toList ++ ['Z']) =
      .ok (n * Nat.pow 10 (9 - width), ['Z']) := by
  have hlen := length_padded hw hn
  have hacc : n ≤ accumulated := by
    have : 10 ^ width ≤ 10 ^ 9 := Nat.pow_le_pow_right (by decide) hw9
    simp only [accumulated]
    omega
  have hnumber : number 1 (some 9) ((padded width n).toList ++ ['Z']) = .ok (n, ['Z']) :=
    number_append isDigit_of_mem_padded (by omega) (by intro m hm; injection hm; omega)
      (.inr ⟨'Z', [], rfl, by decide⟩) (ofDigitChars_padded width n) hacc
  have hseen : ((padded width n).toList ++ ['Z']).length - ['Z'].length = width := by
    rw [List.length_append, hlen]
    simp
  rw [fractionDigits, hnumber]
  simp only [bind, Except.bind, hseen]
  rfl

theorem fraction_text {n : Nat} (hn : n < 10 ^ 9) :
    fraction ((fractionText n).toList ++ ['Z']) = .ok (n, ['Z']) := by
  have hpoint : ∀ s : String, fraction (("." ++ s).toList ++ ['Z']) =
      fractionDigits (s.toList ++ ['Z']) := by
    intro s
    rw [String.toList_append]
    rfl
  rw [fractionText]
  by_cases h0 : n = 0
  · rw [if_pos h0, h0]
    rfl
  · rw [if_neg h0]
    by_cases h3 : n % 1000000 = 0
    · rw [if_pos h3, hpoint, fractionDigits_padded (by decide) (by decide) (by omega)]
      have : n / 1000000 * Nat.pow 10 (9 - 3) = n := by
        rw [show Nat.pow 10 (9 - 3) = 1000000 from rfl]
        omega
      rw [this]
    · rw [if_neg h3]
      by_cases h6 : n % 1000 = 0
      · rw [if_pos h6, hpoint, fractionDigits_padded (by decide) (by decide) (by omega)]
        have : n / 1000 * Nat.pow 10 (9 - 6) = n := by
          rw [show Nat.pow 10 (9 - 6) = 1000 from rfl]
          omega
        rw [this]
      · rw [if_neg h6, hpoint, fractionDigits_padded (by decide) (by decide) hn]
        rw [show Nat.pow 10 (9 - 9) = 1 from rfl, Nat.mul_one]

theorem offset_utc (between : Part Unit) : offset between ['Z'] = .ok (0, []) := by
  simp [offset]

/-! ## The strict reading -/

theorem yearText_eq {y : Int} (h0 : 0 ≤ y) (h1 : y ≤ 9999) : yearText y = padded 4 y.toNat :=
  if_pos ⟨h0, h1⟩

theorem readStrict_chars {f : Fields} (h : f.Fit) (h0 : 0 ≤ f.year) (h1 : f.year ≤ 9999) :
    readStrict f.chars = ofFields f := by
  obtain ⟨year, month, day, hour, minute, second, nano, ahead⟩ := f
  obtain ⟨⟨hm0, hm⟩, ⟨hd0, hd⟩, hh, hmin, hs, hn, rfl⟩ := h
  simp only at *
  have hcast : ((year.toNat : Nat) : Int) = year := by omega
  have hacc : year.toNat ≤ accumulated := by
    simp only [accumulated]
    omega
  rw [Fields.chars, yearText_eq h0 h1, readStrict]
  simp only [bind, Except.bind, mark_cons, divider_cons, offset_utc, fraction_text hn,
    number_padded (show 0 < 4 by decide) (Nat.le_refl 4) (show year.toNat < 10 ^ 4 by omega) hacc,
    within_padded (Nat.le_refl 2) hm0 hm (by omega),
    within_padded (Nat.le_refl 2) hd0 hd (by omega),
    within_padded (Nat.le_refl 2) (Nat.zero_le _) hh (by omega),
    within_padded (Nat.le_refl 2) (Nat.zero_le _) hmin (by omega),
    within_padded (Nat.le_refl 2) (Nat.zero_le _) hs (by omega), hcast]
  rw [if_neg (by decide), if_neg (by simp)]

/-- A proper timestamp in a year of four digits is read back from its text. -/
theorem readStrict_text {t : Timestamp} (h : t.Proper) (h0 : 0 ≤ t.year) (h1 : t.year ≤ 9999) :
    readStrict t.text.toList = .ok t := by
  rw [toList_text, readStrict_chars (fields_fit h) h0 h1, ofFields_fields h]

/-! ## The relaxed reading -/

theorem trimStart_cons {c : Char} (cs : List Char) (h : isBlank c = false) :
    trimStart (c :: cs) = c :: cs := by
  rw [trimStart, List.dropWhile_cons_of_neg (by simp [h])]

theorem isBlank_of_isDigit {c : Char} (h : isDigit c = true) : isBlank c = false := by
  simp only [isDigit, Bool.and_eq_true, decide_eq_true_eq] at h
  have h0 : 48 ≤ c.toNat := h.1
  have h1 : c.toNat ≤ 57 := h.2
  simp only [isBlank, Bool.or_eq_false_iff, Bool.and_eq_false_iff, decide_eq_false_iff_not,
    beq_eq_false_iff_ne]
  omega

/-- A written number starts with a digit. -/
theorem padded_eq_cons (width n : Nat) :
    ∃ c cs, (padded width n).toList = c :: cs ∧ isDigit c = true := by
  cases h : (padded width n).toList with
  | nil =>
      rw [toList_padded] at h
      exact absurd (List.append_eq_nil_iff.mp h).2 Nat.toDigits_ne_nil
  | cons c cs =>
      have hmem : c ∈ (padded width n).toList := by
        rw [h]
        exact List.mem_cons_self
      exact ⟨c, cs, rfl, isDigit_of_mem_padded c hmem⟩

theorem trimStart_padded (width n : Nat) (cs : List Char) :
    trimStart ((padded width n).toList ++ cs) = (padded width n).toList ++ cs := by
  obtain ⟨c, ds, hc, hd⟩ := padded_eq_cons width n
  rw [hc, List.cons_append, trimStart_cons _ (isBlank_of_isDigit hd)]

theorem relaxedMark_cons {c : Char} (h : isBlank c = false) (cs : List Char) :
    relaxedMark c (c :: cs) = .ok ((), cs) := by
  rw [relaxedMark, trimStart_cons _ h, mark_cons]

theorem relaxedField_padded {low high n : Nat} {cs : List Char} (hlow : low ≤ n) (hhigh : n ≤ high)
    (hn : n < 100) : relaxedField low high ((padded 2 n).toList ++ cs) = .ok (n, cs) := by
  rw [relaxedField, trimStart_padded, within_padded (by decide) hlow hhigh hn]

theorem relaxedOffset_utc : relaxedOffset ['Z'] = .ok (0, []) := by
  rw [relaxedOffset, trimStart_cons _ (by decide)]
  exact offset_utc _

/-- A number with a sign before it has as many digits as it takes. -/
theorem number_signed {n : Nat} (hn : n ≤ accumulated) (cs : List Char) :
    number 1 none ((padded 4 n).toList ++ '-' :: cs) = .ok (n, '-' :: cs) := by
  obtain ⟨c, ds, hc, -⟩ := padded_eq_cons 4 n
  exact number_append isDigit_of_mem_padded (by simp [hc]) (by intro m hm; cases hm)
    (.inr ⟨'-', cs, rfl, by decide⟩) (ofDigitChars_padded 4 n) hn

theorem relaxedYear_yearText {y : Int} (h0 : Date.minYear ≤ y) (h1 : y ≤ Date.maxYear)
    (cs : List Char) : relaxedYear ((yearText y).toList ++ '-' :: cs) = .ok (y, '-' :: cs) := by
  simp only [Date.minYear, Date.maxYear] at h0 h1
  have hmax : accumulated = 9223372036854775807 := rfl
  have hfield : maxFieldYear = 2147483647 := rfl
  rw [relaxedYear]
  by_cases h : 0 ≤ y ∧ y ≤ 9999
  · rw [yearText, if_pos h, trimStart_padded]
    obtain ⟨c, ds, hc, hd⟩ := padded_eq_cons 4 y.toNat
    have hnumber : number 1 (some 4) ((padded 4 y.toNat).toList ++ '-' :: cs) =
        .ok (y.toNat, '-' :: cs) := number_padded (by decide) (by decide) (by omega) (by omega)
    rw [hc, List.cons_append] at hnumber ⊢
    split
    · rename_i heq
      injection heq with heq
      subst heq
      cases hd
    · rename_i heq
      injection heq with heq
      subst heq
      cases hd
    · simp only [bind, Except.bind, hnumber]
      rw [Int.toNat_of_nonneg h.1]
  · by_cases hpos : 0 ≤ y
    · rw [yearText, if_neg h, if_pos hpos, String.toList_append,
        show "+".toList = ['+'] from rfl, List.append_assoc, List.singleton_append,
        trimStart_cons _ (by decide)]
      simp only [bind, Except.bind, number_signed (show y.toNat ≤ accumulated by omega)]
      rw [if_pos (by omega), Int.toNat_of_nonneg hpos]
    · rw [yearText, if_neg h, if_neg hpos, String.toList_append,
        show "-".toList = ['-'] from rfl, List.append_assoc, List.singleton_append,
        trimStart_cons _ (by decide)]
      simp only [bind, Except.bind, number_signed (show (-y).toNat ≤ accumulated by omega)]
      rw [if_pos (by omega), Int.toNat_of_nonneg (by omega), Int.neg_neg]

theorem readRelaxed_chars {f : Fields} (h : f.Fit) (h0 : Date.minYear ≤ f.year)
    (h1 : f.year ≤ Date.maxYear) : readRelaxed f.chars = ofFields f := by
  obtain ⟨year, month, day, hour, minute, second, nano, ahead⟩ := f
  obtain ⟨⟨hm0, hm⟩, ⟨hd0, hd⟩, hh, hmin, hs, hn, rfl⟩ := h
  simp only at h0 h1 hm0 hm hd0 hd hh hmin hs hn
  have hdash : isBlank '-' = false := by decide
  have hcolon : isBlank ':' = false := by decide
  rw [Fields.chars, readRelaxed]
  simp only [bind, Except.bind, relaxedYear_yearText h0 h1, relaxedMark_cons hdash,
    relaxedMark_cons hcolon, divider_cons, relaxedOffset_utc, fraction_text hn,
    relaxedField_padded hm0 hm (by omega), relaxedField_padded hd0 hd (by omega),
    relaxedField_padded (Nat.zero_le _) hh (by omega),
    relaxedField_padded (Nat.zero_le _) hmin (by omega),
    relaxedField_padded (Nat.zero_le _) hs (by omega)]
  rw [if_neg (by simp [trimStart])]

/-- A proper timestamp is read back from its text. -/
theorem readRelaxed_text {t : Timestamp} (h : t.Proper) : readRelaxed t.text.toList = .ok t := by
  obtain ⟨hd0, hd⟩ := day_bounds h.held
  obtain ⟨hy0, hy⟩ := Date.year_bounds hd0 hd
  rw [toList_text, readRelaxed_chars (fields_fit h) hy0 hy, ofFields_fields h]

theorem trimStart_yearText (y : Int) (cs : List Char) :
    trimStart ((yearText y).toList ++ cs) = (yearText y).toList ++ cs := by
  rw [yearText]
  split
  · exact trimStart_padded 4 _ cs
  · split
    · rw [String.toList_append]
      exact trimStart_cons _ (by decide)
    · rw [String.toList_append]
      exact trimStart_cons _ (by decide)

/-- No blank stands at either end of a text. -/
theorem trimmed_text (t : Timestamp) : trimmed t.text.toList = t.text.toList := by
  obtain ⟨es, hes⟩ : ∃ es, t.text.toList = es ++ ['Z'] := by
    rw [toList_text, Fields.chars]
    simp only [← List.append_assoc, ← List.cons_append]
    exact ⟨_, rfl⟩
  have hstart : trimStart t.text.toList = t.text.toList := by
    rw [toList_text, Fields.chars]
    exact trimStart_yearText _ _
  have hblank : isBlank 'Z' = false := by decide
  rw [trimmed, hstart, trimEnd, hes, List.reverse_append, List.reverse_singleton,
    List.singleton_append, List.dropWhile_cons_of_neg (by rw [hblank]; decide), List.reverse_cons,
    List.reverse_reverse]

/-- The strict reading takes no year with a sign. -/
theorem readStrict_text_eq_error {t : Timestamp} (h : ¬ (0 ≤ t.year ∧ t.year ≤ 9999)) :
    ∃ flaw, readStrict t.text.toList = .error flaw := by
  have hnumber : ∀ c cs, isDigit c = false → ∃ flaw, number 4 (some 4) (c :: cs) = .error flaw := by
    intro c cs hc
    rw [number]
    split
    · exact ⟨_, rfl⟩
    · exact ⟨.misfit, by simp [moreDigits, hc]⟩
  have hyear : ∃ c cs, t.text.toList = c :: cs ∧ isDigit c = false := by
    rw [toList_text, Fields.chars, fields]
    dsimp only
    rw [yearText, if_neg h]
    split
    · exact ⟨'+', _, by rw [String.toList_append]; rfl, by decide⟩
    · exact ⟨'-', _, by rw [String.toList_append]; rfl, by decide⟩
  obtain ⟨c, cs, htext, hc⟩ := hyear
  obtain ⟨flaw, hflaw⟩ := hnumber c cs hc
  exact ⟨flaw, by rw [htext, readStrict, hflaw]; rfl⟩

end Runbook.Timestamp
