import Mathlib.Algebra.Group.Nat.Defs
import Runbook.Timestamp.Text

/-!
# Digits

The digits of a number are read back as the number.  `moreDigits_append` is the reading of digits in
general: they are all taken if there is room for them and something else follows, or just room
enough.
-/

namespace Runbook.Timestamp

open Runbook.Text

/-! ## Written numbers -/

/-- The digits of a number with at least `width` of them. -/
theorem toList_padded (width n : Nat) :
    (padded width n).toList =
      List.replicate (width - (Nat.toDigits 10 n).length) '0' ++ Nat.toDigits 10 n := by
  rw [padded, String.toList_ofList]

theorem isDigit_of_mem_padded {width n : Nat} :
    ∀ c ∈ (padded width n).toList, isDigit c = true := by
  intro c hc
  rw [toList_padded] at hc
  cases List.mem_append.mp hc with
  | inl h => 
      rw [List.eq_of_mem_replicate h]
      rfl
  | inr h => 
      have := Nat.isDigit_of_mem_toDigits (by decide) (by decide) h
      simp only [Char.isDigit, Bool.and_eq_true, decide_eq_true_eq] at this
      simp only [isDigit, Bool.and_eq_true, decide_eq_true_eq]
      exact this

theorem ofDigitChars_padded (width n : Nat) :
    Nat.ofDigitChars 10 (padded width n).toList 0 = n := by
  rw [toList_padded, Nat.ofDigitChars_append, Nat.ofDigitChars_replicate_zero, Nat.mul_zero,
    Nat.ofDigitChars_ten_toDigits]

theorem length_padded {width n : Nat} (hw : 0 < width) (h : n < 10 ^ width) :
    (padded width n).toList.length = width := by
  have := (Nat.length_toDigits_le_iff (b := 10) (by decide) hw).mpr h
  rw [toList_padded, List.length_append, List.length_replicate]
  omega

/-! ## Reading -/

theorem le_ofDigitChars (ds : List Char) (v : Nat) : v ≤ Nat.ofDigitChars 10 ds v := by
  induction ds generalizing v with
  | nil => simp
  | cons c ds ih =>
      rw [Nat.ofDigitChars_cons]
      exact Nat.le_trans (by omega) (ih _)

/-- All digits are taken that there is room for, if nothing else follows them. -/
theorem moreDigits_append {least : Nat} {ds rest : List Char}
    (hds : ∀ c ∈ ds, isDigit c = true) :
    ∀ {room : Option Nat} {seen v : Nat},
      (∀ n, room = some n → ds.length ≤ n) →
      (room = some ds.length ∨
        least ≤ seen + ds.length ∧ ∃ c r, rest = c :: r ∧ isDigit c = false) →
      Nat.ofDigitChars 10 ds v ≤ accumulated →
      moreDigits least room seen v (ds ++ rest) = .ok (Nat.ofDigitChars 10 ds v, rest) := by
  induction ds with
  | nil =>
      intro room seen v hroom hstop hv
      rcases hstop with rfl | ⟨hseen, c, r, rfl, hc⟩
      · simp [moreDigits]
      · cases room with
        | none => 
          have : ¬ seen < least := by simpa using hseen
          simp [moreDigits, hc, this]
        | some n =>
          have : ¬ seen < least := by simpa using hseen
          cases n <;> simp [moreDigits, hc, this]
  | cons d ds ih =>
      intro room seen v hroom hstop hv
      have hd := hds d (by simp)
      rw [Nat.ofDigitChars_cons] at hv ⊢
      have hle := le_ofDigitChars ds (10 * v + (d.toNat - '0'.toNat))
      have hacc : ¬ accumulated < v * 10 + (d.toNat - '0'.toNat) := by omega
      have hval : v * 10 + (d.toNat - '0'.toNat) = 10 * v + (d.toNat - '0'.toNat) := by omega
      have hz : room ≠ some 0 := fun h => by simpa using hroom 0 h
      rw [List.cons_append, moreDigits]
      · rw [hval] at hacc
        simp only [hd, if_true, hval]
        rw [if_neg hacc]
        refine ih (fun c hc => hds c (by simp [hc])) ?_ ?_ hv
        · intro n hn
          cases room with
          | none => simp at hn
          | some m =>
              have := hroom m rfl
              simp only [Option.map_some, Option.some.injEq, List.length_cons] at hn this
              omega
        · rcases hstop with rfl | ⟨hseen, h⟩
          · exact .inl (by simp)
          · refine .inr ⟨by simp only [List.length_cons] at hseen; omega, h⟩
      · exact fun h => hz h

theorem length_le_byteCount (cs : List Char) : cs.length ≤ byteCount cs := by
  induction cs with
  | nil => simp
  | cons c cs ih =>
      have : byteCount (c :: cs) = c.utf8Size + byteCount cs := rfl
      have := c.utf8Size_pos
      simp only [List.length_cons]
      omega

/-- A number written with all its digits is read to the end of them. -/
theorem number_append {least n : Nat} {most : Option Nat} {ds rest : List Char}
    (hds : ∀ c ∈ ds, isDigit c = true) (hleast : least ≤ ds.length)
    (hmost : ∀ m, most = some m → ds.length ≤ m)
    (hstop : most = some ds.length ∨ ∃ c r, rest = c :: r ∧ isDigit c = false)
    (hn : Nat.ofDigitChars 10 ds 0 = n) (hacc : n ≤ accumulated) :
    number least most (ds ++ rest) = .ok (n, rest) := by
  have hb := length_le_byteCount (ds ++ rest)
  have hshort : ¬ byteCount (ds ++ rest) < least := by
    rw [List.length_append] at hb
    omega
  subst hn
  rw [number, if_neg hshort]
  refine moreDigits_append hds hmost ?_ hacc
  rcases hstop with h | h
  · exact .inl h
  · exact .inr ⟨by omega, h⟩

theorem number_padded {least width n : Nat} {rest : List Char} (hw : 0 < width)
    (hleast : least ≤ width) (hn : n < 10 ^ width) (hacc : n ≤ accumulated) :
    number least (some width) ((padded width n).toList ++ rest) = .ok (n, rest) := by
  have hlen := length_padded hw hn
  exact number_append isDigit_of_mem_padded (by omega) (by intro m hm; injection hm; omega)
    (.inl (by rw [hlen])) (ofDigitChars_padded width n) hacc

end Runbook.Timestamp
