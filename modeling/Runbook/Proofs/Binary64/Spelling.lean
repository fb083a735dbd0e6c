import Mathlib.Data.List.TakeWhile
import Runbook.Binary64.Reading
import Runbook.Proofs.Text.Letters

/-!
# Spellings of numbers

The text of a number is made of ASCII characters, and the case of its letters does not count: not of
the letter before an exponent, and not of the words for infinities.  So a text in small letters
stands for the number that the text stands for (`read?_lowerAscii`), and what stands for a number is
ASCII throughout (`isAscii_of_read?`).
-/

namespace Runbook.Binary64

open Runbook.Text

/-! ## Case -/

theorem readSign_of_ne {c : Char} (hminus : c ≠ '-') (hplus : c ≠ '+') (r : List Char) :
    readSign (c :: r) = (false, c :: r) := by
  refine readSign.eq_3 _ (fun r' h => ?_) fun r' h => ?_
  · cases h
    exact hminus rfl
  · cases h
    exact hplus rfl

/-- Of the characters that are no letters each is its own small form, and of no other. -/
theorem toLower_eq_iff {c s : Char} (hs : s.toNat < 65) : c.toLower = s ↔ c = s := by
  rw [← Char.toNat_inj, ← Char.toNat_inj, toNat_toLower]
  split_ifs <;> omega

theorem readSign_lowerAscii (cs : List Char) :
    readSign (lowerAscii cs) = ((readSign cs).1, lowerAscii (readSign cs).2) := by
  cases cs with
  | nil => rfl
  | cons c r =>
    by_cases hminus : c = '-'
    · subst hminus
      rfl
    by_cases hplus : c = '+'
    · subst hplus
      rfl
    rw [readSign_of_ne hminus hplus]
    exact readSign_of_ne (mt (toLower_eq_iff (by decide)).mp hminus)
      (mt (toLower_eq_iff (by decide)).mp hplus) _

theorem lowerAscii_of_isDigit {cs : List Char} (h : ∀ c ∈ cs, isDigit c = true) :
    lowerAscii cs = cs := by
  refine (List.map_congr_left fun c hc => ?_).trans (List.map_id cs)
  have hdigit := isDigit_iff.mp (h c hc)
  rw [← Char.toNat_inj, toNat_toLower, if_neg (by omega)]
  rfl

theorem all_isDigit_lowerAscii (cs : List Char) :
    (lowerAscii cs).all isDigit = cs.all isDigit := by
  rw [lowerAscii, List.all_map]
  exact congrArg cs.all (funext isDigit_toLower)

theorem takeWhile_lowerAscii (cs : List Char) :
    (lowerAscii cs).takeWhile isDigit = cs.takeWhile isDigit := by
  have hwhole : (lowerAscii cs).takeWhile isDigit = lowerAscii (cs.takeWhile isDigit) := by
    rw [lowerAscii, List.takeWhile_map]
    exact congrArg (fun p => (cs.takeWhile p).map Char.toLower) (funext isDigit_toLower)
  rw [hwhole, lowerAscii_of_isDigit fun c hc => List.mem_takeWhile_imp hc]

theorem dropWhile_lowerAscii (cs : List Char) :
    (lowerAscii cs).dropWhile isDigit = lowerAscii (cs.dropWhile isDigit) := by
  rw [lowerAscii, List.dropWhile_map]
  exact congrArg (fun p => (cs.dropWhile p).map Char.toLower) (funext isDigit_toLower)

/-- An exponent may be announced by a letter of either case. -/
theorem readExponent?_lowerAscii (cs : List Char) :
    readExponent? (lowerAscii cs) = readExponent? cs := by
  cases cs with
  | nil => rfl
  | cons c r =>
    have hletter : (c.toLower = 'e' ∨ c.toLower = 'E') ↔ (c = 'e' ∨ c = 'E') := by
      simp only [← Char.toNat_inj, toNat_toLower, Char.reduceToNat]
      split_ifs <;> omega
    have hcons : lowerAscii (c :: r) = c.toLower :: lowerAscii r := rfl
    rw [hcons, readExponent?, readExponent?, readSign_lowerAscii]
    refine if_congr hletter ?_ rfl
    obtain ⟨negative, ds⟩ := readSign r
    dsimp only
    rw [all_isDigit_lowerAscii]
    have hempty : lowerAscii ds ≠ [] ↔ ds ≠ [] := not_congr List.map_eq_nil_iff
    by_cases h : ds ≠ [] ∧ ds.all isDigit = true
    · rw [if_pos h, if_pos ⟨hempty.mpr h.1, h.2⟩, lowerAscii_of_isDigit (List.all_eq_true.mp h.2)]
    · rw [if_neg h, if_neg fun h' => h ⟨hempty.mp h'.1, h'.2⟩]

/-- The digits after a point, if there is one, and what follows. -/
def takeFraction : List Char → List Char × List Char
  | '.' :: r => (r.takeWhile isDigit, r.dropWhile isDigit)
  | r => ([], r)

theorem takeFraction_of_ne {c : Char} (hpoint : c ≠ '.') (r : List Char) :
    takeFraction (c :: r) = ([], c :: r) := by
  refine takeFraction.eq_2 _ fun r' h => ?_
  cases h
  exact hpoint rfl

theorem takeFraction_lowerAscii (cs : List Char) :
    takeFraction (lowerAscii cs) = ((takeFraction cs).1, lowerAscii (takeFraction cs).2) := by
  cases cs with
  | nil => rfl
  | cons c r =>
    by_cases hpoint : c = '.'
    · subst hpoint
      exact Prod.ext (takeWhile_lowerAscii r) (dropWhile_lowerAscii r)
    · rw [takeFraction_of_ne hpoint]
      exact takeFraction_of_ne (mt (toLower_eq_iff (by decide)).mp hpoint) _

/-- A number without its sign: the digits before and after the point, and the exponent. -/
theorem readUnsigned?_eq (negative : Bool) (cs : List Char) :
    readUnsigned? negative cs =
      if cs.takeWhile isDigit = [] ∧ (takeFraction (cs.dropWhile isDigit)).1 = [] then none
      else (readExponent? (takeFraction (cs.dropWhile isDigit)).2).map fun e =>
        ofDecimal negative
          (digitsNat 0 (cs.takeWhile isDigit ++ (takeFraction (cs.dropWhile isDigit)).1))
          (e - (takeFraction (cs.dropWhile isDigit)).1.length) := rfl

theorem readUnsigned?_lowerAscii (negative : Bool) (cs : List Char) :
    readUnsigned? negative (lowerAscii cs) = readUnsigned? negative cs := by
  rw [readUnsigned?_eq, readUnsigned?_eq, takeWhile_lowerAscii, dropWhile_lowerAscii,
    takeFraction_lowerAscii, readExponent?_lowerAscii]

/-- A text in small letters stands for the number that the text stands for. -/
theorem read?_lowerAscii (cs : List Char) : read? (lowerAscii cs) = read? cs := by
  rw [read?, read?, readSign_lowerAscii]
  obtain ⟨negative, r⟩ := readSign cs
  dsimp only
  rw [lowerAscii_lowerAscii, readUnsigned?_lowerAscii]

/-! ## Characters -/

/-- Every character is one of ASCII. -/
def IsAscii (cs : List Char) : Prop := ∀ c ∈ cs, c.toNat < 128

theorem isAscii_of_lowerAscii {cs : List Char} (h : IsAscii (lowerAscii cs)) : IsAscii cs := by
  intro c hc
  have hsmall := h c.toLower (List.mem_map_of_mem hc)
  rw [toNat_toLower] at hsmall
  split_ifs at hsmall <;> omega

theorem isAscii_of_isDigit {cs : List Char} (h : ∀ c ∈ cs, isDigit c = true) : IsAscii cs :=
  fun c hc => lt_of_le_of_lt (isDigit_iff.mp (h c hc)).2 (by decide)

theorem isAscii_readSign {cs : List Char} (h : IsAscii (readSign cs).2) : IsAscii cs := by
  cases cs with
  | nil => exact h
  | cons c r =>
    by_cases hminus : c = '-'
    · subst hminus
      exact List.forall_mem_cons.mpr ⟨by decide, h⟩
    by_cases hplus : c = '+'
    · subst hplus
      exact List.forall_mem_cons.mpr ⟨by decide, h⟩
    rwa [readSign_of_ne hminus hplus] at h

theorem isAscii_of_readExponent? {cs : List Char} {e : Int} (h : readExponent? cs = some e) :
    IsAscii cs := by
  cases cs with
  | nil => exact List.forall_mem_nil _
  | cons c r =>
    rw [readExponent?] at h
    split at h
    · next hletter =>
      have hc : c.toNat < 128 := by
        obtain rfl | rfl := hletter <;> decide
      refine List.forall_mem_cons.mpr ⟨hc, isAscii_readSign ?_⟩
      dsimp only at h
      split at h
      · next hdigits => exact isAscii_of_isDigit (List.all_eq_true.mp hdigits.2)
      · cases h
    · cases h

theorem isAscii_takeFraction {cs : List Char} (h : IsAscii (takeFraction cs).2) : IsAscii cs := by
  cases cs with
  | nil => exact h
  | cons c r =>
    by_cases hpoint : c = '.'
    · subst hpoint
      refine List.forall_mem_cons.mpr ⟨by decide, fun c hc => ?_⟩
      rw [← List.takeWhile_append_dropWhile (p := isDigit) (l := r), List.mem_append] at hc
      obtain hc | hc := hc
      · exact isAscii_of_isDigit (fun c hc => List.mem_takeWhile_imp hc) c hc
      · exact h c hc
    · rwa [takeFraction_of_ne hpoint] at h

theorem isAscii_of_readUnsigned? {negative : Bool} {cs : List Char} {x : Binary64}
    (h : readUnsigned? negative cs = some x) : IsAscii cs := by
  rw [readUnsigned?_eq] at h
  split at h
  · cases h
  · obtain ⟨e, he, -⟩ := Option.map_eq_some_iff.mp h
    intro c hc
    rw [← List.takeWhile_append_dropWhile (p := isDigit) (l := cs), List.mem_append] at hc
    obtain hc | hc := hc
    · exact isAscii_of_isDigit (fun c hc => List.mem_takeWhile_imp hc) c hc
    · exact isAscii_takeFraction (isAscii_of_readExponent? he) c hc

/-- What stands for a number is ASCII throughout. -/
theorem isAscii_of_read? {cs : List Char} {x : Binary64} (h : read? cs = some x) : IsAscii cs := by
  refine isAscii_readSign ?_
  rw [read?] at h
  dsimp only at h
  have hword : ∀ w : String, w.toList.all (fun c => c.toNat < 128) = true →
      String.ofList (lowerAscii (readSign cs).2) = w → IsAscii (readSign cs).2 := by
    rintro _ hw rfl
    rw [String.toList_ofList] at hw
    exact isAscii_of_lowerAscii fun c hc => of_decide_eq_true (List.all_eq_true.mp hw c hc)
  split_ifs at h with hinfinite hnan
  · obtain hinf | hinf := hinfinite
    · exact hword _ rfl hinf
    · exact hword _ rfl hinf
  · exact hword _ rfl hnan
  · exact isAscii_of_readUnsigned? h

end Runbook.Binary64
