import Mathlib.Data.List.Basic
import Runbook.Text.Ascii
import Runbook.Text.Blank
import Runbook.Text.Case

/-!
# The case of ASCII letters

Two texts have the *same letters* if they differ at most in the case of ASCII letters, so if they
have one form in small letters.  What does not tell such texts apart can be read off that form: the
capital form is one such thing (`upperChars_lowerAscii`), and what is left when blanks are taken off
the ends is another (`trimmed_lowerAscii`).

The converse holds for *plain* texts, those of blanks and ASCII characters: plain texts with one
capital form have the same letters (`lowerAscii_eq_of_upperChars`).  It fails for others, since
`ß` and `ss` have one capital form.
-/

namespace Runbook.Text

/-! ## Characters -/

theorem toNat_toLower (c : Char) :
    c.toLower.toNat = if 65 ≤ c.toNat ∧ c.toNat ≤ 90 then c.toNat + 32 else c.toNat := by
  have hrange : (c.val ≥ 'A'.val ∧ c.val ≤ 'Z'.val) ↔ (65 ≤ c.toNat ∧ c.toNat ≤ 90) := Iff.rfl
  have hval : c.val.toNat = c.toNat := rfl
  have hshift : ('a'.val - 'A'.val).toNat = 32 := by decide
  delta Char.toLower
  split
  · next h =>
    have hbounds := hrange.mp h
    rw [if_pos hbounds, Char.toNat, UInt32.toNat_add, hshift, hval]
    omega
  · next h => rw [if_neg (mt hrange.mpr h)]

theorem toNat_toUpper (c : Char) :
    c.toUpper.toNat = if 97 ≤ c.toNat ∧ c.toNat ≤ 122 then c.toNat - 32 else c.toNat := by
  have hrange : ('a'.val ≤ c.val ∧ c.val ≤ 'z'.val) ↔ (97 ≤ c.toNat ∧ c.toNat ≤ 122) := Iff.rfl
  have hval : c.val.toNat = c.toNat := rfl
  have hshift : ('A'.val - 'a'.val).toNat = 2 ^ 32 - 32 := by decide
  delta Char.toUpper
  split
  · next h =>
    have hbounds := hrange.mp h
    rw [if_pos hbounds, Char.toNat, UInt32.toNat_add, hshift, hval]
    omega
  · next h => rw [if_neg (mt hrange.mpr h)]

theorem toLower_toLower (c : Char) : c.toLower.toLower = c.toLower := by
  rw [← Char.toNat_inj, toNat_toLower, toNat_toLower]
  split_ifs <;> omega

theorem toUpper_toLower (c : Char) : c.toLower.toUpper = c.toUpper := by
  rw [← Char.toNat_inj, toNat_toUpper, toNat_toUpper, toNat_toLower]
  split_ifs <;> omega

theorem toLower_toUpper (c : Char) : c.toUpper.toLower = c.toLower := by
  rw [← Char.toNat_inj, toNat_toLower, toNat_toLower, toNat_toUpper]
  split_ifs <;> omega

theorem isDigit_iff {c : Char} : isDigit c = true ↔ 48 ≤ c.toNat ∧ c.toNat ≤ 57 := by
  rw [isDigit, Bool.and_eq_true, decide_eq_true_eq, decide_eq_true_eq]
  rfl

theorem isDigit_toLower (c : Char) : isDigit c.toLower = isDigit c := by
  rw [Bool.eq_iff_iff, isDigit_iff, isDigit_iff, toNat_toLower]
  split_ifs <;> omega

/-- The code points of blanks. -/
def blankCodes : List Nat :=
  List.range' 9 5 ++ [32, 0x85, 0xA0, 0x1680] ++ List.range' 0x2000 11 ++
    [0x2028, 0x2029, 0x202F, 0x205F, 0x3000]

theorem isBlank_iff {c : Char} : isBlank c = true ↔ c.toNat ∈ blankCodes := by
  have hfirst : c.toNat ∈ List.range' 9 5 ↔ 9 ≤ c.toNat ∧ c.toNat ≤ 13 := by
    rw [List.mem_range'_1]
    omega
  have hwide : c.toNat ∈ List.range' 0x2000 11 ↔ 0x2000 ≤ c.toNat ∧ c.toNat ≤ 0x200A := by
    rw [List.mem_range'_1]
    omega
  simp only [isBlank, blankCodes, Bool.or_eq_true, Bool.and_eq_true, decide_eq_true_eq, beq_iff_eq,
    List.mem_append, List.mem_cons, List.not_mem_nil, or_false, hfirst, hwide, or_assoc]

/-- No letter of ASCII is a blank. -/
theorem isBlank_toLower (c : Char) : isBlank c.toLower = isBlank c := by
  have hletters : ∀ n ∈ blankCodes, ¬(65 ≤ n ∧ n ≤ 90) ∧ ¬(97 ≤ n ∧ n ≤ 122) := by decide
  rw [Bool.eq_iff_iff, isBlank_iff, isBlank_iff, toNat_toLower]
  split_ifs with hcapital
  · refine iff_of_false (fun h => (hletters _ h).2 ?_) fun h => (hletters _ h).1 hcapital
    omega
  · rfl

/-! ## What the small letters tell -/

theorem upperChar_toLower (c : Char) : upperChar c.toLower = upperChar c := by
  by_cases h : c.toNat < 128
  · have hsmall : c.toLower.toNat < 128 := by
      rw [toNat_toLower]
      split_ifs <;> omega
    rw [upper_eq_of_ascii h, upper_eq_of_ascii hsmall, toUpper_toLower]
  · have hsame : c.toLower = c := by
      rw [← Char.toNat_inj, toNat_toLower, if_neg (by omega)]
    rw [hsame]

/-- The capital form of a text is that of its small letters. -/
theorem upperChars_lowerAscii (cs : List Char) : upperChars (lowerAscii cs) = upperChars cs := by
  rw [upperChars, lowerAscii, List.flatMap_map, upperChars]
  exact List.flatMap_congr fun c _ => upperChar_toLower c

theorem lowerAscii_lowerAscii (cs : List Char) : lowerAscii (lowerAscii cs) = lowerAscii cs := by
  rw [lowerAscii, lowerAscii, List.map_map]
  exact List.map_congr_left fun c _ => toLower_toLower c

theorem trimStart_lowerAscii (cs : List Char) :
    trimStart (lowerAscii cs) = lowerAscii (trimStart cs) := by
  rw [trimStart, lowerAscii, List.dropWhile_map]
  exact congrArg (fun p => (cs.dropWhile p).map Char.toLower) (funext isBlank_toLower)

theorem trimEnd_lowerAscii (cs : List Char) :
    trimEnd (lowerAscii cs) = lowerAscii (trimEnd cs) := by
  have hreverse : (lowerAscii cs).reverse = lowerAscii cs.reverse := List.map_reverse.symm
  have hstart := trimStart_lowerAscii cs.reverse
  rw [trimStart, trimStart] at hstart
  rw [trimEnd, hreverse, hstart, trimEnd]
  exact List.map_reverse.symm

/-- Taking off blanks leaves the case of letters as it is. -/
theorem trimmed_lowerAscii (cs : List Char) :
    trimmed (lowerAscii cs) = lowerAscii (trimmed cs) := by
  rw [trimmed, trimStart_lowerAscii, trimEnd_lowerAscii, trimmed]

/-! ## Same letters -/

theorem sameLetters_iff {a b : String} :
    sameLetters a b = true ↔ lowerAscii a.toList = lowerAscii b.toList := by
  rw [sameLetters, beq_iff_eq]

theorem upper_of_sameLetters {a b : String} (h : sameLetters a b = true) : upper a = upper b := by
  rw [upper, upper, ← upperChars_lowerAscii, sameLetters_iff.mp h, upperChars_lowerAscii]

/-! ## Plain texts -/

/-- The text consists of blanks and ASCII characters. -/
def IsPlain (cs : List Char) : Prop := ∀ c ∈ cs, isBlank c = true ∨ c.toNat < 128

/-- Blanks are their own capitals. -/
theorem upperChar_of_isBlank {c : Char} (h : isBlank c = true) : upperChar c = [c] := by
  have hall : ∀ n ∈ blankCodes, upperChar (Char.ofNat n) = [Char.ofNat n] := by decide +kernel
  have hcode := hall c.toNat (isBlank_iff.mp h)
  rwa [Char.ofNat_toNat] at hcode

/-- The small letters of a plain text are those of its capital form. -/
theorem lowerAscii_upperChars {cs : List Char} (h : IsPlain cs) :
    lowerAscii (upperChars cs) = lowerAscii cs := by
  induction cs with
  | nil => rfl
  | cons c cs ih =>
    obtain ⟨hc, hcs⟩ := List.forall_mem_cons.mp h
    have hhead : lowerAscii (upperChar c) = [c.toLower] := by
      obtain hblank | hascii := hc
      · rw [upperChar_of_isBlank hblank]
        rfl
      · rw [upper_eq_of_ascii hascii, ← toLower_toUpper c]
        rfl
    have htail : lowerAscii (upperChars cs) = lowerAscii cs := ih hcs
    calc lowerAscii (upperChar c ++ upperChars cs)
        = lowerAscii (upperChar c) ++ lowerAscii (upperChars cs) := List.map_append
      _ = c.toLower :: lowerAscii cs := by rw [hhead, htail]; rfl

/-- Plain texts with one capital form have the same letters. -/
theorem lowerAscii_eq_of_upperChars {cs ds : List Char} (hcs : IsPlain cs) (hds : IsPlain ds)
    (h : upperChars cs = upperChars ds) : lowerAscii cs = lowerAscii ds := by
  rw [← lowerAscii_upperChars hcs, h, lowerAscii_upperChars hds]

end Runbook.Text
