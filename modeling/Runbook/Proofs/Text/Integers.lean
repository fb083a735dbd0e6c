import Mathlib.Data.Nat.Digits.Defs
import Runbook.Proofs.Text.Letters
import Runbook.Text.Integer

/-!
# Numbers in decimal digits

What the readers of whole numbers accept, and what number that is: digits write the number of which
they are the decimal places, the last of them the least.  An unsigned number may have a plus sign in
front and lies within its bound (`readUnsigned?_eq_some_iff`), and a signed one may have either sign
(`readSigned?_eq_some_iff`).
-/

namespace Runbook.Text

/-- Digits write a number. -/
structure Writes (digits : List Char) (n : Nat) : Prop where
  /-- There is a digit. -/
  nonempty : digits ≠ []
  /-- There is nothing else. -/
  isDigit : ∀ c ∈ digits, isDigit c = true
  /-- They are the decimal places of the number, the greatest first. -/
  value : n = Nat.ofDigits 10 (digits.reverse.map fun c => c.toNat - '0'.toNat)

/-- The digits of a base of ten are the decimal ones. -/
theorem digitValue_ten (c : Char) :
    digitValue 10 c = if isDigit c then some (c.toNat - '0'.toNat) else none := by
  rw [digitValue]
  split
  · next hdigit =>
    have hrange := isDigit_iff.mp hdigit
    have hsmall : c.toNat - '0'.toNat < 10 := by
      have hzero : '0'.toNat = 48 := rfl
      omega
    rw [Option.filter_some, if_pos (decide_eq_true hsmall)]
  · -- The letters have values from ten on.
    have hbig : ∀ n, Option.filter (fun v => decide (v < 10)) (some (n + 10)) = none := by
      intro n
      rw [Option.filter_some, if_neg]
      simp
    split
    · exact hbig _
    split
    · exact hbig _
    · rfl

theorem natOfDigits_eq_some_iff {n : Nat} : ∀ {cs : List Char} {before : Nat},
    natOfDigits 10 before cs = some n ↔ (∀ c ∈ cs, isDigit c = true) ∧
      n = before * 10 ^ cs.length +
        Nat.ofDigits 10 (cs.reverse.map fun c => c.toNat - '0'.toNat)
  | [], before => by
      rw [natOfDigits, Option.some.injEq, eq_comm]
      simp
  | c :: cs, before => by
      rw [natOfDigits, digitValue_ten]
      cases hdigit : isDigit c with
      | false => simp [hdigit]
      | true =>
        rw [if_pos rfl]
        dsimp only
        rw [natOfDigits_eq_some_iff, List.forall_mem_cons, List.reverse_cons, List.map_append,
          Nat.ofDigits_append, List.length_map, List.length_reverse, List.map_singleton,
          Nat.ofDigits_singleton, List.length_cons]
        have hvalue : ∀ d k : Nat, (before * 10 + d) * 10 ^ cs.length + k =
            before * 10 ^ (cs.length + 1) + (k + 10 ^ cs.length * d) := by
          intro d k
          ring
        rw [hvalue]
        exact ⟨fun h => ⟨⟨hdigit, h.1⟩, h.2⟩, fun h => ⟨h.1.2, h.2⟩⟩

/-- One or more digits are read as the number that they write. -/
theorem readNat?_eq_some_iff {cs : List Char} {n : Nat} : readNat? 10 cs = some n ↔ Writes cs n := by
  cases cs with
  | nil => exact iff_of_false nofun fun h => h.nonempty rfl
  | cons c cs =>
    rw [readNat?, natOfDigits_eq_some_iff, Nat.zero_mul, Nat.zero_add]
    exact ⟨fun h => ⟨List.cons_ne_nil c cs, h.1, h.2⟩, fun h => ⟨h.isDigit, h.value⟩⟩
    nofun

/-- An unsigned number: digits that write it, and perhaps a plus sign in front of them. -/
theorem readUnsigned?_eq_some_iff {max n : Nat} {cs : List Char} :
    readUnsigned? 10 max cs = some n ↔
      n ≤ max ∧ ∃ digits, (cs = digits ∨ cs = '+' :: digits) ∧ Writes digits n := by
  have hread : ∀ digits : List Char, (readNat? 10 digits).filter (· ≤ max) = some n ↔
      n ≤ max ∧ Writes digits n := by
    intro digits
    rw [Option.filter_eq_some_iff, readNat?_eq_some_iff, decide_eq_true_eq, and_comm]
  rw [readUnsigned?.eq_def]
  split
  · next r =>
    rw [hread]
    refine and_congr_right fun _ => ⟨fun h => ⟨r, .inr rfl, h⟩, ?_⟩
    rintro ⟨digits, rfl | hcs, h⟩
    · exact absurd (h.isDigit '+' List.mem_cons_self) (by decide)
    · cases hcs
      exact h
  · next hplus =>
    rw [hread]
    refine and_congr_right fun _ => ⟨fun h => ⟨cs, .inl rfl, h⟩, ?_⟩
    rintro ⟨digits, rfl | rfl, h⟩
    · exact h
    · exact absurd rfl (hplus digits)

/-- A whole number is written: its digits, and perhaps a sign in front of them. -/
inductive WritesInt : List Char → Int → Prop where
  /-- Without a sign. -/
  | plain {digits : List Char} {n : Nat} : Writes digits n → WritesInt digits n
  /-- With a plus sign. -/
  | plus {digits : List Char} {n : Nat} : Writes digits n → WritesInt ('+' :: digits) n
  /-- With a minus sign. -/
  | minus {digits : List Char} {n : Nat} : Writes digits n → WritesInt ('-' :: digits) (-n)

/-- A signed number within its bounds. -/
theorem readSigned?_eq_some_iff {max : Nat} {n : Int} {cs : List Char} :
    readSigned? 10 max cs = some n ↔ -(max + 1 : Int) ≤ n ∧ n ≤ max ∧ WritesInt cs n := by
  have hread : ∀ (bound : Nat) (digits : List Char) (f : Nat → Int),
      ((readNat? 10 digits).filter (· ≤ bound)).map f = some n ↔
        ∃ m, m ≤ bound ∧ Writes digits m ∧ f m = n := by
    intro bound digits f
    simp only [Option.map_eq_some_iff, Option.filter_eq_some_iff, readNat?_eq_some_iff,
      decide_eq_true_eq]
    exact ⟨fun ⟨m, ⟨hm, hle⟩, hf⟩ => ⟨m, hle, hm, hf⟩, fun ⟨m, hle, hm, hf⟩ => ⟨m, ⟨hm, hle⟩, hf⟩⟩
  -- A sign is no digit, so what has a sign writes no number without it.
  have hsign : ∀ {c : Char} {r : List Char} {m : Nat}, isDigit c = false → ¬ Writes (c :: r) m :=
    fun hc h => absurd (h.isDigit _ List.mem_cons_self) (by rw [hc]; decide)
  have hnegated : ∀ x : Option Nat, (do let m ← x; pure (m : Int)).map (fun k => -k) =
      x.map fun m : Nat => -(m : Int) := by
    rintro (_ | m) <;> rfl
  rw [readSigned?.eq_def]
  split
  · next r =>
    rw [hnegated, hread]
    constructor
    · rintro ⟨m, hle, hm, rfl⟩
      exact ⟨by omega, by omega, .minus hm⟩
    · rintro ⟨hlow, -, h⟩
      cases h with
      | plain hm => exact absurd hm (hsign (by decide))
      | minus hm => exact ⟨_, by omega, hm, rfl⟩
  · next r =>
    rw [hread]
    constructor
    · rintro ⟨m, hle, hm, rfl⟩
      exact ⟨by rw [Int.ofNat_eq_natCast]; omega, by rw [Int.ofNat_eq_natCast]; omega, .plus hm⟩
    · rintro ⟨-, hhigh, h⟩
      cases h with
      | plain hm => exact absurd hm (hsign (by decide))
      | plus hm => exact ⟨_, by omega, hm, rfl⟩
  · next hminus hplus =>
    rw [hread]
    constructor
    · rintro ⟨m, hle, hm, rfl⟩
      exact ⟨by rw [Int.ofNat_eq_natCast]; omega, by rw [Int.ofNat_eq_natCast]; omega, .plain hm⟩
    · rintro ⟨-, hhigh, h⟩
      cases h with
      | plain hm => exact ⟨_, by omega, hm, rfl⟩
      | plus hm => exact absurd rfl (hplus _)
      | minus hm => exact absurd rfl (hminus _)

end Runbook.Text
