import Mathlib.Data.EReal.Basic
import Mathlib.Order.Compare
import Runbook.Binary64.Reading

/-!
# Values of numbers

The value of a number is an extended real: a whole number of units for a finite one, or an infinity.
Numbers that are read are *proper*, that is, a finite one lies below the limit at which infinities
begin (`isProper_of_read?`).  Among proper numbers the order is that of the values
(`compares_value?`), so the two zeros are equal, and an infinity lies beyond every finite number.
-/

namespace Runbook.Binary64

/-! ## Proper numbers -/

/-- A finite number lies below the limit. -/
inductive IsProper : Binary64 → Prop where
  /-- It does. -/
  | finite {negative : Bool} {units : Nat} : units < limit → IsProper (.finite negative units)
  /-- An infinity is proper. -/
  | infinite {negative : Bool} : IsProper (.infinite negative)
  /-- And so is what is no number. -/
  | nan : IsProper .nan

theorem limit_pos : 0 < limit := by
  have hpow : ∀ n, 0 < Nat.pow 2 n := Nat.two_pow_pos
  delta limit
  exact hpow 2098

theorem isProper_ofUnits (negative : Bool) (units : Nat) : (ofUnits negative units).IsProper := by
  rw [ofUnits]
  obtain h | h := Nat.lt_or_ge units limit
  · rw [if_pos h]
    exact .finite h
  · rw [if_neg (Nat.not_lt.mpr h)]
    exact .infinite

theorem isProper_ofDecimal (negative : Bool) (m : Nat) (e : Int) :
    (ofDecimal negative m e).IsProper := by
  rw [ofDecimal]
  split
  · exact .finite limit_pos
  dsimp only
  split
  · exact .infinite
  split
  · exact .finite limit_pos
  split
  · exact isProper_ofUnits negative _
  · exact isProper_ofUnits negative _

/-- What is read is proper. -/
theorem isProper_of_read? {cs : List Char} {x : Binary64} (h : read? cs = some x) :
    x.IsProper := by
  rw [read?] at h
  dsimp only at h
  split_ifs at h
  · cases h
    exact .infinite
  · cases h
    exact .nan
  · rw [readUnsigned?] at h
    dsimp only at h
    split_ifs at h
    obtain ⟨e, -, rfl⟩ := Option.map_eq_some_iff.mp h
    exact isProper_ofDecimal _ _ _

/-! ## Values -/

/-- The extended real of a number of units.  From the limit on it is infinite. -/
noncomputable def ofSignedUnits (units : Int) : EReal :=
  if units = limit then ⊤
  else if units = -limit then ⊥
  else (((units : ℝ) / 2 ^ 1074 : ℝ) : EReal)

/-- The value of a number. -/
noncomputable def value? : Binary64 → Option EReal
  | finite negative units =>
      some ((((if negative then -units else units : Int) : ℝ) / 2 ^ 1074 : ℝ) : EReal)
  | infinite negative => some (if negative then ⊥ else ⊤)
  | nan => none

theorem ofSignedUnits_limit : ofSignedUnits limit = ⊤ := by
  rw [ofSignedUnits, if_pos rfl]

theorem ofSignedUnits_neg_limit : ofSignedUnits (-limit) = ⊥ := by
  have hpos := limit_pos
  have hne : -(limit : Int) ≠ limit := by omega
  rw [ofSignedUnits, if_neg hne, if_pos rfl]

theorem ofSignedUnits_of_lt {units : Int} (h : units < limit) (hneg : -limit < units) :
    ofSignedUnits units = (((units : ℝ) / 2 ^ 1074 : ℝ) : EReal) := by
  rw [ofSignedUnits, if_neg h.ne, if_neg hneg.ne']

/-- The value of a proper number is that of its units, an infinity counting as the limit. -/
theorem value?_eq_map : ∀ {x : Binary64}, x.IsProper →
    x.value? = x.signedUnits?.map ofSignedUnits
  | .nan, _ => rfl
  | .infinite true, _ => congrArg some ofSignedUnits_neg_limit.symm
  | .infinite false, _ => congrArg some ofSignedUnits_limit.symm
  | .finite negative units, .finite hlt => by
      have hbounds : (if negative then -units else units : Int) < limit ∧
          -limit < (if negative then -units else units : Int) := by
        split_ifs <;> omega
      rw [signedUnits?, Option.map_some, ofSignedUnits_of_lt hbounds.1 hbounds.2, value?]

theorem signedUnits?_bounds {x : Binary64} (h : x.IsProper) {units : Int}
    (hunits : x.signedUnits? = some units) : -limit ≤ units ∧ units ≤ limit := by
  have hpos := limit_pos
  cases h with
  | @finite negative n hlt =>
    rw [signedUnits?, Option.some.injEq] at hunits
    subst hunits
    split_ifs <;> omega
  | @infinite negative =>
    rw [signedUnits?, Option.some.injEq] at hunits
    subst hunits
    split_ifs <;> omega
  | nan => cases hunits

/-- More units are a greater extended real. -/
theorem ofSignedUnits_lt {a b : Int} (ha : -limit ≤ a) (hb : b ≤ limit) (hab : a < b) :
    ofSignedUnits a < ofSignedUnits b := by
  have ha_top : a ≠ limit := by omega
  have hb_bot : b ≠ -limit := by omega
  rw [ofSignedUnits, ofSignedUnits, if_neg ha_top]
  by_cases ha_bot : a = -limit
  · rw [if_pos ha_bot]
    split_ifs
    · exact bot_lt_top
    · exact EReal.bot_lt_coe _
  · rw [if_neg ha_bot]
    split_ifs
    · exact EReal.coe_lt_top _
    · have hreal : (a : ℝ) < b := by exact_mod_cast hab
      exact EReal.coe_lt_coe_iff.mpr (div_lt_div_of_pos_right hreal (by positivity))

/-- The order of two proper numbers is that of their values. -/
theorem compares_value? {x y : Binary64} (hx : x.IsProper) (hy : y.IsProper) {v w : EReal}
    (hv : x.value? = some v) (hw : y.value? = some w) :
    ∃ o, compare? x y = some o ∧ o.Compares v w := by
  rw [value?_eq_map hx] at hv
  rw [value?_eq_map hy] at hw
  obtain ⟨a, ha, rfl⟩ := Option.map_eq_some_iff.mp hv
  obtain ⟨b, hb, rfl⟩ := Option.map_eq_some_iff.mp hw
  obtain ⟨ha_low, ha_high⟩ := signedUnits?_bounds hx ha
  obtain ⟨hb_low, hb_high⟩ := signedUnits?_bounds hy hb
  refine ⟨compare a b, by rw [compare?, ha, hb], ?_⟩
  obtain hlt | heq | hgt := Int.lt_trichotomy a b
  · rw [compare_lt_iff_lt.mpr hlt]
    exact ofSignedUnits_lt ha_low hb_high hlt
  · rw [compare_eq_iff_eq.mpr heq]
    exact congrArg ofSignedUnits heq
  · rw [compare_gt_iff_gt.mpr hgt]
    exact ofSignedUnits_lt hb_low ha_high hgt

end Runbook.Binary64
