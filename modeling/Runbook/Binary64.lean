/-!
# Binary floating point numbers

A number of the 64-bit binary format, kept as what it means and not as bits.  Every finite number
of the format is a whole multiple of the least positive one, `2 ^ -1074`, so a magnitude is a
natural number of such *units*.  Arithmetic is exact arithmetic on units followed by one rounding:
`roundRatio` gives the multiple that is nearest to a quotient and has a significand of at most 53
bits, a tie going to the even significand.

The sign is kept apart, since zero has two.
-/

namespace Runbook

/-- A number of the format. -/
inductive Binary64 where
  /-- A finite number: its sign and its magnitude in units of `2 ^ -1074`. -/
  | finite (negative : Bool) (units : Nat)
  /-- An infinity. -/
  | infinite (negative : Bool)
  /-- No number. -/
  | nan
  deriving DecidableEq, Repr, Inhabited

namespace Binary64

/-- One, in units. -/
def one : Nat := Nat.pow 2 1074

/-- The least magnitude beyond the finite ones. -/
def limit : Nat := Nat.pow 2 2098

/-- Units by which the numbers around a magnitude are apart, as an exponent of two. -/
def spacing (units : Nat) : Nat := Nat.log2 units - 52

/-- The quotient, rounded to the nearest whole number, a tie to the even one. -/
def roundQuotient (num den : Nat) : Nat :=
  let q := num / den
  let r := num % den
  if den < 2 * r ∨ (2 * r = den ∧ q % 2 = 1) then q + 1 else q

/-- The magnitude nearest to `num / den` units. -/
def roundUnits (num den : Nat) : Nat :=
  let s := spacing (num / den)
  roundQuotient num (den * Nat.pow 2 s) * Nat.pow 2 s

/-- The number of a sign and a magnitude, infinite from the limit on. -/
def ofUnits (negative : Bool) (units : Nat) : Binary64 :=
  if units < limit then finite negative units else infinite negative

/-- The number nearest to a quotient. -/
def roundRatio (negative : Bool) (num den : Nat) : Binary64 :=
  ofUnits negative (roundUnits (num * one) den)

/-- The number nearest to `m * 10 ^ e`.  Exponents so far out that the outcome is certain are
decided without the power. -/
def ofDecimal (negative : Bool) (m : Nat) (e : Int) : Binary64 :=
  if m = 0 then finite negative 0
  else
    let size : Int := (Nat.toDigits 10 m).length + e
    if 400 < size then infinite negative
    else if size < -400 then finite negative 0
    else if 0 ≤ e then roundRatio negative (m * Nat.pow 10 e.toNat) 1
    else roundRatio negative m (Nat.pow 10 (-e).toNat)

/-- The magnitude of a number with its sign, in units.  An infinity counts as the limit. -/
def signedUnits? : Binary64 → Option Int
  | finite negative u => some (if negative then -(u : Int) else u)
  | infinite negative => some (if negative then -(limit : Int) else limit)
  | nan => none

/-- Numerical order, undecided where a side is no number.  The two zeros are equal. -/
def compare? (a b : Binary64) : Option Ordering :=
  match a.signedUnits?, b.signedUnits? with
  | some x, some y => some (compare x y)
  | _, _ => none

/-- A finite number. -/
def isFinite : Binary64 → Bool
  | finite _ _ => true
  | _ => false

end Binary64
end Runbook
