import Runbook.Binary64

/-!
# The shortest decimal of a number

A finite number is written with the fewest digits that read back to it, and among those with the
digits nearest to it.  The decimals that read back form an interval around the number, its ends
included exactly if the significand is even.  For one digit, two digits and so on the two
neighbours of the number on the grid of that many digits are tried.  The first grid with a hit
wins, and of two hits the nearer, a tie going to the even digit.

Two layouts are built from the digits: one with an exponent for very large and very small numbers,
and one that always spells the number out.
-/

namespace Runbook.Binary64

/-- A decimal `digits * 10 ^ exponent`. -/
structure Decimal where
  /-- The digits, as a number. -/
  digits : Nat
  /-- The power of ten of the last digit. -/
  exponent : Int
  deriving DecidableEq, Repr

/-- The decimals that read back to a positive magnitude, as quarters of a unit. -/
structure Interval where
  /-- The lower end. -/
  low : Nat
  /-- The upper end. -/
  high : Nat
  /-- Both ends belong to it. -/
  closed : Bool

/-- The interval of a positive magnitude: half the spacing on either side, and a quarter below a
power of two. -/
def Interval.around (units : Nat) : Interval :=
  let s := spacing units
  let k := units / Nat.pow 2 s
  let below := if k = Nat.pow 2 52 ∧ 0 < s then Nat.pow 2 s else 2 * Nat.pow 2 s
  ⟨4 * units - below, 4 * units + 2 * Nat.pow 2 s, k % 2 = 0⟩

/-- The fraction `num / den`, in units, lies in the interval. -/
def Interval.holds (i : Interval) (num den : Nat) : Bool :=
  if i.closed then i.low * den ≤ 4 * num && 4 * num ≤ i.high * den
  else i.low * den < 4 * num && 4 * num < i.high * den

/-- The first power of ten, from `j` on, that lifts a magnitude to one. -/
def lift (units : Nat) : (fuel : Nat) → (j : Nat) → Nat
  | 0, j => j
  | fuel + 1, j => if one ≤ units * Nat.pow 10 j then j else lift units fuel (j + 1)

/-- The exponent of the leading digit of a positive magnitude. -/
def leadingExponent (units : Nat) : Int :=
  let whole := units / one
  if 0 < whole then (Nat.toDigits 10 whole).length - 1 else -(lift units 400 1 : Int)

/-- A grid point `m * 10 ^ e` as a fraction in units. -/
def gridPoint (m : Nat) (e : Int) : Nat × Nat :=
  if 0 ≤ e then (m * Nat.pow 10 e.toNat * one, 1) else (m * one, Nat.pow 10 (-e).toNat)

/-- The better of the two neighbours of a magnitude on the grid `10 ^ e`, if one reads back. -/
def gridHit (units : Nat) (e : Int) : Option Nat :=
  let i := Interval.around units
  let (num, den) := gridPoint 1 e
  let m := units * den / num
  let hit (m : Nat) : Bool := m ≠ 0 && i.holds (m * num) den
  match hit m, hit (m + 1) with
  | true, true =>
      let below := units * den - m * num
      let above := (m + 1) * num - units * den
      if below < above ∨ (below = above ∧ m % 2 = 0) then some m else some (m + 1)
  | true, false => some m
  | false, true => some (m + 1)
  | false, false => none

/-- The first grid with a hit, from `n` digits on. -/
def firstHit (units : Nat) (lead : Int) : (fuel : Nat) → (n : Nat) → Decimal
  | 0, _ => ⟨0, 0⟩
  | fuel + 1, n =>
      let e := lead - n + 1
      match gridHit units e with
      | some m => ⟨m, e⟩
      | none => firstHit units lead fuel (n + 1)

/-- Takes off trailing zeros, at most `fuel` of them. -/
def Decimal.strip : (fuel : Nat) → Decimal → Decimal
  | 0, d => d
  | fuel + 1, d =>
      if d.digits ≠ 0 ∧ d.digits % 10 = 0 then Decimal.strip fuel ⟨d.digits / 10, d.exponent + 1⟩
      else d

/-- The shortest decimal of a positive magnitude. -/
def shortest (units : Nat) : Decimal :=
  (firstHit units (leadingExponent units) 18 1).strip 20

/-! ## Layouts -/

/-- That many zeros. -/
def zeros (n : Nat) : String := String.ofList (List.replicate n '0')

/-- A decimal with its point and no exponent.  A whole number ends in `.0` if `pointed`. -/
def Decimal.plain (d : Decimal) (pointed : Bool) : String :=
  let ds := Nat.toDigits 10 d.digits
  if 0 ≤ d.exponent then
    String.ofList ds ++ zeros d.exponent.toNat ++ (if pointed then ".0" else "")
  else
    let places := (-d.exponent).toNat
    if places < ds.length then
      String.ofList (ds.take (ds.length - places)) ++ "." ++
        String.ofList (ds.drop (ds.length - places))
    else "0." ++ zeros (places - ds.length) ++ String.ofList ds

/-- A decimal as one digit, the other digits after a point, and an exponent. -/
def Decimal.scientific (d : Decimal) : String :=
  let ds := Nat.toDigits 10 d.digits
  let e := d.exponent + ds.length - 1
  String.ofList (ds.take 1) ++ (if ds.length = 1 then "" else "." ++ String.ofList (ds.drop 1)) ++
    "e" ++ toString e

/-- The layout of numbers that become text: positional where the point falls at most sixteen
places after the first digit or less than five zeros before it, with an exponent otherwise. -/
def Decimal.compact (d : Decimal) : String :=
  let point := (Nat.toDigits 10 d.digits).length + d.exponent
  if -5 < point ∧ point ≤ 16 then d.plain true else d.scientific

/-- A finite number in a layout, with its sign. -/
def writeFinite (layout : Decimal → String) (negative : Bool) (units : Nat) : String :=
  (if negative then "-" else "") ++ (if units = 0 then "0.0" else layout (shortest units))

/-- The text of a number that becomes a property.  The words for infinities and for no number are
those of the document format that can hold them. -/
def text : Binary64 → String
  | finite negative u => writeFinite Decimal.compact negative u
  | infinite false => ".inf"
  | infinite true => "-.inf"
  | nan => ".nan"

/-- The number spelled out, as messages show it. -/
def spelled : Binary64 → String
  | finite negative u => writeFinite (·.plain true) negative u
  | infinite false => "inf"
  | infinite true => "-inf"
  | nan => "NaN"

example : text (ofDecimal false 1 (-1)) = "0.1" := by decide +kernel
example : text (ofDecimal true 0 0) = "-0.0" := by decide +kernel
example : text (ofDecimal false 5 (-324)) = "5e-324" := by decide +kernel
example : text (ofDecimal false 1 100) = "1e100" := by decide +kernel

end Runbook.Binary64
