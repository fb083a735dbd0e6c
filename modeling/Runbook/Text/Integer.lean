import Runbook.Text.Ascii

/-!
# Whole numbers in text

A whole number is an optional sign and at least one ASCII digit, with nothing around it.  Reading
is bounded: a number outside the bounds is refused and not wrapped.
-/

namespace Runbook.Text

/-- The value of a digit in some base up to sixteen. -/
def digitValue (base : Nat) (c : Char) : Option Nat :=
  let v :=
    if isDigit c then some (c.toNat - '0'.toNat)
    else if 'a' ≤ c ∧ c ≤ 'f' then some (c.toNat - 'a'.toNat + 10)
    else if 'A' ≤ c ∧ c ≤ 'F' then some (c.toNat - 'A'.toNat + 10)
    else none
  v.filter (· < base)

/-- The number written by digits, most significant first, after what was read before. -/
def natOfDigits (base : Nat) (before : Nat) : List Char → Option Nat
  | [] => some before
  | c :: cs =>
      match digitValue base c with
      | some d => natOfDigits base (before * base + d) cs
      | none => none

/-- The number written by one or more digits. -/
def readNat? (base : Nat) : List Char → Option Nat
  | [] => none
  | cs => natOfDigits base 0 cs

/-- A whole number between zero and `max`, with an optional plus sign. -/
def readUnsigned? (base max : Nat) (cs : List Char) : Option Nat :=
  let digits := match cs with
    | '+' :: r => r
    | _ => cs
  (readNat? base digits).filter (· ≤ max)

/-- A whole number from `-(max + 1)` to `max`, with an optional sign. -/
def readSigned? (base max : Nat) (cs : List Char) : Option Int :=
  match cs with
  | '-' :: r => ((readNat? base r).filter (· ≤ max + 1)).map fun n => -(n : Int)
  | '+' :: r => ((readNat? base r).filter (· ≤ max)).map Int.ofNat
  | _ => ((readNat? base cs).filter (· ≤ max)).map Int.ofNat

/-- The greatest number of 32 bits. -/
def maxWord32 : Nat := 4294967295

/-- The greatest number of 64 bits. -/
def maxWord64 : Nat := 18446744073709551615

/-- The greatest signed number of 32 bits. -/
def maxInt32 : Nat := 2147483647

/-- The greatest signed number of 64 bits. -/
def maxInt64 : Nat := 9223372036854775807

end Runbook.Text
