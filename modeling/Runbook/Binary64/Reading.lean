import Runbook.Binary64
import Runbook.Text.Ascii

/-!
# Reading a decimal fraction

The texts that stand for a floating point number: an optional sign, then digits with at most one
point among them and at least one digit, then an optional exponent; or a sign and one of the words
`inf`, `infinity` and `nan` in any case.  The number is the nearest one, however long the text.
-/

namespace Runbook.Binary64

open Runbook.Text

/-- The number written by digits, after what was read before. -/
def digitsNat (before : Nat) : List Char → Nat
  | [] => before
  | c :: cs => digitsNat (before * 10 + (c.toNat - '0'.toNat)) cs

/-- A sign, taken off the front. -/
def readSign : List Char → Bool × List Char
  | '-' :: r => (true, r)
  | '+' :: r => (false, r)
  | cs => (false, cs)

/-- The exponent after the digits: zero for no text, otherwise the letter, a sign and digits up to
the end. -/
def readExponent? : List Char → Option Int
  | [] => some 0
  | c :: r =>
      if c = 'e' ∨ c = 'E' then
        let (negative, ds) := readSign r
        if ds ≠ [] ∧ ds.all isDigit then
          let n : Int := digitsNat 0 ds
          some (if negative then -n else n)
        else none
      else none

/-- The unsigned part of a decimal fraction. -/
def readUnsigned? (negative : Bool) (cs : List Char) : Option Binary64 :=
  let whole := cs.takeWhile isDigit
  let rest := cs.dropWhile isDigit
  let (fraction, rest) := match rest with
    | '.' :: r => (r.takeWhile isDigit, r.dropWhile isDigit)
    | r => ([], r)
  if whole = [] ∧ fraction = [] then none
  else
    (readExponent? rest).map fun e =>
      ofDecimal negative (digitsNat 0 (whole ++ fraction)) (e - fraction.length)

/-- The number a text stands for, if it stands for one. -/
def read? (cs : List Char) : Option Binary64 :=
  let (negative, r) := readSign cs
  let word := String.ofList (lowerAscii r)
  if word = "inf" ∨ word = "infinity" then some (infinite negative)
  else if word = "nan" then some nan
  else readUnsigned? negative r

end Runbook.Binary64
