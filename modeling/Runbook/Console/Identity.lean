import Runbook.Document.Fresh

/-!
# Random identities

An identity is a number of 128 bits, written in base sixteen in groups of 8, 4, 4, 4 and 12 digits.
Six of its bits say that it was drawn at random.  All identities that a document is filled in with
come from one number, which is drawn anew for every use of the program.
-/

namespace Runbook.Console

/-- A digit of base sixteen. -/
def identityDigit (n : Nat) : Char := (Nat.toDigits 16 (n % 16)).headD '0'

/-- The lowest digits of a number in base sixteen. -/
def identityDigits (width n : Nat) : List Char :=
  (List.range width).reverse.map fun i => identityDigit (n / Nat.pow 16 i)

/-- The number with the marks of a random identity. -/
def markedIdentity (n : Nat) : List Char :=
  let ds := identityDigits 32 n
  let third := identityDigit (8 + (n / Nat.pow 16 15) % 4)
  ds.take 12 ++ '4' :: (ds.drop 13).take 3 ++ third :: ds.drop 17

/-- The identity of a number. -/
def identityText (n : Nat) : String :=
  let ds := markedIdentity n
  String.intercalate "-" ([(0, 8), (8, 4), (12, 4), (16, 4), (20, 12)].map fun g =>
    String.ofList ((ds.drop g.1).take g.2))

/-- A number for a place, which tells it from the others of a document. -/
def placeNumber (p : Place) : Nat := p.foldl (fun n i => n * 65599 + i + 1) 0

/-- What documents leave out, from a number that was drawn and the time. -/
def drawn (seed : Nat) (now : Timestamp) : Fresh :=
  ⟨fun p => identityText (seed + placeNumber p * 0x9E3779B97F4A7C15), now⟩

end Runbook.Console
