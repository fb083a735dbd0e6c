/-!
# Letter case within ASCII

Element names, aliases of step kinds, operator names and the words for true and false are
compared without regard to the case of ASCII letters.  Letters outside ASCII count as written.
-/

namespace Runbook.Text

/-- A letter of ASCII. -/
def isAsciiLetter (c : Char) : Bool := ('a' ≤ c && c ≤ 'z') || ('A' ≤ c && c ≤ 'Z')

/-- A decimal digit of ASCII. -/
def isDigit (c : Char) : Bool := '0' ≤ c && c ≤ '9'

/-- Capital letters of ASCII become small, all else stays. -/
def lowerAscii (cs : List Char) : List Char := cs.map Char.toLower

/-- The string with the capital letters of ASCII made small. -/
def lower (s : String) : String := String.ofList (lowerAscii s.toList)

/-- Equality up to the case of ASCII letters. -/
def sameLetters (a b : String) : Bool := lowerAscii a.toList == lowerAscii b.toList

theorem sameLetters_self (a : String) : sameLetters a a = true := by simp [sameLetters]

/-- The text left after an initial piece, if it starts with that piece. -/
def dropLead : List Char → List Char → Option (List Char)
  | [], cs => some cs
  | _ :: _, [] => none
  | p :: ps, c :: cs => if p = c then dropLead ps cs else none

theorem dropLead_eq_some_iff {p cs r : List Char} : dropLead p cs = some r ↔ cs = p ++ r := by
  induction p generalizing cs with
  | nil => simp [dropLead, eq_comm]
  | cons a p ih =>
    cases cs with
    | nil => simp [dropLead]
    | cons c cs =>
      by_cases h : a = c
      · simp [dropLead, h, ih]
      · simp [dropLead, h, Ne.symm h]

end Runbook.Text
