import Runbook.Text.CaseTable

/-!
# Full case mapping

The capital form and the small form of a text, character by character after the tables of
`CaseTable`.  ASCII is mapped directly.  A capital may be longer than its small letter (`ß` gives
`SS`), so the capital form of a text may be longer than the text.

Two names are the same variable when their capital forms are equal.  `upper_eq_of_ascii` is the
part of this rule that ASCII text relies on: switching the case of an ASCII letter leaves the
capital form as it is.
-/

namespace Runbook.Text

/-- The first answer of a list of runs for a code point. -/
def mapByRuns (runs : List CaseRun) (n : Nat) : Option Nat := runs.findSome? (·.map? n)

/-- The capital form of one character. -/
def upperChar (c : Char) : List Char :=
  if c.toNat < 128 then [c.toUpper]
  else
    match longCapitals.lookup c.toNat with
    | some ns => ns.map Char.ofNat
    | none => [Char.ofNat ((mapByRuns capitalRuns c.toNat).getD c.toNat)]

/-- The capital form of a text. -/
def upperChars (cs : List Char) : List Char := cs.flatMap upperChar

/-- The capital form of a string: the key under which names and values are compared. -/
def upper (s : String) : String := String.ofList (upperChars s.toList)

/-- A code point in one of the ranges. -/
def inRanges (ranges : List (Nat × Nat)) (c : Char) : Bool :=
  ranges.any fun r => r.1 ≤ c.toNat && c.toNat ≤ r.2

/-- Going outward from a sigma, the first character that is not looked through is a letter. -/
def meetsLetter : List Char → Bool
  | [] => false
  | c :: cs => if inRanges caseIgnorable c then meetsLetter cs else inRanges caseBearing c

/-- The small form of one character, sigma aside. -/
def lowerChar (c : Char) : List Char :=
  if c.toNat < 128 then [c.toLower]
  else
    match longSmalls.lookup c.toNat with
    | some ns => ns.map Char.ofNat
    | none => [Char.ofNat ((mapByRuns smallRuns c.toNat).getD c.toNat)]

/-- The small form of what follows `before`, which is kept in reverse.  A capital sigma at the end
of a word becomes a final sigma. -/
def lowerAfter (before : List Char) : List Char → List Char
  | [] => []
  | 'Σ' :: cs =>
      (if meetsLetter before && !meetsLetter cs then 'ς' else 'σ') ::
        lowerAfter ('Σ' :: before) cs
  | c :: cs => lowerChar c ++ lowerAfter (c :: before) cs

/-- The small form of a string. -/
def lowerFull (s : String) : String := String.ofList (lowerAfter [] s.toList)

/-- The capital form of an ASCII character is its ASCII capital. -/
theorem upper_eq_of_ascii {c : Char} (h : c.toNat < 128) : upperChar c = [c.toUpper] := by
  simp [upperChar, h]

end Runbook.Text
