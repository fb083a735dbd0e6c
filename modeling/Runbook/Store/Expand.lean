import Runbook.Store
import Runbook.Text.Blank

/-!
# References in text

A reference is a name between two percent signs.  A name has at least one character, holds no
percent sign and no line end, and neither starts nor ends with a blank.  Expansion goes through a
text once from left to right and puts the value of the variable in place of each reference.  What
is put in is not looked at again.  A percent sign that opens no reference stays.
-/

namespace Runbook.Store

open Runbook.Text

/-- The text between two percent signs is a name. -/
def isName (cs : List Char) : Bool :=
  !cs.isEmpty && !cs.contains '\r' && !cs.contains '\n' &&
    !(cs.head?.map isBlank).getD true && !(cs.getLast?.map isBlank).getD true

/-- A text up to its first percent sign, and what follows that sign if there is one. -/
def splitPercent : List Char → List Char × Option (List Char)
  | [] => ([], none)
  | c :: cs =>
      if c = '%' then ([], some cs)
      else
        let (a, r) := splitPercent cs
        (c :: a, r)

theorem splitPercent_length {cs a r : List Char} (h : splitPercent cs = (a, some r)) :
    r.length < cs.length := by
  induction cs generalizing a with
  | nil => simp [splitPercent] at h
  | cons c cs ih =>
    simp only [splitPercent] at h
    split at h
    · simp only [Prod.mk.injEq, Option.some.injEq] at h
      simp [← h.2]
    · simp only [Prod.mk.injEq] at h
      have := ih (Prod.ext rfl h.2)
      simp only [List.length_cons]
      omega

/-- The text after an opening percent sign, expanded.  `lookup` gives the value of a name. -/
def expandOpen (lookup : List Char → List Char) (cs : List Char) : List Char :=
  match h : splitPercent cs with
  | (a, none) => '%' :: a
  | (a, some r) =>
      if isName a then
        -- the reference is closed, and reading starts again behind it
        match h' : splitPercent r with
        | (b, none) => lookup a ++ b
        | (b, some r') =>
            have : r'.length < cs.length :=
              Nat.lt_trans (splitPercent_length h') (splitPercent_length h)
            lookup a ++ b ++ expandOpen lookup r'
      else
        have : r.length < cs.length := splitPercent_length h
        '%' :: a ++ expandOpen lookup r
termination_by cs.length

/-- A text with its references replaced. -/
def expandChars (lookup : List Char → List Char) (cs : List Char) : List Char :=
  match splitPercent cs with
  | (a, none) => a
  | (a, some r) => a ++ expandOpen lookup r

/-- A text with its references replaced by the values of the store. -/
def expand (s : Store) (t : String) : String :=
  String.ofList (expandChars (fun n => (s.get (String.ofList n)).toList) t.toList)

end Runbook.Store
