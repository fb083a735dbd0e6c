/-!
# Name patterns

A pattern stands for all names that match it: a star for any characters, a question mark for one,
and brackets for one of those between them.  A quoted character stands for itself.
-/

namespace Runbook.Shell

/-- A character of a word, and whether it was quoted. -/
abbrev Marked := Char × Bool

/-- Characters that stand for themselves. -/
def marked (quoted : Bool) (cs : List Char) : List Marked := cs.map fun c => (c, quoted)

/-- Some character of a word has a meaning of its own. -/
def isPattern (ms : List Marked) : Bool :=
  ms.any fun m => !m.2 && (m.1 == '*' || m.1 == '?' || m.1 == '[')

/-- What brackets enclose: the ranges, and what follows the closing bracket. -/
def bracket : (fuel : Nat) → (start : Bool) → List Marked →
    Option (List (Char × Char) × List Marked)
  | 0, _, _ => none
  | _, _, [] => none
  | fuel + 1, start, (c, q) :: ms =>
      if c = ']' ∧ !q ∧ !start then some ([], ms)
      else
        match ms with
        | ('-', false) :: (d, q') :: rest =>
            if d = ']' ∧ !q' then (bracket fuel false ms).map fun r => ((c, c) :: r.1, r.2)
            else (bracket fuel false rest).map fun r => ((c, d) :: r.1, r.2)
        | _ => (bracket fuel false ms).map fun r => ((c, c) :: r.1, r.2)

/-- A name matches a pattern. -/
def matchFrom : (fuel : Nat) → List Marked → List Char → Bool
  | 0, _, _ => false
  | _, [], cs => cs.isEmpty
  | fuel + 1, ('*', false) :: ms, cs =>
      matchFrom fuel ms cs ||
        match cs with
        | [] => false
        | _ :: rest => matchFrom fuel (('*', false) :: ms) rest
  | fuel + 1, ('?', false) :: ms, cs =>
      match cs with
      | [] => false
      | _ :: rest => matchFrom fuel ms rest
  | fuel + 1, ('[', false) :: ms, cs =>
      let negated := match ms with
        | (c, false) :: _ => c == '!' || c == '^'
        | _ => false
      match bracket (ms.length + 1) true (if negated then ms.tail else ms), cs with
      | some (ranges, ms), c :: rest =>
          ((ranges.any fun r => r.1 ≤ c && c ≤ r.2) != negated) && matchFrom fuel ms rest
      | some _, [] => false
      | none, c :: rest => c == '[' && matchFrom fuel ms rest
      | none, [] => false
  | fuel + 1, (m, _) :: ms, cs =>
      match cs with
      | [] => false
      | c :: rest => c == m && matchFrom fuel ms rest

/-- A name matches a pattern. -/
def isMatch (ms : List Marked) (cs : List Char) : Bool :=
  matchFrom ((ms.length + 1) * (cs.length + 2)) ms cs

end Runbook.Shell
