import Runbook.Sequence

/-!
# Equality up to the order of properties

Properties are a map, and the order of their keys is only a matter of writing.  Two steps are
*alike* if they are equal apart from that order, at every depth, and so for sequences.
-/

namespace Runbook

/-- The same keys with the same values. -/
def Pairs.sameMap (ps qs : Pairs) : Bool :=
  ps.length == qs.length && ps.all fun p => qs.get? p.1 == some p.2

mutual

/-- The steps are equal up to the order of properties. -/
def Step.alike : Step → Step → Bool
  | .mk i n d k e c cs ps ss, .mk i' n' d' k' e' c' cs' ps' ss' =>
      i == i' && n == n' && d == d' && k == k' && e == e' && c == c' && cs == cs' &&
        Pairs.sameMap ps ps' && Step.allAlike ss ss'
termination_by structural s => s

/-- The steps of two lists are equal up to the order of properties. -/
def Step.allAlike : List Step → List Step → Bool
  | [], [] => true
  | s :: ss, t :: ts => Step.alike s t && Step.allAlike ss ts
  | _, _ => false
termination_by structural ss => ss

end

/-- The sequences are equal up to the order of properties. -/
def Sequence.alike (s t : Sequence) : Bool :=
  { s with steps := [] } == { t with steps := [] } && Step.allAlike s.steps t.steps

end Runbook
