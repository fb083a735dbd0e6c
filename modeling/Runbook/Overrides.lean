import Runbook.Pairs
import Runbook.Sequence
import Runbook.Store

/-!
# Overrides

Variables given from outside take the place of the declared ones.  An override replaces the value of
the first declared variable with its name, or declares a new one at the end.
-/

namespace Runbook

/-- Declared variables with one overridden. -/
def Variable.override (name value : String) : List Variable → List Variable
  | [] => [⟨name, value, false, false⟩]
  | v :: vs =>
      if Store.keyOf v.name = Store.keyOf name then { v with value := value } :: vs
      else v :: Variable.override name value vs

namespace Sequence

/-- The sequence with a variable overridden. -/
def override (s : Sequence) (name value : String) : Sequence :=
  { s with declarations := Variable.override name value s.declarations }

/-- The sequence with variables overridden in turn. -/
def overrideAll (s : Sequence) (ps : Pairs) : Sequence :=
  ps.foldl (fun s p => s.override p.1 p.2) s

end Sequence
end Runbook
