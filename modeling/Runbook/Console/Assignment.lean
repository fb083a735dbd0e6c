import Runbook.Pairs
import Runbook.Text.Blank

/-!
# Assignments

A variable and its value in one text, with an equals sign between them.  The name ends at the first
equals sign; blanks around it do not belong to it.  The value is all the rest.

Of several assignments to a name the last one counts, at the place of the first.
-/

namespace Runbook.Console

/-- A text that assigns nothing. -/
structure BadAssignment where
  /-- The text. -/
  text : String
  deriving DecidableEq, Repr

/-- The wording of the fault. -/
def BadAssignment.message (b : BadAssignment) : String :=
  "Invalid variable format '" ++ b.text ++ "'. Expected 'name=value'"

namespace Assignment

/-- The name and the value of an assignment. -/
def read (s : String) : Except BadAssignment (String × String) :=
  let cs := s.toList
  let name := Text.trimmed (cs.takeWhile (· != '='))
  match cs.dropWhile (· != '=') with
  | _ :: value =>
      if name.isEmpty then .error ⟨s⟩ else .ok (String.ofList name, String.ofList value)
  | [] => .error ⟨s⟩

/-- The variables of assignments made one after the other. -/
def readAll (ss : List String) : Except BadAssignment Pairs := (ss.mapM read).map Pairs.ofList

end Assignment
end Runbook.Console
