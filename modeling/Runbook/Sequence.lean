import Runbook.Step
import Runbook.Timestamp

/-!
# Task sequences

A task sequence is what a document describes: its identity, its declared variables and its steps.
-/

namespace Runbook

/-- A variable declared by a document. -/
structure Variable where
  /-- The name. -/
  name : String
  /-- The value. -/
  value : String
  /-- The document marks it as read-only. -/
  readOnly : Bool
  /-- Its value is not to be shown. -/
  secret : Bool
  deriving DecidableEq, Repr

/-- The value for logs and reports. -/
def Variable.display (v : Variable) : String := if v.secret then "********" else v.value

/-- A task sequence. -/
structure Sequence where
  /-- The identity. -/
  id : String
  /-- The name. -/
  name : String
  /-- The description. -/
  description : String
  /-- The version. -/
  version : String
  /-- When it was created. -/
  created : Timestamp
  /-- When it was last changed. -/
  modified : Timestamp
  /-- The declared variables. -/
  declarations : List Variable
  /-- The steps. -/
  steps : List Step
  deriving DecidableEq

namespace Sequence

/-- The name of a sequence whose document gives none. -/
def defaultName : String := "Unnamed Task Sequence"

/-- The version of a sequence whose document gives none. -/
def defaultVersion : String := "1.0.0"

/-- The number of steps at any depth. -/
def stepCount (s : Sequence) : Nat := Step.countAll s.steps

/-- The first step with an identity. -/
def findStep? (s : Sequence) (wanted : String) : Option Step := Step.findAll? wanted s.steps

/-- Every step at any depth, in preorder. -/
def allSteps (s : Sequence) : List Step := Step.preorderAll s.steps

end Sequence
end Runbook
