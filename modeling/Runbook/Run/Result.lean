import Runbook.Pairs
import Runbook.Run.Status
import Runbook.Timestamp

/-!
# Results of steps

What became of a step: when it started and ended, how, and the variables it put out.
-/

namespace Runbook

/-- The result of a step. -/
structure StepResult where
  /-- The identity of the step. -/
  stepId : String
  /-- The name of the step. -/
  stepName : String
  /-- The status the step has come to. -/
  status : Status
  /-- When the step started. -/
  started : Timestamp
  /-- When it ended, if it has. -/
  ended : Option Timestamp
  /-- What went wrong. -/
  error : Option String
  /-- What the step puts out. -/
  outputs : Pairs
  deriving DecidableEq, Repr

namespace StepResult

/-- The result of a step that has just started. -/
def begun (stepId stepName : String) (now : Timestamp) : StepResult :=
  ⟨stepId, stepName, .running, now, none, none, []⟩

/-- The result with a status, a message and an end. -/
def close (r : StepResult) (status : Status) (error : Option String) (now : Timestamp) :
    StepResult :=
  { r with status := status, error := error, ended := some now }

/-- The step has failed. -/
def isFailed (r : StepResult) : Bool := r.status == .failed

/-- The step has come to a terminal status. -/
def isFinished (r : StepResult) : Bool := r.status.isTerminal

/-- Nanoseconds from start to end, none if the end lies before the start. -/
def duration? (r : StepResult) : Option Nat := r.ended.map fun e => (e.nanosSince r.started).toNat

end StepResult
end Runbook
