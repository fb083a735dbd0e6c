import Runbook.Run.Result
import Runbook.Sequence

/-!
# Contexts of runs

The context of a run is its record: whose run it is, how far it has come, the variables it
published, the step it is at and the results of the steps so far, in the order in which they were
recorded.
-/

namespace Runbook

/-- The record of a run. -/
structure Context where
  /-- The identity of the run. -/
  runId : String
  /-- The identity of the sequence. -/
  sequenceId : String
  /-- The name of the sequence. -/
  sequenceName : String
  /-- The status of the run. -/
  status : Status
  /-- When the run started. -/
  started : Option Timestamp
  /-- When it ended. -/
  ended : Option Timestamp
  /-- The declared variables as they were published. -/
  published : Pairs
  /-- The identity of the step that was entered last. -/
  currentStep : Option String
  /-- The results recorded so far. -/
  results : List StepResult
  deriving DecidableEq, Repr

/-- How many results there are, in all and by status. -/
structure Summary where
  /-- All results. -/
  total : Nat
  /-- The completed ones. -/
  completed : Nat
  /-- The failed ones. -/
  failed : Nat
  /-- The cancelled ones. -/
  cancelled : Nat
  deriving DecidableEq, Repr

namespace Context

/-- The context of a run that has not started. -/
def new (runId sequenceId sequenceName : String) : Context :=
  ⟨runId, sequenceId, sequenceName, .notStarted, none, none, [], none, []⟩

/-- The context of a branch of the run: the same run, without results. -/
def branch (c : Context) : Context :=
  { c with ended := none, currentStep := none, results := [] }

/-- The run starts. -/
def start (c : Context) (now : Timestamp) : Context :=
  { c with status := .running, started := some now }

/-- The run ends.  A terminal status stays. -/
def finish (c : Context) (status : Status) (now : Timestamp) : Context :=
  { c with status := if c.status.isTerminal then c.status else status, ended := some now }

/-- A result is added to the record. -/
def record (c : Context) (r : StepResult) : Context := { c with results := c.results ++ [r] }

/-- The first result of a step with an identity. -/
def resultFor? (c : Context) (stepId : String) : Option StepResult :=
  c.results.find? (·.stepId == stepId)

/-- The first result of a step with a name. -/
def resultNamed? (c : Context) (stepName : String) : Option StepResult :=
  c.results.find? (·.stepName == stepName)

/-- Some step has failed. -/
def hasFailures (c : Context) : Bool := c.results.any (·.isFailed)

/-- The results counted. -/
def summary (c : Context) : Summary :=
  ⟨c.results.length, c.results.countP (·.status == .completed),
    c.results.countP (·.status == .failed), c.results.countP (·.status == .cancelled)⟩

end Context
end Runbook
