/-!
# Statuses

How far a step or a run has come.  `ofName?_name` says that the name of a status is read back to
it.
-/

namespace Runbook

/-- The status of a step or of a run. -/
inductive Status where
  /-- Nothing has been done yet. -/
  | notStarted
  /-- It is under way. -/
  | running
  /-- It has come to its end. -/
  | completed
  /-- It has gone wrong. -/
  | failed
  /-- It was given up before its end. -/
  | cancelled
  deriving DecidableEq, Repr, Inhabited

namespace Status

/-- Every status. -/
def all : List Status := [notStarted, running, completed, failed, cancelled]

/-- Nothing follows this status. -/
def isTerminal : Status → Bool
  | completed => true
  | failed => true
  | cancelled => true
  | _ => false

/-- The name under which a status is saved. -/
def name : Status → String
  | notStarted => "NotStarted"
  | running => "Running"
  | completed => "Completed"
  | failed => "Failed"
  | cancelled => "Cancelled"

/-- The wording of a status in messages. -/
def text : Status → String
  | notStarted => "not_started"
  | running => "running"
  | completed => "completed"
  | failed => "failed"
  | cancelled => "cancelled"

/-- The status of a name. -/
def ofName? (s : String) : Option Status := all.find? fun t => t.name == s

theorem ofName?_name (s : Status) : ofName? s.name = some s := by cases s <;> decide

end Status
end Runbook
