import Runbook.Binary64
import Runbook.Run.Context

/-!
# Summaries

What is printed of a run: how it ended, a line for every result with the seconds it took and a line
for what went wrong, and the numbers of results by their status.

Seconds have two places.  They are the nearest floating point number before they are rounded, with
the nanoseconds and the whole seconds rounded one by one.
-/

namespace Runbook.Console

/-- The seconds of a duration in nanoseconds, as a multiple of the least floating point number. -/
def secondUnits (nanos : Nat) : Nat :=
  let whole := Binary64.roundUnits (nanos / Timestamp.perSecond * Binary64.one) 1
  let rest := Binary64.roundUnits (nanos % Timestamp.perSecond * Binary64.one) Timestamp.perSecond
  Binary64.roundUnits (whole + rest) 1

/-- The seconds of a duration in nanoseconds, with two places. -/
def secondsText (nanos : Nat) : String :=
  let n := Binary64.roundQuotient (secondUnits nanos * 100) Binary64.one
  let places := toString (n % 100)
  toString (n / 100) ++ "." ++ (if places.length < 2 then "0" else "") ++ places

/-- A text as lines. -/
def lines (ls : List String) : String := String.join (ls.map (· ++ "\n"))

/-- The lines about a result. -/
def resultLines (r : StepResult) : List String :=
  let time := match r.duration? with
    | some n => " (" ++ secondsText n ++ "s)"
    | none => ""
  ("  Step '" ++ r.stepName ++ "': " ++ r.status.text ++ time) ::
    (match r.error with
      | some e => ["    Error: " ++ e]
      | none => [])

/-- How a run ended. -/
def endLine (sequenceName : String) (status : Status) : String :=
  "Task sequence '" ++ sequenceName ++ "' finished with status: " ++ status.text

/-- The line of the numbers. -/
def numberLine (s : Summary) : String :=
  "  " ++ toString s.completed ++ " completed, " ++ toString s.failed ++ " failed, " ++
    toString s.cancelled ++ " cancelled"

/-- The summary of a run. -/
def summaryText (c : Context) : String :=
  lines (endLine c.sequenceName c.status :: c.results.flatMap resultLines ++
    [numberLine c.summary])

end Runbook.Console
