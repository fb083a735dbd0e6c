import Runbook.Condition.Holds
import Runbook.Run.Executor
import Runbook.Run.Published

/-!
# Running steps

The engine runs a step in three cases.  A step that is disabled or whose conditions do not all hold
is skipped, which counts as completed.  A group runs its children in order, each with a result of
its own in the record, up to one that fails and does not continue on error; the group then fails
too.  Any other step is given to the executor that claims it, and whatever the executor does, error
and panic included, the step comes to an end.

A result is reported before it is recorded.  The reporter has no influence on the run, unless it
panics.
-/

namespace Runbook

/-- What a reporter makes of a report. -/
inductive Response where
  /-- It takes the report in. -/
  | accepted
  /-- It takes the report in, but says that something went wrong. -/
  | troubled
  /-- It panics. -/
  | panicked (message : Option String)
  deriving DecidableEq, Repr

/-- A reporter, which responds to a report after others. -/
structure Reporter where
  /-- The response. -/
  respond : (earlier : List Notice) → Notice → Response

/-- What is needed to run sequences in surroundings of type `σ`. -/
structure Engine (σ : Type) where
  /-- The executors. -/
  registry : Registry σ
  /-- The reporter, if there is one. -/
  reporter : Option Reporter
  /-- The name of the machine. -/
  machine : String
  /-- The identity of a run that is set up at a point in time. -/
  identify : Timestamp → String

/-- The result of a step from what its executor handed back.  An executor that leaves the step
unfinished has completed it. -/
def Outcome.result (o : Outcome) (r : StepResult) (now : Timestamp) : StepResult :=
  if o.status.isTerminal then
    { r with
      status := o.status, error := o.error, outputs := o.outputs,
      ended := some (o.ended.getD now) }
  else
    { r with status := .completed, error := o.error, outputs := o.outputs, ended := some now }

namespace Engine

variable {σ : Type} (e : Engine σ)

/-! ## Reports -/

/-- Makes a report. -/
def tell (r : Notice) : Activity (World σ) Unit :=
  match e.reporter with
  | none => .done ()
  | some reporter =>
      .look fun w =>
        match reporter.respond w.notices r with
        | .panicked m => .panic m
        | _ => .modify fun w => { w with notices := w.notices ++ [r] }

/-- Reports a result and records it. -/
def record (r : StepResult) (c : Context) : Activity (World σ) Context := do
  e.tell (.step r)
  return c.record r

/-! ## Steps -/

/-- Closes a result now. -/
def close (r : StepResult) (status : Status) (error : Option String) :
    Activity (World σ) StepResult := do
  let now ← World.stamp
  return r.close status error now

/-- Gives a step to its executor. -/
def dispatch (s : Step) (c : Context) (r : StepResult) : Activity (World σ) StepResult :=
  match e.registry.resolve? s with
  | none => close r .failed (some (ExecutionError.noExecutor s.kind).message)
  | some x => do
      match ← (World.onScene (x.execute s c)).caught with
      | .ok (.ok o) => do
          let now ← World.stamp
          return o.result r now
      | .ok (.error f) =>
          close r .failed (some (ExecutionError.executorFailure s.name f.message).message)
      | .error m =>
          close r .failed (some (ExecutionError.executorPanicked s.name m).message)

mutual

/-- Runs a step.  The results of the steps in it are recorded, its own is handed back. -/
def runStep : Step → Context → Activity (World σ) (StepResult × Context)
  | .mk i n d k enabled goesOn cs ps ss, c => do
      let now ← World.stamp
      let c := { c with currentStep := some i }
      let r := StepResult.begun i n now
      let w ← Activity.state
      if !enabled || !Condition.allHold cs w.store then
        let r ← close r .completed none
        return (r, c)
      else if k == .group then
        let (culprit, c) ← runChildren ss c
        let r ← match culprit with
          | some name => close r .failed (some ("Child step failed: " ++ name))
          | none => close r .completed none
        return (r, c)
      else
        let r ← e.dispatch (.mk i n d k enabled goesOn cs ps ss) c r
        return (r, c)
termination_by structural s => s

/-- Runs the steps of a group, up to one whose failure stops the group, and gives its name. -/
def runChildren : List Step → Context → Activity (World σ) (Option String × Context)
  | [], c => pure (none, c)
  | s :: ss, c => do
      let (r, c) ← runStep s c
      let c ← e.record r c
      if r.isFailed && !s.continueOnError then return (some s.name, c) else runChildren ss c
termination_by structural ss => ss

end

/-! ## Runs -/

/-- Sets up a run and publishes its variables.  A run whose variables are refused has failed. -/
def begin (s : Sequence) : Activity (World σ) (Except Context Context) := do
  let now ← World.stamp
  let p := s.publish e.machine
  Activity.modify fun w => { w with store := p.store }
  let c := { (Context.new (e.identify now) s.id s.name).start now with published := p.declared }
  match p.refused with
  | none => return .ok c
  | some _ =>
      let now ← World.stamp
      return .error (c.finish .failed now)

/-- Reports how a run has ended. -/
def conclude (c : Context) : Activity (World σ) Context := do
  e.tell (.progress c)
  return c

/-- Ends a run with a status. -/
def finish (status : Status) (c : Context) : Activity (World σ) Context := do
  let now ← World.stamp
  e.conclude (c.finish status now)

/-- Runs steps one after the other, until one fails without continuing on error or the run is
cancelled. -/
def runSteps : List Step → Context → Activity (World σ) Context
  | [], c => pure c
  | s :: ss, c => do
      let w ← Activity.state
      if w.cancelled then return { c with status := .cancelled }
      else
        let (r, c) ← e.runStep s c
        let c ← e.record r c
        e.tell (.progress c)
        if r.isFailed && !s.continueOnError then return { c with status := .failed }
        else runSteps ss c

/-- The work of running a sequence step by step. -/
def sequential (s : Sequence) : Activity (World σ) Context := do
  match ← e.begin s with
  | .error c => e.conclude c
  | .ok c => do
      let c ← e.runSteps s.steps c
      e.finish .completed c

/-- Runs a sequence step by step. -/
def run (s : Sequence) (w : World σ) : Ending Context × World σ :=
  (e.sequential s).complete (·.cancelled) World.pass w

end Engine
end Runbook
