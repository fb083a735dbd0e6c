import Runbook.Run.Agenda
import Runbook.Run.Engine
import Runbook.Run.Gate
import Runbook.Text.Printable

/-!
# Parallel runs

A parallel run makes a branch of every step at the top level, with a record of its own, and lets a
bounded number of them be under way.  Branches take turns: one goes on until it waits.  A branch
that fails does not stop the others.  Once the run is cancelled no further branch starts.

When all branches are over their results are put together in the order in which the steps started.
A branch that broke off leaves one failed result for its step.

No gate has more than `Gate.limit` places.  A run for which more are asked breaks off when it is to
make the gate of its branches (`Engine.oversized`).
-/

namespace Runbook

/-- What became of a branch. -/
inductive BranchEnd where
  /-- It came to its end, with these results. -/
  | finished (results : List StepResult)
  /-- It was never started. -/
  | skipped
  /-- It broke off. -/
  | crashed (message : Option String)
  deriving DecidableEq, Repr

/-- The branches of a run at their gate.  A branch inside waits to be resumed. -/
abbrev Branches (σ : Type) :=
  Gate ((cancelled : Bool) → Activity (World σ) (List StepResult)) BranchEnd

/-- A parallel run under way, apart from its world. -/
structure Fan (σ : Type) where
  /-- The steps at the top level, one for each branch. -/
  steps : List Step
  /-- The record of the run. -/
  context : Context
  /-- The branches. -/
  branches : Branches σ

/-- What a turn of a branch leads to. -/
structure Turn (σ : Type) where
  /-- The branches. -/
  branches : Branches σ
  /-- The world. -/
  world : World σ
  /-- The branch fell asleep, perhaps for some milliseconds. -/
  sleep : Option Delay
  /-- The branch that was granted a place. -/
  granted : Option Nat

/-- How a sequence is run. -/
inductive Mode where
  /-- Step by step. -/
  | sequential
  /-- With at most so many branches at a time. -/
  | parallel (bound : Nat)
  deriving DecidableEq, Repr

/-- A gate can have the places that are asked for. -/
def Mode.fits : Mode → Bool
  | sequential => true
  | parallel bound => bound ≤ Gate.limit

/-- A point in time in milliseconds. -/
def Timestamp.millis (t : Timestamp) : Int := t.seconds * 1000 + (t.nanos / 1000000 : Nat)

/-- The point in time, or a number of milliseconds if that is later. -/
def Timestamp.atLeast (t : Timestamp) (millis : Int) : Timestamp :=
  if t.millis < millis then ⟨millis.fdiv 1000, (millis.fmod 1000).toNat * 1000000⟩ else t

/-- Notes a turn of a task: a cancellation wakes those that `among` names, then comes the task that
was granted a place, and a task that fell asleep is put down as such. -/
def Agenda.note {κ σ : Type} [DecidableEq κ] (a : Agenda κ) (self : κ) (among : κ → Bool)
    (cancelled : Bool) (granted : Option κ) (sleep : Option Delay) (w : World σ) :
    Agenda κ :=
  let a := if cancelled then a.rouse among else a
  let a := match granted with
    | some k => a.wake k
    | none => a
  match sleep with
  | some d => a.sleep self (d.millis.map fun ms => w.clock.millis + ms)
  | none => a

namespace Engine

variable {σ : Type} (e : Engine σ)

/-- The work of a branch. -/
def branch (s : Step) (c : Context) : Activity (World σ) (List StepResult) := do
  let (r, c) ← e.runStep s c.branch
  let c ← e.record r c
  return c.results

/-- Sets up the branches of a run. -/
def fan (bound : Nat) (s : Sequence) (c : Context) : Fan σ :=
  ⟨s.steps, c, Gate.ofBound bound s.steps.length⟩

/-- Lets a branch with a place go on. -/
def carryOn (b : Branches σ) (i : Nat) (work : Activity (World σ) (List StepResult))
    (w : World σ) : Turn σ :=
  match work.advance (·.cancelled) w with
  | (.done rs, w) =>
      let (b, j) := b.leave i (.finished rs)
      ⟨b, w, none, j⟩
  | (.panicked m, w) =>
      let (b, j) := b.leave i (.crashed m)
      ⟨b, w, none, j⟩
  | (.asleep d next, w) => ⟨b.put i (.inside next), w, some d, none⟩

/-- The turn of a branch. -/
def turn (f : Fan σ) (i : Nat) (w : World σ) : Turn σ :=
  let call := f.branches.call i w.cancelled .skipped
  match call.admission, f.steps[i]? with
  | .admitted, some s => carryOn call.gate i (e.branch s f.context) w
  | .inside next, _ => carryOn call.gate i (next w.cancelled) w
  | .held, _ => ⟨call.gate, w, some ⟨none, true⟩, none⟩
  | _, _ => ⟨call.gate, w, none, call.granted⟩

/-! ## Putting the branches together -/

/-- The message of a branch that broke off, by the number of its task. -/
def brokenOff (task : Nat) (message : Option String) : String :=
  "Branch did not finish: task " ++ toString task ++ " panicked" ++
    (match message with
    | some m => " with message " ++ Text.quotedForMessage m
    | none => "")

/-- The results that a branch leaves. -/
def gather (task : Nat) (s : Step) : BranchEnd → Activity (World σ) (List StepResult)
  | .finished rs => pure rs
  | .skipped => pure []
  | .crashed m => do
      let now ← World.stamp
      let r ← close (StepResult.begun s.id s.name now) .failed (some (brokenOff task m))
      return [r]

/-- The results that all branches leave, the first of them being task `task`. -/
def gatherAll : (task : Nat) → List (Step × BranchEnd) → Activity (World σ) (List StepResult)
  | _, [] => pure []
  | task, (s, b) :: bs => do
      let rs ← gather task s b
      let more ← gatherAll (task + 1) bs
      return rs ++ more

/-- The status of a run from its record. -/
def verdict (c : Context) (ends : List BranchEnd) : Status :=
  if c.hasFailures then .failed
  else if ends.contains .skipped then .cancelled
  else .completed

/-- Ends a run all of whose branches are over. -/
def join (f : Fan σ) : Activity (World σ) Context := do
  let ends := f.branches.outcomes
  let rs ← gatherAll 1 (f.steps.zip ends)
  let sorted := rs.mergeSort fun a b => a.started.notAfter b.started
  let c := { f.context with results := f.context.results ++ sorted }
  e.finish (verdict c ends) c

/-! ## Running the branches alone -/

/-- A parallel run that nothing goes on beside. -/
structure Alone (σ : Type) where
  /-- The run. -/
  fan : Fan σ
  /-- Its world. -/
  world : World σ
  /-- The turns of its branches. -/
  agenda : Agenda Nat

/-- One turn, or the passing of time up to the next.  Nothing if neither comes any more. -/
def Alone.next? (x : Alone σ) : Option (Alone σ) :=
  match x.agenda.turn? with
  | some (i, a) =>
      let t := e.turn x.fan i x.world
      some ⟨{ x.fan with branches := t.branches }, t.world,
        a.note i (fun _ => true) (!x.world.cancelled && t.world.cancelled) t.granted t.sleep
          t.world⟩
  | none =>
      x.agenda.nextDue?.map fun time =>
        { x with
          world := { x.world with clock := x.world.clock.atLeast time }
          agenda := x.agenda.fire time }

/-- Goes on until nothing comes any more, for a number of turns at most. -/
def Alone.settle : (turns : Nat) → Alone σ → Alone σ
  | 0, x => x
  | n + 1, x =>
      match next? e x with
      | some y => settle n y
      | none => x

/-- Turns enough for executors that wait at most once. -/
def ampleTurns (s : Sequence) : Nat := 6 * (s.stepCount + 2)

/-- Runs the branches of a sequence that was published. -/
def runBranches (turns bound : Nat) (s : Sequence) (c : Context) (w : World σ) :
    Ending Context × World σ :=
  let f := fan bound s c
  let x := Alone.settle e turns ⟨f, w, ⟨List.range s.steps.length, []⟩⟩
  if x.fan.branches.isEmpty then (e.join x.fan).complete (·.cancelled) World.pass x.world
  else (.stuck, x.world)

/-- Runs a sequence with at most `bound` branches at a time, which a gate can have, in at most some
number of turns. -/
def runParallel (turns bound : Nat) (s : Sequence) (w : World σ) : Ending Context × World σ :=
  match (e.begin s).complete (·.cancelled) World.pass w with
  | (.returned (.ok c), w) => e.runBranches turns bound s c w
  | (.returned (.error c), w) => (e.conclude c).complete (·.cancelled) World.pass w
  | (.panicked m, w) => (.panicked m, w)
  | (.stuck, w) => (.stuck, w)

/-- A run that asks for more places than a gate can have.  It breaks off once it has begun. -/
def oversized (s : Sequence) : Activity (World σ) Context := do
  match ← e.begin s with
  | .error c => e.conclude c
  | .ok _ =>
      .panic (some ("a semaphore may not have more than MAX_PERMITS permits (" ++
        toString Gate.limit ++ ")"))

/-- Runs a sequence in a mode, in at most some number of turns. -/
def runIn (turns : Nat) (mode : Mode) (s : Sequence) (w : World σ) : Ending Context × World σ :=
  match mode with
  | .sequential => e.run s w
  | .parallel bound =>
      if mode.fits then e.runParallel turns bound s w
      else (e.oversized s).complete (·.cancelled) World.pass w

end Engine
end Runbook
