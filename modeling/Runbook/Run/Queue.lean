import Runbook.Run.Parallel

/-!
# The run queue

Runs are submitted to the queue and go on in the background, a bounded number of them at the same
time.  Every run has variables of its own.  A run is numbered by its submission and stays in the
table until it is dropped, which is possible once it shows as finished.

The background work is a sequence of turns of the runs and of the branches of parallel runs.  A run
that waits for a place, that sleeps or that waits for its branches has no turn until it is woken.
Cancelling a run wakes it and its branches, also those that wait without heeding it.  Their turns
may come as late as their waits would have lasted.

The table shows what the runs have put down there, each in turns of its own.  A run that was
admitted puts down that it is running, and only then its work begins.  When the work is over the run
has given its place back; then it leaves its record, and after that it puts down that it is
finished.  In between it keeps its turn, but anything may happen.  A run that is cancelled before it
was admitted leaves a record and is finished in the same way, without having started.
-/

namespace Runbook

/-- The state of a run as the table shows it. -/
inductive RunState where
  /-- It has not begun yet. -/
  | queued
  /-- It is under way, or broke off. -/
  | running
  /-- It has ended. -/
  | finished (status : Status)
  deriving DecidableEq, Repr

/-- The run has ended. -/
def RunState.isFinished : RunState → Bool
  | finished _ => true
  | _ => false

/-- What the work of a run leads to. -/
inductive Stride (σ : Type) where
  /-- The run is over. -/
  | ended (c : Context)
  /-- Its branches are set up. -/
  | spread (f : Fan σ)

/-- A run that was admitted and is not over. -/
inductive UnderWay (σ : Type) where
  /-- It waits to be resumed. -/
  | single (next : (cancelled : Bool) → Activity (World σ) (Stride σ))
  /-- It waits for its branches. -/
  | fan (f : Fan σ)

/-- What became of a run. -/
inductive RunEnd where
  /-- It has ended with this record. -/
  | finished (c : Context)
  /-- It broke off. -/
  | crashed
  deriving DecidableEq, Repr

/-- A run in the table. -/
structure QueuedRun where
  /-- Its number. -/
  number : Nat
  /-- What is run. -/
  sequence : Sequence
  /-- How it is run. -/
  mode : Mode
  /-- It was cancelled. -/
  cancelled : Bool
  /-- Its variables. -/
  store : Store
  /-- The state that it has put down. -/
  state : RunState
  /-- The record that it has left. -/
  record : Option Context
  deriving DecidableEq

namespace QueuedRun

/-- A run that is submitted. -/
def submitted (number : Nat) (s : Sequence) (mode : Mode) : QueuedRun :=
  ⟨number, s, mode, false, Store.empty, .queued, none⟩

/-- The run is cancelled. -/
def cancel (r : QueuedRun) : QueuedRun := { r with cancelled := true }

/-- The run puts down how far it is. -/
def shown (x : RunState) (r : QueuedRun) : QueuedRun := { r with state := x }

/-- The run leaves its record. -/
def recorded (c : Context) (r : QueuedRun) : QueuedRun := { r with record := some c }

/-- The run with its world taken back. -/
def returned {σ : Type} (w : World σ) (r : QueuedRun) : QueuedRun :=
  { r with store := w.store, cancelled := w.cancelled }

end QueuedRun

/-- What takes turns. -/
inductive Task where
  /-- The run with a number. -/
  | run (number : Nat)
  /-- A branch of a parallel run. -/
  | branch (number index : Nat)
  deriving DecidableEq, Repr

/-- The run a task belongs to. -/
def Task.number : Task → Nat
  | run n => n
  | branch n _ => n

/-- The queue. -/
structure Queue (σ : Type) where
  /-- The gate that admits runs, by their numbers. -/
  gate : Gate (UnderWay σ) RunEnd
  /-- The runs that were not dropped. -/
  table : List QueuedRun
  /-- The turns to come. -/
  agenda : Agenda Task
  /-- The time. -/
  clock : Timestamp
  /-- The reports of all runs. -/
  notices : List Notice
  /-- The surroundings of all runs. -/
  surroundings : σ

namespace Queue

variable {σ : Type}

/-- A queue with at most `bound` runs at a time. -/
def new (bound : Nat) (clock : Timestamp) (surroundings : σ) : Queue σ :=
  ⟨Gate.ofBound bound 0, [], Agenda.empty, clock, [], surroundings⟩

/-- The run with a number, if it was not dropped. -/
def find? (q : Queue σ) (number : Nat) : Option QueuedRun :=
  q.table.find? (·.number == number)

/-- The state that a run in the table shows. -/
def status? (q : Queue σ) (number : Nat) : Option RunState := (q.find? number).map (·.state)

/-- The record that a run in the table has left. -/
def context? (q : Queue σ) (number : Nat) : Option Context := (q.find? number).bind (·.record)

/-- The runs in the table with their states, in order. -/
def list (q : Queue σ) : List (Nat × String × RunState) :=
  q.table.map fun r => (r.number, r.sequence.name, r.state)

/-- The number of runs in the table. -/
def size (q : Queue σ) : Nat := q.table.length

/-- The number of runs in the table that are running. -/
def runningCount (q : Queue σ) : Nat := q.table.countP fun r => r.state == .running

/-! ## Asking for something -/

/-- Submits a sequence. -/
def submit (q : Queue σ) (s : Sequence) (mode : Mode) : Queue σ :=
  let n := q.gate.stages.length
  { q with
    gate := q.gate.enroll
    table := q.table ++ [.submitted n s mode]
    agenda := q.agenda.wake (.run n) }

/-- Changes the run with a number. -/
def modifyRun (q : Queue σ) (number : Nat) (f : QueuedRun → QueuedRun) : Queue σ :=
  { q with table := q.table.map fun r => if r.number == number then f r else r }

/-- Cancels a run, unless it has ended, and says whether it did. -/
def cancel (q : Queue σ) (number : Nat) : Bool × Queue σ :=
  match q.status? number with
  | none => (false, q)
  | some s =>
      if s.isFinished then (false, q)
      else
        let q := q.modifyRun number .cancel
        (true, { q with agenda := q.agenda.rouse fun t => t.number == number })

/-- Drops a run that has ended, and gives its record. -/
def remove (q : Queue σ) (number : Nat) : Option Context × Queue σ :=
  match q.status? number with
  | some (.finished _) =>
      (q.context? number, { q with table := q.table.filter (·.number != number) })
  | _ => (none, q)

/-- Drops every run that has ended, and gives their number. -/
def prune (q : Queue σ) : Nat × Queue σ :=
  let left := q.table.filter fun r => !r.state.isFinished
  (q.table.length - left.length, { q with table := left })

/-! ## Turns -/

/-- The world of a run. -/
def worldOf (q : Queue σ) (r : QueuedRun) : World σ :=
  { store := r.store, cancelled := r.cancelled, clock := q.clock, notices := q.notices,
    surroundings := q.surroundings }

/-- Takes the world of a run back, together with the gate and what the turn means for other
tasks. -/
def close (q : Queue σ) (r : QueuedRun) (self : Task) (gate : Gate (UnderWay σ) RunEnd)
    (w : World σ) (granted : Option Task) (sleep : Option Delay) (next : List Task) :
    Queue σ :=
  let q := q.modifyRun r.number (.returned w)
  let agenda := q.agenda.note self (fun t => t.number == r.number)
    (!r.cancelled && w.cancelled) granted sleep w
  { q with
    gate := gate
    agenda := agenda.wakeAll next
    clock := w.clock
    notices := w.notices
    surroundings := w.surroundings }

/-- A task keeps its turn. -/
def again (q : Queue σ) (t : Task) : Queue σ := { q with agenda := q.agenda.again t }

variable (e : Engine σ)

/-- The work of a run. -/
def work (s : Sequence) (mode : Mode) : Activity (World σ) (Stride σ) :=
  match mode with
  | .sequential => do
      let c ← e.sequential s
      return .ended c
  | .parallel bound =>
      if mode.fits then do
        match ← e.begin s with
        | .error c => do
            let c ← e.conclude c
            return .ended c
        | .ok c =>
            let f := Engine.fan bound s c
            if s.steps.isEmpty then
              let c ← e.join f
              return .ended c
            else return .spread f
      else do
        let c ← e.oversized s
        return .ended c

/-- The record of a run that was cancelled before it was admitted. -/
def neverStarted (s : Sequence) (now : Timestamp) : Context :=
  (Context.new (e.identify now) s.id s.name).finish .cancelled now

/-- The turn of a run that has not been admitted.  It takes a place, waits for one or goes away. -/
def approach (q : Queue σ) (r : QueuedRun) : Queue σ :=
  let call := q.gate.call r.number r.cancelled (.finished (neverStarted e r.sequence q.clock))
  let self := Task.run r.number
  match call.admission with
  | .admitted =>
      let entered := Stage.inside (.single fun _ => work e r.sequence r.mode)
      { q with gate := call.gate.put r.number entered }.again self
  | .held => q.close r self call.gate (q.worldOf r) none (some ⟨none, true⟩) []
  | _ => (q.close r self call.gate (q.worldOf r) (call.granted.map .run) none []).again self

/-- Lets a run with a place go on.  If it is over then it gives its place back. -/
def carryOn (q : Queue σ) (r : QueuedRun) (work : Activity (World σ) (Stride σ)) : Queue σ :=
  let self := Task.run r.number
  match work.advance (·.cancelled) (q.worldOf r) with
  | (.done (.ended c), w) =>
      let (gate, j) := q.gate.leave r.number (.finished c)
      (q.close r self gate w (j.map .run) none []).again self
  | (.done (.spread f), w) =>
      q.close r self (q.gate.put r.number (.inside (.fan f))) w none none
        ((List.range f.steps.length).map (.branch r.number))
  | (.panicked _, w) =>
      let (gate, j) := q.gate.leave r.number .crashed
      q.close r self gate w (j.map .run) none []
  | (.asleep d next, w) =>
      q.close r self (q.gate.put r.number (.inside (.single next))) w none (some d) []

/-- The turn of a run with a place.  It puts down that it is running before its work begins. -/
def proceed (q : Queue σ) (r : QueuedRun) (u : UnderWay σ) : Queue σ :=
  if r.state = .queued then (q.modifyRun r.number (.shown .running)).again (.run r.number)
  else
    match u with
    | .single next => carryOn q r (next r.cancelled)
    | .fan f =>
        if f.branches.isEmpty then
          carryOn q r do
            let c ← e.join f
            return .ended c
        else q

/-- The turn of a run that has given its place back.  It leaves its record before it shows as
finished. -/
def conclude (q : Queue σ) (r : QueuedRun) (c : Context) : Queue σ :=
  if r.state.isFinished then q
  else if r.record.isNone then (q.modifyRun r.number (.recorded c)).again (.run r.number)
  else q.modifyRun r.number (.shown (.finished c.status))

/-- The turn of a run. -/
def runTurn (q : Queue σ) (r : QueuedRun) : Queue σ :=
  match q.gate.stages[r.number]? with
  | some (.inside u) => proceed e q r u
  | some (.ended (.finished c)) => q.conclude r c
  | some (.ended .crashed) => q
  | _ => approach e q r

/-- The turn of a branch.  One that is over wakes its run. -/
def branchTurn (q : Queue σ) (r : QueuedRun) (i : Nat) : Queue σ :=
  match q.gate.stages[r.number]? with
  | some (.inside (.fan f)) =>
      let t := e.turn f i (q.worldOf r)
      let isOver := (t.branches.stages[i]?.bind (·.outcome?)).isSome
      q.close r (.branch r.number i)
        (q.gate.put r.number (.inside (.fan { f with branches := t.branches }))) t.world
        (t.granted.map (.branch r.number)) t.sleep (if isOver then [.run r.number] else [])
  | _ => q

/-- The turn of a task. -/
def turn (q : Queue σ) (t : Task) : Queue σ :=
  match q.find? t.number, t with
  | some r, .run _ => runTurn e q r
  | some r, .branch _ i => branchTurn e q r i
  | none, _ => q

/-- One turn, or the passing of time up to the next.  Nothing if neither comes any more. -/
def next? (q : Queue σ) : Option (Queue σ) :=
  match q.agenda.turn? with
  | some (t, a) => some (turn e { q with agenda := a } t)
  | none =>
      q.agenda.nextDue?.map fun time =>
        { q with clock := q.clock.atLeast time, agenda := q.agenda.fire time }

/-- Lets the background work go on until nothing comes any more, for a number of turns at most. -/
def settle : (turns : Nat) → Queue σ → Queue σ
  | 0, q => q
  | n + 1, q =>
      match next? e q with
      | some q => settle n q
      | none => q

/-- Turns enough for executors that wait at most once. -/
def ampleTurns (q : Queue σ) : Nat :=
  q.table.foldl (fun n r => n + 8 * (r.sequence.stepCount + 5)) 0

end Queue
end Runbook
