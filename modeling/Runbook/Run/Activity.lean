/-!
# Activities

An activity is work on a shared state.  It looks at the state and changes it, it may panic, and it
may wait: for a delay, or for nothing but the cancellation of the run.  Work between two waits is
not interrupted.  Resumed, a wait learns whether the run was cancelled.

A wait that heeds the cancellation is over as soon as the run is cancelled, and at once if it was
before.  One that does not lasts its time in a cancelled run too.

`advance` carries an activity on to its next wait.  `complete` carries it on to its end when nothing
else goes on beside it, so that every wait lasts its full delay.

`advance_bind` and `complete_bind` say that of two activities in sequence the first comes first.
-/

namespace Runbook

/-- How long an activity waits. -/
structure Delay where
  /-- The milliseconds after which the wait is over by itself, if it is at all. -/
  millis : Option Nat
  /-- It is over when the run is cancelled. -/
  heeds : Bool
  deriving DecidableEq, Repr

/-- Work on a state of type `σ` with a result of type `α`. -/
inductive Activity (σ α : Type) where
  /-- The work is done. -/
  | done (a : α)
  /-- The work breaks off, with a message or without one. -/
  | panic (message : Option String)
  /-- Looks at the state. -/
  | look (next : σ → Activity σ α)
  /-- Changes the state. -/
  | update (change : σ → σ) (next : Activity σ α)
  /-- Waits. -/
  | await (delay : Delay) (next : (cancelled : Bool) → Activity σ α)

/-- Where an activity stands when it does not go on by itself. -/
inductive Pause (σ α : Type) where
  /-- It is done. -/
  | done (a : α)
  /-- It has panicked. -/
  | panicked (message : Option String)
  /-- It waits. -/
  | asleep (delay : Delay) (next : (cancelled : Bool) → Activity σ α)

/-- What became of an activity that nothing goes on beside. -/
inductive Ending (α : Type) where
  /-- It is done. -/
  | returned (a : α)
  /-- It has panicked. -/
  | panicked (message : Option String)
  /-- It waits for something that never comes. -/
  | stuck
  deriving DecidableEq, Repr

namespace Activity

variable {σ ω α β : Type}

/-- Goes on with what another activity makes of the result. -/
def bind : Activity σ α → (α → Activity σ β) → Activity σ β
  | done a, f => f a
  | panic m, _ => panic m
  | look next, f => look fun s => (next s).bind f
  | update change next, f => update change (next.bind f)
  | await d next, f => await d fun c => (next c).bind f

instance : Monad (Activity σ) where
  pure := done
  bind := bind

/-- The state. -/
def state : Activity σ σ := look done

/-- Changes the state. -/
def modify (change : σ → σ) : Activity σ Unit := update change (done ())

/-- The activity with a panic caught. -/
def caught : Activity σ α → Activity σ (Except (Option String) α)
  | done a => done (.ok a)
  | panic m => done (.error m)
  | look next => look fun s => (next s).caught
  | update change next => update change next.caught
  | await d next => await d fun c => (next c).caught

/-- The activity within a larger state. -/
def within (part : ω → σ) (put : σ → ω → ω) : Activity σ α → Activity ω α
  | done a => done a
  | panic m => panic m
  | look next => look fun w => (next (part w)).within part put
  | update change next => update (fun w => put (change (part w)) w) (next.within part put)
  | await d next => await d fun c => (next c).within part put

/-- Carries an activity on to its next wait.  A wait that heeds the cancellation of the run is over
at once in a run that is cancelled. -/
def advance (isCancelled : σ → Bool) : Activity σ α → σ → Pause σ α × σ
  | done a, s => (.done a, s)
  | panic m, s => (.panicked m, s)
  | look next, s => (next s).advance isCancelled s
  | update change next, s => next.advance isCancelled (change s)
  | await d next, s =>
      if d.heeds && isCancelled s then (next true).advance isCancelled s else (.asleep d next, s)

/-- Carries an activity on to its end, `pass` letting time pass. -/
def complete (isCancelled : σ → Bool) (pass : Nat → σ → σ) : Activity σ α → σ → Ending α × σ
  | done a, s => (.returned a, s)
  | panic m, s => (.panicked m, s)
  | look next, s => (next s).complete isCancelled pass s
  | update change next, s => next.complete isCancelled pass (change s)
  | await d next, s =>
      if d.heeds && isCancelled s then (next true).complete isCancelled pass s
      else
        match d.millis with
        | some ms => (next (isCancelled s)).complete isCancelled pass (pass ms s)
        | none => (.stuck, s)

@[simp] theorem pure_eq (a : α) : (pure a : Activity σ α) = done a := rfl

@[simp] theorem bind_eq (x : Activity σ α) (f : α → Activity σ β) : (x >>= f) = x.bind f := rfl

theorem advance_bind (isCancelled : σ → Bool) (x : Activity σ α) (f : α → Activity σ β) (s : σ) :
    (x.bind f).advance isCancelled s =
      match x.advance isCancelled s with
      | (.done a, t) => (f a).advance isCancelled t
      | (.panicked m, t) => (.panicked m, t)
      | (.asleep d next, t) => (.asleep d fun c => (next c).bind f, t) := by
  induction x generalizing s with
  | done a => rfl
  | panic m => rfl
  | look next ih => exact ih s s
  | update change next ih => exact ih (change s)
  | await d next ih =>
    simp only [bind, advance]
    by_cases h : (d.heeds && isCancelled s) = true
    · simpa only [h, if_true] using ih true s
    · simp only [h, Bool.false_eq_true, if_false]

end Activity
end Runbook
