import Runbook.Run.Activity
import Runbook.Run.Context
import Runbook.Store

/-!
# What a run acts on

A run has a scene: its variables, whether it is cancelled, the time, and surroundings about which
nothing is assumed.  The world of a run adds what was reported of it.

Executors act on the scene alone.  `World.withScene` lets them: they may change variables and
surroundings, and they may cancel the run, but they take no cancellation back and do not turn the
clock.  The clock moves with every look at it, so no two stamps are the same.
-/

namespace Runbook

/-- The part of a run that executors see. -/
structure Scene (σ : Type) where
  /-- The variables. -/
  store : Store
  /-- The run is cancelled. -/
  cancelled : Bool
  /-- The time. -/
  clock : Timestamp
  /-- Everything else. -/
  surroundings : σ

/-- What a run tells of its progress. -/
inductive Notice where
  /-- A result is about to be recorded. -/
  | step (result : StepResult)
  /-- The run has come so far. -/
  | progress (context : Context)
  deriving DecidableEq, Repr

/-- The scene of a run and the reports that were taken in. -/
structure World (σ : Type) extends Scene σ where
  /-- The reports, in the order in which they were made. -/
  notices : List Notice

/-- The point in time some nanoseconds later. -/
def Timestamp.later (t : Timestamp) (nanos : Nat) : Timestamp :=
  let n := t.nanos + nanos
  ⟨t.seconds + (n / Timestamp.perSecond : Nat), n % Timestamp.perSecond⟩

/-- One point in time is not after another. -/
def Timestamp.notAfter (s t : Timestamp) : Bool :=
  s.seconds < t.seconds || (s.seconds == t.seconds && s.nanos ≤ t.nanos)

namespace World

variable {σ α : Type}

/-- Puts a scene that an executor left into the world. -/
def withScene (s : Scene σ) (w : World σ) : World σ :=
  { w with
    store := s.store
    cancelled := w.cancelled || s.cancelled
    surroundings := s.surroundings }

/-- Work on the scene as work on the world. -/
def onScene (x : Activity (Scene σ) α) : Activity (World σ) α := x.within World.toScene withScene

/-- The clock moves on a little. -/
def tick (w : World σ) : World σ := { w with clock := w.clock.later 1 }

/-- The time, which is never the same twice. -/
def stamp : Activity (World σ) Timestamp := .update tick (.look fun w => .done w.clock)

/-- Some milliseconds pass. -/
def pass (ms : Nat) (w : World σ) : World σ := { w with clock := w.clock.later (ms * 1000000) }

theorem cancelled_withScene (s : Scene σ) (w : World σ) (h : w.cancelled = true) :
    (withScene s w).cancelled = true := by
  simp [withScene, h]

end World
end Runbook
