import Runbook.Run.Queue
import Runbook.Proofs.Run.Bounded

/-!
# Histories of a queue

Somebody asks a queue for something, a task that is ready has its turn, a task is woken, or time
passes.  A history is a list of such events in any order.
-/

namespace Runbook

variable {σ : Type}

namespace Queue

/-- What happens to a queue. -/
inductive Event where
  /-- A sequence is submitted. -/
  | submit (s : Sequence) (mode : Mode)
  /-- A run is cancelled, unless it has ended. -/
  | cancel (number : Nat)
  /-- Somebody begins to wait for a run. -/
  | wait (number : Nat)
  /-- A run is dropped, if it has ended. -/
  | remove (number : Nat)
  /-- The runs that have ended are dropped. -/
  | prune
  /-- A task has its turn, if it is ready. -/
  | turn (t : Task)
  /-- A task is woken because its wait is over, or for nothing. -/
  | wake (t : Task)
  /-- Time passes. -/
  | pass (millis : Int)

section

variable (e : Engine σ) (q : Queue σ)

/-- The queue with a task taken off the agenda. -/
def without (t : Task) : Queue σ :=
  { q with agenda := { q.agenda with ready := q.agenda.ready.erase t } }

/-- The queue after an event. -/
def happen : Event → Queue σ
  | .submit s mode => q.submit s mode
  | .cancel n => (q.cancel n).2
  | .wait _ => q
  | .remove n => (q.remove n).2
  | .prune => q.prune.2
  | .turn t => if t ∈ q.agenda.ready then turn e (q.without t) t else q
  | .wake t => { q with agenda := q.agenda.wake t }
  | .pass millis => { q with clock := q.clock.atLeast millis }

/-- The queue after a history. -/
def after (history : List Event) : Queue σ := history.foldl (happen e) q

theorem after_append (history more : List Event) :
    q.after e (history ++ more) = (q.after e history).after e more :=
  List.foldl_append

end

variable {e : Engine σ} {q : Queue σ}

/-- What every event keeps, every history keeps. -/
theorem after_induction {P : Queue σ → Prop} (hstep : ∀ q ev, P q → P (q.happen e ev))
    (history : List Event) (h : P q) : P (q.after e history) := by
  induction history generalizing q with
  | nil => exact h
  | cons ev history ih => exact ih (hstep q ev h)

end Queue
end Runbook
