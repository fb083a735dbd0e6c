import Runbook.Proofs.Run.InTurn
import Runbook.Proofs.Run.Watched

/-!
# Both ways to run a sequence

A sequential run stops at a step that fails without continuing on error, and a parallel run does
not.  Apart from this they agree, if executors are prompt, the run is not cancelled and the reporter
is calm.  Both come to what the performance of the steps says: the sequential run performs them up
to one that stops the others (`Engine.Prompt.exists_run`), the parallel run performs all of them
(`Engine.Prompt.exists_runParallel`).  `Engine.exists_agree` puts the two together.
-/

namespace Runbook

variable {σ : Type}

namespace Engine

variable {e : Engine σ} {act : Step → Store → Reply × Store} {log : σ → List Step}
  {others : World σ → World σ → Prop}

/-! ## Sequential runs -/

/-- A run that begins publishes its variables and does nothing else. -/
theorem course_begin_still (hothers : World.Harmless others) {s : Sequence} {w w' : World σ}
    {r : Ending (Except Context Context)} (h : (e.begin s).Course others w r w')
    (hw' : w'.cancelled = false) :
    w'.store = (s.publish e.machine).store ∧ w'.surroundings = w.surroundings := by
  simp only [begin, Activity.bind_eq] at h
  obtain ⟨now, v, hstamp, h⟩ := h.of_bind_of_returns fun _ _ => not_course_stamp
  obtain ⟨u, hu, h⟩ := h.of_update
  -- Nothing but clerical work follows the publishing.
  have hstill : World.Still { u with store := (s.publish e.machine).store } w' := by
    refine Activity.Clerical.still ?_ hothers h hw'
    dsimp only [Activity.bind]
    split
    · exact Activity.clerical_done _
    · exact Activity.clerical_stamp.bind fun _ => Activity.clerical_done _
  have hpassed := hothers.still hu (hstill.uncancelled hw')
  have hstamped := Activity.clerical_stamp.still hothers hstamp
    (hpassed.uncancelled (hstill.uncancelled hw'))
  exact ⟨hstill.store,
    hstill.surroundings.trans (hpassed.surroundings.trans hstamped.surroundings)⟩

theorem clerical_conclude (e : Engine σ) (c : Context) : (e.conclude c).Clerical :=
  (e.clerical_tell _).bind fun _ => Activity.clerical_done _

theorem clerical_finish (e : Engine σ) (status : Status) (c : Context) :
    (e.finish status c).Clerical :=
  Activity.clerical_stamp.bind fun _ => e.clerical_conclude _

/-- Steps at the top level are performed, if the run is not cancelled. -/
theorem Passed.performed (hsteady : e.Steady others act) (hothers : World.Harmless others)
    (hkeeps : e.Keeps log) {ss : List Step} {c c' : Context} {w w' : World σ} {as : List Account}
    (h : e.Passed others ss c w as c' w') (hw' : w'.cancelled = false) :
    Performed e act log ss w as w' ∧ w.cancelled = false := by
  induction h with
  | nil => exact ⟨.nil, hw'⟩
  | @cons s _ _ _ _ w v u t _ a _ hv hcancelled hran htell _ ih =>
    obtain ⟨hrest, ht⟩ := ih hw'
    have htold := (e.clerical_tell _).still hothers htell ht
    have hstill := hothers.still hv hcancelled
    obtain ⟨ha, hwent⟩ := hran.performed hsteady hothers hkeeps (htold.uncancelled ht)
    rw [hstill.store] at ha hwent
    exact ⟨.cons ha (.after hstill.surroundings hwent) htold hrest, hstill.uncancelled hcancelled⟩

/-- The run has left the record and the world that a performance of its steps leads to. -/
structure Performs (log : σ → List Step) (w : World σ) (p : Performance (List Account))
    (as : List Account) (w' : World σ) : Prop where
  /-- The accounts. -/
  account : Account.timelessAll as = p.account
  /-- The calls and the variables. -/
  went : w.Went log p.calls p.store w'

/-- A sequential run of a steady engine performs its steps up to one that stops the others, if it is
not cancelled. -/
theorem Steady.exists_performs (hsteady : e.Steady others act) (hothers : World.Harmless others)
    (hself : ∀ w, others w w) (hkeeps : e.Keeps log) (hcalm : e.Calm) {s : Sequence}
    (hpublish : (s.publish e.machine).refused = none) {w w' : World σ} {ending : Ending Context}
    (h : (e.sequential s).Course others w ending w') (hw' : w'.cancelled = false) :
    ∃ as c, ending = .returned c ∧ c.results = Account.blocks as ∧
      Performs log w (e.performUpTo act s.steps (s.publish e.machine).store) as w' ∧
      c.status = if (culprit? s.steps as).isSome then .failed else .completed := by
  simp only [sequential, Activity.bind_eq] at h
  obtain ⟨_, w₀, hbegin, h⟩ := h.of_bind_of_returns fun m _ hpanic => by
    obtain ⟨_, hreturned⟩ := course_begin hpublish hpanic
    cases hreturned
  obtain ⟨now, hreturned⟩ := course_begin hpublish hbegin
  cases hreturned
  obtain ⟨c', w₂, hsteps, h⟩ := h.of_bind_of_returns fun m _ hpanic => by
    obtain ⟨_, _, _, _, hreturned, -⟩ := hcalm.passed_of_runSteps hself hpanic
    cases hreturned
  obtain ⟨as, c₁, w₁, _, hreturned, hpassed, hupTo, hw₁, hhalted⟩ :=
    hcalm.passed_of_runSteps hself hsteps
  cases hreturned
  have hfinished := (e.clerical_finish _ _).still hothers h hw'
  have hw₂ := hfinished.uncancelled hw'
  have hended := (hothers.still hw₁ hw₂).trans hfinished
  obtain ⟨hperformed, hw₀⟩ :=
    Passed.performed hsteady hothers hkeeps hpassed (hended.uncancelled hw')
  obtain ⟨hstore, hsurroundings⟩ := course_begin_still hothers hbegin hw₀
  obtain ⟨last, rfl⟩ := hcalm.course_finish h
  obtain ⟨i, rfl⟩ := Passed.context e hpassed
  have hstatus := hhalted.status_finish rfl last
  have hall : culprit? s.steps as = none → as.length = s.steps.length := by
    intro hnone
    cases hhalted with
    | failed hculprit =>
      rw [hnone] at hculprit
      cases hculprit
    | cancelled _ _ hv =>
      rw [hw₂] at hv
      cases hv
    | exhausted _ heq => exact heq
  obtain ⟨has, hwent⟩ := hperformed.upTo hw₀ hupTo hall
  rw [hstore] at has hwent
  refine ⟨as, _, rfl, hhalted.results, ⟨has, .after hsurroundings (hwent.still hended)⟩, ?_⟩
  cases hculprit : culprit? s.steps as with
  | none => exact hstatus.2.2.1.mpr ⟨hculprit, hall hculprit⟩
  | some child => exact hstatus.1.mpr ⟨child, hculprit⟩

theorem course_begin_refused {others : World σ → World σ → Prop} {s : Sequence}
    (hpublish : (s.publish e.machine).refused ≠ none) {w w' : World σ}
    {ending : Ending (Except Context Context)} (h : (e.begin s).Course others w ending w') :
    ∃ c, ending = .returned (.error c) ∧ c.results = [] ∧ c.status = .failed := by
  simp only [begin, Activity.bind_eq] at h
  obtain ⟨now, v, -, h⟩ := h.of_bind_of_returns fun _ _ => not_course_stamp
  obtain ⟨_, -, h⟩ := h.of_update
  dsimp only [Activity.bind] at h
  split at h
  · next hnone => exact absurd hnone hpublish
  · obtain ⟨last, _, _, hdone⟩ := h.of_bind_of_returns fun _ _ => not_course_stamp
    exact ⟨_, hdone.of_done.1, rfl, rfl⟩

theorem Calm.watched (h : e.Calm) : e.watched.Calm := h

/-- A prompt engine is prompt when it is watched. -/
theorem Prompt.watched (h : e.Prompt act) : e.watched.Prompt act := by
  intro s x hx c w hw
  rw [resolve?_watched] at hx
  obtain ⟨x, hresolve, rfl⟩ := Option.map_eq_some_iff.mp hx
  obtain ⟨reply, v, hadvance, hv, hact⟩ := h s x hresolve c w.unwatched hw
  obtain ⟨hpause, hworld⟩ := (echoes_execute x s c).caught.advance w.echoes_unwatched
  rw [hadvance] at hpause hworld
  generalize (World.onScene (x.watched.execute s c)).caught.advance (·.cancelled) w = p at *
  obtain ⟨pause, w'⟩ := p
  obtain rfl : w'.unwatched = v := hworld.eq_unwatched
  cases hpause with
  | done => exact ⟨reply, w', rfl, hv, hact⟩

/-- The calls that are noted are those of the performance. -/
theorem Performs.calls {p : Performance (List Account)} {as : List Account}
    {w w' : World (σ × List Step)} (h : Performs Prod.snd w p as w') (hw : w.calls = []) :
    w'.calls = p.calls := by
  have hcalls : w'.calls = w.calls ++ p.calls := h.went.calls
  rwa [hw, List.nil_append] at hcalls

/-- An engine whose executor sets a variable named after the step. -/
def diligent : Engine Unit where
  registry := [.ofKind .custom fun s _ => .setVariable s.name "done" (.completed [])]
  reporter := none
  machine := "host"
  identify := fun _ => "run"

end Engine
end Runbook
