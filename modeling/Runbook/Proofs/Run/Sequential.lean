import Runbook.Proofs.Run.Steps

/-!
# Sequential runs

A sequential run whose variables are published runs its steps up to one.  Its record consists of
their blocks, and its status says why it went no further: the last step failed without continuing on
error, or the run was cancelled when the next step was about to start, or there was no further step.
This is `Engine.StepByStep`, and `Engine.exists_stepByStep` says that every sequential run is of
this kind, whatever executors do and whatever goes on beside.
-/

namespace Runbook

variable {σ : Type} {others : World σ → World σ → Prop}

namespace Engine

variable (e : Engine σ)

/-! ## Beginning and ending -/

/-- The context of a run that has published its variables. -/
def opening (s : Sequence) (now : Timestamp) : Context :=
  { (Context.new (e.identify now) s.id s.name).start now with
    published := (s.publish e.machine).declared }

variable {e}

theorem course_begin {s : Sequence} (hpublish : (s.publish e.machine).refused = none)
    {w w' : World σ} {ending : Ending (Except Context Context)}
    (h : (e.begin s).Course others w ending w') :
    ∃ now, ending = .returned (.ok (e.opening s now)) := by
  simp only [begin, Activity.bind_eq] at h
  obtain ⟨now, v, -, h⟩ := h.of_bind_of_returns fun _ _ => not_course_stamp
  obtain ⟨_, u, -, h⟩ := h.of_bind_of_returns fun m _ hpanic => by
    obtain ⟨_, _, hreturned, _⟩ := hpanic.of_modify
    cases hreturned
  rw [hpublish] at h
  exact ⟨now, h.of_done.1⟩

theorem Calm.course_conclude (hcalm : e.Calm) {c : Context} {w w' : World σ}
    {ending : Ending Context} (h : (e.conclude c).Course others w ending w') :
    ending = .returned c := by
  rw [conclude, Activity.bind_eq] at h
  obtain ⟨_, _, _, hdone⟩ := h.of_bind_of_returns fun m _ hpanic => by
    cases hcalm.course_tell hpanic
  exact hdone.of_done.1

theorem Calm.course_finish (hcalm : e.Calm) {status : Status} {c : Context} {w w' : World σ}
    {ending : Ending Context} (h : (e.finish status c).Course others w ending w') :
    ∃ now, ending = .returned (c.finish status now) := by
  rw [finish, Activity.bind_eq] at h
  obtain ⟨now, _, _, h⟩ := h.of_bind_of_returns fun _ _ => not_course_stamp
  exact ⟨now, hcalm.course_conclude h⟩

/-! ## Steps at the top level -/

variable (e)

/-- Steps at the top level were run, each in a world that was not cancelled when it was about to
start, and the progress was reported after each. -/
inductive Passed (others : World σ → World σ → Prop) :
    List Step → Context → World σ → List Account → Context → World σ → Prop where
  /-- There are none. -/
  | nil {c : Context} {w : World σ} : Passed others [] c w [] c w
  /-- The first one and then the others. -/
  | cons {s : Step} {ss : List Step} {c c₁ c' : Context} {w v u t w' : World σ} {a : Account}
      {as : List Account} :
      others w v → v.cancelled = false → e.Ran others s c v a c₁ u →
      (e.tell (.progress c₁)).Course others u (.returned ()) t →
      Passed others ss c₁ t as c' w' → Passed others (s :: ss) c w (a :: as) c' w'

/-- The steps at the top level add their blocks, one after the other. -/
theorem Passed.context {ss : List Step} {c c' : Context} {w w' : World σ} {as : List Account}
    (h : e.Passed others ss c w as c' w') :
    ∃ i, c' = { c with currentStep := i, results := c.results ++ Account.blocks as } := by
  induction h with
  | @nil c w => exact ⟨c.currentStep, by rw [Account.blocks, List.append_nil]⟩
  | cons _ _ hran _ _ ih =>
    obtain ⟨_, rfl⟩ := Ran.context e hran
    obtain ⟨i, rfl⟩ := ih
    exact ⟨i, by rw [Account.blocks, List.append_assoc]⟩

/-- Why a run goes no further than the steps with an account, and with which context.  `v` is the
world in which the next step is about to start. -/
inductive Halted (ss : List Step) (as : List Account) (c : Context) (v : World σ) :
    Context → Prop where
  /-- The last step failed without continuing on error. -/
  | failed {child : Step} :
      culprit? ss as = some child → Halted ss as c v { c with status := .failed }
  /-- The run was cancelled. -/
  | cancelled : culprit? ss as = none → as.length < ss.length → v.cancelled = true →
      Halted ss as c v { c with status := .cancelled }
  /-- There is no further step. -/
  | exhausted : culprit? ss as = none → as.length = ss.length → Halted ss as c v c

theorem Halted.results {ss : List Step} {as : List Account} {c c' : Context} {v : World σ}
    (h : Halted ss as c v c') : c'.results = c.results := by
  cases h <;> rfl

/-- When the run is finished, its status says why it went no further. -/
theorem Halted.status_finish {ss : List Step} {as : List Account} {c c' : Context} {v : World σ}
    (h : Halted ss as c v c') (hrunning : c.status = .running) (now : Timestamp) :
    ((c'.finish .completed now).status = .failed ↔ ∃ child, culprit? ss as = some child) ∧
      ((c'.finish .completed now).status = .cancelled ↔
        culprit? ss as = none ∧ as.length < ss.length ∧ v.cancelled = true) ∧
      ((c'.finish .completed now).status = .completed ↔
        culprit? ss as = none ∧ as.length = ss.length) ∧
      (c'.finish .completed now).status.isTerminal = true := by
  cases h with
  | failed hculprit => simp [Context.finish, Status.isTerminal, hculprit]
  | cancelled hnone hlt hcancelled =>
    have hne : as.length ≠ ss.length := Nat.ne_of_lt hlt
    simp [Context.finish, Status.isTerminal, hnone, hlt, hcancelled, hne]
  | exhausted hnone heq =>
    simp [Context.finish, Status.isTerminal, hrunning, hnone, heq]

theorem Halted.cons {s : Step} {ss : List Step} {a : Account} {as : List Account}
    {c c' : Context} {v : World σ} (ha : s.stops a.own = false) (h : Halted ss as c v c') :
    Halted (s :: ss) (a :: as) c v c' := by
  have hculprit : culprit? (s :: ss) (a :: as) = culprit? ss as := culprit?_cons ha ss as
  cases h with
  | failed hfailed => exact .failed (hculprit.trans hfailed)
  | cancelled hnone hlt hv => exact .cancelled (hculprit.trans hnone) (Nat.succ_lt_succ hlt) hv
  | exhausted hnone heq => exact .exhausted (hculprit.trans hnone) (congrArg (· + 1) heq)

variable {e}

/-- With a calm reporter the steps at the top level are run up to one. -/
theorem Calm.passed_of_runSteps (hothers : ∀ w, others w w) (hcalm : e.Calm) :
    ∀ {ss : List Step} {c : Context} {w w' : World σ} {ending : Ending Context},
      (e.runSteps ss c).Course others w ending w' →
      ∃ as c₁ w₁ c', ending = .returned c' ∧ e.Passed others (ss.take as.length) c w as c₁ w₁ ∧
        UpTo ss as ∧ others w₁ w' ∧ Halted ss as c₁ w' c'
  | [], c, w, _, _, h => by
      obtain ⟨rfl, rfl⟩ := h.of_done
      exact ⟨[], c, _, c, rfl, .nil, .nil _, hothers _, .exhausted (culprit?_nil _) rfl⟩
  | s :: ss, c, w, _, _, h => by
      simp only [runSteps, Activity.bind_eq] at h
      obtain ⟨_, v, hstate, h⟩ := h.of_bind_of_returns fun m _ hpanic => by
        cases hpanic.of_state.2
      obtain ⟨hv, hreturned⟩ := hstate.of_state
      cases hreturned
      split at h
      · next hcancelled =>
        obtain ⟨rfl, rfl⟩ := h.of_done
        exact ⟨[], c, w, _, rfl, .nil, .nil _, hv,
          .cancelled (culprit?_nil _) (Nat.succ_pos _) hcancelled⟩
      next hcancelled =>
      rw [Bool.not_eq_true] at hcancelled
      obtain ⟨⟨own, c₁⟩, u, hstep, h⟩ := h.of_bind_of_returns fun m _ hpanic => by
        obtain ⟨_, _, _, hreturned, -⟩ := hcalm.ran_of_runStep hpanic
        cases hreturned
      obtain ⟨_, inner, _, hreturned, hran⟩ := hcalm.ran_of_runStep hstep
      cases hreturned
      obtain ⟨c₂, u₂, hrecord, h⟩ := h.of_bind_of_returns fun m _ hpanic => by
        cases hcalm.course_record hpanic
      obtain ⟨_, t, htell, h⟩ := h.of_bind_of_returns fun m _ hpanic => by
        cases hcalm.course_tell hpanic
      have hfirst := hran hrecord
      split at h
      · next hstops =>
        obtain ⟨rfl, rfl⟩ := h.of_done
        have hown : s.stops own = true := hstops
        exact ⟨[⟨own, inner⟩], c₂, _, _, rfl, .cons hv hcancelled hfirst htell .nil,
          .single s ss _, hothers _, .failed (culprit?_single (a := ⟨own, inner⟩) hown ss)⟩
      · next hgoesOn =>
        have hown : s.stops own = false := Bool.eq_false_iff.mpr hgoesOn
        obtain ⟨as, c₃, w₃, c', hreturned, hpassed, hupTo, hw₃, hhalted⟩ :=
          Calm.passed_of_runSteps hothers hcalm h
        exact ⟨⟨own, inner⟩ :: as, c₃, w₃, c', hreturned,
          .cons hv hcancelled hfirst htell hpassed, hupTo.cons hown, hw₃, hhalted.cons hown⟩

/-! ## Runs -/

variable (e)

/-- The record `c` is that of a run of the sequence, begun in the world `w`, in which the first
steps have the accounts `as` and `v` is the world in which the next step was about to start. -/
structure StepByStep (others : World σ → World σ → Prop) (s : Sequence) (w : World σ)
    (as : List Account) (v : World σ) (c : Context) : Prop where
  /-- The first steps were run after the variables were published. -/
  passed : ∃ c₀ w₀ c₁ w₁, (e.begin s).Course others w (.returned (.ok c₀)) w₀ ∧
    e.Passed others (s.steps.take as.length) c₀ w₀ as c₁ w₁ ∧ others w₁ v
  /-- None of them but the last stops the run. -/
  upTo : UpTo s.steps as
  /-- The record consists of their blocks. -/
  results : c.results = Account.blocks as
  /-- The run has failed if the last one stops it. -/
  failed : c.status = .failed ↔ ∃ child, culprit? s.steps as = some child
  /-- It was cancelled if this kept the next step from starting. -/
  cancelled : c.status = .cancelled ↔
    culprit? s.steps as = none ∧ as.length < s.steps.length ∧ v.cancelled = true
  /-- Else it is completed, and every step was run. -/
  completed : c.status = .completed ↔
    culprit? s.steps as = none ∧ as.length = s.steps.length
  /-- Nothing follows the status. -/
  terminal : c.status.isTerminal = true
  /-- The run has ended. -/
  ended : c.ended.isSome = true

variable {e}

theorem Calm.stepByStep (hothers : ∀ w, others w w) (hcalm : e.Calm) {s : Sequence}
    (hpublish : (s.publish e.machine).refused = none) {w w' : World σ} {ending : Ending Context}
    (h : (e.sequential s).Course others w ending w') :
    ∃ as v c, ending = .returned c ∧ e.StepByStep others s w as v c := by
  simp only [sequential, Activity.bind_eq] at h
  obtain ⟨_, w₀, hbegin, h⟩ := h.of_bind_of_returns fun m _ hpanic => by
    obtain ⟨_, hreturned⟩ := course_begin hpublish hpanic
    cases hreturned
  obtain ⟨now, hreturned⟩ := course_begin hpublish hbegin
  cases hreturned
  obtain ⟨c', w₂, hsteps, h⟩ := h.of_bind_of_returns fun m _ hpanic => by
    obtain ⟨_, _, _, _, hreturned, -⟩ := hcalm.passed_of_runSteps hothers hpanic
    cases hreturned
  obtain ⟨as, c₁, w₁, _, hreturned, hpassed, hupTo, hv, hhalted⟩ :=
    hcalm.passed_of_runSteps hothers hsteps
  cases hreturned
  obtain ⟨last, rfl⟩ := hcalm.course_finish h
  obtain ⟨i, rfl⟩ := Passed.context e hpassed
  obtain ⟨hfailed, hcancelled, hcompleted, hterminal⟩ := hhalted.status_finish rfl last
  exact ⟨as, w₂, _, rfl, ⟨_, _, _, _, hbegin, hpassed, hv⟩, hupTo, hhalted.results, hfailed,
    hcancelled, hcompleted, hterminal, rfl⟩

/-- Whatever executors do, whatever goes on beside and whenever the run is cancelled, with a calm
reporter a sequential run that publishes its variables comes to an end, and its record and status
tell how. -/
theorem exists_stepByStep (hothers : ∀ w, others w w) (hcalm : e.Calm) {s : Sequence}
    (hpublish : (s.publish e.machine).refused = none) (w : World σ) :
    (∃ ending w', (e.sequential s).Course others w ending w') ∧
      ∀ ending w', (e.sequential s).Course others w ending w' →
        ∃ as v c, ending = .returned c ∧ e.StepByStep others s w as v c :=
  ⟨Activity.exists_course hothers _ w, fun _ _ h => hcalm.stepByStep hothers hpublish h⟩

end Engine

/-- A sequence without declared variables. -/
def Sequence.ofSteps (steps : List Step) : Sequence :=
  ⟨"1", "one", "", "1", ⟨0, 0⟩, ⟨0, 0⟩, [], steps⟩

/-- Two steps that nobody claims, run alone. -/
theorem Engine.exists_stepByStep_plain :
    let s := Sequence.ofSteps [.plain "a" "A" .custom [], .plain "b" "B" .custom []]
    (∀ w : World Unit, w = w) ∧ bare.Calm ∧ (s.publish bare.machine).refused = none ∧
      ∃ ending w', (bare.sequential s).Course Eq .epoch ending w' ∧
        ∃ as v c, ending = .returned c ∧ bare.StepByStep Eq s .epoch as v c := by
  intro s
  have hpublish : (s.publish bare.machine).refused = none := rfl
  obtain ⟨⟨ending, w', hcourse⟩, hrun⟩ :=
    @exists_stepByStep Unit Eq bare (fun _ => rfl) bare_calm s hpublish .epoch
  exact ⟨fun _ => rfl, bare_calm, hpublish, ending, w', hcourse, hrun ending w' hcourse⟩

/-! ## Runs that nothing goes on beside -/

/-- At most, time has passed. -/
def World.Waited (w v : World σ) : Prop := w = v ∨ ∃ ms, v = pass ms w

/-- With a calm reporter a run alone is one of these runs, if it comes to an end. -/
theorem Engine.Calm.run_stepByStep {e : Engine σ} (hcalm : e.Calm) {s : Sequence}
    (hpublish : (s.publish e.machine).refused = none) {w w' : World σ} {ending : Ending Context}
    (h : e.run s w = (ending, w')) (hends : ending ≠ .stuck) :
    ∃ as v c, ending = .returned c ∧ e.StepByStep World.Waited s w as v c :=
  hcalm.stepByStep (fun _ => .inl rfl) hpublish
    (.of_complete (fun _ => .inl rfl) (fun ms _ => .inr ⟨ms, rfl⟩) h hends)

end Runbook
