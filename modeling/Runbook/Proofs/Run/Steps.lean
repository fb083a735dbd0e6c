import Runbook.Proofs.Run.Account

/-!
# What a step comes to

With a reporter that is *calm*, which means that it does not panic, running a step and recording its
result comes to an end by the rules of `Engine.Ran`, whatever executors do and whatever goes on
beside: `Engine.exists_ran`.
-/

namespace Runbook

namespace Engine

variable {σ : Type} {others : World σ → World σ → Prop} (e : Engine σ)

/-! ## Calm reporters -/

/-- The reporter, if there is one, does not panic. -/
def Calm : Prop := ∀ reporter ∈ e.reporter, ∀ earlier n m, reporter.respond earlier n ≠ .panicked m

variable {e}

theorem Calm.course_tell (h : e.Calm) {n : Notice} {w w' : World σ} {r : Ending Unit}
    (hcourse : (e.tell n).Course others w r w') : r = .returned () := by
  rw [tell] at hcourse
  split at hcourse
  · exact hcourse.of_done.1
  · next reporter hreporter =>
    obtain ⟨v, -, hnext⟩ := hcourse.of_look
    split at hnext
    · next m hpanic => exact absurd hpanic (h reporter hreporter _ _ m)
    · obtain ⟨_, _, hreturned, _⟩ := hnext.of_modify
      exact hreturned

theorem Calm.course_record (h : e.Calm) {r : StepResult} {c : Context} {w w' : World σ}
    {ending : Ending Context} (hcourse : (e.record r c).Course others w ending w') :
    ending = .returned (c.record r) := by
  rw [record, Activity.bind_eq] at hcourse
  obtain ⟨_, _, _, hdone⟩ | ⟨_, hpanic, _⟩ := hcourse.of_bind
  · exact hdone.of_done.1
  · cases h.course_tell hpanic

/-! ## Steps -/

variable (e)

/-- Closes the result of a group, by the name of the child that stopped it. -/
def closeGroup (s : Step) (began : Timestamp) : Option String → Activity (World σ) StepResult
  | some name => close (s.begun began) .failed (some ("Child step failed: " ++ name))
  | none => close (s.begun began) .completed none

/-- What is left of a step once its conditions were looked at. -/
def proceed (s : Step) (c : Context) (began : Timestamp) (store : Store) :
    Activity (World σ) (StepResult × Context) :=
  if !s.isDue store then do
    let r ← close (s.begun began) .completed none
    return (r, c.enter s)
  else if s.isGroup then do
    let (culprit, c) ← e.runChildren s.children (c.enter s)
    let r ← closeGroup s began culprit
    return (r, c)
  else do
    let r ← e.dispatch s (c.enter s) (s.begun began)
    return (r, c.enter s)

theorem runStep_eq (s : Step) (c : Context) :
    e.runStep s c = World.stamp.bind fun began => .look fun v => e.proceed s c began v.store := by
  cases s with
  | mk i n d k enabled goesOn cs ps ss =>
    rw [runStep]
    simp only [← Bool.not_and]
    refine congrArg _ (funext fun began => congrArg _ (funext fun v => ?_))
    refine ite_congr rfl (fun _ => rfl) fun _ => ite_congr rfl (fun _ => ?_) fun _ => rfl
    refine congrArg _ (funext fun p => ?_)
    cases p with
    | mk culprit c => cases culprit <;> rfl

variable {e}

theorem course_runStep {s : Step} {c : Context} {w w' : World σ}
    {ending : Ending (StepResult × Context)} (h : (e.runStep s c).Course others w ending w') :
    ∃ began v, Begun others w began v ∧
      (e.proceed s c began v.store).Course others v ending w' := by
  rw [runStep_eq] at h
  obtain ⟨began, u, hstamp, h⟩ | ⟨m, hpanic, -⟩ := h.of_bind
  · obtain ⟨v, huv, hrest⟩ := Activity.Course.of_look h
    exact ⟨began, v, ⟨u, hstamp, huv⟩, hrest⟩
  · exact absurd hpanic not_course_stamp

theorem course_closeGroup {s : Step} {began : Timestamp} {w w' : World σ}
    {ending : Ending StepResult} :
    ∀ {culprit : Option Step},
      (closeGroup s began (culprit.map Step.name)).Course others w ending w' →
        ∃ ended, ending = .returned (s.closed culprit began ended) ∧
          World.stamp.Course others w (.returned ended) w'
  | some _, h => course_close h
  | none, h => course_close h

/-- A result goes on with a context. -/
theorem of_bind_pair {x : Activity (World σ) StepResult} {c : Context} {w w' : World σ}
    {ending : Ending (StepResult × Context)}
    (h : (x.bind fun r => .done (r, c)).Course others w ending w')
    (hx : ∀ m v, ¬ x.Course others w (.panicked m) v) :
    ∃ r, ending = .returned (r, c) ∧ x.Course others w (.returned r) w' := by
  obtain ⟨r, v, hr, hdone⟩ := h.of_bind_of_returns hx
  obtain ⟨rfl, rfl⟩ := hdone.of_done
  exact ⟨r, rfl, hr⟩

mutual

/-- With a calm reporter a step is run by the rules, up to the recording of its result. -/
theorem Calm.ran_of_runStep (hcalm : e.Calm) {c : Context} {w t : World σ}
    {ending : Ending (StepResult × Context)} :
    ∀ {s : Step}, (e.runStep s c).Course others w ending t →
      ∃ own as c₁, ending = .returned (own, c₁) ∧
        ∀ {c' w'}, (e.record own c₁).Course others t (.returned c') w' →
          e.Ran others s c w ⟨own, as⟩ c' w'
  | .mk i n d k enabled goesOn cs ps ss, h => by
      obtain ⟨began, v, hbegun, h⟩ := course_runStep h
      rw [proceed] at h
      split at h
      · next hdue =>
        obtain ⟨_, rfl, hclose⟩ := of_bind_pair h fun _ _ hpanic => by
          obtain ⟨_, hreturned, -⟩ := course_close hpanic
          cases hreturned
        obtain ⟨ended, hown, hstamp⟩ := course_close hclose
        cases hown
        exact ⟨_, [], _, rfl, fun hrecord =>
          .skipped hbegun (Bool.not_eq_true' _ ▸ hdue) hstamp hrecord⟩
      next hdue =>
      rw [Bool.not_eq_true, Bool.not_eq_false'] at hdue
      split at h
      · next hgroup =>
        rw [Activity.bind_eq] at h
        obtain ⟨⟨_, c₁⟩, u, hchildren, h⟩ | ⟨m, hpanic, -⟩ := h.of_bind
        · obtain ⟨as, c₂, hreturned, hran, hupTo, hall⟩ := Calm.ran_of_runChildren hcalm hchildren
          cases hreturned
          obtain ⟨_, rfl, hclose⟩ := of_bind_pair h fun _ _ hpanic => by
            obtain ⟨_, hreturned, -⟩ := course_closeGroup hpanic
            cases hreturned
          obtain ⟨ended, hown, hstamp⟩ := course_closeGroup hclose
          cases hown
          exact ⟨_, as, c₁, rfl, fun hrecord =>
            .group hbegun hdue hgroup hran hupTo hall hstamp hrecord⟩
        · obtain ⟨_, _, hreturned, -⟩ := Calm.ran_of_runChildren hcalm hpanic
          cases hreturned
      · next hgroup =>
        obtain ⟨own, rfl, hdispatch⟩ := of_bind_pair h fun _ _ hpanic => by
          obtain ⟨_, hreturned, -⟩ := e.course_dispatch hpanic
          cases hreturned
        exact ⟨own, [], _, rfl, fun hrecord =>
          .executed hbegun hdue (Bool.not_eq_true _ ▸ hgroup) hdispatch hrecord⟩
termination_by structural s => s

/-- With a calm reporter the children of a group are run by the rules. -/
theorem Calm.ran_of_runChildren (hcalm : e.Calm) {c : Context} {w t : World σ}
    {ending : Ending (Option String × Context)} :
    ∀ {ss : List Step}, (e.runChildren ss c).Course others w ending t →
      ∃ as c₁, ending = .returned ((culprit? ss as).map Step.name, c₁) ∧
        e.RanAll others (ss.take as.length) c w as c₁ t ∧ UpTo ss as ∧
        (culprit? ss as = none → as.length = ss.length)
  | [], h => by
      obtain ⟨rfl, rfl⟩ := h.of_done
      exact ⟨[], c, rfl, .nil, .nil _, fun _ => rfl⟩
  | s :: ss, h => by
      simp only [runChildren, Activity.bind_eq] at h
      obtain ⟨⟨own, c₁⟩, u, hstep, h⟩ | ⟨m, hpanic, -⟩ := h.of_bind
      · obtain ⟨_, as, _, hreturned, hran⟩ := Calm.ran_of_runStep hcalm hstep
        cases hreturned
        obtain ⟨c₂, v, hrecord, h⟩ := h.of_bind_of_returns fun m _ hpanic => by
          cases hcalm.course_record hpanic
        have hfirst := hran hrecord
        split at h
        · next hstops =>
          obtain ⟨rfl, rfl⟩ := h.of_done
          have hown : s.stops own = true := hstops
          have hculprit : culprit? (s :: ss) [⟨own, as⟩] = some s :=
            culprit?_single (a := ⟨own, as⟩) hown ss
          refine ⟨[⟨own, as⟩], c₂, ?_, .cons hfirst .nil, .single s ss _, ?_⟩
          · rw [hculprit]
            rfl
          · rw [hculprit]
            intro hnone
            cases hnone
        · next hgoesOn =>
          have hown : s.stops own = false := Bool.eq_false_iff.mpr hgoesOn
          obtain ⟨bs, c₃, hreturned, hrest, hupTo, hall⟩ := Calm.ran_of_runChildren hcalm h
          refine ⟨⟨own, as⟩ :: bs, c₃, ?_, .cons hfirst hrest, hupTo.cons hown, ?_⟩
          · rw [culprit?_cons hown]
            exact hreturned
          · rw [culprit?_cons hown]
            exact fun hnone => congrArg (· + 1) (hall hnone)
      · obtain ⟨_, _, _, hreturned, -⟩ := Calm.ran_of_runStep hcalm hpanic
        cases hreturned
termination_by structural ss => ss

end

/-! ## Steps and their results -/

variable (e)

/-- Runs a step and records its result. -/
def visit (s : Step) (c : Context) : Activity (World σ) (StepResult × Context) := do
  let (r, c) ← e.runStep s c
  let c ← e.record r c
  return (r, c)

variable {e}

/-- With a calm reporter a step is run, and its result recorded, by the rules. -/
theorem Calm.ran_of_visit (hcalm : e.Calm) {s : Step} {c : Context} {w w' : World σ}
    {ending : Ending (StepResult × Context)} (h : (e.visit s c).Course others w ending w') :
    ∃ a c', ending = .returned (a.own, c') ∧ e.Ran others s c w a c' w' := by
  simp only [visit, Activity.bind_eq] at h
  obtain ⟨⟨own, c₁⟩, u, hstep, h⟩ | ⟨m, hpanic, -⟩ := h.of_bind
  · obtain ⟨_, as, _, hreturned, hran⟩ := hcalm.ran_of_runStep hstep
    cases hreturned
    obtain ⟨c', v, hrecord, hdone⟩ := h.of_bind_of_returns fun m _ hpanic => by
      cases hcalm.course_record hpanic
    obtain ⟨rfl, rfl⟩ := hdone.of_done
    exact ⟨⟨own, as⟩, c', rfl, hran hrecord⟩
  · obtain ⟨_, _, _, hreturned, -⟩ := hcalm.ran_of_runStep hpanic
    cases hreturned

/-- Whatever executors do and whatever goes on beside, with a calm reporter a step comes to an end
by the rules.  It adds its block to the record, with its own result as the last one, and no step of
its tree has two results there. -/
theorem exists_ran (hothers : ∀ w, others w w) (hcalm : e.Calm) (s : Step) (c : Context)
    (w : World σ) :
    (∃ ending w', (e.visit s c).Course others w ending w') ∧
      ∀ ending w', (e.visit s c).Course others w ending w' →
        ∃ a c', ending = .returned (a.own, c') ∧ e.Ran others s c w a c' w' ∧
          c'.results = c.results ++ a.block ∧
          (a.block.map (·.key)).Sublist (s.postorder.map (·.key)) := by
  refine ⟨Activity.exists_course hothers _ w, fun ending w' h => ?_⟩
  obtain ⟨a, c', hreturned, hran⟩ := hcalm.ran_of_visit h
  exact ⟨a, c', hreturned, hran, Ran.results e hran, Ran.keys_sublist e hran⟩

/-- An engine without executors and without a reporter. -/
def bare : Engine Unit := ⟨[], none, "host", fun _ => "run"⟩

theorem bare_calm : bare.Calm := by
  intro reporter hreporter
  cases hreporter

end Engine

/-- An enabled step without conditions and properties. -/
def Step.plain (id name : String) (kind : Kind) (children : List Step) : Step :=
  .mk id name "" kind true false [] [] children

/-- The world at the start of 1970. -/
def World.epoch : World Unit := ⟨⟨Store.empty, false, ⟨0, 0⟩, ()⟩, []⟩

/-- A group with a child that nobody claims, run alone. -/
theorem Engine.exists_ran_plain :
    let s := Step.plain "a" "A" .group [.plain "b" "B" .custom []]
    let c := Context.new "run" "1" "one"
    (∀ w : World Unit, w = w) ∧ bare.Calm ∧
      ∃ ending w', (bare.visit s c).Course Eq .epoch ending w' ∧
        ∃ a c', ending = .returned (a.own, c') ∧ bare.Ran Eq s c .epoch a c' w' ∧
          c'.results = [] ++ a.block ∧
          (a.block.map (·.key)).Sublist [("b", "B"), ("a", "A")] := by
  intro s c
  obtain ⟨⟨ending, w', hcourse⟩, hran⟩ :=
    @exists_ran Unit Eq bare (fun _ => rfl) bare_calm s c .epoch
  exact ⟨fun _ => rfl, bare_calm, ending, w', hcourse, hran ending w' hcourse⟩

end Runbook
