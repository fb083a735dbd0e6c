import Mathlib.Data.List.Forall2
import Runbook.Builtin.Plan
import Runbook.Proofs.Run.Performance
import Runbook.Proofs.Run.Twins

/-!
# Stateless engines

The executors of a *stateless* engine depend on nothing but their steps, the variables, whether the
run is cancelled and what the record says apart from the identity of the run and from times.  They
may depend on their surroundings as far as `S` does not tell these apart.  Whether its reporter
panics depends on nothing but the report.

In like worlds such an engine does the like (`Engine.Stateless.twin_sequential`).  The built-in
executors are stateless if the host is (`Registry.stateless_builtin`).
-/

namespace Runbook

variable {σ : Type}

/-! ## Records without times -/

/-- The context without the identity of its run and without times. -/
def Context.timeless (c : Context) : Context :=
  { c with
    runId := ""
    started := c.started.map fun _ => ⟨0, 0⟩
    ended := c.ended.map fun _ => ⟨0, 0⟩
    results := c.results.map (·.timeless) }

/-- The report without identities of runs and times. -/
def Notice.timeless : Notice → Notice
  | .step r => .step r.timeless
  | .progress c => .progress c.timeless

/-- The results are the same apart from times, and `T` relates the times at which their steps were
begun. -/
structure StepResult.Alike (T : Timestamp → Timestamp → Prop) (r r' : StepResult) : Prop where
  /-- The results without times. -/
  timeless : r.timeless = r'.timeless
  /-- When the steps were begun. -/
  started : T r.started r'.started

/-- The contexts are the same apart from identities of runs and times, and so are their results. -/
structure Context.Alike (T : Timestamp → Timestamp → Prop) (c c' : Context) : Prop where
  /-- The identity of the sequence. -/
  sequenceId : c.sequenceId = c'.sequenceId
  /-- The name of the sequence. -/
  sequenceName : c.sequenceName = c'.sequenceName
  /-- The status. -/
  status : c.status = c'.status
  /-- Whether the run has started. -/
  started : c.started.isSome = c'.started.isSome
  /-- Whether it has ended. -/
  ended : c.ended.isSome = c'.ended.isSome
  /-- The variables that were published. -/
  published : c.published = c'.published
  /-- The step that was entered last. -/
  currentStep : c.currentStep = c'.currentStep
  /-- The results. -/
  results : List.Forall₂ (StepResult.Alike T) c.results c'.results

/-- Both runs have begun, or both were refused, with like contexts. -/
inductive Context.BothAlike (T : Timestamp → Timestamp → Prop) :
    Except Context Context → Except Context Context → Prop where
  /-- Both have begun. -/
  | begun {c c' : Context} : c.Alike T c' → BothAlike T (.ok c) (.ok c')
  /-- Both were refused. -/
  | refused {c c' : Context} : c.Alike T c' → BothAlike T (.error c) (.error c')

/-- The replies are the same apart from the times at which steps are said to have ended. -/
inductive Reply.Alike : Reply → Reply → Prop where
  /-- Both are outcomes. -/
  | outcome {o o' : Outcome} : { o with ended := none } = { o' with ended := none } →
      Alike (.ok (.ok o)) (.ok (.ok o'))
  /-- Both are errors. -/
  | refused (f : ExecutionError) : Alike (.ok (.error f)) (.ok (.error f))
  /-- Both are panics. -/
  | panicked (m : Option String) : Alike (.error m) (.error m)

section

variable {T : Timestamp → Timestamp → Prop}

theorem StepResult.timeless_eq {rs rs' : List StepResult}
    (h : List.Forall₂ (StepResult.Alike T) rs rs') :
    rs.map (·.timeless) = rs'.map (·.timeless) := by
  induction h with
  | nil => rfl
  | cons hr _ ih => rw [List.map_cons, List.map_cons, hr.timeless, ih]

theorem StepResult.status_eq {r r' : StepResult} (h : r.timeless = r'.timeless) :
    r.status = r'.status :=
  (congrArg StepResult.status h : r.timeless.status = r'.timeless.status)

theorem StepResult.isFailed_eq {r r' : StepResult} (h : r.Alike T r') :
    r.isFailed = r'.isFailed := by
  rw [isFailed, isFailed, status_eq h.timeless]

theorem StepResult.Alike.notice {r r' : StepResult} (h : r.Alike T r') :
    (Notice.step r).timeless = (Notice.step r').timeless :=
  congrArg Notice.step h.timeless

/-- Like results that are closed alike. -/
theorem StepResult.Alike.close {r r' : StepResult} (h : r.Alike T r') (status : Status)
    (error : Option String) (now now' : Timestamp) :
    (r.close status error now).Alike T (r'.close status error now') :=
  ⟨congrArg (fun r => (r.close status error ⟨0, 0⟩).timeless) h.timeless, h.started⟩

theorem Step.alike_begun (s : Step) {began began' : Timestamp} (h : T began began') :
    (s.begun began).Alike T (s.begun began') :=
  ⟨rfl, h⟩

theorem Step.alike_result (s : Step) {began began' : Timestamp} (h : T began began')
    {o o' : Outcome} (ho : { o with ended := none } = { o' with ended := none })
    (now now' : Timestamp) :
    (o.result (s.begun began) now).Alike T (o'.result (s.begun began') now') := by
  refine ⟨by rw [timeless_result, timeless_result, ho], ?_⟩
  rw [(o.closes_result _ now).started, (o'.closes_result _ now').started]
  exact h

theorem map_eq_of_isSome {α β : Type} {a a' : Option α} (h : a.isSome = a'.isSome) (b : β) :
    (a.map fun _ => b) = a'.map fun _ => b := by
  cases a <;> cases a' <;> first | rfl | cases h

namespace Context.Alike

variable {c c' : Context}

theorem timeless (h : c.Alike T c') : c.timeless = c'.timeless := by
  simp only [Context.timeless, h.sequenceId, h.sequenceName, h.status, h.published, h.currentStep,
    map_eq_of_isSome h.started, map_eq_of_isSome h.ended, StepResult.timeless_eq h.results]

theorem notice (h : c.Alike T c') :
    (Notice.progress c).timeless = (Notice.progress c').timeless :=
  congrArg Notice.progress h.timeless

theorem enter (h : c.Alike T c') (s : Step) : (c.enter s).Alike T (c'.enter s) :=
  { h with currentStep := rfl }

theorem record (h : c.Alike T c') {r r' : StepResult} (hr : r.Alike T r') :
    (c.record r).Alike T (c'.record r') :=
  { h with results := List.rel_append h.results (.cons hr .nil) }

/-- Branches begin without results, and so without times to relate. -/
theorem branch {U : Timestamp → Timestamp → Prop} (h : c.Alike T c') :
    c.branch.Alike U c'.branch :=
  { h with ended := rfl, currentStep := rfl, results := .nil }

theorem withStatus (h : c.Alike T c') (status : Status) :
    Context.Alike T { c with status := status } { c' with status := status } :=
  { h with status := rfl }

theorem finish (h : c.Alike T c') (status : Status) (now now' : Timestamp) :
    (c.finish status now).Alike T (c'.finish status now') := by
  refine { h with status := ?_, ended := rfl }
  simp only [Context.finish, h.status]

end Context.Alike

end

/-! ## Engines -/

/-- What the engine does depends on nothing but steps, variables, whether the run is cancelled, the
record apart from the identity of the run and from times, and what `S` says of surroundings. -/
structure Engine.Stateless (S : σ → σ → Prop) (e : Engine σ) : Prop where
  /-- This is so of its executors. -/
  executors : ∀ x ∈ e.registry, ∀ s c c', c.timeless = c'.timeless →
    (x.execute s c).Twin (Scene.Alike S) (fun a b => Reply.Alike (.ok a) (.ok b)) (x.execute s c')
  /-- Whether the reporter panics depends on nothing but the report. -/
  reporter : ∀ reporter ∈ e.reporter, ∀ n n', n.timeless = n'.timeless → ∀ earlier earlier' m,
    reporter.respond earlier n = .panicked m → reporter.respond earlier' n' = .panicked m

namespace Engine.Stateless

open Activity (twin_stamp)

variable {S : σ → σ → Prop} {T : Timestamp → Timestamp → Prop} {e : Engine σ} {c c' : Context}
  {r r' : StepResult} {began began' : Timestamp}

theorem twin_tell (h : e.Stateless S) {n n' : Notice} (hn : n.timeless = n'.timeless) :
    (e.tell n).Twin (World.Alike T S) (fun _ _ => True) (e.tell n') := by
  rw [tell, tell]
  cases hreporter : e.reporter with
  | none => exact .done trivial
  | some reporter =>
    refine .look fun w v _ => ?_
    have hthere := h.reporter reporter hreporter n n' hn w.notices v.notices
    have hback := h.reporter reporter hreporter n' n hn.symm v.notices w.notices
    split
    · next m hw =>
      rw [hthere m hw]
      exact .panic m
    · next hw =>
      split
      · next m hv => exact absurd (hback m hv) (hw m)
      · exact .update (fun w v hwv => ⟨hwv.scene, hwv.clock⟩) (.done trivial)

theorem twin_record (h : e.Stateless S) (hr : r.Alike T r') (hc : c.Alike T c') :
    (e.record r c).Twin (World.Alike T S) (Context.Alike T) (e.record r' c') :=
  (h.twin_tell hr.notice).bind fun _ _ _ => .done (hc.record hr)

theorem twin_close (hT : Timestamp.Paced T) (hr : r.Alike T r') (status : Status)
    (error : Option String) :
    (close r status error : Activity (World σ) StepResult).Twin (World.Alike T S)
      (StepResult.Alike T) (close r' status error) :=
  (twin_stamp hT).bind fun now now' _ => .done (hr.close status error now now')

theorem twin_dispatch (h : e.Stateless S) (hT : Timestamp.Paced T) (s : Step)
    (hc : c.Alike T c') (hbegan : T began began') :
    (e.dispatch s c (s.begun began)).Twin (World.Alike T S) (StepResult.Alike T)
      (e.dispatch s c' (s.begun began')) := by
  rw [dispatch, dispatch]
  split
  · exact twin_close hT (s.alike_begun hbegan) _ _
  · next x hx =>
    have hexecute := h.executors x (List.mem_of_find?_eq_some hx) s c c' hc.timeless
    have hcaught : (World.onScene (x.execute s c)).caught.Twin (World.Alike T S) Reply.Alike
        (World.onScene (x.execute s c')).caught :=
      hexecute.onScene.caught (fun _ _ hab => hab) .panicked
    refine hcaught.bind fun a b hab => ?_
    cases hab with
    | outcome ho =>
      exact (twin_stamp hT).bind fun now now' _ => .done (s.alike_result hbegan ho now now')
    | refused f => exact twin_close hT (s.alike_begun hbegan) _ _
    | panicked m => exact twin_close hT (s.alike_begun hbegan) _ _

theorem twin_closeGroup (hT : Timestamp.Paced T) (s : Step) (hbegan : T began began') :
    ∀ culprit : Option String, (closeGroup s began culprit : Activity (World σ) StepResult).Twin
      (World.Alike T S) (StepResult.Alike T) (closeGroup s began' culprit)
  | some _ => twin_close hT (s.alike_begun hbegan) _ _
  | none => twin_close hT (s.alike_begun hbegan) _ _

mutual

theorem twin_runStep (h : e.Stateless S) (hT : Timestamp.Paced T) :
    ∀ (s : Step) {c c' : Context}, c.Alike T c' →
      (e.runStep s c).Twin (World.Alike T S) (fun p q => p.1.Alike T q.1 ∧ p.2.Alike T q.2)
        (e.runStep s c')
  | .mk i n d k enabled goesOn cs ps ss, c, c', hc => by
      rw [runStep_eq, runStep_eq]
      refine (twin_stamp hT).bind fun began began' hbegan => .look fun w v hwv => ?_
      have hc := hc.enter (.mk i n d k enabled goesOn cs ps ss)
      rw [proceed, proceed, hwv.scene.store]
      split
      · exact (twin_close hT (Step.alike_begun _ hbegan) _ _).bind fun _ _ hr => .done ⟨hr, hc⟩
      split
      · refine (twin_runChildren h hT ss hc).bind fun p q hpq => ?_
        obtain ⟨culprit, c₁⟩ := p
        obtain ⟨_, c₁'⟩ := q
        obtain ⟨rfl, hc₁⟩ := hpq
        exact (twin_closeGroup hT _ hbegan culprit).bind fun _ _ hr => .done ⟨hr, hc₁⟩
      · exact (h.twin_dispatch hT _ hc hbegan).bind fun _ _ hr => .done ⟨hr, hc⟩
termination_by structural s => s

theorem twin_runChildren (h : e.Stateless S) (hT : Timestamp.Paced T) :
    ∀ (ss : List Step) {c c' : Context}, c.Alike T c' →
      (e.runChildren ss c).Twin (World.Alike T S) (fun p q => p.1 = q.1 ∧ p.2.Alike T q.2)
        (e.runChildren ss c')
  | [], c, c', hc => .done ⟨rfl, hc⟩
  | s :: ss, c, c', hc => by
      simp only [runChildren]
      refine (twin_runStep h hT s hc).bind fun p q hpq =>
        (h.twin_record hpq.1 hpq.2).bind fun c₁ c₁' hc₁ => ?_
      rw [StepResult.isFailed_eq hpq.1]
      split
      · exact .done ⟨rfl, hc₁⟩
      · exact twin_runChildren h hT ss hc₁
termination_by structural ss => ss

end

/-! ## Runs -/

theorem twin_begin (hT : Timestamp.Paced T) (s : Sequence) :
    (e.begin s).Twin (World.Alike T S) (Context.BothAlike T) (e.begin s) := by
  simp only [begin, Activity.bind_eq]
  refine (twin_stamp hT).bind fun now now' _ => ?_
  have hstart : Context.Alike T
      { (Context.new (e.identify now) s.id s.name).start now with
        published := (s.publish e.machine).declared }
      { (Context.new (e.identify now') s.id s.name).start now' with
        published := (s.publish e.machine).declared } :=
    ⟨rfl, rfl, rfl, rfl, rfl, rfl, rfl, .nil⟩
  refine .update (fun w v hwv => ⟨⟨rfl, hwv.scene.cancelled, hwv.scene.surroundings⟩, hwv.clock⟩) ?_
  dsimp only [Activity.bind]
  split
  · exact .done (.begun hstart)
  · exact (twin_stamp hT).bind fun last last' _ => .done (.refused (hstart.finish _ last last'))

theorem twin_conclude {U : Timestamp → Timestamp → Prop} (h : e.Stateless S) (hc : c.Alike U c') :
    (e.conclude c).Twin (World.Alike T S) (Context.Alike U) (e.conclude c') :=
  (h.twin_tell hc.notice).bind fun _ _ _ => .done hc

theorem twin_finish {U : Timestamp → Timestamp → Prop} (h : e.Stateless S)
    (hT : Timestamp.Paced T) (status : Status) (hc : c.Alike U c') :
    (e.finish status c).Twin (World.Alike T S) (Context.Alike U) (e.finish status c') :=
  (twin_stamp hT).bind fun now now' _ => h.twin_conclude (hc.finish status now now')

theorem twin_runSteps (h : e.Stateless S) (hT : Timestamp.Paced T) :
    ∀ (ss : List Step) {c c' : Context}, c.Alike T c' →
      (e.runSteps ss c).Twin (World.Alike T S) (Context.Alike T) (e.runSteps ss c')
  | [], _, _, hc => .done hc
  | s :: ss, c, c', hc => by
      simp only [runSteps]
      refine .look fun w v hwv => ?_
      dsimp only [Activity.bind]
      rw [hwv.scene.cancelled]
      split
      · exact .done (hc.withStatus _)
      refine (h.twin_runStep hT s hc).bind fun p q hpq =>
        (h.twin_record hpq.1 hpq.2).bind fun c₁ c₁' hc₁ =>
          (h.twin_tell hc₁.notice).bind fun _ _ _ => ?_
      rw [StepResult.isFailed_eq hpq.1]
      split
      · exact .done (hc₁.withStatus _)
      · exact twin_runSteps h hT ss hc₁

/-- In like worlds sequential runs of a stateless engine do the like. -/
theorem twin_sequential (h : e.Stateless S) (hT : Timestamp.Paced T) (s : Sequence) :
    (e.sequential s).Twin (World.Alike T S) (Context.Alike T) (e.sequential s) := by
  refine (twin_begin hT s).bind fun started started' hstarted => ?_
  cases hstarted with
  | begun hc =>
    exact (h.twin_runSteps hT s.steps hc).bind fun _ _ hc₁ => h.twin_finish hT .completed hc₁
  | refused hc => exact h.twin_conclude hc

/-- A stateless engine is stateless when it is watched. -/
theorem watched (h : e.Stateless S) :
    e.watched.Stateless fun p q => S p.1 q.1 ∧ p.2 = q.2 where
  executors := by
    intro x hx s c c' hc
    obtain ⟨y, hy, rfl⟩ := List.mem_map.mp hx
    refine .update (fun w v hwv => ⟨hwv.store, hwv.cancelled, hwv.surroundings.1, ?_⟩) ?_
    · simp only [Scene.noting, hwv.surroundings.2]
    · exact (h.executors y hy s c c' hc).rewatched
  reporter := h.reporter

end Engine.Stateless

/-! ## The built-in executors -/

/-- What the host starts depends on its surroundings only as far as `S` tells these apart. -/
def Host.Stateless (S : σ → σ → Prop) (host : Host σ) : Prop :=
  ∀ launch u v, S u v → (host.start launch u).1 = (host.start launch v).1 ∧
    S (host.start launch u).2 (host.start launch v).2

section

variable {S : σ → σ → Prop} {host : Host σ}

theorem Execution.twin_close (status : Status) (error : Option String) (outputs : Pairs) :
    (close status error outputs : Execution σ).Twin (Scene.Alike S)
      (fun a b => Reply.Alike (.ok a) (.ok b)) (close status error outputs) :=
  .look fun _ _ _ => .done (.outcome rfl)

/-- Running a process depends on nothing but what the host makes of it. -/
theorem ProcessSpec.twin_run (spec : ProcessSpec) (h : host.Stateless S) (more : Pairs) :
    (spec.run host more).Twin (Scene.Alike S) (fun a b => Reply.Alike (.ok a) (.ok b))
      (spec.run host more) := by
  refine .look fun s t hst => ?_
  obtain ⟨hreply, hafter⟩ := h spec.launch _ _ hst.surroundings
  refine .update (fun u v huv => ⟨huv.store, huv.cancelled, hafter⟩) ?_
  rw [hreply]
  split
  · exact Execution.twin_close _ _ _
  · refine .await fun cancelled => ?_
    split
    · exact Execution.twin_close _ _ _
    split
    · exact Execution.twin_close _ _ _
    split
    · exact Execution.twin_close _ _ _
    · exact Execution.twin_close _ _ _

theorem Plan.twin_follow (h : host.Stateless S) : ∀ p : Plan,
    (p.follow host).Twin (Scene.Alike S) (fun a b => Reply.Alike (.ok a) (.ok b)) (p.follow host)
  | .refuse f => .done (.refused f)
  | .fail _ => Execution.twin_close _ _ _
  | .process spec more => spec.twin_run h more
  | .write name value outputs => by
      refine .look fun s t hst => ?_
      rw [hst.store]
      split
      · next store _ =>
        exact .update (fun u v huv => ⟨rfl, huv.cancelled, huv.surroundings⟩)
          (Execution.twin_close _ _ _)
      · exact .done (.refused _)

/-- The built-in executors are stateless if the host is. -/
theorem Registry.stateless_builtin (h : host.Stateless S) :
    ∀ x ∈ Registry.builtin host, ∀ s c c', (x.execute s c).Twin (Scene.Alike S)
      (fun a b => Reply.Alike (.ok a) (.ok b)) (x.execute s c') := by
  have hplan : ∀ kind plan s c c', ((Executor.ofPlan host kind plan).execute s c).Twin
      (Scene.Alike S) (fun a b => Reply.Alike (.ok a) (.ok b))
        ((Executor.ofPlan host kind plan).execute s c') := by
    refine fun kind plan s c c' => .look fun u v huv => ?_
    rw [huv.store]
    exact Plan.twin_follow h _
  intro x hx
  simp only [Registry.builtin, List.mem_cons, List.not_mem_nil, or_false] at hx
  obtain rfl | rfl | rfl | rfl := hx
  · exact hplan _ _
  · exact hplan _ _
  · exact hplan _ _
  · exact hplan _ _

end

end Runbook
