import Runbook.Proofs.Run.Writers

/-!
# What results tell

With the built-in executors first, and others that spare the variables, the deeds of a step are told
by its result.  A completed step that sets a variable tells the pairs that it puts out, a step that
has scheduled a restart tells the variable that asks for one, and nothing else tells anything:
`Engine.Orderly.explained`.
-/

namespace Runbook

variable {σ : Type}

/-! ## Results -/

/-- The writes that the result of a step tells of. -/
def Step.writes (s : Step) (r : StepResult) : Pairs :=
  match s.kind with
  | .setVariable => if r.status = .completed then r.outputs else []
  | .restartComputer =>
      if Pairs.contains r.outputs "RestartScheduled" then [(restartVariable, "true")] else []
  | _ => []

/-- The deeds that the result of a step tells of. -/
def Step.deeds (s : Step) (r : StepResult) : List Deed :=
  (s.writes r).map fun p => ⟨r.started, p.1, p.2⟩

/-- The result of a step tells the deeds, and only a completed one tells any. -/
def Step.Tells (s : Step) (r : StepResult) (K : List Deed) : Prop :=
  K = s.deeds r ∧ (s.writes r ≠ [] → r.status = .completed)

theorem Step.tells_nil {s : Step} {r : StepResult} (h : s.writes r = []) : s.Tells r [] := by
  rw [Tells, deeds, h]
  exact ⟨rfl, fun hne => absurd rfl hne⟩

/-- A result without outputs tells nothing. -/
theorem Step.writes_of_outputs (s : Step) {r : StepResult} (h : r.outputs = []) :
    s.writes r = [] := by
  rw [writes, h]
  split
  · exact ite_self _
  · rfl
  · rfl

/-- The result of a step of another kind tells nothing. -/
theorem Step.writes_of_kind {s : Step} (hset : s.kind ≠ .setVariable)
    (hrestart : s.kind ≠ .restartComputer) (r : StepResult) : s.writes r = [] := by
  rw [writes]
  split
  · next h => exact absurd h hset
  · next h => exact absurd h hrestart
  · rfl

/-! ## Plans -/

section

variable {began : Timestamp} {K : List Deed} {o : Outcome} {s : Step}

theorem Outcome.result_completed {r : StepResult} (h : o.status = .completed) (now : Timestamp) :
    (o.result r now).status = .completed ∧ (o.result r now).outputs = o.outputs ∧
      (o.result r now).started = r.started := by
  rw [result, h]
  exact ⟨rfl, rfl, rfl⟩

theorem Outcome.outputs_result (o : Outcome) (r : StepResult) (now : Timestamp) :
    (o.result r now).outputs = o.outputs := by
  rw [result]
  split <;> rfl

/-- A step that fails without outputs tells nothing. -/
theorem Step.tells_of_outputs (h : o.outputs = []) (now : Timestamp) :
    s.Tells (o.result (s.begun began) now) [] :=
  Step.tells_nil (s.writes_of_outputs ((Outcome.outputs_result o _ now).trans h))

/-- A plan that is no process is told by the result, if the result of a write tells of it. -/
theorem Plan.Comes.tells {p : Plan} (h : p.Comes began K (.ok o))
    (hprocess : ∀ spec more, p ≠ .process spec more)
    (hwrite : ∀ name value outputs, p = .write name value outputs → ∀ r : StepResult,
      r.status = .completed → r.outputs = outputs → s.writes r = [(name, value)])
    (now : Timestamp) : s.Tells (o.result (s.begun began) now) K := by
  cases h with
  | failed _ houtputs => exact Step.tells_of_outputs houtputs now
  | process => exact absurd rfl (hprocess _ _)
  | written hstatus houtputs =>
    obtain ⟨hcompleted, hsame, hstarted⟩ :=
      Outcome.result_completed (r := s.begun began) hstatus now
    have hwrites := hwrite _ _ _ rfl _ hcompleted (hsame.trans houtputs)
    rw [Step.Tells, Step.deeds, hwrites, hstarted]
    exact ⟨rfl, fun _ => hcompleted⟩

theorem Step.tells_setVariable (hkind : s.kind = .setVariable) {store : Store}
    (h : (s.setVariablePlan store).Comes began K (.ok o)) (now : Timestamp) :
    s.Tells (o.result (s.begun began) now) K := by
  refine h.tells (fun spec more => ?_) (fun name value outputs hp r hstatus houtputs => ?_) now
  · rw [setVariablePlan]
    split <;> exact Plan.noConfusion
  · rw [setVariablePlan] at hp
    rw [writes, hkind]
    dsimp only
    rw [if_pos hstatus, houtputs]
    split at hp
    · cases hp
    · cases hp
      rfl

theorem Step.tells_restart (hkind : s.kind = .restartComputer) {store : Store}
    (h : (s.restartPlan store).Comes began K (.ok o)) (now : Timestamp) :
    s.Tells (o.result (s.begun began) now) K := by
  refine h.tells (fun spec more => ?_) (fun name value outputs hp r hstatus houtputs => ?_) now
  · rw [restartPlan]
    split <;> exact Plan.noConfusion
  · rw [restartPlan] at hp
    rw [writes, hkind, houtputs]
    split at hp
    · cases hp
    · cases hp
      rfl

/-- A plan that is no write does nothing. -/
theorem Plan.Comes.eq_nil_of_ne_write {p : Plan} {reply : Except ExecutionError Outcome}
    (h : p.Comes began K reply) (hp : ∀ name value outputs, p ≠ .write name value outputs) :
    K = [] := by
  cases h with
  | refused => rfl
  | failed => rfl
  | process => rfl
  | written => exact absurd rfl (hp _ _ _)

end

theorem Plan.ofSpec_ne_write (spec : Except ExecutionError ProcessSpec) (more : Pairs)
    (name value : String) (outputs : Pairs) :
    Plan.ofSpec spec more ≠ .write name value outputs := by
  cases spec <;> exact Plan.noConfusion

theorem Step.commandLinePlan_ne_write (s : Step) (store : Store) (name value : String)
    (outputs : Pairs) : s.commandLinePlan store ≠ .write name value outputs := by
  rw [commandLinePlan]
  split
  · exact Plan.noConfusion
  · exact Plan.ofSpec_ne_write _ _ _ _ _

theorem Step.scriptPlan_ne_write (s : Step) (store : Store) (name value : String)
    (outputs : Pairs) : s.scriptPlan store ≠ .write name value outputs := by
  rw [scriptPlan]
  split
  · exact Plan.noConfusion
  · exact Plan.ofSpec_ne_write _ _ _ _ _

/-! ## Engines -/

/-- Which executor a step is given to if the built-in ones come first. -/
theorem Registry.resolve?_builtin (host : Host σ) (more : Registry σ) (s : Step) :
    Registry.resolve? (Registry.builtin host ++ more) s =
      match s.kind with
      | .setVariable => some (.ofPlan host .setVariable Step.setVariablePlan)
      | .runCommandLine => some (.ofPlan host .runCommandLine Step.commandLinePlan)
      | .runPowerShell => some (.ofPlan host .runPowerShell Step.scriptPlan)
      | .restartComputer => some (.ofPlan host .restartComputer Step.restartPlan)
      | _ => more.resolve? s := by
  simp only [resolve?, builtin, List.cons_append, List.nil_append, List.find?_cons,
    Executor.ofPlan, Executor.ofKind]
  cases s.kind <;> rfl

namespace Engine

/-- The built-in executors come first, and the others spare the variables. -/
def Orderly (e : Engine σ) (host : Host σ) : Prop :=
  ∃ more, e.registry = Registry.builtin host ++ more ∧ ∀ x ∈ more, ∀ s c, (x.execute s c).Spares

variable {e : Engine σ} {host : Host σ} {ss : List Step} {c : Context}

/-- What an executor does that makes a plan is told by the result that it hands back. -/
theorem tells_ofPlan {s : Step} {kind : Kind} {plan : Step → Store → Plan}
    (htells : ∀ store began K o, (plan s store).Comes began K (.ok o) → ∀ now,
      s.Tells (o.result (s.begun began) now) K)
    (c : Context) {began : Timestamp} {m : Moment} (hfloor : m.floor.Before began)
    (hnow : began.notAfter m.now = true) :
    (World.onScene ((Executor.ofPlan host kind plan).execute s c)).Does (fun K r _ =>
      (∀ o, r = .returned (.ok o) → ∀ now, s.Tells (o.result (s.begun began) now) K) ∧
        ((∀ o, r ≠ .returned (.ok o)) → K = [])) m := by
  refine (Executor.does_ofPlan host kind plan s c hfloor hnow).mono fun K r _ hreply => ?_
  obtain ⟨store, reply, rfl, hcomes⟩ := hreply
  refine ⟨fun o ho => ?_, fun hno => hcomes.eq_nil fun o ho => hno o (congrArg _ ho)⟩
  cases ho
  exact htells store began K o hcomes

/-- The deeds of steps are told by their results. -/
theorem Orderly.explained (h : e.Orderly host) : e.Explained Step.Tells where
  closed s began status error ended := Step.tells_nil (s.writes_of_outputs rfl)
  executed s x hx c began m hfloor hnow := by
    obtain ⟨more, hregistry, hspares⟩ := h
    rw [hregistry, Registry.resolve?_builtin] at hx
    -- The plans of the two executors that start processes are no writes.
    have hidle : ∀ {plan : Step → Store → Plan}, s.kind ≠ .setVariable →
        s.kind ≠ .restartComputer →
        (∀ store name value outputs, plan s store ≠ .write name value outputs) →
        ∀ store began K o, (plan s store).Comes began K (.ok o) → ∀ now,
          s.Tells (o.result (s.begun began) now) K := by
      intro plan hset hrestart hplan store began K o hcomes now
      rw [hcomes.eq_nil_of_ne_write (hplan store)]
      exact Step.tells_nil (Step.writes_of_kind hset hrestart _)
    split at hx
    · next hkind =>
      cases hx
      exact tells_ofPlan (fun store began K o => Step.tells_setVariable hkind) c hfloor hnow
    · next hkind =>
      cases hx
      exact tells_ofPlan (hidle (by simp [hkind]) (by simp [hkind]) s.commandLinePlan_ne_write) c
        hfloor hnow
    · next hkind =>
      cases hx
      exact tells_ofPlan (hidle (by simp [hkind]) (by simp [hkind]) s.scriptPlan_ne_write) c
        hfloor hnow
    · next hkind =>
      cases hx
      exact tells_ofPlan (fun store began K o => Step.tells_restart hkind) c hfloor hnow
    · next hset _ _ hrestart =>
      refine ((hspares x (List.mem_of_find?_eq_some hx) s c).does m).mono fun K r _ hK => ?_
      rw [hK]
      exact ⟨fun o _ now => Step.tells_nil (Step.writes_of_kind hset hrestart _), fun _ => rfl⟩

end Engine
end Runbook
