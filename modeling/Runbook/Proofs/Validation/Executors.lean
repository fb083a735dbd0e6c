import Runbook.Proofs.Run.Answers
import Runbook.Proofs.Run.Recorded
import Runbook.Validation

/-!
# Steps that nothing can execute

A warning says that no executor is registered for a step.  A run comes upon such a step through
groups, conditions and flags, while validation walks through the whole tree, and the two ask the
registry different questions.

To tell which steps a run fails because none of its executors claims them, the engine is *supplied*
with one more executor at the end of its registry.  It takes what the others leave and fails it just
as the engine does, so it changes no run (`Engine.runs_supplied`); but watched it shows which steps
are left to it.  `Engine.foretells` says that validation foretells them.
-/

namespace Runbook

variable {σ : Type} {others : World σ → World σ → Prop}

/-- Fails every step as one that no executor claims. -/
def Executor.stopgap : Executor σ where
  kind := .custom
  claims _ := true
  execute s _ := .done (.ok ⟨.failed, some (ExecutionError.noExecutor s.kind).message, [], none⟩)

/-- The engine with an executor for the steps that no other executor claims. -/
def Engine.supplied (e : Engine σ) : Engine σ :=
  { e with registry := e.registry ++ [.stopgap] }

namespace Engine

variable (e : Engine σ)

/-! ## Runs with one more executor -/

theorem resolve?_supplied (t : Step) :
    e.supplied.registry.resolve? t = some ((e.registry.resolve? t).getD .stopgap) := by
  have hlast : List.find? (fun x : Executor σ => x.claims t) [.stopgap] = some .stopgap := rfl
  rw [Registry.resolve?, supplied, List.find?_append, hlast, ← Registry.resolve?]
  cases e.registry.resolve? t <;> rfl

/-- A step that nobody claims fails either way. -/
theorem dispatch_supplied (t : Step) (c : Context) (began : Timestamp) :
    e.supplied.dispatch t c (t.begun began) = e.dispatch t c (t.begun began) := by
  rw [dispatch, dispatch, resolve?_supplied]
  cases e.registry.resolve? t <;> rfl

mutual

theorem runStep_supplied : ∀ (s : Step) (c : Context), e.supplied.runStep s c = e.runStep s c
  | .mk i n d k enabled goesOn cs ps ss, c => by
      rw [runStep_eq, runStep_eq]
      refine congrArg _ (funext fun began => congrArg _ (funext fun v => ?_))
      rw [proceed, proceed, dispatch_supplied]
      refine ite_congr rfl (fun _ => rfl) fun _ => ite_congr rfl (fun _ => ?_) fun _ => rfl
      exact congrArg (Activity.bind · _) (runChildren_supplied ss _)
termination_by structural s => s

theorem runChildren_supplied : ∀ (ss : List Step) (c : Context),
    e.supplied.runChildren ss c = e.runChildren ss c
  | [], _ => rfl
  | s :: ss, c => by
      simp only [runChildren, runStep_supplied s, runChildren_supplied ss]
      rfl
termination_by structural ss => ss

end

theorem runSteps_supplied : ∀ (ss : List Step) (c : Context),
    e.supplied.runSteps ss c = e.runSteps ss c
  | [], _ => rfl
  | s :: ss, c => by
      simp only [runSteps, runStep_supplied, runSteps_supplied ss]
      rfl

theorem sequential_supplied (s : Sequence) : e.supplied.sequential s = e.sequential s := by
  simp only [sequential, runSteps_supplied]
  rfl

theorem turn_supplied (f : Fan σ) (i : Nat) (w : World σ) :
    e.supplied.turn f i w = e.turn f i w := by
  have hbranch : ∀ s c, e.supplied.branch s c = e.branch s c := by
    intro s c
    rw [branch, branch, runStep_supplied]
    rfl
  simp only [turn, hbranch]

theorem afterTurn_supplied (ss : List Step) (c : Context) (x : Flight σ) (i : Nat) :
    e.supplied.afterTurn ss c x i = e.afterTurn ss c x i := by
  simp only [afterTurn, turn_supplied]

theorem reaches_supplied {ss : List Step} {c : Context} {bound : Nat} {w₀ : World σ}
    {x : Flight σ} :
    e.supplied.Reaches others ss c bound w₀ x ↔ e.Reaches others ss c bound w₀ x := by
  constructor
  · intro h
    induction h with
    | start => exact .start
    | turn i _ ih => exact e.afterTurn_supplied ss c _ i ▸ ih.turn i
    | others _ hv ih => exact .others ih hv
  · intro h
    induction h with
    | start => exact .start
    | turn i _ ih => exact e.afterTurn_supplied ss c _ i ▸ ih.turn i
    | others _ hv ih => exact .others ih hv

/-- One more executor changes no run. -/
theorem runs_supplied {mode : Mode} {s : Sequence} {w w' : World σ} {ending : Ending Context} :
    e.supplied.Runs others mode s w ending w' ↔ e.Runs others mode s w ending w' := by
  cases mode with
  | sequential =>
    rw [Runs, Runs, sequential_supplied]
  | parallel bound =>
    constructor
    · rintro (⟨hbegin, hx, hover, hjoin⟩ | ⟨hbegin, hconclude⟩)
      · exact .joined hbegin (e.reaches_supplied.mp hx) hover hjoin
      · exact .refused hbegin hconclude
    · rintro (⟨hbegin, hx, hover, hjoin⟩ | ⟨hbegin, hconclude⟩)
      · exact .joined hbegin (e.reaches_supplied.mpr hx) hover hjoin
      · exact .refused hbegin hconclude

/-! ## Warnings -/

theorem supports_eq_false_iff (r : Registry σ) (t : Step) :
    r.supports t = false ↔ r.resolve? t = none := by
  rw [← Registry.isSome_resolve?, Option.isSome_eq_false_iff, Option.isNone_iff_eq_none]

/-- The warnings name the steps that nothing can execute, and no others. -/
theorem noExecutor_mem_validate (r : Registry σ) (s : Sequence) (name : String) (kind : Kind) :
    .noExecutor name kind ∈ (s.validate (some r.supports)).warnings ↔
      ∃ t ∈ s.allSteps, t.name = name ∧ t.kind = kind ∧ t.isGroup = false ∧
        r.resolve? t = none := by
  have hstep : ∀ t, .noExecutor name kind ∈ Sequence.warningsOfStep (some r.supports) t ↔
      t.name = name ∧ t.kind = kind ∧ t.isGroup = false ∧ r.resolve? t = none := by
    intro t
    rw [Sequence.warningsOfStep, ← supports_eq_false_iff]
    cases hgroup : t.isGroup with
    | true => simp
    | false => cases hsupports : r.supports t <;> simp [@eq_comm _ name, @eq_comm _ kind]
  rw [Sequence.validate, List.mem_append, List.mem_flatMap]
  simp only [hstep]
  constructor
  · rintro (h | h)
    · exact h
    · split at h <;> simp at h
  · exact .inl

/-! ## Runs and warnings -/

/-- A step of a run and its result: the step is one of the sequence and no group, and if nothing
claims it, it has failed for this. -/
structure Dispatched (r : Registry σ) (s : Sequence) (t : Step) (own : StepResult) : Prop where
  /-- The step is one of the sequence. -/
  among : t ∈ s.allSteps
  /-- It is no group. -/
  single : t.isGroup = false
  /-- The result is its own. -/
  key : own.key = t.key
  /-- It has failed if nothing claims it. -/
  failed : r.resolve? t = none →
    own.status = .failed ∧ own.error = some (ExecutionError.noExecutor t.kind).message

/-- A supplied engine that is watched notes each step that it gives to an executor. -/
theorem answers_supplied (s : Sequence) :
    e.supplied.watched.Answers Prod.snd (Dispatched e.registry s) s.steps := by
  intro t ht hgroup c began
  cases hresolve : e.registry.resolve? t with
  | some x =>
    refine (e.supplied.watched_keeps.logs.notes_dispatch t c (t.begun began)).mono
      fun K ending h => ?_
    cases ending with
    | returned own =>
      obtain ⟨hcloses, hK⟩ := h
      refine ⟨List.nil_subset _, fun t' ht' => ⟨own, List.mem_singleton_self own, ?_⟩⟩
      obtain rfl := hK t' ht'
      exact ⟨ht, hgroup, Prod.ext hcloses.stepId hcloses.stepName, by simp [hresolve]⟩
    | panicked m => exact h.elim
    | stuck => exact h.elim
  | none =>
    have hclaimed : e.supplied.watched.registry.resolve? t = some Executor.stopgap.watched := by
      rw [resolve?_watched, resolve?_supplied, hresolve]
      rfl
    rw [dispatch, hclaimed]
    refine ⟨[t], fun _ => rfl, ?_⟩
    refine Activity.notes_stamp.quietly fun now _ => ⟨List.nil_subset _, fun t' ht' => ?_⟩
    obtain rfl := List.mem_singleton.mp ht'
    exact ⟨_, List.mem_singleton_self _, ht, hgroup, rfl, fun _ => ⟨rfl, rfl⟩⟩

/-- What validating a sequence with the registry of an engine tells about its runs. -/
structure Foretells (s : Sequence) : Prop where
  /-- One more executor changes no run. -/
  same : ∀ {others : World σ → World σ → Prop} {mode : Mode} {w w' : World σ}
    {ending : Ending Context},
    e.supplied.Runs others mode s w ending w' ↔ e.Runs others mode s w ending w'
  /-- Each step that a run fails because nothing claims it is named by a warning. -/
  foretold : ∀ {mode : Mode} {w w' : World (σ × List Step)} {ending : Ending Context},
    e.supplied.watched.Runs World.Beside mode s w ending w' →
      ∃ made, w'.calls = w.calls ++ made ∧ ∀ t ∈ made, e.registry.resolve? t = none →
        .noExecutor t.name t.kind ∈ (s.validate (some e.registry.supports)).warnings
  /-- Without such a warning a run finds an executor for every step that needs one. -/
  clear : (∀ name kind,
      .noExecutor name kind ∉ (s.validate (some e.registry.supports)).warnings) →
    ∀ {mode : Mode} {w w' : World (σ × List Step)} {ending : Ending Context},
      e.supplied.watched.Runs World.Beside mode s w ending w' →
        ∃ made, w'.calls = w.calls ++ made ∧ ∀ t ∈ made, ∃ x, e.registry.resolve? t = some x
  /-- Step by step, the record of a run tells which steps failed for this. -/
  recorded : ∀ {w w' : World (σ × List Step)} {c : Context},
    e.supplied.watched.Runs World.Beside .sequential s w (.returned c) w' →
      ∃ made, w'.calls = w.calls ++ made ∧ ∀ t ∈ made, e.registry.resolve? t = none →
        ∃ r ∈ c.results, r.key = t.key ∧ r.status = .failed ∧
          r.error = some (ExecutionError.noExecutor t.kind).message
  /-- Every such warning names a step that is no group and that nothing claims. -/
  founded : ∀ name kind,
    .noExecutor name kind ∈ (s.validate (some e.registry.supports)).warnings ↔
      ∃ t ∈ s.allSteps, t.name = name ∧ t.kind = kind ∧ t.isGroup = false ∧
        e.registry.resolve? t = none

/-- Whatever executors and reporter do, whatever is in the store, however branches take turns and
whenever a run is cancelled: validation foretells which steps it fails because nothing claims
them. -/
theorem foretells (s : Sequence) : e.Foretells s := by
  have hanswers := e.answers_supplied s
  have hquiet : ∀ w v : World (σ × List Step), w.Beside v →
      v.surroundings.2 = w.surroundings.2 := fun _ _ hv => hv.2
  have hwarned : ∀ t, (∃ own, Dispatched e.registry s t own) → e.registry.resolve? t = none →
      .noExecutor t.name t.kind ∈ (s.validate (some e.registry.supports)).warnings := by
    rintro t ⟨own, h⟩ hnone
    exact (noExecutor_mem_validate _ _ _ _).mpr ⟨t, h.among, rfl, rfl, h.single, hnone⟩
  refine ⟨e.runs_supplied, fun hrun => ?_, fun hclear _ _ _ _ hrun => ?_, fun hrun => ?_,
    noExecutor_mem_validate e.registry s⟩
  · obtain ⟨made, hmade, hresults⟩ := hanswers.of_runs (fun _ _ => id) hrun
    exact ⟨made, hmade, fun t ht => hwarned t (hresults t ht)⟩
  · obtain ⟨made, hmade, hresults⟩ := hanswers.of_runs (fun _ _ => id) hrun
    refine ⟨made, hmade, fun t ht => ?_⟩
    cases hresolve : e.registry.resolve? t with
    | some x => exact ⟨x, rfl⟩
    | none => exact absurd (hwarned t (hresults t ht) hresolve) (hclear _ _)
  · obtain ⟨made, hmade, -, hresults⟩ := hanswers.of_sequential.of_course hquiet hrun
    refine ⟨made, hmade, fun t ht hnone => ?_⟩
    obtain ⟨r, hr, h⟩ := hresults t ht
    exact ⟨r, hr, h.key, h.failed hnone⟩

end Engine
end Runbook
