import Runbook.Proofs.Run.Trail
import Runbook.Run.Parallel

/-!
# Echoes

An activity *echoes* another one if it does all that the other one does, and beside it at most what
makes no difference to how their states are related.  So in related states both come to the same,
carried on to their next waits (`Activity.Echoes.advance`) or to their ends
(`Activity.Echoes.complete`), and the courses of the one are those of the other
(`Activity.Echoes.course`, `Activity.Echoes.course_back`).

An engine echoes another one if its reports and its executors echo those of the other.  Then so do
its runs (`Engine.Echoes.sequential`).
-/

namespace Runbook

variable {σ ω α β : Type}

/-! ## Activities -/

namespace Activity

/-- The activity does what another one does in states that `R` relates, and what it does beside that
keeps them related. -/
inductive Echoes (R : ω → σ → Prop) : Activity ω α → Activity σ α → Prop where
  /-- Both are done. -/
  | done (a : α) : Echoes R (.done a) (.done a)
  /-- Both panic. -/
  | panic (m : Option String) : Echoes R (.panic m) (.panic m)
  /-- Both look at the state. -/
  | look {next : ω → Activity ω α} {next' : σ → Activity σ α} :
      (∀ w v, R w v → Echoes R (next w) (next' v)) → Echoes R (.look next) (.look next')
  /-- Both change the state. -/
  | update {change : ω → ω} {change' : σ → σ} {next : Activity ω α} {next' : Activity σ α} :
      (∀ w v, R w v → R (change w) (change' v)) → Echoes R next next' →
      Echoes R (.update change next) (.update change' next')
  /-- Both wait. -/
  | await {delay : Delay} {next : Bool → Activity ω α} {next' : Bool → Activity σ α} :
      (∀ c, Echoes R (next c) (next' c)) → Echoes R (.await delay next) (.await delay next')
  /-- One looks at the state by itself. -/
  | heed {next : ω → Activity ω α} {x : Activity σ α} :
      (∀ w, Echoes R (next w) x) → Echoes R (.look next) x
  /-- One makes a change by itself. -/
  | note {change : ω → ω} {next : Activity ω α} {x : Activity σ α} :
      (∀ w v, R w v → R (change w) v) → Echoes R next x → Echoes R (.update change next) x

section

variable {R : ω → σ → Prop}

theorem Echoes.bind {x : Activity ω α} {y : Activity σ α} (h : x.Echoes R y)
    {f : α → Activity ω β} {g : α → Activity σ β} (hfg : ∀ a, (f a).Echoes R (g a)) :
    (x.bind f).Echoes R (y.bind g) := by
  induction h with
  | done a => exact hfg a
  | panic m => exact .panic m
  | look _ ih => exact .look ih
  | update hchange _ ih => exact .update hchange ih
  | await _ ih => exact .await ih
  | heed _ ih => exact .heed ih
  | note hchange _ ih => exact .note hchange ih

theorem Echoes.caught {x : Activity ω α} {y : Activity σ α} (h : x.Echoes R y) :
    x.caught.Echoes R y.caught := by
  induction h with
  | done a => exact .done _
  | panic m => exact .done _
  | look _ ih => exact .look ih
  | update hchange _ ih => exact .update hchange ih
  | await _ ih => exact .await ih
  | heed _ ih => exact .heed ih
  | note hchange _ ih => exact .note hchange ih

end

end Activity

/-- Both pauses are of the same kind, and what is left of the one echoes what is left of the other.
-/
inductive Pause.Echoes (R : ω → σ → Prop) : Pause ω α → Pause σ α → Prop where
  /-- Both are done. -/
  | done (a : α) : Echoes R (.done a) (.done a)
  /-- Both have panicked. -/
  | panicked (m : Option String) : Echoes R (.panicked m) (.panicked m)
  /-- Both wait. -/
  | asleep {delay : Delay} {next : Bool → Activity ω α} {next' : Bool → Activity σ α} :
      (∀ c, (next c).Echoes R (next' c)) → Echoes R (.asleep delay next) (.asleep delay next')

/-! ## Worlds -/

/-- The worlds agree in variables, cancellation and time.  `f` takes the surroundings of the one to
those of the other, and `N` relates what was reported. -/
structure World.Echoes (f : ω → σ) (N : List Notice → List Notice → Prop) (w : World ω)
    (v : World σ) : Prop where
  /-- The variables. -/
  store : w.store = v.store
  /-- Whether the run is cancelled. -/
  cancelled : w.cancelled = v.cancelled
  /-- The time. -/
  clock : w.clock = v.clock
  /-- The surroundings. -/
  surroundings : f w.surroundings = v.surroundings
  /-- The reports. -/
  notices : N w.notices v.notices

section

variable {f : ω → σ} {N : List Notice → List Notice → Prop}

theorem World.Echoes.tick {w : World ω} {v : World σ} (h : w.Echoes f N v) :
    w.tick.Echoes f N v.tick :=
  ⟨h.store, h.cancelled, congrArg (·.later 1) h.clock, h.surroundings, h.notices⟩

theorem World.Echoes.pass {w : World ω} {v : World σ} (h : w.Echoes f N v) (ms : Nat) :
    (World.pass ms w).Echoes f N (World.pass ms v) :=
  ⟨h.store, h.cancelled, congrArg (·.later (ms * 1000000)) h.clock, h.surroundings, h.notices⟩

namespace Activity

variable {x : Activity (World ω) α} {y : Activity (World σ) α}

theorem echoes_stamp : World.stamp.Echoes (World.Echoes f N) World.stamp :=
  .update (fun _ _ h => h.tick) (.look fun w _ h => h.clock ▸ .done w.clock)

/-- Carried on to their next waits both come to the same. -/
theorem Echoes.advance (h : x.Echoes (World.Echoes f N) y) {w : World ω} {v : World σ}
    (hwv : w.Echoes f N v) :
    (x.advance (·.cancelled) w).1.Echoes (World.Echoes f N) (y.advance (·.cancelled) v).1 ∧
      (x.advance (·.cancelled) w).2.Echoes f N (y.advance (·.cancelled) v).2 := by
  induction h generalizing w v with
  | done a => exact ⟨.done a, hwv⟩
  | panic m => exact ⟨.panicked m, hwv⟩
  | look _ ih => exact ih w v hwv hwv
  | update hchange _ ih => exact ih (hchange w v hwv)
  | await hnext ih =>
    rw [Activity.advance, Activity.advance, hwv.cancelled]
    split
    · exact ih true hwv
    · exact ⟨.asleep hnext, hwv⟩
  | heed _ ih => exact ih w hwv
  | note hchange _ ih => exact ih (hchange w v hwv)

/-- Carried on to their ends both come to the same. -/
theorem Echoes.complete (h : x.Echoes (World.Echoes f N) y) {w : World ω} {v : World σ}
    (hwv : w.Echoes f N v) :
    (x.complete (·.cancelled) World.pass w).1 = (y.complete (·.cancelled) World.pass v).1 ∧
      (x.complete (·.cancelled) World.pass w).2.Echoes f N
        (y.complete (·.cancelled) World.pass v).2 := by
  induction h generalizing w v with
  | done a => exact ⟨rfl, hwv⟩
  | panic m => exact ⟨rfl, hwv⟩
  | look _ ih => exact ih w v hwv hwv
  | update hchange _ ih => exact ih (hchange w v hwv)
  | @await delay _ _ _ ih =>
    simp only [Activity.complete, hwv.cancelled]
    split
    · exact ih true hwv
    · cases delay.millis with
      | none => exact ⟨rfl, hwv⟩
      | some ms => exact ih v.cancelled (hwv.pass ms)
  | heed _ ih => exact ih w hwv
  | note hchange _ ih => exact ih (hchange w v hwv)

end Activity

/-! ## Others -/

/-- Whatever some others do beside the one run can be matched by different ones beside the other. -/
def World.MatchedBy (others : World ω → World ω → Prop) (others' : World σ → World σ → Prop)
    (R : World ω → World σ → Prop) : Prop :=
  ∀ w v w', R w v → others w w' → ∃ v', others' v v' ∧ R w' v'

namespace Activity

variable {x : Activity (World ω) α} {y : Activity (World σ) α}
  {others : World ω → World ω → Prop} {others' : World σ → World σ → Prop}

/-- A course of the activity that does more is one of the other activity, after which others may
still move. -/
theorem Echoes.course (h : x.Echoes (World.Echoes f N) y)
    (hothers : World.MatchedBy others others' (World.Echoes f N)) (hself : ∀ v, others' v v)
    (htrans : ∀ u v w, others' u v → others' v w → others' u w) {w w' : World ω} {v : World σ}
    {r : Ending α} (hcourse : x.Course others w r w') (hwv : w.Echoes f N v) :
    ∃ u v', y.Course others' v r u ∧ others' u v' ∧ w'.Echoes f N v' := by
  induction h generalizing w v with
  | done a =>
    obtain ⟨rfl, rfl⟩ := hcourse.of_done
    exact ⟨v, v, .done, hself v, hwv⟩
  | panic m =>
    cases hcourse
    exact ⟨v, v, .panic, hself v, hwv⟩
  | look _ ih =>
    obtain ⟨w₁, hw₁, hrest⟩ := hcourse.of_look
    obtain ⟨v₁, hv₁, hwv₁⟩ := hothers _ _ _ hwv hw₁
    obtain ⟨u, v', hu, hv', hwv'⟩ := ih _ _ hwv₁ hrest hwv₁
    exact ⟨u, v', .look hv₁ hu, hv', hwv'⟩
  | update hchange _ ih =>
    obtain ⟨w₁, hw₁, hrest⟩ := hcourse.of_update
    obtain ⟨v₁, hv₁, hwv₁⟩ := hothers _ _ _ hwv hw₁
    obtain ⟨u, v', hu, hv', hwv'⟩ := ih hrest (hchange _ _ hwv₁)
    exact ⟨u, v', .update hv₁ hu, hv', hwv'⟩
  | await _ ih =>
    obtain ⟨w₁, hw₁, hrest⟩ := hcourse.of_await
    obtain ⟨v₁, hv₁, hwv₁⟩ := hothers _ _ _ hwv hw₁
    rw [hwv₁.cancelled] at hrest
    obtain ⟨u, v', hu, hv', hwv'⟩ := ih _ hrest hwv₁
    exact ⟨u, v', .await hv₁ hu, hv', hwv'⟩
  | heed _ ih =>
    obtain ⟨w₁, hw₁, hrest⟩ := hcourse.of_look
    obtain ⟨v₁, hv₁, hwv₁⟩ := hothers _ _ _ hwv hw₁
    obtain ⟨u, v', hu, hv', hwv'⟩ := ih _ hrest hwv₁
    obtain ⟨u', hu', hlater⟩ := hu.of_others hself htrans hv₁
    exact ⟨u', v', hu', htrans _ _ _ hlater hv', hwv'⟩
  | note hchange _ ih =>
    obtain ⟨w₁, hw₁, hrest⟩ := hcourse.of_update
    obtain ⟨v₁, hv₁, hwv₁⟩ := hothers _ _ _ hwv hw₁
    obtain ⟨u, v', hu, hv', hwv'⟩ := ih hrest (hchange _ _ hwv₁)
    obtain ⟨u', hu', hlater⟩ := hu.of_others hself htrans hv₁
    exact ⟨u', v', hu', htrans _ _ _ hlater hv', hwv'⟩

end Activity

end

/-! ## Engines -/

/-- Reports and executors of the engine echo those of another one. -/
structure Engine.Echoes (f : ω → σ) (N : List Notice → List Notice → Prop) (e : Engine ω)
    (e' : Engine σ) : Prop where
  /-- They run on the same machine. -/
  machine : e.machine = e'.machine
  /-- They set up runs with the same identities. -/
  identify : e.identify = e'.identify
  /-- Each report echoes the other's. -/
  tell : ∀ n, (e.tell n).Echoes (World.Echoes f N) (e'.tell n)
  /-- They have executors for the same steps, and what the one does echoes what the other does. -/
  executes : ∀ s, e.registry.resolve? s = none ∧ e'.registry.resolve? s = none ∨
    ∃ x x', e.registry.resolve? s = some x ∧ e'.registry.resolve? s = some x' ∧ ∀ c,
      (World.onScene (x.execute s c)).Echoes (World.Echoes f N) (World.onScene (x'.execute s c))

namespace Engine

open Activity (echoes_stamp)

variable {f : ω → σ} {N : List Notice → List Notice → Prop} {e : Engine ω} {e' : Engine σ}

theorem echoes_close (r : StepResult) (status : Status) (error : Option String) :
    (close r status error).Echoes (World.Echoes f N) (close r status error) :=
  echoes_stamp.bind fun _ => .done _

theorem echoes_closeGroup (s : Step) (began : Timestamp) : ∀ culprit : Option String,
    (closeGroup s began culprit).Echoes (World.Echoes f N) (closeGroup s began culprit)
  | some _ => echoes_close _ _ _
  | none => echoes_close _ _ _

theorem echoes_gatherAll : ∀ (task : Nat) (bs : List (Step × BranchEnd)),
    (gatherAll task bs).Echoes (World.Echoes f N) (gatherAll task bs)
  | _, [] => .done _
  | task, (s, b) :: bs => by
      have hgather : (gather task s b).Echoes (World.Echoes f N) (gather task s b) := by
        cases b with
        | finished rs => exact .done rs
        | skipped => exact .done []
        | crashed m => exact echoes_stamp.bind fun _ => (echoes_close _ _ _).bind fun _ => .done _
      exact hgather.bind fun _ => (echoes_gatherAll _ _).bind fun _ => .done _

namespace Echoes

variable (h : e.Echoes f N e')

include h

theorem record (r : StepResult) (c : Context) :
    (e.record r c).Echoes (World.Echoes f N) (e'.record r c) :=
  (h.tell _).bind fun _ => .done _

theorem dispatch (s : Step) (c : Context) (r : StepResult) :
    (e.dispatch s c r).Echoes (World.Echoes f N) (e'.dispatch s c r) := by
  rw [Engine.dispatch, Engine.dispatch]
  obtain ⟨hnone, hnone'⟩ | ⟨x, x', hx, hx', hexecute⟩ := h.executes s
  · rw [hnone, hnone']
    exact echoes_close _ _ _
  · rw [hx, hx']
    refine (hexecute c).caught.bind fun outcome => ?_
    rcases outcome with _ | _ | _
    · exact echoes_close _ _ _
    · exact echoes_close _ _ _
    · exact echoes_stamp.bind fun _ => .done _

mutual

theorem runStep : ∀ (s : Step) (c : Context),
    (e.runStep s c).Echoes (World.Echoes f N) (e'.runStep s c)
  | .mk i n d k enabled goesOn cs ps ss, c => by
      rw [runStep_eq, runStep_eq]
      refine echoes_stamp.bind fun began => .look fun w v hwv => ?_
      rw [proceed, proceed, hwv.store]
      split
      · exact (echoes_close _ _ _).bind fun _ => .done _
      split
      · exact (runChildren ss _).bind fun p =>
          (echoes_closeGroup _ began p.1).bind fun _ => .done _
      · exact (h.dispatch _ _ _).bind fun _ => .done _
termination_by structural s => s

theorem runChildren : ∀ (ss : List Step) (c : Context),
    (e.runChildren ss c).Echoes (World.Echoes f N) (e'.runChildren ss c)
  | [], _ => .done _
  | s :: ss, c => by
      simp only [Engine.runChildren]
      refine (runStep s c).bind fun p => (h.record _ _).bind fun c' => ?_
      split
      · exact .done _
      · exact runChildren ss c'
termination_by structural ss => ss

end

theorem begin (s : Sequence) : (e.begin s).Echoes (World.Echoes f N) (e'.begin s) := by
  simp only [Engine.begin, Activity.bind_eq, h.machine, h.identify]
  refine echoes_stamp.bind fun now => .update (fun _ _ hwv => ?_) ?_
  · exact ⟨rfl, hwv.cancelled, hwv.clock, hwv.surroundings, hwv.notices⟩
  · dsimp only [Activity.bind]
    split
    · exact .done _
    · exact echoes_stamp.bind fun _ => .done _

theorem conclude (c : Context) : (e.conclude c).Echoes (World.Echoes f N) (e'.conclude c) :=
  (h.tell _).bind fun _ => .done _

theorem finish (status : Status) (c : Context) :
    (e.finish status c).Echoes (World.Echoes f N) (e'.finish status c) :=
  echoes_stamp.bind fun _ => h.conclude _

theorem runSteps : ∀ (ss : List Step) (c : Context),
    (e.runSteps ss c).Echoes (World.Echoes f N) (e'.runSteps ss c)
  | [], _ => .done _
  | s :: ss, c => by
      simp only [Engine.runSteps]
      refine .look fun w v hwv => ?_
      dsimp only [Activity.bind]
      rw [hwv.cancelled]
      split
      · exact .done _
      refine (h.runStep s c).bind fun p => (h.record _ _).bind fun c' => (h.tell _).bind fun _ => ?_
      split
      · exact .done _
      · exact runSteps ss c'

theorem sequential (s : Sequence) :
    (e.sequential s).Echoes (World.Echoes f N) (e'.sequential s) := by
  refine (h.begin s).bind fun started => ?_
  cases started with
  | error c => exact h.conclude c
  | ok c => exact (h.runSteps _ _).bind fun _ => h.finish _ _

/-- Alone and step by step both engines come to the same. -/
theorem run (s : Sequence) {w : World ω} {v : World σ} (hwv : w.Echoes f N v) :
    (e.run s w).1 = (e'.run s v).1 ∧ (e.run s w).2.Echoes f N (e'.run s v).2 :=
  (h.sequential s).complete hwv

theorem branch (s : Step) (c : Context) :
    (e.branch s c).Echoes (World.Echoes f N) (e'.branch s c) :=
  (h.runStep s _).bind fun _ => (h.record _ _).bind fun _ => .done _

end Echoes

end Engine
end Runbook
