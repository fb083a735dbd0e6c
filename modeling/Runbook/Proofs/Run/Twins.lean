import Runbook.Proofs.Run.Watched

/-!
# Twins

Two activities are *twins* if in like states they do the like: they look at the state, change it and
wait at the same places, and what they come to is alike.  Which states and results are alike is a
parameter.

Twins that start in like states are in like states at their next waits (`Activity.Twin.advance`) and
at their ends (`Activity.Twin.complete`).  If whatever others do beside the one can be matched by
those beside the other, each course of the one has its like among those of the other
(`Activity.Twin.course`).
-/

namespace Runbook

variable {σ ω α β : Type}

/-! ## Activities -/

namespace Activity

/-- The activities do the like in states that `R` relates, and come to results that `Q` relates. -/
inductive Twin (R : ω → ω → Prop) (Q : α → α → Prop) : Activity ω α → Activity ω α → Prop where
  /-- Both are done. -/
  | done {a b : α} : Q a b → Twin R Q (.done a) (.done b)
  /-- Both panic. -/
  | panic (m : Option String) : Twin R Q (.panic m) (.panic m)
  /-- Both look at the state. -/
  | look {next next' : ω → Activity ω α} :
      (∀ w v, R w v → Twin R Q (next w) (next' v)) → Twin R Q (.look next) (.look next')
  /-- Both change the state. -/
  | update {change change' : ω → ω} {next next' : Activity ω α} :
      (∀ w v, R w v → R (change w) (change' v)) → Twin R Q next next' →
      Twin R Q (.update change next) (.update change' next')
  /-- Both wait. -/
  | await {delay : Delay} {next next' : Bool → Activity ω α} :
      (∀ c, Twin R Q (next c) (next' c)) → Twin R Q (.await delay next) (.await delay next')

variable {R : ω → ω → Prop} {Q : α → α → Prop} {Q' : β → β → Prop}

theorem Twin.bind {x y : Activity ω α} (h : x.Twin R Q y) {f g : α → Activity ω β}
    (hfg : ∀ a b, Q a b → (f a).Twin R Q' (g b)) : (x.bind f).Twin R Q' (y.bind g) := by
  induction h with
  | done hab => exact hfg _ _ hab
  | panic m => exact .panic m
  | look _ ih => exact .look ih
  | update hchange _ ih => exact .update hchange ih
  | await _ ih => exact .await ih

theorem Twin.caught {x y : Activity ω α} (h : x.Twin R Q y)
    {Q' : Except (Option String) α → Except (Option String) α → Prop}
    (hok : ∀ a b, Q a b → Q' (.ok a) (.ok b)) (herror : ∀ m, Q' (.error m) (.error m)) :
    x.caught.Twin R Q' y.caught := by
  induction h with
  | done hab => exact .done (hok _ _ hab)
  | panic m => exact .done (herror m)
  | look _ ih => exact .look ih
  | update hchange _ ih => exact .update hchange ih
  | await _ ih => exact .await ih

end Activity

/-- Both pauses are of the same kind, and what is left of both are twins. -/
inductive Pause.Twin (R : ω → ω → Prop) (Q : α → α → Prop) : Pause ω α → Pause ω α → Prop where
  /-- Both are done. -/
  | done {a b : α} : Q a b → Twin R Q (.done a) (.done b)
  /-- Both have panicked. -/
  | panicked (m : Option String) : Twin R Q (.panicked m) (.panicked m)
  /-- Both wait. -/
  | asleep {delay : Delay} {next next' : Bool → Activity ω α} :
      (∀ c, (next c).Twin R Q (next' c)) → Twin R Q (.asleep delay next) (.asleep delay next')

/-- Both endings are of the same kind, with like results. -/
inductive Ending.Twin (Q : α → α → Prop) : Ending α → Ending α → Prop where
  /-- Both are done. -/
  | returned {a b : α} : Q a b → Twin Q (.returned a) (.returned b)
  /-- Both have panicked. -/
  | panicked (m : Option String) : Twin Q (.panicked m) (.panicked m)
  /-- Both wait for a cancellation. -/
  | stuck : Twin Q .stuck .stuck

theorem Ending.Twin.mono {Q Q' : α → α → Prop} (hQ : ∀ a b, Q a b → Q' a b) {r r' : Ending α}
    (h : r.Twin Q r') : r.Twin Q' r' := by
  cases h with
  | returned hab => exact .returned (hQ _ _ hab)
  | panicked m => exact .panicked m
  | stuck => exact .stuck

/-! ## Worlds -/

/-- The scenes agree in the variables and in whether the run is cancelled, and `S` relates their
surroundings. -/
structure Scene.Alike (S : σ → σ → Prop) (s t : Scene σ) : Prop where
  /-- The variables. -/
  store : s.store = t.store
  /-- Whether the run is cancelled. -/
  cancelled : s.cancelled = t.cancelled
  /-- The surroundings. -/
  surroundings : S s.surroundings t.surroundings

/-- The scenes are alike, and `T` relates the times. -/
structure World.Alike (T : Timestamp → Timestamp → Prop) (S : σ → σ → Prop) (w v : World σ) :
    Prop where
  /-- The scenes. -/
  scene : w.toScene.Alike S v.toScene
  /-- The times. -/
  clock : T w.clock v.clock

/-- Times that are related stay so while time passes. -/
def Timestamp.Paced (T : Timestamp → Timestamp → Prop) : Prop :=
  ∀ s t nanos, T s t → T (s.later nanos) (t.later nanos)

/-- Whatever others do beside the one run can be done beside the other. -/
def World.Matched (others : World σ → World σ → Prop) (R : World σ → World σ → Prop) : Prop :=
  ∀ w v w', R w v → others w w' → ∃ v', others v v' ∧ R w' v'

section

variable {T : Timestamp → Timestamp → Prop} {S : σ → σ → Prop}

theorem World.Alike.tick (hT : Timestamp.Paced T) {w v : World σ} (h : w.Alike T S v) :
    w.tick.Alike T S v.tick :=
  ⟨⟨h.scene.store, h.scene.cancelled, h.scene.surroundings⟩, hT _ _ 1 h.clock⟩

theorem World.Alike.pass (hT : Timestamp.Paced T) (ms : Nat) {w v : World σ} (h : w.Alike T S v) :
    (World.pass ms w).Alike T S (World.pass ms v) :=
  ⟨⟨h.scene.store, h.scene.cancelled, h.scene.surroundings⟩, hT _ _ _ h.clock⟩

/-- Like scenes that executors leave make like worlds. -/
theorem World.Alike.withScene {w v : World σ} (h : w.Alike T S v) {s t : Scene σ}
    (hst : s.Alike S t) : (World.withScene s w).Alike T S (World.withScene t v) := by
  refine ⟨⟨hst.store, ?_, hst.surroundings⟩, h.clock⟩
  simp only [World.withScene, h.scene.cancelled, hst.cancelled]

/-! ## Carrying on -/

namespace Activity

variable {Q : α → α → Prop} {x y : Activity (World σ) α}

theorem twin_stamp (hT : Timestamp.Paced T) :
    (World.stamp : Activity (World σ) Timestamp).Twin (World.Alike T S) T World.stamp :=
  .update (fun _ _ h => h.tick hT) (.look fun _ _ h => .done h.clock)

/-- Executors that are twins on the scene are twins in the world. -/
theorem Twin.onScene {x y : Activity (Scene σ) α} (h : x.Twin (Scene.Alike S) Q y) :
    (World.onScene x).Twin (World.Alike T S) Q (World.onScene y) := by
  induction h with
  | done hab => exact .done hab
  | panic m => exact .panic m
  | look _ ih => exact .look fun w v hwv => ih w.toScene v.toScene hwv.scene
  | update hchange _ ih =>
    exact .update (fun w v hwv => hwv.withScene (hchange _ _ hwv.scene)) ih
  | await _ ih => exact .await ih

/-- Executors that are twins are twins when they are watched. -/
theorem Twin.rewatched {x y : Activity (Scene σ) α} (h : x.Twin (Scene.Alike S) Q y) :
    (x.within .unwatched .rewatch).Twin (Scene.Alike fun p q => S p.1 q.1 ∧ p.2 = q.2) Q
      (y.within .unwatched .rewatch) := by
  have hunwatched : ∀ {s t : Scene (σ × List Step)},
      s.Alike (fun p q => S p.1 q.1 ∧ p.2 = q.2) t → s.unwatched.Alike S t.unwatched :=
    fun hst => ⟨hst.store, hst.cancelled, hst.surroundings.1⟩
  induction h with
  | done hab => exact .done hab
  | panic m => exact .panic m
  | look _ ih => exact .look fun s t hst => ih _ _ (hunwatched hst)
  | update hchange _ ih =>
    refine .update (fun s t hst => ?_) ih
    have hafter := hchange _ _ (hunwatched hst)
    exact ⟨hafter.store, hafter.cancelled, hafter.surroundings, hst.surroundings.2⟩
  | await _ ih => exact .await ih

/-- Carried on to their next waits twins come to the like. -/
theorem Twin.advance (h : x.Twin (World.Alike T S) Q y) {w v : World σ} (hwv : w.Alike T S v) :
    (x.advance (·.cancelled) w).1.Twin (World.Alike T S) Q (y.advance (·.cancelled) v).1 ∧
      (x.advance (·.cancelled) w).2.Alike T S (y.advance (·.cancelled) v).2 := by
  induction h generalizing w v with
  | done hab => exact ⟨.done hab, hwv⟩
  | panic m => exact ⟨.panicked m, hwv⟩
  | look _ ih => exact ih w v hwv hwv
  | update hchange _ ih => exact ih (hchange w v hwv)
  | await hnext ih =>
    rw [Activity.advance, Activity.advance, hwv.scene.cancelled]
    split
    · exact ih true hwv
    · exact ⟨.asleep hnext, hwv⟩

/-- Carried on to their ends twins come to the like. -/
theorem Twin.complete (hT : Timestamp.Paced T) (h : x.Twin (World.Alike T S) Q y) {w v : World σ}
    (hwv : w.Alike T S v) :
    (x.complete (·.cancelled) World.pass w).1.Twin Q (y.complete (·.cancelled) World.pass v).1 ∧
      (x.complete (·.cancelled) World.pass w).2.Alike T S
        (y.complete (·.cancelled) World.pass v).2 := by
  induction h generalizing w v with
  | done hab => exact ⟨.returned hab, hwv⟩
  | panic m => exact ⟨.panicked m, hwv⟩
  | look _ ih => exact ih w v hwv hwv
  | update hchange _ ih => exact ih (hchange w v hwv)
  | @await delay _ _ _ ih =>
    simp only [Activity.complete, hwv.scene.cancelled]
    split
    · exact ih true hwv
    · cases delay.millis with
      | none => exact ⟨.stuck, hwv⟩
      | some ms => exact ih v.cancelled (hwv.pass hT ms)

/-- Each course of the one twin has its like among the courses of the other. -/
theorem Twin.course {others others' : World σ → World σ → Prop}
    (hothers : World.MatchedBy others others' (World.Alike T S)) {w w' : World σ} {r : Ending α}
    (hcourse : x.Course others w r w') :
    ∀ {y : Activity (World σ) α} {v : World σ}, x.Twin (World.Alike T S) Q y → w.Alike T S v →
      ∃ r' v', y.Course others' v r' v' ∧ r.Twin Q r' ∧ w'.Alike T S v' := by
  induction hcourse with
  | done =>
    intro y v h hwv
    cases h with
    | done hab => exact ⟨_, v, .done, .returned hab, hwv⟩
  | panic =>
    intro y v h hwv
    cases h with
    | panic => exact ⟨_, v, .panic, .panicked _, hwv⟩
  | look hw _ ih =>
    intro y v h hwv
    obtain ⟨u, hv, hu⟩ := hothers _ _ _ hwv hw
    cases h with
    | look hnext =>
      obtain ⟨r', v', hcourse, hr, hv'⟩ := ih (hnext _ _ hu) hu
      exact ⟨r', v', .look hv hcourse, hr, hv'⟩
  | update hw _ ih =>
    intro y v h hwv
    obtain ⟨u, hv, hu⟩ := hothers _ _ _ hwv hw
    cases h with
    | update hchange hnext =>
      obtain ⟨r', v', hcourse, hr, hv'⟩ := ih hnext (hchange _ _ hu)
      exact ⟨r', v', .update hv hcourse, hr, hv'⟩
  | await hw _ ih =>
    intro y v h hwv
    obtain ⟨u, hv, hu⟩ := hothers _ _ _ hwv hw
    cases h with
    | await hnext =>
      obtain ⟨r', v', hcourse, hr, hv'⟩ := ih (hnext _) hu
      rw [hu.scene.cancelled] at hcourse
      exact ⟨r', v', .await hv hcourse, hr, hv'⟩

end Activity

end

end Runbook
