import Runbook.Proofs.Run.Afresh

/-!
# Steady engines

A sequential run of a steady engine that is not cancelled comes to what the performance of its steps
says, however long its executors wait (`Engine.Steady.exists_performsRun`).  Nothing else is said of
time, and a cancelled run may come to anything.

An engine is steady if in any two scenes with the same variables its executors do the like, whatever
the record says and whatever else there is (`Engine.exists_steady`).
-/

namespace Runbook

variable {σ α : Type}

/-! ## Others -/

theorem World.harmless_passing : World.Harmless (World.Passing (σ := σ)) where
  onward := by
    rintro w _ ⟨t, c, ht, hc, rfl⟩
    exact ⟨ht, hc⟩
  store := by
    rintro w _ ⟨t, c, -, -, rfl⟩
    rfl
  surroundings := by
    rintro w _ ⟨t, c, -, -, rfl⟩
    rfl

/-- What passes beside a run can pass beside the one that it echoes. -/
theorem World.matchedBy_passing {ω : Type} (f : ω → σ) (N : List Notice → List Notice → Prop) :
    World.MatchedBy World.Passing World.Passing (World.Echoes f N) := by
  rintro w v _ hwv ⟨t, c, ht, hc, rfl⟩
  exact ⟨{ v with clock := t, cancelled := c },
    ⟨t, c, hwv.clock ▸ ht, fun hv => hc (hwv.cancelled.trans hv), rfl⟩,
    ⟨hwv.store, rfl, rfl, hwv.surroundings, hwv.notices⟩⟩

namespace Activity

/-- Whatever passes beside them, twins come to the like while neither is cancelled. -/
theorem Twin.course_uncancelled {S : σ → σ → Prop} {Q : α → α → Prop} {x y : Activity (World σ) α}
    (h : x.Twin (World.Alike (fun _ _ => True) S) Q y) (hx : x.Forward) (hy : y.Forward)
    {w w' v v' : World σ} {r r' : Ending α} (hcourse : x.Course World.Passing w r w')
    (hcourse' : y.Course World.Passing v r' v') (hw' : w'.cancelled = false)
    (hv' : v'.cancelled = false) (hwv : w.Alike (fun _ _ => True) S v) :
    r.Twin Q r' ∧ w'.Alike (fun _ _ => True) S v' := by
  have hothers := World.harmless_passing (σ := σ)
  -- What others leave of worlds that are alike stays alike.
  have hafter : ∀ {w v w₁ v₁ : World σ}, w.Alike (fun _ _ => True) S v → w.Still w₁ → v.Still v₁ →
      w₁.Alike (fun _ _ => True) S v₁ := by
    intro w v w₁ v₁ hwv hw hv
    refine ⟨⟨?_, ?_, ?_⟩, trivial⟩
    · rw [hw.store, hv.store, hwv.scene.store]
    · rw [hw.cancelled, hv.cancelled, hwv.scene.cancelled]
    · rw [hw.surroundings, hv.surroundings]
      exact hwv.scene.surroundings
  induction h generalizing w v with
  | done hab =>
    obtain ⟨rfl, rfl⟩ := hcourse.of_done
    obtain ⟨rfl, rfl⟩ := hcourse'.of_done
    exact ⟨.returned hab, hwv⟩
  | panic m =>
    cases hcourse
    cases hcourse'
    exact ⟨.panicked m, hwv⟩
  | look _ ih =>
    obtain ⟨w₁, hw₁, hrest⟩ := hcourse.of_look
    obtain ⟨v₁, hv₁, hrest'⟩ := hcourse'.of_look
    have hw := hothers.still hw₁ ((hrest.onward hothers.onward (hx _)).uncancelled hw')
    have hv := hothers.still hv₁ ((hrest'.onward hothers.onward (hy _)).uncancelled hv')
    have halike := hafter hwv hw hv
    exact ih _ _ halike (hx _) (hy _) hrest hrest' halike
  | update hchange _ ih =>
    obtain ⟨w₁, hw₁, hrest⟩ := hcourse.of_update
    obtain ⟨v₁, hv₁, hrest'⟩ := hcourse'.of_update
    have hw := (hrest.onward hothers.onward hx.2).uncancelled hw'
    have hv := (hrest'.onward hothers.onward hy.2).uncancelled hv'
    have halike := hafter hwv (hothers.still hw₁ ((hx.1 w₁).uncancelled hw))
      (hothers.still hv₁ ((hy.1 v₁).uncancelled hv))
    exact ih hx.2 hy.2 hrest hrest' (hchange _ _ halike)
  | await _ ih =>
    obtain ⟨w₁, hw₁, hrest⟩ := hcourse.of_await
    obtain ⟨v₁, hv₁, hrest'⟩ := hcourse'.of_await
    have hw := (hrest.onward hothers.onward (hx _)).uncancelled hw'
    have hv := (hrest'.onward hothers.onward (hy _)).uncancelled hv'
    have halike := hafter hwv (hothers.still hw₁ hw) (hothers.still hv₁ hv)
    rw [hw] at hrest
    rw [hv] at hrest'
    exact ih false (hx _) (hy _) hrest hrest' halike

end Activity

theorem Reply.Alike.timeless {a b : Reply} (h : Reply.Alike a b) :
    Reply.timeless a = Reply.timeless b := by
  cases h with
  | outcome ho => rw [Reply.timeless, Reply.timeless, ho]
  | refused f => rfl
  | panicked m => rfl

namespace Engine

variable {e : Engine σ} {act : Step → Store → Reply × Store}

/-! ## Which engines are steady -/

/-- A steady engine is steady when it is watched. -/
theorem Steady.watched (h : e.Steady World.Passing act) : e.watched.Steady World.Passing act := by
  intro s x hx c w reply w' hcourse hw'
  rw [resolve?_watched] at hx
  obtain ⟨x, hresolve, rfl⟩ := Option.map_eq_some_iff.mp hx
  obtain ⟨u, v, hu, hpassing, hwv⟩ := (echoes_execute x s c).caught.course
    (World.matchedBy_passing _ _) World.timely_passing.refl (fun _ _ _ => World.Passing.trans)
    hcourse w.echoes_unwatched
  have hstill := World.harmless_passing.still hpassing (hwv.cancelled ▸ hw')
  rw [hwv.store, hstill.store]
  exact h s x hresolve c w.unwatched reply u hu (hstill.uncancelled (hwv.cancelled ▸ hw'))

/-- An engine is steady whose executors depend on nothing but the step, the variables and whether
the run is cancelled. -/
theorem exists_steady (h : ∀ x ∈ e.registry, ∀ s c c', (x.execute s c).Twin
      (Scene.Alike fun _ _ => True) (fun a b => Reply.Alike (.ok a) (.ok b)) (x.execute s c')) :
    ∃ act, e.Steady World.Passing act := by
  have hact : ∀ s store, ∃ p : Reply × Store, ∀ x, e.registry.resolve? s = some x →
      ∀ c w reply w', w.store = store →
        (World.onScene (x.execute s c)).caught.Course World.Passing w (.returned reply) w' →
          w'.cancelled = false → (Reply.timeless reply, w'.store) = p := by
    intro s store
    by_cases hsome : ∃ x c w reply w', e.registry.resolve? s = some x ∧ w.store = store ∧
        (World.onScene (x.execute s c)).caught.Course World.Passing w (.returned reply) w' ∧
          w'.cancelled = false
    · obtain ⟨x, c, w, reply, w', hx, hstore, hcourse, hw'⟩ := hsome
      refine ⟨(Reply.timeless reply, w'.store), fun y hy c' v reply' v' hstore' hcourse' hv' => ?_⟩
      obtain rfl : x = y := Option.some.inj (hx.symm.trans hy)
      have htwin : (World.onScene (x.execute s c)).caught.Twin
          (World.Alike (fun _ _ => True) fun _ _ => True) Reply.Alike
          (World.onScene (x.execute s c')).caught :=
        (h x (List.mem_of_find?_eq_some hx) s c c').onScene.caught (fun _ _ hab => hab) .panicked
      have hforward : ∀ c, (World.onScene (x.execute s c)).caught.Forward :=
        fun c => (Activity.forward_onScene _).caught
      have hw := (hcourse.onward World.harmless_passing.onward (hforward c)).uncancelled hw'
      have hv := (hcourse'.onward World.harmless_passing.onward (hforward c')).uncancelled hv'
      obtain ⟨hreply, halike⟩ := htwin.course_uncancelled (hforward c) (hforward c') hcourse
        hcourse' hw' hv' ⟨⟨hstore.trans hstore'.symm, hw.trans hv.symm, trivial⟩, trivial⟩
      cases hreply with
      | returned hab => rw [hab.timeless, halike.scene.store]
    · refine ⟨(.error none, store), fun x hx c w reply w' hstore hcourse hw' => ?_⟩
      exact absurd ⟨x, c, w, reply, w', hx, hstore, hcourse, hw'⟩ hsome
  choose act hact using hact
  exact ⟨act, fun s x hx c w reply w' hcourse hw' =>
    hact s w.store x hx c w reply w' rfl hcourse hw'⟩

/-! ## Runs -/

/-- A run alone is one of the runs beside which time passes. -/
theorem runs_of_run {s : Sequence} {w : World σ} (hends : (e.run s w).1 ≠ .stuck) :
    e.Runs World.Passing .sequential s w (e.run s w).1 (e.run s w).2 :=
  Activity.Course.of_complete World.timely_passing.refl World.timely_passing.pass rfl hends

/-- What a sequential run performs: its steps up to one that stops the others, or nothing if its
variables are refused. -/
def performRun (e : Engine σ) (act : Step → Store → Reply × Store) (s : Sequence) :
    Performance (List Account) :=
  let p := s.publish e.machine
  if p.refused = none then e.performUpTo act s.steps p.store else ⟨[], [], p.store⟩

/-- The status of a run with these accounts of steps. -/
def finalStatus (e : Engine σ) (s : Sequence) (as : List Account) : Status :=
  if (s.publish e.machine).refused = none ∧ culprit? s.steps as = none then .completed else .failed

theorem followAll_performRun (e : Engine σ) (act : Step → Store → Reply × Store) (s : Sequence) :
    Account.FollowAll (e.performRun act s).account s.steps := by
  rw [performRun]
  split
  · exact followAll_performUpTo e act s.steps _
  · exact trivial

theorem finalStatus_timeless (e : Engine σ) (s : Sequence) (as : List Account) :
    e.finalStatus s (Account.timelessAll as) = e.finalStatus s as := by
  rw [finalStatus, finalStatus, culprit?_timeless]

/-- A sequential run of a steady engine that is not cancelled performs the run. -/
theorem Steady.exists_performsRun (hsteady : e.Steady World.Passing act) (hcalm : e.Calm)
    {s : Sequence} {w : World σ} {w' : World (σ × List Step)} {ending : Ending Context}
    (h : e.watched.Runs World.Passing .sequential s w.watch ending w')
    (hw' : w'.cancelled = false) :
    ∃ as c, ending = .returned c ∧ c.results = Account.blocks as ∧
      Account.timelessAll as = (e.watched.performRun act s).account ∧
      w'.calls = (e.watched.performRun act s).calls ∧
      w'.store = (e.watched.performRun act s).store ∧ c.status = e.finalStatus s as := by
  have hothers := World.harmless_passing (σ := σ × List Step)
  have hmachine : e.watched.machine = e.machine := rfl
  rw [performRun, hmachine]
  by_cases hpublish : (s.publish e.machine).refused = none
  · obtain ⟨as, c, hreturned, hresults, ⟨haccount, hwent⟩, hstatus⟩ :=
      hsteady.watched.exists_performs hothers World.timely_passing.refl e.watched_keeps
        hcalm.watched hpublish h hw'
    rw [if_pos hpublish]
    refine ⟨as, c, hreturned, hresults, haccount, hwent.calls, hwent.store, ?_⟩
    rw [hstatus, finalStatus]
    cases culprit? s.steps as with
    | none => simp [hpublish]
    | some child => simp
  · rw [if_neg hpublish]
    obtain ⟨started, w₀, hbegin, hconclude⟩ := exists_begun h
    obtain ⟨c, hreturned, hresults, hstatus⟩ :=
      course_begin_refused (e := e.watched) hpublish hbegin
    cases hreturned
    have hstill := (e.watched.clerical_conclude c).still hothers hconclude hw'
    obtain ⟨hstore, hsurroundings⟩ :=
      course_begin_still hothers hbegin (hstill.uncancelled hw')
    have hcalls := congrArg Prod.snd (hstill.surroundings.trans hsurroundings)
    refine ⟨[], c, hcalm.watched.course_conclude hconclude, hresults, rfl, hcalls,
      hstill.store.trans hstore, ?_⟩
    rw [hstatus, finalStatus, if_neg fun hok => hpublish hok.1]

/-! ## The built-in executors -/

theorem handy_calm : handy.Calm := by
  rintro _ ⟨⟩

theorem exists_steady_handy : ∃ act, handy.Steady World.Passing act :=
  exists_steady (Registry.stateless_builtin fun _ _ _ _ => ⟨rfl, trivial⟩)

end Engine

/-- How many results a run has come to. -/
def Ending.resultCount : Ending Context → Nat
  | .returned c => c.results.length
  | _ => 0

end Runbook
