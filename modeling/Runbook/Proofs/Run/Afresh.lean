import Runbook.Proofs.Run.Agreement
import Runbook.Proofs.Run.Guarded
import Runbook.Proofs.Run.StatelessParallel

/-!
# Runs begin afresh

A run sets all variables before it looks at any, so whatever was left there before, locks included,
has no influence on it (`Engine.runs_store_iff`).  A stateless engine therefore repeats its runs:
from any other world that is as far cancelled, each run has its like, up to the identity of the run
and to times.

Alone and step by step, a run never lets anything depend on the time.  The branches of a parallel
run may take turns in any order, and their results are sorted by times.  There the second run lets
time pass until its clock is whole seconds ahead of the first one, keeps that distance
(`Timestamp.shift`), and takes the turns of the first run.

`Engine.afresh` puts together how a run begins, what it publishes, and what it depends on.
-/

namespace Runbook

variable {σ α β : Type} {others : World σ → World σ → Prop}

/-! ## Shifted times -/

/-- The point in time some seconds later. -/
def Timestamp.shift (k : Int) (t : Timestamp) : Timestamp := ⟨t.seconds + k, t.nanos⟩

namespace Timestamp

theorem paced_shift (k : Int) : Paced fun s t => t = s.shift k := by
  rintro s _ nanos rfl
  simp only [shift, later, Timestamp.mk.injEq, and_true]
  omega

theorem ordered_shift (k : Int) : Ordered fun s t => t = s.shift k := by
  rintro s _ t _ rfl rfl
  rw [Bool.eq_iff_iff, notAfter_iff, notAfter_iff]
  simp only [shift]
  omega

/-- No time is after another one that is shifted far enough. -/
theorem exists_shift (s t : Timestamp) : ∃ k, s.notAfter (t.shift k) = true := by
  refine ⟨s.seconds - t.seconds + 1, ?_⟩
  rw [notAfter_iff]
  simp only [shift]
  omega

end Timestamp

/-! ## Nothing but time -/

/-- Others let time pass, and they may cancel the run. -/
def World.Passing (w v : World σ) : Prop :=
  ∃ t c, w.clock.notAfter t = true ∧ (w.cancelled = true → c = true) ∧
    v = { w with clock := t, cancelled := c }

/-- Others do not look at the variables. -/
def World.Blind (others : World σ → World σ → Prop) : Prop :=
  ∀ w v store, others w v → others { w with store := store } { v with store := store }

namespace World

theorem timely_passing : World.Timely (World.Passing (σ := σ)) :=
  fun w _ ht => ⟨_, w.cancelled, ht, id, rfl⟩

/-- Others call no executors. -/
theorem calls_passing (w v : World (σ × List Step)) (h : w.Passing v) :
    Prod.snd v.surroundings = Prod.snd w.surroundings := by
  obtain ⟨t, c, -, -, rfl⟩ := h
  rfl

theorem Passing.trans {u v w : World σ} (h : u.Passing v) (h' : v.Passing w) : u.Passing w := by
  obtain ⟨t, c, ht, hc, rfl⟩ := h
  obtain ⟨t', c', ht', hc', rfl⟩ := h'
  exact ⟨t', c', Timestamp.notAfter_trans ht ht', fun hu => hc' (hc hu), rfl⟩

theorem blind_passing : World.Blind (World.Passing (σ := σ)) := by
  rintro w _ store ⟨t, c, ht, hc, rfl⟩
  exact ⟨t, c, ht, hc, rfl⟩

/-- What passes beside the one run can pass beside the other, at shifted times. -/
theorem matched_passing (S : σ → σ → Prop) (k : Int) :
    World.Matched World.Passing (World.Alike (fun s t => t = s.shift k) S) := by
  rintro w v _ hwv ⟨t, c, ht, hc, rfl⟩
  refine ⟨{ v with clock := t.shift k, cancelled := c }, ⟨_, c, ?_, fun hv => ?_, rfl⟩,
    ⟨hwv.scene.store, rfl, hwv.scene.surroundings⟩, rfl⟩
  · rw [hwv.clock, ← Timestamp.ordered_shift k _ _ _ _ rfl rfl]
    exact ht
  · exact hc (hwv.scene.cancelled.trans hv)

end World

/-! ## Beginnings -/

/-- The activity looks at the clock and sets all variables before anything else. -/
def Activity.BeginsAfresh (x : Activity (World σ) α) : Prop :=
  ∃ (store : Store) (next : Timestamp → Activity (World σ) α), x = .update World.tick
    (.look fun w => .update (fun w => { w with store := store }) (next w.clock))

theorem Activity.beginsAfresh_stamp (store : Store)
    (next : Timestamp → Unit → Activity (World σ) α) :
    (World.stamp.bind fun now =>
      (modify fun w : World σ => { w with store := store }).bind (next now)).BeginsAfresh :=
  ⟨store, fun now => next now (), rfl⟩

namespace Activity.BeginsAfresh

variable {x : Activity (World σ) α} {w w' : World σ} {r : Ending α}

theorem bind (hx : x.BeginsAfresh) (f : α → Activity (World σ) β) : (x.bind f).BeginsAfresh := by
  obtain ⟨store, next, rfl⟩ := hx
  exact ⟨store, fun now => (next now).bind f, rfl⟩

/-- What was in the variables before makes no difference. -/
theorem course_of_store (hx : x.BeginsAfresh) (hothers : World.Blind others) (store : Store)
    (h : x.Course others w r w') : x.Course others { w with store := store } r w' := by
  obtain ⟨published, next, rfl⟩ := hx
  obtain ⟨u, hu, h⟩ := h.of_update
  obtain ⟨v, hv, h⟩ := h.of_look
  obtain ⟨t, ht, h⟩ := h.of_update
  exact .update (hothers _ _ store hu)
    (.look (hothers _ _ store hv) (.update (hothers _ _ store ht) h))

/-- The activity may begin later. -/
theorem course_of_others (hx : x.BeginsAfresh)
    (htrans : ∀ u v w, others u v → others v w → others u w) {v : World σ} (hv : others w v)
    (h : x.Course others v r w') : x.Course others w r w' := by
  obtain ⟨published, next, rfl⟩ := hx
  obtain ⟨u, hu, h⟩ := h.of_update
  exact .update (htrans _ _ _ hv hu) h

theorem complete_of_store (hx : x.BeginsAfresh) (w : World σ) (store : Store) :
    x.complete (·.cancelled) World.pass { w with store := store } =
      x.complete (·.cancelled) World.pass w := by
  obtain ⟨published, next, rfl⟩ := hx
  rfl

end Activity.BeginsAfresh

namespace Engine

variable {e : Engine σ} {s : Sequence} {mode : Mode} {w w' : World σ} {ending : Ending Context}

theorem beginsAfresh_begin (e : Engine σ) (s : Sequence) : (e.begin s).BeginsAfresh := by
  simp only [begin, Activity.bind_eq]
  exact Activity.beginsAfresh_stamp _ _

theorem beginsAfresh_sequential (e : Engine σ) (s : Sequence) : (e.sequential s).BeginsAfresh := by
  simp only [sequential, Activity.bind_eq]
  exact (e.beginsAfresh_begin s).bind _

/-- What was in the variables before makes no difference to a run. -/
theorem runs_of_store (hothers : World.Blind others) (store : Store)
    (h : e.Runs others mode s w ending w') :
    e.Runs others mode s { w with store := store } ending w' := by
  cases mode with
  | sequential => exact (e.beginsAfresh_sequential s).course_of_store hothers store h
  | parallel bound =>
    have hbegin : ∀ {r v}, (e.begin s).Course others w r v →
        (e.begin s).Course others { w with store := store } r v :=
      (e.beginsAfresh_begin s).course_of_store hothers store
    cases h with
    | joined hbegun hx hover hjoin => exact Parallel.joined (hbegin hbegun) hx hover hjoin
    | refused hrefused hconclude => exact Parallel.refused (hbegin hrefused) hconclude

theorem runs_store_iff (hothers : World.Blind others) (store : Store) :
    e.Runs others mode s { w with store := store } ending w' ↔ e.Runs others mode s w ending w' :=
  ⟨runs_of_store hothers w.store, runs_of_store hothers store⟩

/-- A run may begin later. -/
theorem runs_of_others (htrans : ∀ u v w, others u v → others v w → others u w) {v : World σ}
    (hv : others w v) (h : e.Runs others mode s v ending w') :
    e.Runs others mode s w ending w' := by
  cases mode with
  | sequential => exact (e.beginsAfresh_sequential s).course_of_others htrans hv h
  | parallel bound =>
    have hbegin : ∀ {r u}, (e.begin s).Course others v r u → (e.begin s).Course others w r u :=
      (e.beginsAfresh_begin s).course_of_others htrans hv
    cases h with
    | joined hbegun hx hover hjoin => exact Parallel.joined (hbegin hbegun) hx hover hjoin
    | refused hrefused hconclude => exact Parallel.refused (hbegin hrefused) hconclude

theorem run_store (e : Engine σ) (s : Sequence) (w : World σ) (store : Store) :
    e.run s { w with store := store } = e.run s w :=
  (e.beginsAfresh_sequential s).complete_of_store w store

theorem runParallel_store (e : Engine σ) (turns bound : Nat) (s : Sequence) (w : World σ)
    (store : Store) :
    e.runParallel turns bound s { w with store := store } = e.runParallel turns bound s w := by
  rw [runParallel, runParallel, (e.beginsAfresh_begin s).complete_of_store w store]

/-! ## Outcomes -/

/-- Two runs of a watched engine have come to the same: to contexts that are the same up to the
identity of the run and to times, with the same calls of executors and with the same variables. -/
structure SameOutcome (p q : Ending Context × World (σ × List Step)) : Prop where
  /-- The endings. -/
  ending : p.1.Twin (fun c c' => c.timeless = c'.timeless) q.1
  /-- The steps that executors were called for, in the order of the calls. -/
  calls : p.2.calls = q.2.calls
  /-- The variables. -/
  store : p.2.store = q.2.store

theorem sameOutcome_of_alike {T : Timestamp → Timestamp → Prop} {S : σ → σ → Prop}
    {ending ending' : Ending Context} {w v : World (σ × List Step)}
    (hending : ending.Twin (Context.Alike T) ending')
    (hwv : w.Alike T (fun p q => S p.1 q.1 ∧ p.2 = q.2) v) :
    SameOutcome (ending, w) (ending', v) := by
  refine ⟨?_, hwv.scene.surroundings.2, hwv.scene.store⟩
  cases hending with
  | returned hc => exact .returned hc.timeless
  | panicked m => exact .panicked m
  | stuck => exact .stuck

/-- A run begins if no declared variable is a built-in one, and else it does not. -/
theorem begin_iff {started : Except Context Context} {w w' : World σ}
    (h : (e.begin s).Course others w (.returned started) w') :
    (∃ c, started = .error c) ↔ s.Clashes e.machine := by
  rw [← s.refused_publish_iff]
  by_cases hpublish : (s.publish e.machine).refused = none
  · obtain ⟨now, hreturned⟩ := course_begin hpublish h
    cases hreturned
    simp [hpublish]
  · obtain ⟨c, hreturned, -⟩ := course_begin_refused hpublish h
    cases hreturned
    simp [hpublish]

/-- Concluding a run calls no executors, and comes to its end unless the reporter panics. -/
theorem ends_of_conclude {c : Context} {w w' : World (σ × List Step)}
    (h : (e.watched.conclude c).Course World.Passing w ending w') :
    w'.calls = w.calls ∧ (ending = .returned c ∨ ∃ n m, ending = .panicked m ∧ e.PanicsOn n m) := by
  obtain ⟨K, hK, hends⟩ := Activity.Notes.of_course World.calls_passing h
    (e.watched.notes_conclude c)
  have hcalls : w'.calls = w.calls ++ K := hK
  cases ending with
  | returned c' =>
    obtain ⟨rfl, rfl⟩ := hends
    exact ⟨hcalls.trans (List.append_nil _), .inl rfl⟩
  | panicked m =>
    obtain ⟨hnone, n, hpanics⟩ := hends
    obtain rfl : K = [] := List.eq_nil_iff_forall_not_mem.mpr fun t ht => by cases hnone t ht
    exact ⟨hcalls.trans (List.append_nil _), .inr ⟨n, m, rfl, hpanics⟩⟩
  | stuck => exact hends.elim

/-- A run whose variables clash is refused and concluded. -/
theorem exists_refused (hclashes : s.Clashes e.machine)
    (h : e.Runs others mode s w ending w') :
    ∃ c w₀, (e.begin s).Course others w (.returned (.error c)) w₀ ∧
      (e.conclude c).Course others w₀ ending w' := by
  cases mode with
  | sequential =>
    obtain ⟨started, w₀, hbegin, hrest⟩ := exists_begun h
    obtain ⟨c, rfl⟩ := (begin_iff hbegin).mpr hclashes
    exact ⟨c, w₀, hbegin, hrest⟩
  | parallel bound =>
    cases h with
    | joined hbegin _ _ _ =>
      obtain ⟨c, hc⟩ := (begin_iff hbegin).mpr hclashes
      cases hc
    | refused hbegin hconclude => exact ⟨_, _, hbegin, hconclude⟩

/-- It has failed with an empty record before any executor is called, unless the reporter panics. -/
theorem refused_of_clashes (hclashes : s.Clashes e.machine) {w w' : World (σ × List Step)}
    (h : e.watched.Runs World.Passing mode s w ending w') :
    w'.calls = w.calls ∧ ((∃ c, ending = .returned c ∧ c.status = .failed ∧ c.results = []) ∨
      ∃ n m, ending = .panicked m ∧ e.PanicsOn n m) := by
  obtain ⟨c, w₀, hbegin, hconclude⟩ := exists_refused (e := e.watched) hclashes h
  obtain ⟨K, hK, hends⟩ := Activity.Notes.of_course World.calls_passing hbegin
    (e.watched.notes_begin s)
  have hbegun : w₀.calls = w.calls := hK.trans (hends.1 ▸ List.append_nil _)
  obtain ⟨c', hreturned, hresults, hstatus⟩ :=
    course_begin_refused (e := e.watched) (s.refused_publish_iff e.machine |>.mpr hclashes) hbegin
  cases hreturned
  obtain ⟨hcalls, hended⟩ := ends_of_conclude hconclude
  exact ⟨hcalls.trans hbegun, hended.imp (fun hc => ⟨c, hc, hstatus, hresults⟩) id⟩

/-! ## Repeated runs -/

variable {S : σ → σ → Prop}

/-- Alone and step by step, a stateless engine comes to the same from any world that is as far
cancelled. -/
theorem Stateless.run_sameOutcome (h : e.Stateless S) (s : Sequence) {w v : World σ}
    (hcancelled : w.cancelled = v.cancelled) (hsurroundings : S w.surroundings v.surroundings) :
    SameOutcome (e.watched.run s w.watch) (e.watched.run s v.watch) := by
  have halike : w.watch.Alike (fun _ _ => True) (fun p q => S p.1 q.1 ∧ p.2 = q.2)
      { v.watch with store := w.store } :=
    ⟨⟨rfl, hcancelled, hsurroundings, rfl⟩, trivial⟩
  obtain ⟨hending, hworld⟩ := (h.watched.twin_sequential (fun _ _ _ _ => trivial) s).complete
    (fun _ _ _ _ => trivial) halike
  rw [← e.watched.run_store s v.watch w.store]
  exact sameOutcome_of_alike hending hworld

/-- Every run of a stateless engine has its like from any world that is as far cancelled. -/
theorem Stateless.exists_sameOutcome (h : e.Stateless S) {w v : World σ}
    (hcancelled : w.cancelled = v.cancelled) (hsurroundings : S w.surroundings v.surroundings)
    {w' : World (σ × List Step)} (hrun : e.watched.Runs World.Passing mode s w.watch ending w') :
    ∃ ending' v', e.watched.Runs World.Passing mode s v.watch ending' v' ∧
      SameOutcome (ending, w') (ending', v') := by
  obtain ⟨k, hk⟩ := Timestamp.exists_shift v.clock w.clock
  have halike : w.watch.Alike (fun s t => t = s.shift k) (fun p q => S p.1 q.1 ∧ p.2 = q.2)
      { v.watch with store := w.store, clock := w.clock.shift k } :=
    ⟨⟨rfl, hcancelled, hsurroundings, rfl⟩, rfl⟩
  obtain ⟨ending', v', hrun', hending, hworld⟩ : ∃ ending' v', e.watched.Runs World.Passing mode s
      { v.watch with store := w.store, clock := w.clock.shift k } ending' v' ∧
        ending.Twin (Context.Alike fun s t => t = s.shift k) ending' ∧
        w'.Alike (fun s t => t = s.shift k) (fun p q => S p.1 q.1 ∧ p.2 = q.2) v' := by
    cases mode with
    | sequential =>
      exact Activity.Twin.course (World.matched_passing _ k) hrun
        (h.watched.twin_sequential (Timestamp.paced_shift k) s) halike
    | parallel bound =>
      exact h.watched.exists_parallel (Timestamp.paced_shift k) (Timestamp.ordered_shift k)
        (World.matched_passing _ k) halike hrun
  have hlater : ({ v.watch with store := w.store } : World (σ × List Step)).Passing
      { v.watch with store := w.store, clock := w.clock.shift k } :=
    World.timely_passing _ _ hk
  refine ⟨ending', v', ?_, sameOutcome_of_alike hending hworld⟩
  exact (runs_store_iff World.blind_passing w.store).mp
    (runs_of_others (fun _ _ _ => World.Passing.trans) hlater hrun')

/-! ## What a run begins with -/

/-- What a run of the sequence begins with, and what it depends on. -/
structure Afresh (e : Engine σ) (s : Sequence) : Prop where
  /-- It fails to begin exactly if a declared variable is a built-in one, in whatever spelling. -/
  begins : ∀ (others : World σ → World σ → Prop) w,
    ((∀ v, others v v) → ∃ ending w', (e.begin s).Course others w ending w') ∧
      ∀ ending w', (e.begin s).Course others w ending w' →
        ∃ started, ending = .returned started ∧ ((∃ c, started = .error c) ↔ s.Clashes e.machine)
  /-- Then it comes to an end before any executor is called: it has failed with an empty record,
  unless the reporter panics. -/
  refused : s.Clashes e.machine → ∀ mode w,
    (∃ ending w', e.watched.Runs World.Passing mode s w ending w') ∧
      ∀ ending w', e.watched.Runs World.Passing mode s w ending w' → w'.calls = w.calls ∧
        ((∃ c, ending = .returned c ∧ c.status = .failed ∧ c.results = []) ∨
          ∃ n m, ending = .panicked m ∧ e.PanicsOn n m)
  /-- Else the variables with which it begins are the built-in ones, and then each declared one
  once, in order of the first declarations and under the spellings of these, with the value that was
  declared last.  Exactly the built-in ones are locked. -/
  published : ¬ s.Clashes e.machine → ∀ others, (∀ w v, others w v → w.Apart v) → ∀ w started w',
    (e.begin s).Course others w (.returned started) w' →
      w'.store.entries =
        (s.builtins e.machine).map (fun p => ⟨Store.keyOf p.1, p.1, p.2⟩) ++
          (Store.firstSpellings (s.declarations.map (·.name))).map (fun n =>
            ⟨Store.keyOf n, n, (Store.lastValue? s.declared (Store.keyOf n)).getD ""⟩) ∧
      ∀ key, key ∈ w'.store.readOnly ↔ ∃ p ∈ s.builtins e.machine, Store.keyOf p.1 = key
  /-- What it comes to does not depend on the variables that were there before. -/
  isolated : ∀ others, World.Blind others → ∀ mode w store ending w',
    e.Runs others mode s { w with store := store } ending w' ↔ e.Runs others mode s w ending w'
  /-- Neither does it alone. -/
  isolatedAlone : ∀ w store, e.run s { w with store := store } = e.run s w ∧
    ∀ turns bound,
      e.runParallel turns bound s { w with store := store } = e.runParallel turns bound s w
  /-- If the engine is stateless, each run has its like from any world that is as far cancelled. -/
  repeated : ∀ S, e.Stateless S → ∀ w v : World σ, w.cancelled = v.cancelled →
    S w.surroundings v.surroundings → ∀ mode ending w',
      e.watched.Runs World.Passing mode s w.watch ending w' →
        ∃ ending' v', e.watched.Runs World.Passing mode s v.watch ending' v' ∧
          SameOutcome (ending, w') (ending', v')
  /-- Alone and step by step, it comes to the same from there. -/
  repeatedAlone : ∀ S, e.Stateless S → ∀ w v : World σ, w.cancelled = v.cancelled →
    S w.surroundings v.surroundings →
      SameOutcome (e.watched.run s w.watch) (e.watched.run s v.watch)

/-- A run whose variables clash comes to an end. -/
theorem exists_runs_refused (hothers : ∀ w, others w w) (hclashes : s.Clashes e.machine)
    (mode : Mode) (w : World σ) : ∃ ending w', e.Runs others mode s w ending w' := by
  cases mode with
  | sequential => exact Activity.exists_course hothers (e.sequential s) w
  | parallel bound =>
    obtain ⟨_, w₀, hbegin⟩ := Activity.exists_course hothers (e.begin s) w
    obtain ⟨c, rfl, -⟩ :=
      course_begin_refused ((s.refused_publish_iff e.machine).mpr hclashes) hbegin
    obtain ⟨ending, w', hconclude⟩ := Activity.exists_course hothers (e.conclude c) w₀
    exact ⟨ending, w', Parallel.refused hbegin hconclude⟩

/-- Whatever the sequence declares, its runs begin afresh. -/
theorem afresh (e : Engine σ) (s : Sequence) : e.Afresh s where
  begins others w := by
    refine ⟨fun hself => Activity.exists_course hself (e.begin s) w, fun ending w' h => ?_⟩
    have hends := (e.notes_begin s).ending h
    cases ending with
    | returned started => exact ⟨started, rfl, begin_iff h⟩
    | panicked m => exact hends.elim
    | stuck => exact hends.elim
  refused hclashes mode w :=
    ⟨exists_runs_refused (e := e.watched) World.timely_passing.refl hclashes mode w,
      fun _ _ h => refused_of_clashes hclashes h⟩
  published hclashes others hothers w started w' h := by
    have hpublish : (s.publish e.machine).refused = none := by
      rw [← s.refused_publish_iff, not_not] at hclashes
      exact hclashes
    rw [e.store_begin hothers h]
    exact ⟨s.entries_publish e.machine hpublish, s.mem_readOnly_publish e.machine hpublish⟩
  isolated _ hothers _ _ store _ _ := runs_store_iff hothers store
  isolatedAlone w store :=
    ⟨e.run_store s w store, fun turns bound => e.runParallel_store turns bound s w store⟩
  repeated _ h _ _ hcancelled hsurroundings _ _ _ :=
    h.exists_sameOutcome hcancelled hsurroundings
  repeatedAlone _ h _ _ := h.run_sameOutcome s

theorem handy_stateless : handy.Stateless fun _ _ => True where
  executors x hx s c c' _ :=
    Registry.stateless_builtin (fun _ _ _ _ => ⟨rfl, trivial⟩) x hx s c c'
  reporter := by
    rintro reporter ⟨⟩

/-- A sequence with a declared variable that is a built-in one, and one without that runs twice, the
second time in the world that the first run has left. -/
theorem afresh_handy :
    let left := (handy.run .meddling .epoch).2
    Sequence.clashing.Clashes handy.machine ∧ ¬ Sequence.meddling.Clashes handy.machine ∧
      left.store.isLocked sequenceNameVariable = true ∧
      SameOutcome (handy.watched.run .meddling World.epoch.watch)
        (handy.watched.run .meddling left.watch) ∧
      (∀ w ending w', handy.watched.Runs World.Passing .sequential .clashing w ending w' →
        w'.calls = w.calls) := by
  intro left
  have hclashing : Sequence.clashing.Clashes handy.machine :=
    ⟨_, List.mem_cons_self, _, List.mem_cons_of_mem _ List.mem_cons_self, rfl⟩
  have hmeddling : ¬ Sequence.meddling.Clashes handy.machine := by
    rintro ⟨v, hv, -⟩
    cases hv
  have hlocked : left.store.isLocked sequenceNameVariable = true := by decide +kernel
  have hcancelled : World.epoch.cancelled = left.cancelled := by decide +kernel
  have hrepeated := (afresh handy .meddling).repeatedAlone _ handy_stateless .epoch left hcancelled
    trivial
  have hrefused := (afresh handy .clashing).refused hclashing .sequential
  exact ⟨hclashing, hmeddling, hlocked, hrepeated, fun w ending w' h =>
    ((hrefused w).2 ending w' h).1⟩

end Engine
end Runbook
