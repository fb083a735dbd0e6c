import Runbook.Proofs.Run.Afresh

/-!
# Runs beside other runs

Runs that go on beside each other have a clock, a reporter and surroundings in common, and nothing
else.  So what happens *elsewhere*, beside a run, may let time pass, make reports and change the
surroundings, but it leaves the variables of the run alone and does not cancel it.

To a stateless engine that tells no surroundings apart this makes no difference.  Step by step, a
run comes to what it comes to alone (`Engine.Stateless.run_alike`).  In either mode it has its like
among the runs beside which nothing happens but that time passes (`Engine.Stateless.exists_lapse`).
-/

namespace Runbook

variable {σ α : Type}

/-! ## Worlds -/

namespace World

/-- No variable was set, and nobody cancelled the run. -/
structure Fresh (w : World σ) : Prop where
  /-- The variables. -/
  store : w.store = Store.empty
  /-- Whether the run is cancelled. -/
  cancelled : w.cancelled = false

/-- Something happened, but not to the variables of the run, and it was not cancelled. -/
structure Elsewhere (w v : World σ) : Prop where
  /-- The variables stay as they are. -/
  store : v.store = w.store
  /-- The run is as far cancelled as before. -/
  cancelled : v.cancelled = w.cancelled
  /-- The clock was not turned back. -/
  clock : w.clock.notAfter v.clock = true

/-- Nothing happened but that time passed. -/
def Lapse (w v : World σ) : Prop := ∃ t, w.clock.notAfter t = true ∧ v = { w with clock := t }

/-- The worlds agree in the variables and in whether the run is cancelled. -/
abbrev Akin (w v : World σ) : Prop := w.Alike (fun _ _ => True) (fun _ _ => True) v

variable {u v w : World σ}

theorem Elsewhere.refl (w : World σ) : w.Elsewhere w := ⟨rfl, rfl, Timestamp.notAfter_refl _⟩

theorem Elsewhere.trans (h : u.Elsewhere v) (h' : v.Elsewhere w) : u.Elsewhere w :=
  ⟨h'.store.trans h.store, h'.cancelled.trans h.cancelled,
    Timestamp.notAfter_trans h.clock h'.clock⟩

theorem Elsewhere.fresh (h : u.Elsewhere v) (hu : u.Fresh) : v.Fresh :=
  ⟨h.store.trans hu.store, h.cancelled.trans hu.cancelled⟩

theorem Lapse.trans (h : u.Lapse v) (h' : v.Lapse w) : u.Lapse w := by
  obtain ⟨t, ht, rfl⟩ := h
  obtain ⟨t', ht', rfl⟩ := h'
  exact ⟨t', Timestamp.notAfter_trans ht ht', rfl⟩

theorem Fresh.akin (hu : u.Fresh) (hv : v.Fresh) : u.Akin v :=
  ⟨⟨hu.store.trans hv.store.symm, hu.cancelled.trans hv.cancelled.symm, trivial⟩, trivial⟩

/-- What happens elsewhere keeps worlds akin. -/
theorem Akin.elsewhere (h : u.Akin v) (hw : u.Elsewhere w) : w.Akin v :=
  ⟨⟨hw.store.trans h.scene.store, hw.cancelled.trans h.scene.cancelled, trivial⟩, trivial⟩

/-- What happens elsewhere is matched by the passing of time, at shifted times. -/
theorem matchedBy_lapse (k : Int) : World.MatchedBy (σ := σ) World.Elsewhere World.Lapse
    (World.Alike (fun s t => t = s.shift k) fun _ _ => True) := by
  intro w v w' hwv hw'
  refine ⟨{ v with clock := w'.clock.shift k }, ⟨_, ?_, rfl⟩,
    ⟨hw'.store.trans hwv.scene.store, hw'.cancelled.trans hwv.scene.cancelled, trivial⟩, rfl⟩
  rw [hwv.clock, ← Timestamp.ordered_shift k _ _ _ _ rfl rfl]
  exact hw'.clock

end World

/-! ## Activities -/

/-- The like of an activity comes alone to what the activity comes to while something happens
elsewhere, unless it waits for a cancellation. -/
theorem Activity.Course.complete_twin {Q : α → α → Prop} {x : Activity (World σ) α}
    {w w' : World σ} {r : Ending α} (hcourse : x.Course World.Elsewhere w r w') :
    ∀ {y : Activity (World σ) α} {v : World σ}, x.Twin World.Akin Q y → w.Akin v →
      (y.complete (·.cancelled) World.pass v).1 = .stuck ∨
        r.Twin Q (y.complete (·.cancelled) World.pass v).1 := by
  induction hcourse with
  | done =>
    intro y v h _
    cases h with
    | done hab => exact .inr (.returned hab)
  | panic =>
    intro y v h _
    cases h with
    | panic => exact .inr (.panicked _)
  | look hw _ ih =>
    intro y v h hwv
    have huv := hwv.elsewhere hw
    cases h with
    | look hnext =>
      rw [Activity.complete]
      exact ih (hnext _ _ huv) huv
  | update hw _ ih =>
    intro y v h hwv
    cases h with
    | update hchange hnext =>
      rw [Activity.complete]
      exact ih hnext (hchange _ _ (hwv.elsewhere hw))
  | @await delay _ _ u _ _ hw _ ih =>
    intro y v h hwv
    have huv := hwv.elsewhere hw
    cases h with
    | await hnext =>
      rw [huv.scene.cancelled] at ih
      rw [Activity.complete]
      split
      · next hover =>
        rw [(Bool.and_eq_true_iff.mp hover).2] at ih
        exact ih (hnext true) huv
      · cases delay.millis with
        | none => exact .inl rfl
        | some ms =>
          exact ih (hnext v.cancelled) ⟨⟨huv.scene.store, huv.scene.cancelled, trivial⟩, trivial⟩

/-! ## Endings -/

namespace Ending

/-- What a run leaves in a queue that comes to an ending. -/
inductive Leaves : Ending Context → RunEnd → Prop where
  /-- Its record. -/
  | finished (c : Context) : Leaves (.returned c) (.finished c)
  /-- Nothing, for it broke off. -/
  | crashed (m : Option String) : Leaves (.panicked m) .crashed

/-- The ending is like one that leaves this, apart from identities of runs and times. -/
inductive Resembles : Ending Context → RunEnd → Prop where
  /-- Both have a record. -/
  | finished {c c' : Context} : c.timeless = c'.timeless → Resembles (.returned c') (.finished c)
  /-- Both broke off. -/
  | crashed (m : Option String) : Resembles (.panicked m) .crashed

theorem Twin.resembles {ending ending' : Ending Context} {b : RunEnd}
    (h : ending.Twin (fun c c' => c.timeless = c'.timeless) ending') (hb : ending.Leaves b) :
    ending'.Resembles b := by
  cases hb with
  | finished c =>
    cases h with
    | returned heq => exact .finished heq
  | crashed m =>
    cases h with
    | panicked => exact .crashed m

end Ending

/-! ## Runs -/

namespace Engine.Stateless

variable {e : Engine σ} {s : Sequence} {mode : Mode} {v w w' : World σ} {ending : Ending Context}

/-- Step by step, a run beside others comes to what it comes to alone, unless it waits alone for a
cancellation. -/
theorem run_alike (h : e.Stateless fun _ _ => True) (hw : w.Fresh) (hv : v.Fresh)
    (hrun : e.Runs World.Elsewhere .sequential s w ending w') :
    (e.run s v).1 = .stuck ∨ ending.Twin (fun c c' => c.timeless = c'.timeless) (e.run s v).1 := by
  have htwin := h.twin_sequential (T := fun _ _ => True) (fun _ _ _ _ => trivial) s
  exact (Activity.Course.complete_twin hrun htwin (hw.akin hv)).imp_right
    (.mono fun _ _ => Context.Alike.timeless)

/-- A run beside others has its like beside which nothing happens but that time passes. -/
theorem exists_lapse (h : e.Stateless fun _ _ => True) (hw : w.Fresh) (hv : v.Fresh)
    (hrun : e.Runs World.Elsewhere mode s w ending w') :
    ∃ ending' v', e.Runs World.Lapse mode s v ending' v' ∧
      ending.Twin (fun c c' => c.timeless = c'.timeless) ending' := by
  obtain ⟨k, hk⟩ := Timestamp.exists_shift v.clock w.clock
  have halike : w.Alike (fun s t => t = s.shift k) (fun _ _ => True)
      { v with clock := w.clock.shift k } :=
    ⟨⟨hw.store.trans hv.store.symm, hw.cancelled.trans hv.cancelled.symm, trivial⟩, rfl⟩
  obtain ⟨ending', v', hrun', hending⟩ : ∃ ending' v', e.Runs World.Lapse mode s
      { v with clock := w.clock.shift k } ending' v' ∧
        ending.Twin (Context.Alike fun s t => t = s.shift k) ending' := by
    cases mode with
    | sequential =>
      obtain ⟨ending', v', hcourse, hending, -⟩ := Activity.Twin.course (World.matchedBy_lapse k)
        hrun (h.twin_sequential (Timestamp.paced_shift k) s) halike
      exact ⟨ending', v', hcourse, hending⟩
    | parallel bound =>
      obtain ⟨ending', v', hparallel, hending, -⟩ := h.exists_parallel (Timestamp.paced_shift k)
        (Timestamp.ordered_shift k) (World.matchedBy_lapse k) halike hrun
      exact ⟨ending', v', hparallel, hending⟩
  exact ⟨ending', v', runs_of_others (fun _ _ _ => World.Lapse.trans) ⟨_, hk, rfl⟩ hrun',
    hending.mono fun _ _ => Context.Alike.timeless⟩

end Engine.Stateless
end Runbook
