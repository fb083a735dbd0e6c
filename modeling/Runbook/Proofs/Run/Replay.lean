import Mathlib.Data.List.Nodup
import Mathlib.Logic.Function.Basic
import Runbook.Proofs.Run.Guarded
import Runbook.Proofs.Run.Recorded
import Runbook.Proofs.Run.Telling
import Runbook.Proofs.Step.Search

/-!
# The record explains the variables

The variables that a run leaves are those that it published, with the deeds of its record replayed.
Step by step the record lists the results in the order of their deeds.  The record of a parallel run
is sorted by the times at which steps were begun, and this is the order of their deeds as well,
whatever turns the branches have taken (`Engine.Reaches.exists_log`).  `Engine.explains_record` puts
both together.
-/

namespace Runbook

variable {σ : Type} {others : World σ → World σ → Prop}

open Activity (Leaves)

/-! ## Records -/

namespace Sequence

/-- The writes that a result tells of, by the step that it is of. -/
def writesOf (s : Sequence) (r : StepResult) : Pairs :=
  match s.findStep? r.stepId with
  | some t => t.writes r
  | none => []

/-- The deeds that a result tells of. -/
def deedsOf (s : Sequence) (r : StepResult) : List Deed :=
  (s.writesOf r).map fun p => ⟨r.started, p.1, p.2⟩

variable {s : Sequence} (hdistinct : (s.allSteps.map Step.id).Nodup)

theorem pairs_deedsOf (r : StepResult) : (s.deedsOf r).map Deed.pair = s.writesOf r := by
  rw [deedsOf, List.map_map]
  exact List.map_id _

include hdistinct

/-- The result of one of them tells of its step. -/
theorem writesOf_eq {t : Step} (ht : t ∈ s.allSteps) {r : StepResult} (hr : r.stepId = t.id) :
    s.writesOf r = t.writes r := by
  rw [writesOf, hr, findStep?_of_mem hdistinct ht]

/-- What is told by results of distinct steps can be read off the results. -/
theorem deeds_of_told {rs : List StepResult} {K : List Deed}
    (h : Told Step.Tells s.steps rs K) : K = rs.flatMap s.deedsOf := by
  induction h with
  | nil => rfl
  | cons ht hid hr _ ih =>
    rw [List.flatMap_cons, ← ih, hr.1, Step.deeds, deedsOf, writesOf_eq hdistinct ht hid]

end Sequence

/-- The record of a run explains which variables it leaves. -/
structure Context.Explains (c : Context) (s : Sequence) (machine : String) (store : Store) :
    Prop where
  /-- They are the published ones after the writes that the results tell of, in this order. -/
  replay : store = (s.publish machine).store.replay (c.results.flatMap s.writesOf)
  /-- Only completed steps that set a variable or ask for a restart tell of writes. -/
  writers : ∀ r ∈ c.results, s.writesOf r ≠ [] → r.status = .completed ∧
    ∃ t ∈ s.allSteps, r.stepId = t.id ∧ (t.kind = .setVariable ∨ t.kind = .restartComputer)

/-- Only completed steps of two kinds tell of writes. -/
theorem Told.writers {s : Sequence} (hdistinct : (s.allSteps.map Step.id).Nodup)
    {rs : List StepResult} {K : List Deed} (h : Told Step.Tells s.steps rs K) :
    ∀ r ∈ rs, s.writesOf r ≠ [] → r.status = .completed ∧
      ∃ t ∈ s.allSteps, r.stepId = t.id ∧ (t.kind = .setVariable ∨ t.kind = .restartComputer) := by
  induction h with
  | nil => simp
  | @cons t r _ _ _ ht hid hr _ ih =>
    refine List.forall_mem_cons.mpr ⟨fun hne => ?_, ih⟩
    rw [Sequence.writesOf_eq hdistinct ht hid] at hne
    refine ⟨hr.2 hne, t, ht, hid, ?_⟩
    by_contra hkind
    rw [not_or] at hkind
    exact hne (Step.writes_of_kind hkind.1 hkind.2 r)

namespace Engine

variable {e : Engine σ} {host : Host σ} {ss : List Step} {c : Context}

/-! ## Sequential runs -/

/-- With a calm reporter a run is not broken off. -/
theorem Calm.not_panicsOn (h : e.Calm) {n : Notice} {m : Option String} : ¬ e.PanicsOn n m := by
  rintro ⟨reporter, hreporter, earlier, hpanic⟩
  exact h reporter hreporter earlier n m hpanic

/-- A run whose variables are refused leaves them as far as they were published. -/
theorem explains_refused (hothers : ∀ w v, others w v → w.Apart v) {s : Sequence}
    {w w₀ w' : World σ} {c₀ c : Context}
    (hbegin : (e.begin s).Course others w (.returned (.error c₀)) w₀)
    (hconclude : (e.conclude c₀).Course others w₀ (.returned c) w') :
    c.Explains s e.machine w'.store := by
  obtain ⟨-, -, hempty⟩ := (e.notes_begin s).ending hbegin
  obtain ⟨K, m', ⟨rfl, hc⟩, hwrote⟩ :=
    Activity.exists_wrote hothers (e.idle_conclude c₀) hconclude
  have hresults : c.results = [] := by rw [hc c rfl, hempty c₀ rfl]
  refine ⟨?_, by simp [hresults]⟩
  rw [hwrote.store, hresults, e.store_begin hothers hbegin]
  rfl

theorem Orderly.explains_sequential (h : e.Orderly host)
    (hothers : ∀ w v, others w v → w.Apart v) {s : Sequence}
    (hdistinct : (s.allSteps.map Step.id).Nodup) {w w' : World σ} {c : Context}
    (hrun : (e.sequential s).Course others w (.returned c) w') :
    c.Explains s e.machine w'.store := by
  obtain ⟨started, w₀, hbegin, hrest⟩ := exists_begun hrun
  cases started with
  | error c₀ => exact explains_refused hothers hbegin hrest
  | ok c₀ =>
    obtain ⟨-, hempty, -⟩ := (e.notes_begin s).ending hbegin
    obtain ⟨K, m', htold, hwrote⟩ :=
      Activity.exists_wrote hothers (h.explained.does_onceBegun s c₀) hrest
    obtain ⟨rs, hresults, htold⟩ := htold c rfl
    rw [hempty c₀ rfl, List.nil_append] at hresults
    refine ⟨?_, hresults ▸ htold.writers hdistinct⟩
    rw [hwrote.store, e.store_begin hothers hbegin, s.deeds_of_told hdistinct htold, hresults,
      List.map_flatMap]
    simp only [Sequence.pairs_deedsOf]

/-! ## Parallel runs -/

/-- The deeds of a branch, by where it stands.  Before it is started it has done nothing, and when
it is over its results tell what it has done. -/
def Worked (ss : List Step) (i : Nat) (K : List Deed) :
    Stage (Bool → Activity (World σ) (List StepResult)) BranchEnd → Prop
  | .inside next => ∃ s, ss[i]? = some s ∧
      ∀ b m, (next b).Does (Leaves fun L rs => Told Step.Tells [s] rs (K ++ L)) m
  | .ended (.finished rs) => ∃ s, ss[i]? = some s ∧ Told Step.Tells [s] rs K
  | .ended (.crashed _) => True
  | _ => K = []

/-- A branch with a place that goes on adds to its deeds, and leaves those of the others. -/
theorem exists_worked_carryOn {b : Branches σ} {i : Nat} {s : Step} {deeds : Nat → List Deed}
    {work : Activity (World σ) (List StepResult)}
    (hothers : ∀ j stage, j ≠ i → b.stages[j]? = some stage → Worked ss j (deeds j) stage)
    (hs : ss[i]? = some s)
    (hwork : ∀ m, work.Does (Leaves fun L rs => Told Step.Tells [s] rs (deeds i ++ L)) m)
    {floor : Timestamp} {w : World σ} (hfloor : floor.notAfter w.clock = true) :
    ∃ K floor', Wrote floor w K floor' (carryOn b i work w).world ∧
      floor'.notAfter (carryOn b i work w).world.clock = true ∧
      (carryOn b i work w).branches.ForAll fun j stage =>
        Worked ss j (Function.update deeds i (deeds i ++ K) j) stage := by
  obtain ⟨K, m', hrests, hwrote, hclock⟩ := (hwork ⟨w.store, floor, w.clock⟩).of_advance
    ⟨rfl, hfloor, Timestamp.notAfter_refl _⟩
  refine ⟨K, m'.floor, by rwa [world_carryOn], by rwa [world_carryOn], ?_⟩
  have hothers : ∀ j stage, j ≠ i → b.stages[j]? = some stage →
      Worked ss j (Function.update deeds i (deeds i ++ K) j) stage := by
    intro j stage hj hstage
    rw [Function.update_of_ne hj]
    exact hothers j stage hj hstage
  rw [carryOn]
  generalize work.advance (·.cancelled) w = p at hrests
  obtain ⟨pause, v⟩ := p
  cases pause with
  | done rs =>
    refine Gate.forAll_leave hothers ⟨s, hs, ?_⟩ fun _ hwaiting => hwaiting
    rw [Function.update_self]
    exact hrests rs rfl
  | panicked m => exact Gate.forAll_leave hothers trivial fun _ hwaiting => hwaiting
  | asleep d next =>
    refine Gate.forAll_put hothers ⟨s, hs, fun c m => ?_⟩
    refine (hrests m c).mono fun L r _ hr rs hrs => ?_
    dsimp only
    rw [Function.update_self, List.append_assoc]
    exact hr rs hrs

/-- The turn of a branch adds to its deeds. -/
theorem Turned.exists_worked (h : e.Explained Step.Tells) {i : Nat} {x y : Flight σ}
    (hturned : e.Turned ss c x i y) {deeds : Nat → List Deed}
    (hworked : x.branches.ForAll fun j stage => Worked ss j (deeds j) stage) {floor : Timestamp}
    (hfloor : floor.notAfter x.world.clock = true) :
    ∃ K floor', Wrote floor x.world K floor' y.world ∧ floor'.notAfter y.world.clock = true ∧
      (K ≠ [] → i < ss.length) ∧ y.branches.ForAll fun j stage =>
        Worked ss j (Function.update deeds i (deeds i ++ K) j) stage := by
  have hgate : (x.branches.call i x.world.cancelled .skipped).gate.ForAll
      fun j stage => Worked ss j (deeds j) stage :=
    hworked.call (fun _ hfresh => hfresh) (fun _ hwaiting => hwaiting) fun _ _ hgranted => hgranted
  cases hturned with
  | @started s hadmission hs =>
    have hnone : deeds i = [] := hgate i _ (Gate.call_admitted hadmission).2
    have hbranch : ∀ m, (e.branch s c).Does
        (Leaves fun L rs => Told Step.Tells [s] rs (deeds i ++ L)) m := by
      rw [hnone]
      exact h.does_branch s c
    obtain ⟨K, floor', hwrote, hclock, hafter⟩ := exists_worked_carryOn
      (fun j stage _ => hgate j stage) hs hbranch hfloor
    exact ⟨K, floor', hwrote, hclock, fun _ => (List.getElem?_eq_some_iff.mp hs).1, hafter⟩
  | resumed hinside =>
    obtain ⟨s, hs, hrest⟩ := hworked i _ hinside
    obtain ⟨K, floor', hwrote, hclock, hafter⟩ := exists_worked_carryOn
      (fun j stage _ => hworked j stage) hs (hrest _) hfloor
    exact ⟨K, floor', hwrote, hclock, fun _ => (List.getElem?_eq_some_iff.mp hs).1, hafter⟩
  | stayed =>
    refine ⟨[], floor, .nil rfl (Timestamp.notAfter_refl _), hfloor, fun hne => absurd rfl hne, ?_⟩
    rwa [List.append_nil, Function.update_eq_self]

/-- In every state that a parallel run comes to, the deeds so far are those of its branches in the
order in which their steps were begun. -/
theorem Reaches.exists_log (h : e.Explained Step.Tells) (hothers : ∀ w v, others w v → w.Apart v)
    {bound : Nat} {w₀ : World σ} {x : Flight σ} (hx : e.Reaches others ss c bound w₀ x) :
    ∃ (deeds : Nat → List Deed) (L : List Deed) (floor : Timestamp),
      Wrote w₀.clock w₀ L floor x.world ∧ floor.notAfter x.world.clock = true ∧
      ((List.range ss.length).flatMap deeds).Perm L ∧
      x.branches.ForAll fun i stage => Worked ss i (deeds i) stage := by
  induction hx with
  | start =>
    refine ⟨fun _ => [], [], w₀.clock, .nil rfl (Timestamp.notAfter_refl _),
      Timestamp.notAfter_refl _, ?_, Gate.forAll_ofBound fun _ => rfl⟩
    rw [List.flatMap_eq_nil_iff.mpr fun _ _ => rfl]
  | turn i hx ih =>
    obtain ⟨deeds, L, floor, hwrote, hfloor, hperm, hworked⟩ := ih
    have hlength := (hx.reached fun w v hv => (hothers w v hv).1).stands.1
    obtain ⟨K, floor', hmore, hfloor', hi, hafter⟩ :=
      (turned_afterTurn hlength i).exists_worked h hworked hfloor
    refine ⟨_, L ++ K, floor', hwrote.append hmore, hfloor', ?_, hafter⟩
    exact (flatMap_update_perm List.nodup_range fun hne => List.mem_range.mpr (hi hne)).trans
      (hperm.append_right K)
  | @others x v _ hv ih =>
    obtain ⟨deeds, L, floor, hwrote, hfloor, hperm, hworked⟩ := ih
    have hv := hothers _ _ hv
    refine ⟨deeds, L, floor, ?_, Timestamp.notAfter_trans hfloor hv.1.clock, hperm, hworked⟩
    exact List.append_nil L ▸ hwrote.append (.nil hv.2 hv.1.clock)

/-- A branch that is over and did not break off leaves results that tell its deeds. -/
theorem Worked.told {ss : List Step} {i : Nat} {K : List Deed} {b : BranchEnd}
    (h : Worked (σ := σ) ss i K (.ended b)) (hb : ∀ m, b ≠ .crashed m) :
    Told Step.Tells ss b.results K := by
  cases b with
  | finished rs =>
    obtain ⟨s, hs, htold⟩ := h
    refine htold.mono fun t ht => Step.mem_preorderAll_of_mem (List.mem_of_getElem? hs) ?_
    rwa [Step.preorderAll_singleton] at ht
  | skipped =>
    obtain rfl : K = [] := h
    exact .nil
  | crashed m => exact absurd rfl (hb m)

theorem told_outcomes {ss : List Step} : ∀ {bs : List BranchEnd} {deeds : Nat → List Deed},
    (∀ i b, bs[i]? = some b → Told Step.Tells ss b.results (deeds i)) →
      Told Step.Tells ss (bs.flatMap BranchEnd.results) ((List.range bs.length).flatMap deeds)
  | [], _, _ => .nil
  | b :: bs, deeds, h => by
      rw [List.length_cons, List.range_succ_eq_map, List.flatMap_cons, List.flatMap_cons,
        List.flatMap_map]
      exact (h 0 b rfl).append (told_outcomes fun i b => h (i + 1) b)

/-- Deeds that are told by a sorted record are in the order of their times. -/
theorem eq_of_sorted {s : Sequence} {rs : List StepResult} {L : List Deed}
    (hsorted : rs.Pairwise fun r r' => r.started.notAfter r'.started = true)
    (hL : L.Pairwise fun d d' => d.time.Before d'.time) (hperm : (rs.flatMap s.deedsOf).Perm L) :
    rs.flatMap s.deedsOf = L := by
  have htime : ∀ r d, d ∈ s.deedsOf r → d.time = r.started := by
    intro r d hd
    obtain ⟨p, -, rfl⟩ := List.mem_map.mp hd
    rfl
  have hdeeds : (rs.flatMap s.deedsOf).Pairwise fun d d' => d.time.notAfter d'.time = true := by
    refine List.pairwise_flatMap.mpr ⟨fun r _ => ?_, hsorted.imp fun {r r'} hle d hd d' hd' => ?_⟩
    · refine List.pairwise_of_forall_mem_list fun d hd d' hd' => ?_
      rw [htime r d hd, htime r d' hd']
      exact Timestamp.notAfter_refl _
    · rw [htime r d hd, htime r' d' hd']
      exact hle
  refine hperm.eq_of_pairwise (fun d d' hd hd' hle hle' => ?_) hdeeds
    (hL.imp fun hlt => hlt.notAfter)
  -- Of two different deeds one has the earlier time.
  have hsame := List.Pairwise.forall_of_forall_of_flip
    (R := fun d d' : Deed => d.time.notAfter d'.time = true → d'.time.notAfter d.time = true →
      d = d') (fun _ _ _ _ => rfl)
    (hL.imp fun hlt _ hafter => absurd hafter hlt.not_notAfter)
    (hL.imp fun hlt hafter _ => absurd hafter hlt.not_notAfter)
  exact hsame (hperm.mem_iff.mp hd) hd' hle hle'

/-- When all branches are over and none broke off, the results that they leave tell their deeds. -/
theorem told_blocks {b : Branches σ} {deeds : Nat → List Deed} {as : List (Option Account)}
    (hover : b.isEmpty = true) (houtcomes : b.outcomes = as.map .ofAccount)
    (hlength : as.length = ss.length)
    (hworked : b.ForAll fun i stage => Worked ss i (deeds i) stage) :
    Told Step.Tells ss (Account.blocks (as.filterMap id))
      ((List.range ss.length).flatMap deeds) := by
  have hends : ∀ i end', b.outcomes[i]? = some end' →
      Told Step.Tells ss end'.results (deeds i) := by
    intro i end' hend
    have hstage : b.stages[i]? = some (.ended end') := by
      rw [Gate.stages_of_isEmpty hover, List.getElem?_map, hend]
      rfl
    refine (hworked i _ hstage).told fun m hm => ?_
    rw [houtcomes] at hend
    obtain ⟨a, -, ha⟩ := List.mem_map.mp (List.mem_of_getElem? hend)
    cases a <;> cases ha.trans hm
  have htold := told_outcomes hends
  rwa [houtcomes, results_ofAccount, List.length_map, hlength] at htold

/-- Branches that are put together set no variables. -/
theorem store_join (hothers : ∀ w v, others w v → w.Apart v) {f : Fan σ} {w w' : World σ}
    {ending : Ending Context} (h : (e.join f).Course others w ending w') : w'.store = w.store := by
  obtain ⟨K, m', ⟨rfl, -⟩, hquiet⟩ := Activity.exists_wrote hothers (e.idle_join f) h
  exact hquiet.store

theorem Orderly.explains_parallel (h : e.Orderly host) (hcalm : e.Calm)
    (hothers : ∀ w v, others w v → w.Apart v) {s : Sequence}
    (hdistinct : (s.allSteps.map Step.id).Nodup) {bound : Nat} {w w' : World σ}
    {ending : Ending Context} (hrun : e.Parallel others bound s w ending w') :
    ∃ c, ending = .returned c ∧ c.Explains s e.machine w'.store := by
  cases hrun with
  | refused hbegin hconclude =>
    obtain rfl := hcalm.course_conclude hconclude
    exact ⟨_, rfl, explains_refused hothers hbegin hconclude⟩
  | @joined c₀ w₀ _ x _ hbegin hx hover hjoin =>
    obtain ⟨-, hempty, -⟩ := (e.notes_begin s).ending hbegin
    obtain ⟨deeds, L, floor, hwrote, -, hperm, hworked⟩ := hx.exists_log h.explained hothers
    have hreached := hx.reached fun w v hv => (hothers w v hv).1
    obtain ⟨as, houtcomes, hlength, -⟩ := hreached.exists_settled hcalm hover
    obtain ⟨now, rfl⟩ := hcalm.course_join houtcomes hlength hjoin
    have htold := told_blocks hover houtcomes hlength hworked
    have hresults : (joined c₀ as).results = sortedByStart (Account.blocks (as.filterMap id)) := by
      rw [joined, hempty c₀ rfl, List.nil_append]
    have hsorted : (joined c₀ as).results.flatMap s.deedsOf = L := by
      rw [hresults]
      refine eq_of_sorted (sortedByStart_pairwise _) hwrote.increasing ?_
      refine ((sortedByStart_perm _).flatMap_right _).trans ?_
      rw [← s.deeds_of_told hdistinct htold]
      exact hperm
    refine ⟨_, rfl, ?_, fun r hr => htold.writers hdistinct r ?_⟩
    · calc w'.store = x.world.store := store_join hothers hjoin
        _ = w₀.store.replay (L.map Deed.pair) := hwrote.store
        _ = (s.publish e.machine).store.replay
            ((joined c₀ as).results.flatMap s.writesOf) := by
          rw [e.store_begin hothers hbegin, ← hsorted, List.map_flatMap]
          simp only [Sequence.pairs_deedsOf]
    · rw [← (sortedByStart_perm _).mem_iff, ← hresults]
      exact hr

/-- With the built-in executors first, others that spare the variables and a calm reporter, the
record of a run of distinct steps explains which variables it leaves: step by step or in parallel,
whatever turns the branches take and whenever the run is cancelled. -/
theorem explains_record (h : e.Orderly host) (hcalm : e.Calm)
    (hothers : ∀ w v, others w v → w.Apart v) {s : Sequence}
    (hdistinct : (s.allSteps.map Step.id).Nodup) {w w' : World σ} {ending : Ending Context}
    {mode : Mode} (hrun : e.Runs others mode s w ending w') :
    ∃ c, ending = .returned c ∧ c.Explains s e.machine w'.store := by
  cases mode with
  | sequential =>
    have hcomes := (e.logs_nothing.notes_sequential s).ending hrun
    cases ending with
    | returned c => exact ⟨c, rfl, h.explains_sequential hothers hdistinct hrun⟩
    | panicked m =>
      obtain ⟨-, n, hpanics⟩ := hcomes
      exact absurd hpanics hcalm.not_panicsOn
    | stuck => exact hcomes.elim
  | parallel bound => exact h.explains_parallel hcalm hothers hdistinct hrun

end Engine

/-- A sequence whose steps set the same variable. -/
def Sequence.rivals : Sequence := .ofSteps [.setting "a" "A" "x" "one", .setting "b" "B" "X" "two"]

/-- A parallel run in which the second of them has its turn before the first. -/
theorem Engine.explains_record_rivals :
    let s := Sequence.rivals
    let c₀ := handy.opening s ⟨0, 1⟩
    let w₀ := { World.epoch.tick with store := (s.publish handy.machine).store }
    let x := handy.afterTurn s.steps c₀
      (handy.afterTurn s.steps c₀ ⟨Gate.ofBound 2 s.steps.length, w₀, []⟩ 1) 0
    let r := (handy.join ⟨s.steps, c₀, x.branches⟩).complete (·.cancelled) World.pass x.world
    (s.allSteps.map Step.id).Nodup ∧
      handy.Runs World.Apart (.parallel 2) s .epoch r.1 r.2 ∧
      r.2.store.get "x" = "one" ∧
      ∃ c, r.1 = .returned c ∧ c.Explains s handy.machine r.2.store := by
  intro s c₀ w₀ x r
  have horderly : handy.Orderly ⟨fun _ u => (.error "none", u)⟩ :=
    ⟨[], (List.append_nil _).symm, by simp⟩
  have hcalm : handy.Calm := by
    rintro reporter ⟨⟩
  have hdistinct : (s.allSteps.map Step.id).Nodup := by decide +kernel
  have hbegin : (handy.begin s).Course World.Apart .epoch (.returned (.ok c₀)) w₀ :=
    .update (.refl _) (.look (.refl _) (.update (.refl _) .done))
  have hx : handy.Reaches World.Apart s.steps c₀ 2 w₀ x := .turn 0 (.turn 1 .start)
  have hover : x.branches.isEmpty = true := by decide +kernel
  have hread : r.2.store.get "x" = "one" := by decide +kernel
  have hends : r.1 ≠ .stuck := by decide +kernel
  have hjoin : (handy.join ⟨s.steps, c₀, x.branches⟩).Course World.Apart x.world r.1 r.2 :=
    .of_complete World.Apart.refl World.apart_pass (Prod.eta r).symm hends
  clear_value w₀ x r
  have hrun : handy.Runs World.Apart (.parallel 2) s .epoch r.1 r.2 :=
    Parallel.joined hbegin hx hover hjoin
  obtain ⟨c, hc, hexplains⟩ := explains_record horderly hcalm (fun _ _ => id) hdistinct hrun
  exact ⟨hdistinct, hrun, hread, c, hc, hexplains⟩

end Runbook
