import Mathlib.Data.List.Perm.Subperm
import Runbook.Proofs.Run.Branches

/-!
# Parallel runs

When all branches are over, their results are put together.  A branch that was started is in the
record with its whole block, whatever became of the others, and one that was not started, because
the run was cancelled, is not in it at all.  The record is sorted by the times at which steps were
begun, so a group comes before the steps in it, and the status follows from the record and from the
branches that were not started.  This is `Engine.SideBySide`, and `Engine.exists_sideBySide` says
that a parallel run that publishes its variables is of this kind, in whatever order its branches
take turns and whatever goes on beside.
-/

namespace Runbook

variable {σ : Type} {others : World σ → World σ → Prop}

/-! ## Sorting -/

/-- Results that were begun one after the other keep this order among results that are sorted by
their start. -/
theorem sublist_of_increasing :
    ∀ {l rs : List StepResult},
      l.Pairwise (fun r r' => r.started.notAfter r'.started = true) →
      rs.Pairwise (fun r r' => r.started.Before r'.started) → rs.Subperm l → rs.Sublist l
  | [], rs, _, _, hsub => by rw [List.subperm_nil.mp hsub]
  | x :: l, [], _, _, _ => List.nil_sublist _
  | x :: l, r :: rs, hl, hrs, hsub => by
      obtain ⟨hx, htail⟩ := List.pairwise_cons.mp hl
      obtain ⟨hr, hrest⟩ := List.pairwise_cons.mp hrs
      by_cases heq : r = x
      · subst heq
        exact (sublist_of_increasing htail hrest ((List.subperm_cons r).mp hsub)).cons_cons r
      · -- `x` is begun no later than `r`, so it is none of the results after `r`.
        have hmem : r ∈ l := List.mem_of_ne_of_mem heq (hsub.subset List.mem_cons_self)
        have hnot : x ∉ r :: rs := by
          intro hxrs
          obtain rfl | hxrs := List.mem_cons.mp hxrs
          · exact heq rfl
          · exact (hr x hxrs).not_notAfter (hx r hmem)
        have herase := hsub.erase x
        rw [List.erase_of_not_mem hnot, List.erase_cons_head] at herase
        exact (sublist_of_increasing htail hrs herase).cons x

/-- The results sorted by their start, those with the same start as they stood. -/
def sortedByStart (rs : List StepResult) : List StepResult :=
  rs.mergeSort fun a b => a.started.notAfter b.started

theorem sortedByStart_pairwise (rs : List StepResult) :
    (sortedByStart rs).Pairwise fun r r' => r.started.notAfter r'.started = true :=
  @List.pairwise_mergeSort StepResult (fun a b => a.started.notAfter b.started)
    (fun _ _ _ => Timestamp.notAfter_trans)
    (fun _ _ => Bool.or_eq_true _ _ ▸ Timestamp.notAfter_total _ _) rs

theorem sortedByStart_perm (rs : List StepResult) : (sortedByStart rs).Perm rs :=
  List.mergeSort_perm _ _

/-! ## What branches leave -/

/-- The results that a branch left which did not break off. -/
def BranchEnd.results : BranchEnd → List StepResult
  | finished rs => rs
  | _ => []

/-- The end of a branch that was started with an account, or not at all. -/
def BranchEnd.ofAccount : Option Account → BranchEnd
  | some a => finished a.block
  | none => skipped

/-- Branches that did not break off leave their results. -/
theorem Engine.gatherAll_eq :
    ∀ {task : Nat} {bs : List (Step × BranchEnd)}, (∀ b ∈ bs, ∀ m, b.2 ≠ .crashed m) →
      (gatherAll task bs : Activity (World σ) _) = .done (bs.flatMap (·.2.results))
  | _, [], _ => rfl
  | task, (s, b) :: bs, h => by
      obtain ⟨hb, hbs⟩ := List.forall_mem_cons.mp h
      have hgather : (gather task s b : Activity (World σ) _) = .done b.results := by
        cases b with
        | finished rs => rfl
        | skipped => rfl
        | crashed m => exact absurd rfl (hb m)
      rw [gatherAll, hgather, gatherAll_eq hbs]
      rfl

theorem skipped_mem_ofAccount {as : List (Option Account)} :
    BranchEnd.skipped ∈ as.map .ofAccount ↔ none ∈ as := by
  constructor
  · intro h
    obtain ⟨a, ha, hskipped⟩ := List.mem_map.mp h
    cases a with
    | none => exact ha
    | some a => cases hskipped
  · exact List.mem_map_of_mem

theorem results_ofAccount : ∀ as : List (Option Account),
    (as.map BranchEnd.ofAccount).flatMap BranchEnd.results =
      Account.blocks (as.filterMap id)
  | [] => rfl
  | none :: as => results_ofAccount as
  | some a :: as => congrArg (a.block ++ ·) (results_ofAccount as)

/-- Ends that each come from an account that is known of come from accounts. -/
theorem exists_accounts : ∀ {bs : List BranchEnd} {P : Nat → Option Account → Prop},
    (∀ i b, bs[i]? = some b → ∃ a, b = .ofAccount a ∧ P i a) →
      ∃ as : List (Option Account), bs = as.map .ofAccount ∧ ∀ i a, as[i]? = some a → P i a
  | [], _, _ => ⟨[], rfl, by simp⟩
  | b :: bs, P, h => by
      obtain ⟨a, rfl, ha⟩ := h 0 b rfl
      obtain ⟨as, rfl, has⟩ := exists_accounts (P := fun i => P (i + 1)) fun i b => h (i + 1) b
      refine ⟨a :: as, rfl, fun i a' ha' => ?_⟩
      cases i with
      | zero =>
        cases ha'
        exact ha
      | succ i => exact has i a' ha'

namespace Engine

variable {e : Engine σ} {ss : List Step} {c : Context}

/-- With a calm reporter a branch leaves the block of its step. -/
theorem Calm.ran_of_branch (hcalm : e.Calm) {s : Step} {w w' : World σ}
    {ending : Ending (List StepResult)} (h : (e.branch s c).Course others w ending w') :
    ∃ a c', ending = .returned a.block ∧ e.Ran others s c.branch w a c' w' := by
  simp only [branch, Activity.bind_eq] at h
  obtain ⟨⟨own, c₁⟩, u, hstep, h⟩ := h.of_bind_of_returns fun m _ hpanic => by
    obtain ⟨_, _, _, hreturned, -⟩ := hcalm.ran_of_runStep hpanic
    cases hreturned
  obtain ⟨_, inner, _, hreturned, hran⟩ := hcalm.ran_of_runStep hstep
  cases hreturned
  obtain ⟨c', v, hrecord, hdone⟩ := h.of_bind_of_returns fun m _ hpanic => by
    cases hcalm.course_record hpanic
  obtain ⟨rfl, rfl⟩ := hdone.of_done
  have hbranch := hran hrecord
  exact ⟨⟨own, inner⟩, c', congrArg _ (Ran.results e hbranch), hbranch⟩

variable (e ss c)

/-- What is known of a branch that is over: it was started once and its step was run, or the run was
cancelled and it was not started. -/
def Settled (x : Flight σ) (i : Nat) : Option Account → Prop
  | some a => x.started.count i = 1 ∧ ∃ s w c' w', ss[i]? = some s ∧ w.cancelled = false ∧
      e.Ran World.Onward s c.branch w a c' w'
  | none => x.started.count i = 0 ∧ x.world.cancelled = true

variable {e ss c}

theorem Calm.settled_of_stands (hcalm : e.Calm) {x : Flight σ} {i : Nat} {b : BranchEnd}
    (h : e.Stands ss c x.world x.started i (.ended b)) :
    ∃ a, b = .ofAccount a ∧ e.Settled ss c x i a := by
  cases h with
  | finished hone hs hw₀ hcourse =>
    obtain ⟨a, c', hreturned, hran⟩ := hcalm.ran_of_branch hcourse
    cases hreturned
    exact ⟨some a, rfl, hone, _, _, c', _, hs, hw₀, hran⟩
  | crashed _ _ _ hcourse =>
    obtain ⟨_, _, hreturned, -⟩ := hcalm.ran_of_branch hcourse
    cases hreturned
  | skipped hout hcancelled => exact ⟨none, rfl, List.count_eq_zero_of_not_mem hout, hcancelled⟩

/-- When all branches are over, each is known of. -/
theorem Reached.exists_settled (hcalm : e.Calm) {bound : Nat} {w₀ : World σ} {x : Flight σ}
    (hx : e.Reached ss c bound w₀ x) (hover : x.branches.isEmpty = true) :
    ∃ as : List (Option Account), x.branches.outcomes = as.map .ofAccount ∧ as.length = ss.length ∧
      ∀ i a, as[i]? = some a → e.Settled ss c x i a := by
  obtain ⟨hlength, hstands⟩ := hx.stands
  have hstages := Gate.stages_of_isEmpty hover
  have hends : ∀ i b, x.branches.outcomes[i]? = some b →
      ∃ a, b = .ofAccount a ∧ e.Settled ss c x i a := by
    intro i b hb
    refine hcalm.settled_of_stands (hstands i (.ended b) ?_)
    rw [hstages, List.getElem?_map, hb]
    rfl
  obtain ⟨as, houtcomes, hsettled⟩ := exists_accounts hends
  refine ⟨as, houtcomes, ?_, hsettled⟩
  rw [← hlength, hstages, houtcomes, List.length_map, List.length_map]

/-! ## The record -/

/-- The context of a parallel run with the blocks of its branches. -/
def joined (c : Context) (as : List (Option Account)) : Context :=
  { c with results := c.results ++ sortedByStart (Account.blocks (as.filterMap id)) }

/-- The blocks of branches that did not break off are put together. -/
theorem join_eq {b : Branches σ} {as : List (Option Account)}
    (houtcomes : b.outcomes = as.map .ofAccount) (hlength : as.length = ss.length) :
    e.join ⟨ss, c, b⟩ = e.finish (verdict (joined c as) (as.map .ofAccount)) (joined c as) := by
  have hunbroken : ∀ p ∈ ss.zip (as.map BranchEnd.ofAccount), ∀ m, p.2 ≠ .crashed m := by
    intro p hp m
    obtain ⟨a, -, ha⟩ := List.mem_map.mp (List.of_mem_zip hp).2
    rw [← ha]
    cases a <;> exact BranchEnd.noConfusion
  have hresults : (ss.zip (as.map BranchEnd.ofAccount)).flatMap (·.2.results) =
      Account.blocks (as.filterMap id) := by
    rw [← results_ofAccount, ← List.flatMap_map Prod.snd, List.map_snd_zip]
    exact Nat.le_of_eq ((List.length_map _).trans hlength)
  simp only [join, Activity.bind_eq, houtcomes, gatherAll_eq hunbroken, hresults, Activity.bind]
  rfl

/-- With a calm reporter they are put together. -/
theorem Calm.course_join (hcalm : e.Calm) {b : Branches σ} {as : List (Option Account)}
    (houtcomes : b.outcomes = as.map .ofAccount) (hlength : as.length = ss.length)
    {w w' : World σ} {ending : Ending Context} (h : (e.join ⟨ss, c, b⟩).Course others w ending w') :
    ∃ now, ending = .returned
      ((joined c as).finish (verdict (joined c as) (as.map .ofAccount)) now) := by
  rw [join_eq houtcomes hlength] at h
  exact hcalm.course_finish h

/-- The status that the record and the ends of the branches lead to. -/
theorem verdict_iff (c : Context) (as : List (Option Account)) :
    (verdict c (as.map .ofAccount) = .failed ↔ ∃ r ∈ c.results, r.status = .failed) ∧
      (verdict c (as.map .ofAccount) = .cancelled ↔
        (¬ ∃ r ∈ c.results, r.status = .failed) ∧ none ∈ as) ∧
      (verdict c (as.map .ofAccount) = .completed ↔
        (¬ ∃ r ∈ c.results, r.status = .failed) ∧ none ∉ as) ∧
      (verdict c (as.map .ofAccount)).isTerminal = true := by
  have hfailures : c.hasFailures = true ↔ ∃ r ∈ c.results, r.status = .failed := by
    simp [Context.hasFailures, StepResult.isFailed]
  have hskipped : (as.map BranchEnd.ofAccount).contains .skipped = true ↔ none ∈ as :=
    List.contains_iff_mem.trans skipped_mem_ofAccount
  rw [← hfailures, ← hskipped, verdict]
  cases c.hasFailures <;> cases (as.map BranchEnd.ofAccount).contains .skipped <;>
    simp [Status.isTerminal]

variable (e ss)

/-- The record `c` is that of a parallel run of the steps whose branches are over in the state `x`,
where `as` are the accounts of those that were started.  It was set up with the context `c₀`. -/
structure SideBySide (c₀ : Context) (x : Flight σ) (as : List (Option Account)) (c : Context) :
    Prop where
  /-- Every step has a branch. -/
  length : as.length = ss.length
  /-- It was started once, or not at all because the run was cancelled. -/
  settled : ∀ i a, as[i]? = some a → e.Settled ss c₀ x i a
  /-- The record consists of the blocks of the branches that were started. -/
  perm : c.results.Perm (Account.blocks (as.filterMap id))
  /-- The record is sorted by the times at which steps were begun. -/
  sorted : c.results.Pairwise fun r r' => r.started.notAfter r'.started = true
  /-- A step comes before the steps in it, and these one after the other. -/
  nested : ∀ a, some a ∈ as → a.chronicle.Sublist c.results
  /-- The run has failed if some step at any depth has. -/
  failed : c.status = .failed ↔ ∃ r ∈ c.results, r.status = .failed
  /-- Else it was cancelled if some branch was not started. -/
  cancelled : c.status = .cancelled ↔ (¬ ∃ r ∈ c.results, r.status = .failed) ∧ none ∈ as
  /-- Else it is completed. -/
  completed : c.status = .completed ↔ (¬ ∃ r ∈ c.results, r.status = .failed) ∧ none ∉ as
  /-- The run has ended. -/
  ended : c.ended.isSome = true

variable {e ss}

theorem Calm.sideBySide (hcalm : e.Calm) {bound : Nat} {w₀ : World σ} {x : Flight σ}
    (hrunning : c.status = .running) (hempty : c.results = [])
    (hx : e.Reached ss c bound w₀ x) (hover : x.branches.isEmpty = true) {w' : World σ}
    {ending : Ending Context} (h : (e.join ⟨ss, c, x.branches⟩).Course others x.world ending w') :
    ∃ as c', ending = .returned c' ∧ e.SideBySide ss c x as c' := by
  obtain ⟨as, houtcomes, hlength, hsettled⟩ := hx.exists_settled hcalm hover
  obtain ⟨now, rfl⟩ := hcalm.course_join houtcomes hlength h
  have hresults : (joined c as).results = sortedByStart (Account.blocks (as.filterMap id)) := by
    rw [joined, hempty, List.nil_append]
  have hsorted := sortedByStart_pairwise (Account.blocks (as.filterMap id))
  have hperm := sortedByStart_perm (Account.blocks (as.filterMap id))
  rw [← hresults] at hsorted hperm
  have hstatus : ((joined c as).finish (verdict (joined c as) (as.map .ofAccount)) now).status =
      verdict (joined c as) (as.map .ofAccount) := by
    rw [Context.finish, joined, hrunning]
    rfl
  obtain ⟨hfailed, hcancelled, hcompleted, -⟩ := verdict_iff (joined c as) as
  rw [← hstatus] at hfailed hcancelled hcompleted
  refine ⟨as, _, rfl, hlength, hsettled, hperm, hsorted, ?_, hfailed, hcancelled, hcompleted, rfl⟩
  intro a ha
  obtain ⟨i, hi⟩ := List.mem_iff_getElem?.mp ha
  obtain ⟨-, s, w, c', v, -, -, hran⟩ := hsettled i (some a) hi
  have hblock : a.block.Sublist (Account.blocks (as.filterMap id)) :=
    Account.block_sublist (List.mem_filterMap.mpr ⟨some a, ha, rfl⟩)
  exact sublist_of_increasing hsorted (Ran.chronological e (fun _ _ => id) hran).increasing
    (a.block_perm.symm.subperm.trans (hblock.subperm.trans hperm.symm.subperm))

end Engine

/-- A sequence that declares a variable of a run. -/
def Sequence.clashing : Sequence :=
  { Sequence.ofSteps [.plain "a" "A" .custom []] with
    declarations := [⟨sequenceNameVariable, "two", false, false⟩] }

theorem Timestamp.notAfter_atLeast (t : Timestamp) (millis : Int) :
    t.notAfter (t.atLeast millis) = true := by
  rw [atLeast]
  split
  · next hlt =>
    rw [notAfter_iff]
    simp only [Timestamp.millis] at hlt
    rw [Int.fdiv_eq_ediv_of_nonneg _ (by decide), Int.fmod_eq_emod_of_nonneg _ (by decide)]
    simp only
    omega
  · exact t.notAfter_refl

namespace Engine

variable {e : Engine σ} {ss : List Step} {c : Context}

/-- A turn, or the passing of time, leads on to a state that the run comes to. -/
theorem Reaches.next? (hothers : World.Timely others) {bound : Nat} {w₀ : World σ} {b : Branches σ}
    {w : World σ} {agenda : Agenda Nat} {started : List Nat}
    (h : e.Reaches others ss c bound w₀ ⟨b, w, started⟩) {y : Alone σ}
    (hy : Alone.next? e ⟨⟨ss, c, b⟩, w, agenda⟩ = some y) :
    ∃ x, e.Reaches others ss c bound w₀ x ∧ y.fan = ⟨ss, c, x.branches⟩ ∧ y.world = x.world := by
  rw [Alone.next?] at hy
  split at hy
  · next i _ _ =>
    cases hy
    exact ⟨_, h.turn i, rfl, rfl⟩
  · obtain ⟨time, -, rfl⟩ := Option.map_eq_some_iff.mp hy
    exact ⟨_, h.others (hothers w _ (Timestamp.notAfter_atLeast _ _)), rfl, rfl⟩

theorem Reaches.settle (hothers : World.Timely others) {bound : Nat} {w₀ : World σ} :
    ∀ {b : Branches σ} {w : World σ} {started : List Nat},
      e.Reaches others ss c bound w₀ ⟨b, w, started⟩ → ∀ (turns : Nat) (agenda : Agenda Nat),
      ∃ x, e.Reaches others ss c bound w₀ x ∧
        (Alone.settle e turns ⟨⟨ss, c, b⟩, w, agenda⟩).fan = ⟨ss, c, x.branches⟩ ∧
        (Alone.settle e turns ⟨⟨ss, c, b⟩, w, agenda⟩).world = x.world
  | _, _, _, h, 0, _ => ⟨_, h, rfl, rfl⟩
  | b, w, _, h, turns + 1, agenda => by
      rw [Alone.settle]
      cases hnext : Alone.next? e ⟨⟨ss, c, b⟩, w, agenda⟩ with
      | none => exact ⟨_, h, rfl, rfl⟩
      | some y =>
        obtain ⟨x, hx, hfan, hworld⟩ := h.next? hothers hnext
        obtain ⟨fan, world, agenda'⟩ := y
        obtain rfl : fan = _ := hfan
        obtain rfl : world = _ := hworld
        exact Reaches.settle hothers hx turns _

/-- With a calm reporter a parallel run alone is one of these runs, if it comes to an end. -/
theorem Calm.runParallel_sideBySide (hcalm : e.Calm) {s : Sequence}
    (hpublish : (s.publish e.machine).refused = none) {turns bound : Nat} {w w' : World σ}
    {ending : Ending Context} (h : e.runParallel turns bound s w = (ending, w'))
    (hends : ending ≠ .stuck) :
    ∃ c₀ x as c, ending = .returned c ∧ e.SideBySide s.steps c₀ x as c := by
  rw [runParallel] at h
  cases hbegin : (e.begin s).complete (·.cancelled) World.pass w with
  | mk r w₀ =>
  rw [hbegin] at h
  have hr : r ≠ .stuck := by
    rintro rfl
    cases h
    exact hends rfl
  have hcourse := Activity.Course.of_complete World.Onward.refl World.onward_pass hbegin hr
  obtain ⟨now, rfl⟩ := course_begin hpublish hcourse
  have hstart : e.Reached s.steps (e.opening s now) bound w₀ ⟨_, w₀, []⟩ := .start
  obtain ⟨x, hx, hfan, hworld⟩ := hstart.settle World.timely_onward turns
    ⟨List.range s.steps.length, []⟩
  simp only [runBranches, fan, hfan, hworld] at h
  split at h
  · next hover =>
    obtain ⟨as, c, hreturned, hrun⟩ := hcalm.sideBySide rfl rfl hx hover
      (.of_complete World.Onward.refl World.onward_pass h hends)
    exact ⟨_, x, as, c, hreturned, hrun⟩
  · cases h
    exact absurd rfl hends

end Engine
end Runbook
