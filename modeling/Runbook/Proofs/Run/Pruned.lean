import Runbook.Proofs.Run.Steady

/-!
# Disabled steps

A *pruned* sequence is one without its disabled steps, and without the steps in these.  Steps are
pruned where they are run: at the top level, and inside groups at any depth.

A disabled step is completed without a call of an executor, with no influence on the variables and
on what follows it.  So the pruned steps perform what the steps perform, without the accounts of the
disabled steps (`Engine.performUpTo_prunedAll`), and a sequential run of the pruned sequence comes
to the same as one of the sequence: `Engine.disabled_inert`.
-/

namespace Runbook

variable {σ : Type}

/-! ## Pruned steps -/

namespace Step

mutual

/-- The step without the disabled steps in it, if it runs these. -/
def pruned : Step → Step
  | mk i n d k e c cs ps ss => mk i n d k e c cs ps (if k == .group then prunedAll ss else ss)
termination_by structural s => s

/-- The steps without the disabled ones. -/
def prunedAll : List Step → List Step
  | [] => []
  | s :: ss => if s.enabled then pruned s :: prunedAll ss else prunedAll ss
termination_by structural ss => ss

end

theorem children_pruned (s : Step) :
    s.pruned.children = if s.isGroup then prunedAll s.children else s.children := by
  cases s
  rfl

theorem pruned_of_not_isGroup {s : Step} (h : s.isGroup = false) : s.pruned = s := by
  cases s with
  | mk i n d k e c cs ps ss =>
    have hkind : (k == .group) = false := h
    rw [pruned, hkind]
    rfl

@[simp] theorem key_pruned (s : Step) : s.pruned.key = s.key := by
  cases s
  rfl

@[simp] theorem id_pruned (s : Step) : s.pruned.id = s.id := by
  cases s
  rfl

@[simp] theorem name_pruned (s : Step) : s.pruned.name = s.name := by
  cases s
  rfl

@[simp] theorem isGroup_pruned (s : Step) : s.pruned.isGroup = s.isGroup := by
  cases s
  rfl

@[simp] theorem isDue_pruned (s : Step) (store : Store) : s.pruned.isDue store = s.isDue store := by
  cases s
  rfl

@[simp] theorem stops_pruned (s : Step) (r : StepResult) : s.pruned.stops r = s.stops r := by
  cases s
  rfl

theorem summed_pruned (s : Step) {culprit culprit' : Option Step}
    (h : culprit'.map name = culprit.map name) : s.pruned.summed culprit' = s.summed culprit :=
  congrArg StepResult.timeless (closed_congr s.key_pruned h _ _)

end Step

/-- The sequence without its disabled steps. -/
def Sequence.pruned (s : Sequence) : Sequence := { s with steps := Step.prunedAll s.steps }

/-! ## Accounts that are kept -/

namespace Account

mutual

/-- The account of a step without those of disabled steps. -/
def kept : Step → Account → Account
  | s, mk own as => mk own (if s.isGroup then keptAll s.children as else as)
termination_by structural _ a => a

/-- The accounts of the steps that are not disabled. -/
def keptAll : List Step → List Account → List Account
  | _, [] => []
  | [], _ :: _ => []
  | s :: ss, a :: as => if s.enabled then kept s a :: keptAll ss as else keptAll ss as
termination_by structural _ as => as

end

theorem keptAll_nil (ss : List Step) : keptAll ss [] = [] := by
  cases ss <;> rfl

theorem kept_of_not_isGroup {s : Step} (h : s.isGroup = false) (a : Account) : kept s a = a := by
  cases a
  rw [kept, if_neg (by simp [h])]

@[simp] theorem own_kept (s : Step) (a : Account) : (kept s a).own = a.own := by
  cases a
  rfl

mutual

theorem kept_timeless : ∀ (s : Step) (a : Account), kept s a.timeless = (kept s a).timeless
  | s, mk own as => by
      rw [timeless, kept, kept, timeless]
      split
      · rw [keptAll_timeless s.children as]
      · rfl
termination_by structural _ a => a

theorem keptAll_timeless : ∀ (ss : List Step) (as : List Account),
    keptAll ss (timelessAll as) = timelessAll (keptAll ss as)
  | ss, [] => by rw [timelessAll, keptAll_nil, timelessAll]
  | [], _ :: _ => rfl
  | s :: ss, a :: as => by
      rw [timelessAll, keptAll, keptAll]
      split
      · rw [timelessAll, kept_timeless s a, keptAll_timeless ss as]
      · exact keptAll_timeless ss as
termination_by structural _ as => as

end

end Account

/-! ## Performing pruned steps -/

namespace Engine

variable (e : Engine σ) (act : Step → Store → Reply × Store)

/-- A disabled step is skipped, with no influence on what follows it. -/
theorem performUpTo_cons_disabled {s : Step} (h : s.enabled = false) (ss : List Step)
    (store : Store) :
    e.performUpTo act (s :: ss) store =
        ⟨⟨s.summed none, []⟩ :: (e.performUpTo act ss store).account,
          (e.performUpTo act ss store).calls, (e.performUpTo act ss store).store⟩ ∧
      culprit? (s :: ss) (e.performUpTo act (s :: ss) store).account =
        culprit? ss (e.performUpTo act ss store).account := by
  have hdue : s.isDue store = false := by rw [Step.isDue, h, Bool.false_and]
  have hskipped := e.perform_skipped act hdue
  have hstops : s.stops (e.perform act s store).account.own = false := by
    rw [hskipped]
    exact s.stops_summed none
  obtain ⟨hall, hculprit⟩ := performUpTo_cons_goesOn hstops ss
  rw [hskipped] at hall hculprit
  exact ⟨hall, hculprit⟩

mutual

/-- A pruned step performs what the step performs, without the accounts of disabled steps. -/
theorem perform_pruned : ∀ (s : Step) (store : Store),
    e.perform act s.pruned store =
      ⟨Account.kept s (e.perform act s store).account, (e.perform act s store).calls,
        (e.perform act s store).store⟩
  | .mk i n d k enabled goesOn cs ps ss, store => by
      set s := Step.mk i n d k enabled goesOn cs ps ss
      cases hgroup : s.isGroup with
      | false =>
        -- What is no group is not pruned.
        rw [Step.pruned_of_not_isGroup hgroup, Account.kept_of_not_isGroup hgroup]
      | true =>
        have hgroup' : s.pruned.isGroup = true := s.isGroup_pruned.trans hgroup
        cases hdue : s.isDue store with
        | false =>
          have hdue' : s.pruned.isDue store = false := (s.isDue_pruned store).trans hdue
          rw [e.perform_skipped act hdue, e.perform_skipped act hdue', s.summed_pruned rfl,
            Account.kept, Account.keptAll_nil, ite_self]
        | true =>
          have hdue' : s.pruned.isDue store = true := (s.isDue_pruned store).trans hdue
          obtain ⟨hperformed, hculprit⟩ := performUpTo_prunedAll ss store
          have hchildren : s.pruned.children = Step.prunedAll ss := by
            rw [s.children_pruned, if_pos hgroup]
            rfl
          rw [e.perform_group act hgroup hdue, e.perform_group act hgroup' hdue', hchildren,
            hperformed, s.summed_pruned hculprit, Account.kept, if_pos hgroup]
          rfl
termination_by structural s => s

/-- Pruned steps perform what the steps perform, without the accounts of disabled steps, and they
are stopped by a step of the same name. -/
theorem performUpTo_prunedAll : ∀ (ss : List Step) (store : Store),
    e.performUpTo act (Step.prunedAll ss) store =
        ⟨Account.keptAll ss (e.performUpTo act ss store).account,
          (e.performUpTo act ss store).calls, (e.performUpTo act ss store).store⟩ ∧
      (culprit? (Step.prunedAll ss)
          (Account.keptAll ss (e.performUpTo act ss store).account)).map Step.name =
        (culprit? ss (e.performUpTo act ss store).account).map Step.name
  | [], _ => ⟨rfl, rfl⟩
  | s :: ss, store => by
      cases henabled : s.enabled with
      | false =>
        obtain ⟨hall, hculprit⟩ := e.performUpTo_cons_disabled act henabled ss store
        rw [hculprit, hall, Step.prunedAll, Account.keptAll]
        simp only [henabled, Bool.false_eq_true, if_false]
        exact performUpTo_prunedAll ss store
      | true =>
        have hfirst := perform_pruned s store
        have hkept : s.pruned.stops (e.perform act s.pruned store).account.own =
            s.stops (e.perform act s store).account.own := by
          rw [hfirst, Account.own_kept, Step.stops_pruned]
        rw [Step.prunedAll, if_pos henabled]
        cases hstops : s.stops (e.perform act s store).account.own with
        | true =>
          obtain ⟨hall, hculprit⟩ := performUpTo_cons_stops hstops ss
          obtain ⟨hall', hculprit'⟩ :=
            performUpTo_cons_stops (hkept.trans hstops) (Step.prunedAll ss)
          rw [hall', hfirst] at hculprit'
          rw [hall', hculprit, hall, hfirst, Account.keptAll, if_pos henabled, Account.keptAll_nil,
            hculprit', Option.map_some, Option.map_some, s.name_pruned]
          exact ⟨rfl, rfl⟩
        | false =>
          obtain ⟨hperformed, hname⟩ := performUpTo_prunedAll ss (e.perform act s store).store
          obtain ⟨hall, hculprit⟩ := performUpTo_cons_goesOn hstops ss
          obtain ⟨hall', hculprit'⟩ :=
            performUpTo_cons_goesOn (hkept.trans hstops) (Step.prunedAll ss)
          rw [hall', hfirst, hperformed] at hculprit'
          rw [hall', hculprit, hall, hfirst, hperformed, Account.keptAll, if_pos henabled,
            hculprit', hname]
          exact ⟨rfl, rfl⟩
termination_by structural ss => ss

end

end Engine

/-! ## Identities -/

namespace Step

mutual

/-- Pruned steps are among the steps, and keep their identities. -/
theorem ids_pruned_sublist : ∀ s : Step,
    (s.pruned.preorder.map id).Sublist (s.preorder.map id)
  | .mk i n d k e c cs ps ss => by
      rw [pruned, preorder, preorder, List.map_cons, List.map_cons]
      refine List.Sublist.cons_cons _ ?_
      split
      · exact ids_prunedAll_sublist ss
      · exact .refl _
termination_by structural s => s

theorem ids_prunedAll_sublist : ∀ ss : List Step,
    ((preorderAll (prunedAll ss)).map id).Sublist ((preorderAll ss).map id)
  | [] => .refl _
  | s :: ss => by
      rw [prunedAll, preorderAll, List.map_append]
      split
      · rw [preorderAll, List.map_append]
        exact (ids_pruned_sublist s).append (ids_prunedAll_sublist ss)
      · exact (ids_prunedAll_sublist ss).trans (List.sublist_append_right _ _)
termination_by structural ss => ss

end

end Step

namespace Account

mutual

/-- The results of a step have the identities of steps of its tree. -/
theorem stepId_mem_of_follows : ∀ {a : Account} {s : Step}, a.Follows s →
    ∀ r ∈ a.block, r.stepId ∈ s.preorder.map Step.id
  | mk own as, s, h => by
      rw [Step.preorder_eq, List.map_cons, block]
      refine List.forall_mem_append.mpr ⟨fun r hr => ?_, List.forall_mem_singleton.mpr ?_⟩
      · exact List.mem_cons_of_mem _ (stepId_mem_of_followAll h.2 r hr)
      · rw [(Prod.mk.inj h.1).1]
        exact List.mem_cons_self

theorem stepId_mem_of_followAll : ∀ {as : List Account} {ss : List Step}, FollowAll as ss →
    ∀ r ∈ blocks as, r.stepId ∈ (Step.preorderAll ss).map Step.id
  | [], _, _ => by simp [blocks]
  | _ :: _, [], h => h.elim
  | a :: as, s :: ss, h => by
      rw [blocks, Step.preorderAll, List.map_append]
      refine List.forall_mem_append.mpr ⟨fun r hr => ?_, fun r hr => ?_⟩
      · exact List.mem_append_left _ (stepId_mem_of_follows h.1 r hr)
      · exact List.mem_append_right _ (stepId_mem_of_followAll h.2 r hr)

end

/-- The results that have one of these identities. -/
def withId (ids : List String) (rs : List StepResult) : List StepResult :=
  rs.filter fun r => decide (r.stepId ∈ ids)

theorem withId_eq_self {ids : List String} {rs : List StepResult}
    (h : ∀ r ∈ rs, r.stepId ∈ ids) : withId ids rs = rs :=
  List.filter_eq_self.mpr fun r hr => decide_eq_true (h r hr)

theorem withId_eq_nil {ids : List String} {rs : List StepResult}
    (h : ∀ r ∈ rs, r.stepId ∉ ids) : withId ids rs = [] :=
  List.filter_eq_nil_iff.mpr fun r hr hmem => h r hr (of_decide_eq_true hmem)

/-- Identities that none of the results has make no difference. -/
theorem withId_congr {ids ids' : List String} {rs : List StepResult}
    (h : ∀ r ∈ rs, r.stepId ∈ ids ↔ r.stepId ∈ ids') : withId ids rs = withId ids' rs :=
  List.filter_congr fun r hr => decide_eq_decide.mpr (h r hr)

theorem withId_append (ids : List String) (rs rs' : List StepResult) :
    withId ids (rs ++ rs') = withId ids rs ++ withId ids rs' :=
  List.filter_append ..

mutual

/-- If no two steps have the same identity, the results that are kept are those with the identity of
a step that is left. -/
theorem block_kept : ∀ {a : Account} {s : Step}, a.Follows s →
    (s.preorder.map Step.id).Nodup →
    (kept s a).block = withId (s.pruned.preorder.map Step.id) a.block
  | mk own as, s, h, hdistinct => by
      have hown : own.stepId = s.id := (Prod.mk.inj h.1).1
      have hinner := stepId_mem_of_followAll h.2
      by_cases hgroup : s.isGroup = true
      · rw [Step.preorder_eq, List.map_cons, List.nodup_cons] at hdistinct
        rw [kept, if_pos hgroup, block, block, Step.preorder_eq, s.children_pruned, if_pos hgroup,
          withId_append, blocks_keptAll h.2 hdistinct.2]
        congr 1
        · refine withId_congr fun r hr => ?_
          have hne : r.stepId ≠ s.id := fun heq => hdistinct.1 (heq ▸ hinner r hr)
          simp [hne]
        · refine (withId_eq_self ?_).symm
          simp [hown]
      · rw [Bool.not_eq_true] at hgroup
        rw [kept, if_neg (by simp [hgroup]), Step.pruned_of_not_isGroup hgroup]
        exact (withId_eq_self (stepId_mem_of_follows h)).symm

theorem blocks_keptAll : ∀ {as : List Account} {ss : List Step}, FollowAll as ss →
    ((Step.preorderAll ss).map Step.id).Nodup →
    blocks (keptAll ss as) = withId ((Step.preorderAll (Step.prunedAll ss)).map Step.id) (blocks as)
  | [], ss, _, _ => by
      rw [keptAll_nil]
      rfl
  | _ :: _, [], h, _ => h.elim
  | a :: as, s :: ss, h, hdistinct => by
      rw [Step.preorderAll, List.map_append, List.nodup_append] at hdistinct
      obtain ⟨hs, hss, hdisjoint⟩ := hdistinct
      -- No result of one of the steps has the identity of another that is left.
      have ha : ∀ r ∈ a.block, r.stepId ∉ (Step.preorderAll (Step.prunedAll ss)).map Step.id :=
        fun r hr hmem => hdisjoint _ (stepId_mem_of_follows h.1 r hr) _
          ((Step.ids_prunedAll_sublist ss).subset hmem) rfl
      have has : ∀ r ∈ blocks as, r.stepId ∉ s.pruned.preorder.map Step.id :=
        fun r hr hmem => hdisjoint _ ((Step.ids_pruned_sublist s).subset hmem) _
          (stepId_mem_of_followAll h.2 r hr) rfl
      rw [keptAll, Step.prunedAll, blocks, withId_append]
      split
      · rw [blocks, Step.preorderAll, List.map_append, block_kept h.1 hs, blocks_keptAll h.2 hss]
        congr 1
        · refine withId_congr fun r hr => ?_
          rw [List.mem_append, or_iff_left (ha r hr)]
        · refine withId_congr fun r hr => ?_
          rw [List.mem_append, or_iff_right (has r hr)]
      · rw [blocks_keptAll h.2 hss, withId_eq_nil ha]
        rfl

end

end Account

namespace Engine

variable {e : Engine σ} {act : Step → Store → Reply × Store}

/-! ## Runs -/

/-- A run of the pruned sequence has come to the same as a run of the sequence. -/
structure Inert (s : Sequence) (c : Context) (w : World (σ × List Step)) (c' : Context)
    (w' : World (σ × List Step)) : Prop where
  /-- Executors were called for the same steps in the same order. -/
  calls : w'.calls = w.calls
  /-- The same variables are left. -/
  store : w'.store = w.store
  /-- The status is the same. -/
  status : c'.status = c.status
  /-- Up to times, the record is the same without the accounts of disabled steps. -/
  record : ∃ as, Account.FollowAll as s.steps ∧ c.results = Account.blocks as ∧
    c'.results.map (·.timeless) = (Account.blocks (Account.keptAll s.steps as)).map (·.timeless)
  /-- If no two steps have the same identity, these are the results of the steps that are left. -/
  identified : (s.allSteps.map Step.id).Nodup → c'.results.map (·.timeless) =
    (c.results.filter fun r => decide (r.stepId ∈ s.pruned.allSteps.map Step.id)).map (·.timeless)

theorem performRun_pruned (e : Engine σ) (act : Step → Store → Reply × Store) (s : Sequence) :
    e.performRun act s.pruned =
      ⟨Account.keptAll s.steps (e.performRun act s).account, (e.performRun act s).calls,
        (e.performRun act s).store⟩ := by
  have hpublish : s.pruned.publish e.machine = s.publish e.machine := rfl
  rw [performRun, performRun, hpublish]
  split
  · exact (e.performUpTo_prunedAll act s.steps _).1
  · rw [Account.keptAll_nil]

/-- Which of the steps stops the run is the same, by its name. -/
theorem finalStatus_pruned (e : Engine σ) (act : Step → Store → Reply × Store) (s : Sequence) :
    e.finalStatus s.pruned (Account.keptAll s.steps (e.performRun act s).account) =
      e.finalStatus s (e.performRun act s).account := by
  have hpublish : s.pruned.publish e.machine = s.publish e.machine := rfl
  rw [finalStatus, finalStatus, hpublish, performRun]
  by_cases hrefused : (s.publish e.machine).refused = none
  · have hculprit := (e.performUpTo_prunedAll act s.steps (s.publish e.machine).store).2
    have hnone := congrArg (· = none) hculprit
    simp only [Option.map_eq_none_iff] at hnone
    have hsteps : s.pruned.steps = Step.prunedAll s.steps := rfl
    simp only [hrefused, if_true, true_and, hsteps, hnone]
  · simp only [hrefused, false_and]

/-- In a sequential run of a steady engine that is not cancelled disabled steps are inert: a run of
the pruned sequence calls executors for the same steps, leaves the same variables and has the same
status, and its record is the one of a run of the sequence without the results of disabled steps and
of the steps in these. -/
theorem disabled_inert (hsteady : e.Steady World.Passing act) (hcalm : e.Calm) (s : Sequence)
    {w v : World σ} {w' v' : World (σ × List Step)} {ending ending' : Ending Context}
    (hrun : e.watched.Runs World.Passing .sequential s w.watch ending w')
    (hrun' : e.watched.Runs World.Passing .sequential s.pruned v.watch ending' v')
    (hw' : w'.cancelled = false) (hv' : v'.cancelled = false) :
    ∃ c c', ending = .returned c ∧ ending' = .returned c' ∧ Inert s c w' c' v' := by
  obtain ⟨as, c, hreturned, hresults, haccount, hcalls, hstore, hstatus⟩ :=
    hsteady.exists_performsRun hcalm hrun hw'
  obtain ⟨bs, c', hreturned', hresults', haccount', hcalls', hstore', hstatus'⟩ :=
    hsteady.exists_performsRun hcalm hrun' hv'
  rw [performRun_pruned] at haccount' hcalls' hstore'
  rw [← haccount, Account.keptAll_timeless] at haccount'
  have hfollow : Account.FollowAll as s.steps := by
    refine Account.followAll_timeless ?_
    rw [haccount]
    exact e.watched.followAll_performRun act s
  have hrecord : c'.results.map (·.timeless) =
      (Account.blocks (Account.keptAll s.steps as)).map (·.timeless) := by
    rw [hresults', ← Account.blocks_timeless, haccount', Account.blocks_timeless]
  refine ⟨c, c', hreturned, hreturned', hcalls'.trans hcalls.symm, hstore'.trans hstore.symm, ?_,
    ⟨as, hfollow, hresults, hrecord⟩, fun hdistinct => ?_⟩
  · have hsame := e.watched.finalStatus_pruned act s
    rw [← haccount, Account.keptAll_timeless, finalStatus_timeless, finalStatus_timeless] at hsame
    rw [hstatus', hstatus, ← finalStatus_timeless, haccount', finalStatus_timeless]
    exact hsame
  · rw [hrecord, Account.blocks_keptAll hfollow hdistinct, hresults]
    rfl

end Engine

/-- The step, but disabled. -/
def Step.disabled : Step → Step
  | .mk i n d k _ c cs ps ss => .mk i n d k false c cs ps ss

/-- A sequence with a disabled step in a group, and a disabled group with a step that would fail. -/
def Sequence.halfDisabled : Sequence := .ofSteps
  [.plain "g" "G" .group
      [.setting "a" "A" "x" "one", (Step.setting "b" "B" "x" "two").disabled],
    (Step.plain "h" "H" .group [.plain "c" "C" .custom []]).disabled,
    .setting "d" "D" "y" "%x%"]

/-- It has five results, two of which are those of disabled steps. -/
theorem Engine.disabled_inert_handy :
    let s := Sequence.halfDisabled
    ∃ act, handy.Steady World.Passing act ∧ handy.Calm ∧ ∃ ending w' ending' v',
      handy.watched.Runs World.Passing .sequential s World.epoch.watch ending w' ∧
      handy.watched.Runs World.Passing .sequential s.pruned World.epoch.watch ending' v' ∧
      w'.cancelled = false ∧ v'.cancelled = false ∧
      ∃ c c', ending = .returned c ∧ ending' = .returned c' ∧ c.results.length = 5 ∧
        c'.results.length = 3 ∧ Inert s c w' c' v' := by
  intro s
  obtain ⟨act, hsteady⟩ := exists_steady_handy
  have hfirst := runs_of_run (e := handy.watched) (s := s) (w := World.epoch.watch)
    (by decide +kernel)
  have hsecond := runs_of_run (e := handy.watched) (s := s.pruned) (w := World.epoch.watch)
    (by decide +kernel)
  have hw' : (handy.watched.run s World.epoch.watch).2.cancelled = false := by decide +kernel
  have hv' : (handy.watched.run s.pruned World.epoch.watch).2.cancelled = false := by
    decide +kernel
  obtain ⟨c, c', hreturned, hreturned', hinert⟩ :=
    disabled_inert hsteady handy_calm s hfirst hsecond hw' hv'
  have hlength : (handy.watched.run s World.epoch.watch).1.resultCount = 5 := by decide +kernel
  have hlength' : (handy.watched.run s.pruned World.epoch.watch).1.resultCount = 3 := by
    decide +kernel
  rw [hreturned] at hlength
  rw [hreturned'] at hlength'
  exact ⟨act, hsteady, handy_calm, _, _, _, _, hfirst, hsecond, hw', hv', c, c', hreturned,
    hreturned', hlength, hlength', hinert⟩

end Runbook
