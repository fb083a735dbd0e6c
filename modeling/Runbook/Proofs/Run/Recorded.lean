import Mathlib.Data.List.Nodup
import Runbook.Proofs.Run.Settled
import Runbook.Proofs.Run.Watched

/-!
# What a parallel run keeps

A parallel run keeps a result of every step that an executor was called for, unless the reporter
panics.  A branch whose report panics breaks off: the top-level step then has one failed result, and
what was recorded of the steps in it is lost.  This is `Engine.Kept`, and `Engine.exists_kept` says
that it holds of every parallel run, whatever executors and reporter do.

The calls of executors are read off the notes of a watched engine.
-/

namespace Runbook

variable {σ : Type}

/-- Others may go on beside a run, but they do not call its executors. -/
def World.Beside (w v : World (σ × List Step)) : Prop := w.Onward v ∧ v.calls = w.calls

theorem World.timely_beside : World.Timely (World.Beside (σ := σ)) :=
  fun _ _ ht => ⟨⟨ht, id⟩, rfl⟩

/-! ## Steps in different branches -/

/-- Of distinct steps, no two of different branches have the same key. -/
theorem Step.index_eq_of_key {ss : List Step} (hss : ((preorderAll ss).map Step.key).Nodup)
    {i j : Nat} {s t u v : Step} (hs : ss[i]? = some s) (ht : ss[j]? = some t)
    (hu : u ∈ s.preorder) (hv : v ∈ t.preorder) (hkey : u.key = v.key) : i = j := by
  rw [preorderAll_eq_flatMap, List.map_flatMap, List.nodup_flatMap] at hss
  have hapart := List.pairwise_iff_getElem.mp hss.2
  obtain ⟨hi, rfl⟩ := List.getElem?_eq_some_iff.mp hs
  obtain ⟨hj, rfl⟩ := List.getElem?_eq_some_iff.mp ht
  have hu := List.mem_map_of_mem (f := Step.key) hu
  have hv := List.mem_map_of_mem (f := Step.key) hv
  obtain hlt | heq | hlt := Nat.lt_trichotomy i j
  · exact (hapart i j hi hj hlt hu (hkey ▸ hv)).elim
  · exact heq
  · exact (hapart j i hj hi hlt hv (hkey ▸ hu)).elim

/-- Of distinct steps, none has the key of a step in it. -/
theorem Step.key_ne_of_inner {ss : List Step} (hss : ((preorderAll ss).map Step.key).Nodup)
    {s t : Step} (hs : s ∈ ss) (ht : t ∈ preorderAll s.children) : s.key ≠ t.key := by
  rw [preorderAll_eq_flatMap, List.map_flatMap, List.nodup_flatMap] at hss
  have hself := hss.1 s hs
  rw [preorder_eq, List.map_cons, List.nodup_cons] at hself
  exact fun hkey => hself.1 (hkey ▸ List.mem_map_of_mem ht)

namespace Engine

/-! ## Results that branches leave -/

theorem Gathered.mem_of_finished {task : Nat} {bs : List (Step × BranchEnd)} {rs : List StepResult}
    (h : Gathered task bs rs) {i : Nat} {s : Step} {own : List StepResult}
    (hi : bs[i]? = some (s, .finished own)) : ∀ r ∈ own, r ∈ rs := by
  induction h generalizing i with
  | nil => cases hi
  | finished _ ih =>
    cases i with
    | zero =>
      cases hi
      exact fun r => List.mem_append_left _
    | succ i => exact fun r hr => List.mem_append_right _ (ih hi r hr)
  | skipped _ ih =>
    cases i with
    | zero => cases hi
    | succ i => exact ih hi
  | crashed _ ih =>
    cases i with
    | zero => cases hi
    | succ i => exact fun r hr => List.mem_cons_of_mem _ (ih hi r hr)

theorem Gathered.mem_of_crashed {task : Nat} {bs : List (Step × BranchEnd)} {rs : List StepResult}
    (h : Gathered task bs rs) {i : Nat} {s : Step} {m : Option String}
    (hi : bs[i]? = some (s, .crashed m)) :
    ∃ began ended, (s.begun began).close .failed (some (brokenOff (task + i) m)) ended ∈ rs := by
  induction h generalizing i with
  | nil => cases hi
  | finished _ ih =>
    cases i with
    | zero => cases hi
    | succ i =>
      obtain ⟨began, ended, hmem⟩ := ih hi
      rw [Nat.add_right_comm] at hmem
      exact ⟨began, ended, List.mem_append_right _ hmem⟩
  | skipped _ ih =>
    cases i with
    | zero => cases hi
    | succ i =>
      obtain ⟨began, ended, hmem⟩ := ih hi
      rw [Nat.add_right_comm] at hmem
      exact ⟨began, ended, hmem⟩
  | @crashed _ _ _ _ _ began ended _ ih =>
    cases i with
    | zero =>
      cases hi
      exact ⟨began, ended, List.mem_cons_self⟩
    | succ i =>
      obtain ⟨began, ended, hmem⟩ := ih hi
      rw [Nat.add_right_comm] at hmem
      exact ⟨began, ended, List.mem_cons_of_mem _ hmem⟩

/-- A result is among those of a branch that came to its end, or of a step whose branch broke off.
-/
theorem Gathered.of_mem {task : Nat} {bs : List (Step × BranchEnd)} {rs : List StepResult}
    (h : Gathered task bs rs) {r : StepResult} (hr : r ∈ rs) :
    ∃ (i : Nat) (s : Step), (∃ own, bs[i]? = some (s, .finished own) ∧ r ∈ own) ∨
      ∃ m, bs[i]? = some (s, .crashed m) ∧ r.key = s.key := by
  induction h with
  | nil => cases hr
  | finished _ ih =>
    obtain hr | hr := List.mem_append.mp hr
    · exact ⟨0, _, .inl ⟨_, rfl, hr⟩⟩
    · obtain ⟨i, s, hi⟩ := ih hr
      exact ⟨i + 1, s, hi⟩
  | skipped _ ih =>
    obtain ⟨i, s, hi⟩ := ih hr
    exact ⟨i + 1, s, hi⟩
  | crashed _ ih =>
    obtain rfl | hr := List.mem_cons.mp hr
    · exact ⟨0, _, .inr ⟨_, rfl, rfl⟩⟩
    · obtain ⟨i, s, hi⟩ := ih hr
      exact ⟨i + 1, s, hi⟩

/-! ## The record -/

/-- The step is inside one at the top level whose branch broke off. -/
def Lost (ss : List Step) (ends : List BranchEnd) (t : Step) : Prop :=
  ∃ (i : Nat) (root : Step) (m : Option String),
    ss[i]? = some root ∧ ends[i]? = some (.crashed m) ∧ t ∈ Step.preorderAll root.children

variable (e : Engine σ)

/-- What a parallel run keeps whose executors were called for some steps and whose branches came to
these ends. -/
structure Kept (ss : List Step) (ends : List BranchEnd) (made : List Step) (c : Context) :
    Prop where
  /-- Executors were called for steps of the sequence. -/
  among : ∀ t ∈ made, t ∈ Step.preorderAll ss
  /-- A branch breaks off only if the reporter panics. -/
  panics : ∀ m, .crashed m ∈ ends → ∃ n, e.PanicsOn n m
  /-- Its step has a failed result then. -/
  broken : ∀ i root m, ss[i]? = some root → ends[i]? = some (.crashed m) →
    ∃ r ∈ c.results, r.key = root.key ∧ r.status = .failed ∧ r.error = some (brokenOff (i + 1) m)
  /-- Every step that an executor was called for has a result, unless it is lost. -/
  recorded : ∀ t ∈ made, ¬ Lost ss ends t → ∃ r ∈ c.results, r.key = t.key
  /-- Of distinct steps, those that are lost have none. -/
  lost : ((Step.preorderAll ss).map Step.key).Nodup → ∀ t, Lost ss ends t →
    ¬ ∃ r ∈ c.results, r.key = t.key

variable {e}

/-- A branch that is over and called an executor for a step has a result of it, or broke off. -/
theorem Traced.of_ended {ss : List Step} {log : σ → List Step} {i : Nat} {calls : List Step}
    {b : BranchEnd} (h : e.Traced ss log i calls (.ended b)) {t : Step} (ht : t ∈ calls) :
    ∃ root, ss[i]? = some root ∧ t ∈ root.preorder ∧
      ((∃ own, b = .finished own ∧ ∃ r ∈ own, r.key = t.key) ∨ ∃ m, b = .crashed m) := by
  cases h with
  | skipped hcalls =>
    rw [hcalls] at ht
    cases ht
  | @finished own root hroot htrail =>
    have hin := htrail.among t ht
    rw [Step.preorderAll_singleton] at hin
    exact ⟨root, hroot, hin, .inl ⟨own, rfl, htrail.recorded t ht⟩⟩
  | @crashed m root hroot hamong _ =>
    have hin := hamong t ht
    rw [Step.preorderAll_singleton] at hin
    exact ⟨root, hroot, hin, .inr ⟨m, rfl⟩⟩

variable {ss : List Step} {ends : List BranchEnd} {rs : List StepResult} {log : σ → List Step}

/-- A step that a branch called an executor for is among the results unless it is lost. -/
theorem Gathered.exists_of_called (h : Gathered 1 (ss.zip ends) rs) {i : Nat} {calls : List Step}
    {b : BranchEnd} (hb : ends[i]? = some b) (htraced : e.Traced ss log i calls (.ended b))
    {t : Step} (ht : t ∈ calls) (hnot : ¬ Lost ss ends t) : ∃ r ∈ rs, r.key = t.key := by
  obtain ⟨root, hroot, hin, ⟨own, rfl, r, hr, hkey⟩ | ⟨m, rfl⟩⟩ := htraced.of_ended ht
  · exact ⟨r, h.mem_of_finished (List.getElem?_zip_eq_some.mpr ⟨hroot, hb⟩) r hr, hkey⟩
  · rw [Step.preorder_eq] at hin
    obtain rfl | hinner := List.mem_cons.mp hin
    · obtain ⟨_, _, hmem⟩ := h.mem_of_crashed (List.getElem?_zip_eq_some.mpr ⟨hroot, hb⟩)
      exact ⟨_, hmem, rfl⟩
    · exact absurd ⟨i, root, m, hroot, hb, hinner⟩ hnot

variable {calls : Nat → List Step}

/-- Of distinct steps, one that is lost is not among the results. -/
theorem Gathered.key_ne_of_lost (h : Gathered 1 (ss.zip ends) rs)
    (htraced : ∀ i b, ends[i]? = some b → e.Traced ss log i (calls i) (.ended b))
    (hdistinct : ((Step.preorderAll ss).map Step.key).Nodup) {t : Step} (hlost : Lost ss ends t)
    {r : StepResult} (hr : r ∈ rs) : r.key ≠ t.key := by
  intro hkey
  obtain ⟨i, root, m, hroot, hend, ht⟩ := hlost
  have htroot : t ∈ root.preorder := by
    rw [Step.preorder_eq]
    exact List.mem_cons_of_mem _ ht
  obtain ⟨j, s, ⟨own, hj, hown⟩ | ⟨m', hj, hself⟩⟩ := h.of_mem hr
  · -- The result is one of another branch, so it is of a step of that branch.
    obtain ⟨hs, hend'⟩ := List.getElem?_zip_eq_some.mp hj
    cases htraced j _ hend' with
    | finished hs' htrail =>
      obtain rfl := Option.some.inj (hs.symm.trans hs')
      obtain ⟨u, hu, hnamed⟩ := htrail.named r hown
      rw [Step.preorderAll_singleton] at hu
      obtain rfl := Step.index_eq_of_key hdistinct hroot hs htroot hu (hkey.symm.trans hnamed)
      rw [hend] at hend'
      cases hend'
  · -- The result is the failed one of the step at the top level.
    obtain ⟨hs, -⟩ := List.getElem?_zip_eq_some.mp hj
    have hsroot : s ∈ s.preorder := by
      rw [Step.preorder_eq]
      exact List.mem_cons_self
    obtain rfl := Step.index_eq_of_key hdistinct hroot hs htroot hsroot (hkey.symm.trans hself)
    obtain rfl := Option.some.inj (hroot.symm.trans hs)
    exact Step.key_ne_of_inner hdistinct (List.mem_of_getElem? hroot) ht (hself.symm.trans hkey)

/-- The results of branches that are over are kept. -/
theorem Gathered.kept (h : Gathered 1 (ss.zip ends) rs)
    (htraced : ∀ i b, ends[i]? = some b → e.Traced ss log i (calls i) (.ended b))
    {made : List Step} (hmade : ∀ t ∈ made, ∃ i b, ends[i]? = some b ∧ t ∈ calls i) {c : Context}
    (hc : ∀ r, r ∈ c.results ↔ r ∈ rs) : e.Kept ss ends made c where
  among := by
    intro t ht
    obtain ⟨i, b, hb, hti⟩ := hmade t ht
    obtain ⟨root, hroot, hin, -⟩ := (htraced i b hb).of_ended hti
    exact Step.mem_preorderAll_of_mem (List.mem_of_getElem? hroot) hin
  panics := by
    intro m hm
    obtain ⟨i, hi⟩ := List.mem_iff_getElem?.mp hm
    cases htraced i _ hi with
    | crashed _ _ hpanics => exact hpanics
  broken := by
    intro i root m hroot hend
    obtain ⟨began, ended, hmem⟩ := h.mem_of_crashed (List.getElem?_zip_eq_some.mpr ⟨hroot, hend⟩)
    rw [Nat.add_comm] at hmem
    exact ⟨_, (hc _).mpr hmem, rfl, rfl, rfl⟩
  recorded := by
    intro t ht hnot
    obtain ⟨i, b, hb, hti⟩ := hmade t ht
    obtain ⟨r, hr, hkey⟩ := h.exists_of_called hb (htraced i b hb) hti hnot
    exact ⟨r, (hc r).mpr hr, hkey⟩
  lost := by
    rintro hdistinct t hlost ⟨r, hr, hkey⟩
    exact h.key_ne_of_lost htraced hdistinct hlost ((hc r).mp hr) hkey

variable (e)

/-- Whatever executors and reporter do, in whatever order branches take turns and whenever the run
is cancelled: a parallel run that hands back a context keeps the results of the steps that executors
were called for, except of those inside a step whose branch broke off because the reporter panicked.
-/
theorem exists_kept {bound : Nat} {s : Sequence} {w w' : World (σ × List Step)} {c : Context}
    (h : e.watched.Parallel World.Beside bound s w (.returned c) w') :
    ∃ made ends, w'.calls = w.calls ++ made ∧ e.Kept s.steps ends made c := by
  have hquiet : ∀ w v : World (σ × List Step), w.Beside v → v.calls = w.calls := fun _ _ hv => hv.2
  cases h with
  | refused hbegin hconclude =>
    obtain ⟨_, hbegun, rfl, -, hempty⟩ := (e.watched.notes_begin s).of_course hquiet hbegin
    obtain ⟨_, hconcluded, rfl, rfl⟩ := (e.watched.notes_conclude _).of_course hquiet hconclude
    have hcalls : w'.calls = w.calls ++ [] ++ [] := hbegun ▸ hconcluded
    rw [List.append_nil] at hcalls
    exact ⟨[], [], hcalls, by simp, by simp, by simp, by simp, by simp [Lost]⟩
  | @joined c₀ w₀ _ x _ hbegin hx hover hjoin =>
    obtain ⟨_, hbegun, rfl, hempty, -⟩ := (e.watched.notes_begin s).of_course hquiet hbegin
    obtain ⟨_, hjoined, rfl, rs, hgathered, hresults⟩ :=
      (e.watched.notes_join _).of_course hquiet hjoin
    obtain ⟨calls, made, hmade, hbelong, htraced⟩ :=
      hx.exists_traced e.watched_keeps.logs fun _ _ => id
    have hlength := (hx.reached fun _ _ hv => hv.1).stands.1
    have hstages := Gate.stages_of_isEmpty hover
    rw [hstages, List.length_map] at hlength
    have hkept : e.watched.Kept s.steps x.branches.outcomes made c := by
      refine hgathered.kept (fun i b hb => htraced i (.ended b) ?_) (fun t ht => ?_) fun r => ?_
      · rw [hstages, List.getElem?_map, hb]
        rfl
      · obtain ⟨i, hi, hti⟩ := hbelong t ht
        exact ⟨i, _, List.getElem?_eq_getElem (hlength ▸ hi), hti⟩
      · rw [hresults, hempty _ rfl, List.nil_append]
        exact (sortedByStart_perm rs).mem_iff
    have hcalls : w'.calls = w.calls ++ [] ++ made ++ [] := hbegun ▸ hmade ▸ hjoined
    rw [List.append_nil, List.append_nil] at hcalls
    -- The reporter is not watched.
    exact ⟨made, _, hcalls, hkept.among, hkept.panics, hkept.broken, hkept.recorded, hkept.lost⟩

/-- A group with two steps, on the second of which the reporter panics. -/
def troubled : Sequence :=
  .ofSteps [.plain "g" "G" .group [.plain "x" "X" .custom [], .plain "y" "Y" .custom []]]

/-- When the only branch has broken off, the reporter takes in how the run has ended. -/
theorem exists_join_careless {b : Branches (Unit × List Step)} (hb : b.outcomes = [.crashed none])
    (s : Step) (c : Context) (w : World (Unit × List Step)) :
    ∃ c' w', (careless.watched.join ⟨[s], c, b⟩).Course World.Beside w (.returned c') w' := by
  have hself : ∀ w : World (Unit × List Step), w.Beside w := World.timely_beside.refl
  rw [join, hb]
  exact ⟨_, _, .update (hself _) (.look (hself _) (.update (hself _) (.look (hself _)
    (.update (hself _) (.look (hself _) (.look (hself _) (.update (hself _) .done)))))))⟩

/-- A parallel run of the group calls the executor for both steps in it and comes to its end, but
its record names neither. -/
theorem exists_parallel_troubled :
    ∃ c w', careless.watched.Parallel World.Beside 1 troubled World.epoch.watch (.returned c) w' ∧
      w'.calls = [.plain "x" "X" .custom [], .plain "y" "Y" .custom []] ∧
      ∀ r ∈ c.results, r.key = ("g", "G") := by
  have hself : ∀ w : World (Unit × List Step), w.Beside w := World.timely_beside.refl
  let c₀ := careless.opening troubled ⟨0, 1⟩
  let w₀ := { World.epoch.watch.tick with store := (troubled.publish careless.machine).store }
  let x := careless.watched.afterTurn troubled.steps c₀ ⟨Gate.ofBound 1 1, w₀, []⟩ 0
  have hbegin : (careless.watched.begin troubled).Course World.Beside World.epoch.watch
      (.returned (.ok c₀)) w₀ := by
    exact .update (hself _) (.look (hself _) (.update (hself _) .done))
  have hx : careless.watched.Reaches World.Beside troubled.steps c₀ 1 w₀ x := .turn 0 .start
  have hover : x.branches.isEmpty = true := by decide +kernel
  have houtcomes : x.branches.outcomes = [.crashed none] := by decide +kernel
  have hcalls : x.world.calls = [.plain "x" "X" .custom [], .plain "y" "Y" .custom []] := by
    decide +kernel
  obtain ⟨c, w', hjoin⟩ := exists_join_careless houtcomes _ c₀ x.world
  have hquiet : ∀ w v : World (Unit × List Step), w.Beside v → v.calls = w.calls :=
    fun _ _ hv => hv.2
  obtain ⟨K, hjoined, rfl, rs, hgathered, hresults⟩ :=
    (careless.watched.notes_join _).of_course hquiet hjoin
  refine ⟨c, w', .joined hbegin hx hover hjoin, ?_, fun r hr => ?_⟩
  · have hsame : w'.calls = x.world.calls ++ [] := hjoined
    rw [hsame, List.append_nil, hcalls]
  · rw [hresults, show c₀.results = [] from rfl, List.nil_append] at hr
    have hmem := (sortedByStart_perm rs).mem_iff.mp hr
    rw [houtcomes] at hgathered
    obtain ⟨i, s, ⟨own, hi, -⟩ | ⟨m, hi, hkey⟩⟩ := hgathered.of_mem hmem
    · match i with
      | 0 => cases hi
    · match i with
      | 0 =>
        cases hi
        exact hkey

/-- The record keeps the failed result of the group alone. -/
theorem exists_kept_troubled :
    ∃ c w', careless.watched.Parallel World.Beside 1 troubled World.epoch.watch (.returned c) w' ∧
      ∃ made ends, w'.calls = [] ++ made ∧ careless.Kept troubled.steps ends made c := by
  obtain ⟨c, w', hparallel, -⟩ := exists_parallel_troubled
  exact ⟨c, w', hparallel, careless.exists_kept hparallel⟩

/-- Not in every parallel run each step that an executor was called for has a result: reporting
trouble erases what a branch already did. -/
theorem not_recorded_troubled :
    ¬ ∀ (e : Engine Unit) (bound : Nat) (s : Sequence) (w w' : World (Unit × List Step))
      (c : Context) (made : List Step),
      e.watched.Parallel World.Beside bound s w (.returned c) w' → w'.calls = w.calls ++ made →
        ∀ t ∈ made, ∃ r ∈ c.results, r.key = t.key := by
  intro h
  obtain ⟨c, w', hparallel, hcalls, hkeys⟩ := exists_parallel_troubled
  obtain ⟨r, hr, hkey⟩ := h careless 1 troubled _ w' c _ hparallel hcalls
    (.plain "x" "X" .custom []) List.mem_cons_self
  rw [hkeys r hr] at hkey
  exact absurd hkey (by decide)

end Engine
end Runbook
