import Runbook.Proofs.Run.Parallel

/-!
# Every result comes to its end

Executors hand back whatever they like, or an error, or panic, and branches may break off.  Even so
every result in the record of a run has come to its end, so the counts of its summary add up:
`Engine.handsBack_settled`.
-/

namespace Runbook

variable {σ : Type}

/-! ## Counting results -/

theorem countP_status {rs : List StepResult} (h : ∀ r ∈ rs, r.Settled) :
    rs.countP (·.status == .completed) + rs.countP (·.status == .failed) +
      rs.countP (·.status == .cancelled) = rs.length := by
  induction rs with
  | nil => rfl
  | cons r rs ih =>
    obtain ⟨hr, hrs⟩ := List.forall_mem_cons.mp h
    have hterminal := hr.terminal
    rw [List.countP_cons, List.countP_cons, List.countP_cons, List.length_cons, ← ih hrs]
    cases hstatus : r.status with
    | completed => simp; omega
    | failed => simp; omega
    | cancelled => simp; omega
    | notStarted => simp [hstatus, Status.isTerminal] at hterminal
    | running => simp [hstatus, Status.isTerminal] at hterminal

/-- The record of a run whose results have all come to their end. -/
structure Context.Settled (c : Context) : Prop where
  /-- Every result has. -/
  results : ∀ r ∈ c.results, r.Settled
  /-- The summary counts all results. -/
  total : c.summary.total = c.results.length
  /-- Each of them is completed, failed or cancelled. -/
  counts : c.summary.completed + c.summary.failed + c.summary.cancelled = c.summary.total
  /-- There are failures if the summary counts some. -/
  failures : c.hasFailures = true ↔ 0 < c.summary.failed

theorem Context.settled_of_results {c : Context} (h : ∀ r ∈ c.results, r.Settled) : c.Settled where
  results := h
  total := rfl
  counts := countP_status h
  failures := by simp [hasFailures, summary, StepResult.isFailed, List.countP_pos_iff]

namespace Engine

variable (e : Engine σ)

/-! ## Runs -/

/-- A run hands back a context that `P` allows, unless the reporter panics. -/
def HandsBack (P : Context → Prop) : Ending Context → Prop
  | .returned c => P c
  | .panicked m => ∃ n, e.PanicsOn n m
  | .stuck => False

variable {e}

/-- What a reporter that does not panic lets a run come to is a context. -/
theorem Comes.handsBack {ss calls : List Step} {P : List Step → Context → Prop}
    {Q : Context → Prop} (hPQ : ∀ c, P calls c → Q c) :
    ∀ {ending : Ending Context}, e.Comes ss P calls ending → e.HandsBack Q ending
  | .returned c, h => hPQ c h
  | .panicked _, h => h.2
  | .stuck, h => h

theorem Gathered.settled {task : Nat} {bs : List (Step × BranchEnd)} {rs : List StepResult}
    (h : Gathered task bs rs) (hbs : ∀ b ∈ bs, ∀ r ∈ b.2.results, r.Settled) :
    ∀ r ∈ rs, r.Settled := by
  induction h with
  | nil => simp
  | finished _ ih =>
    obtain ⟨hb, hbs⟩ := List.forall_mem_cons.mp hbs
    exact List.forall_mem_append.mpr ⟨hb, ih hbs⟩
  | skipped _ ih => exact ih (List.forall_mem_cons.mp hbs).2
  | crashed _ ih =>
    refine List.forall_mem_cons.mpr ⟨⟨rfl, rfl⟩, ih (List.forall_mem_cons.mp hbs).2⟩

/-- The results of branches that are over have come to their end. -/
theorem Reaches.settled_outcomes {others : World σ → World σ → Prop}
    (hothers : ∀ w v, others w v → w.Onward v) {ss : List Step} {c : Context} {bound : Nat}
    {w₀ : World σ} {x : Flight σ} (h : e.Reaches others ss c bound w₀ x)
    (hover : x.branches.isEmpty = true) :
    ∀ b ∈ x.branches.outcomes, ∀ r ∈ b.results, r.Settled := by
  obtain ⟨calls, -, -, -, htraced⟩ :=
    h.exists_traced e.logs_nothing fun w v hv => ⟨hothers w v hv, rfl⟩
  intro b hb
  obtain ⟨i, hi⟩ := List.mem_iff_getElem?.mp hb
  have hstage : x.branches.stages[i]? = some (.ended b) := by
    rw [Gate.stages_of_isEmpty hover, List.getElem?_map, hi]
    rfl
  cases htraced i _ hstage with
  | skipped _ => simp [BranchEnd.results]
  | finished _ htrail => exact htrail.settled
  | crashed _ _ _ => simp [BranchEnd.results]

variable (e)

/-- Whatever executors and reporter do, in a run step by step and in a parallel run alike every
result that is recorded has come to its end, also those of branches that broke off. -/
theorem handsBack_settled (s : Sequence) :
    (∀ {others : World σ → World σ → Prop} {w w' : World σ} {ending : Ending Context},
      (e.sequential s).Course others w ending w' → e.HandsBack Context.Settled ending) ∧
    ∀ {bound : Nat} {w w' : World σ} {ending : Ending Context},
      e.Parallel World.Onward bound s w ending w' → e.HandsBack Context.Settled ending := by
  constructor
  · intro others w w' ending h
    have hcomes := (e.logs_nothing.notes_sequential s).ending h
    exact hcomes.handsBack fun c htrail => Context.settled_of_results htrail.settled
  · intro bound w w' ending h
    cases h with
    | refused hbegin hconclude =>
      obtain ⟨-, -, hempty⟩ := (e.notes_begin s).ending hbegin
      have hreports := (e.notes_conclude _).ending hconclude
      refine hreports.handsBack fun c hc => Context.settled_of_results ?_
      rw [hc.2, hempty _ rfl]
      simp
    | joined hbegin hx hover hjoin =>
      obtain ⟨-, hempty, -⟩ := (e.notes_begin s).ending hbegin
      have hreports := (e.notes_join _).ending hjoin
      refine hreports.handsBack fun c hc => Context.settled_of_results ?_
      obtain ⟨-, rs, hgathered, hresults⟩ := hc
      have hsettled : ∀ r ∈ rs, r.Settled := hgathered.settled fun b hb =>
        hx.settled_outcomes (fun _ _ => id) hover b.2 (List.of_mem_zip hb).2
      intro r hr
      rw [hresults, hempty _ rfl, List.nil_append] at hr
      exact hsettled r ((sortedByStart_perm rs).mem_iff.mp hr)

/-- An engine whose executor leaves every step running, and whose reporter panics on the result of
the step `Y`. -/
def careless : Engine Unit where
  registry := [.ofKind .custom fun _ _ => .done (.ok ⟨.running, none, [], none⟩)]
  reporter := some ⟨fun _ n => match n with
    | .step r => if r.stepName = "Y" then .panicked none else .accepted
    | .progress _ => .accepted⟩
  machine := "host"
  identify := fun _ => "run"

/-- Run alone, a step that is left running is completed.  In a parallel run the branch whose result
the reporter does not take breaks off. -/
theorem handsBack_settled_careless :
    let s := Sequence.ofSteps [.plain "a" "A" .custom []]
    let t := Sequence.ofSteps [.plain "a" "A" .custom [],
      .plain "g" "G" .group [.plain "x" "X" .custom [], .plain "y" "Y" .custom []]]
    let c₀ := careless.opening t ⟨0, 1⟩
    let w₀ := { World.epoch.tick with store := (t.publish careless.machine).store }
    let x := careless.afterTurn t.steps c₀
      (careless.afterTurn t.steps c₀ ⟨Gate.ofBound 2 2, w₀, []⟩ 0) 1
    x.branches.outcomes =
      [.finished [⟨"a", "A", .completed, ⟨0, 2⟩, some ⟨0, 3⟩, none, []⟩], .crashed none] ∧
    (∃ c w, (careless.sequential s).Course World.Onward .epoch (.returned c) w ∧ c.Settled) ∧
    ∃ ending w, careless.Parallel World.Onward 2 t .epoch ending w ∧
      careless.HandsBack Context.Settled ending := by
  intro s t c₀ w₀ x
  have houtcomes : x.branches.outcomes =
      [.finished [⟨"a", "A", .completed, ⟨0, 2⟩, some ⟨0, 3⟩, none, []⟩], .crashed none] := by
    decide +kernel
  have hrun : (careless.run s .epoch).1 = .returned
      { Context.new "run" "1" "one" with
        status := .completed, started := some ⟨0, 1⟩, ended := some ⟨0, 4⟩, currentStep := some "a"
        results := [⟨"a", "A", .completed, ⟨0, 2⟩, some ⟨0, 3⟩, none, []⟩] } := by
    decide +kernel
  have hcourse := Activity.Course.of_complete World.timely_onward.refl World.timely_onward.pass
    (Prod.ext hrun rfl) (by simp)
  have hbegin : (careless.begin t).Course World.Onward .epoch (.returned (.ok c₀)) w₀ :=
    .update (.refl _) (.look (.refl _) (.update (.refl _) .done))
  have hx : careless.Reaches World.Onward t.steps c₀ 2 w₀ x := .turn 1 (.turn 0 .start)
  have hover : x.branches.isEmpty = true := by decide +kernel
  obtain ⟨ending, w, hjoin⟩ := Activity.exists_course World.Onward.refl
    (careless.join ⟨t.steps, c₀, x.branches⟩) x.world
  have hparallel : careless.Parallel World.Onward 2 t .epoch ending w :=
    .joined hbegin hx hover hjoin
  exact ⟨houtcomes, ⟨_, _, hcourse, (careless.handsBack_settled s).1 hcourse⟩, _, _, hparallel,
    (careless.handsBack_settled t).2 hparallel⟩

end Engine
end Runbook
