import Runbook.Proofs.Run.Parallel

/-!
# Steps and their answers

An engine *answers* its steps by `F` if a step that is given to its executor is all that this adds
to the log, and `F` relates it to the result that comes of it.  Then so it is in every run: whatever
executors and reporter do, each entry that a run adds to the log is a step that `F` relates to some
result (`Engine.Answers.of_runs`).  A run step by step that hands back its record keeps these
results in it (`Engine.Answers.of_sequential`).

A group adds nothing by itself, so `F` need only relate steps that are no groups.
-/

namespace Runbook

variable {σ α β : Type} {others : World σ → World σ → Prop}

/-! ## Activities -/

/-- Every step in `K` has a result that `F` allows.  If something is handed back, the results are
among those in it, and so are the results `rs` from before. -/
def Answered (F : Step → StepResult → Prop) (rs : List StepResult) (results : α → List StepResult)
    (K : List Step) : Ending α → Prop
  | .returned a => rs ⊆ results a ∧ ∀ t ∈ K, ∃ r ∈ results a, F t r
  | _ => ∀ t ∈ K, ∃ r, F t r

namespace Answered

variable {F : Step → StepResult → Prop} {rs : List StepResult} {results : α → List StepResult}
  {K : List Step} {ending : Ending α}

theorem exists_answer (h : Answered F rs results K ending) : ∀ t ∈ K, ∃ r, F t r := by
  cases ending with
  | returned a =>
    intro t ht
    obtain ⟨r, -, hr⟩ := h.2 t ht
    exact ⟨r, hr⟩
  | panicked m => exact h
  | stuck => exact h

theorem weaken {rs' : List StepResult} (h : Answered F rs results K ending) (hrs : rs' ⊆ rs) :
    Answered F rs' results K ending := by
  cases ending with
  | returned a => exact ⟨List.Subset.trans hrs h.1, h.2⟩
  | panicked m => exact h
  | stuck => exact h

end Answered

namespace Activity

variable {log : σ → List Step} {F : Step → StepResult → Prop} {rs rs' : List StepResult}
  {results : α → List StepResult} {results' : β → List StepResult}

/-- What is handed back first is kept by what comes next. -/
theorem Notes.answered_bind {x : Activity (World σ) α} {f : α → Activity (World σ) β}
    (hx : x.Notes log (Answered F rs results))
    (hf : ∀ a, (f a).Notes log (Answered F (results a) results')) :
    (x.bind f).Notes log (Answered F rs results') := by
  refine hx.bind (fun K a ha => (hf a).mono fun K' ending h => ?_) fun K m => id
  have hfirst : ∀ t ∈ K, ∃ r, F t r := ha.exists_answer
  cases ending with
  | returned b =>
    refine ⟨List.Subset.trans ha.1 h.1, List.forall_mem_append.mpr ⟨fun t ht => ?_, h.2⟩⟩
    obtain ⟨r, hr, hF⟩ := ha.2 t ht
    exact ⟨r, h.1 hr, hF⟩
  | panicked m => exact List.forall_mem_append.mpr ⟨hfirst, h⟩
  | stuck => exact List.forall_mem_append.mpr ⟨hfirst, h⟩

theorem notes_answered_done {a : α} (h : rs ⊆ results a) :
    (Activity.done a : Activity (World σ) α).Notes log (Answered F rs results) :=
  ⟨h, by simp⟩

/-- Nothing is added, so nothing needs an answer. -/
theorem Notes.answered {x : Activity (World σ) α} {P : α → Prop} (h : x.Notes log (Quietly P))
    (hP : ∀ a, P a → rs ⊆ results a) : x.Notes log (Answered F rs results) := by
  refine h.mono fun K ending hK => ?_
  cases ending with
  | returned a =>
    obtain ⟨rfl, ha⟩ := hK
    exact ⟨hP a ha, by simp⟩
  | panicked m => exact hK.elim
  | stuck => exact hK.elim

end Activity

namespace Engine

variable {e : Engine σ} {log : σ → List Step} {F : Step → StepResult → Prop}
  {rs : List StepResult}

/-- A report adds nothing, whether it is taken in or not. -/
theorem answered_of_reports {x : Activity (World σ) α} {P : α → Prop}
    {results : α → List StepResult} (h : x.Notes log (e.Reports P))
    (hP : ∀ a, P a → rs ⊆ results a) : x.Notes log (Answered F rs results) := by
  refine h.mono fun K ending hK => ?_
  cases ending with
  | returned a =>
    obtain ⟨rfl, ha⟩ := hK
    exact ⟨hP a ha, by simp⟩
  | panicked m =>
    intro t ht
    exact absurd (hK.1 t ht) (by simp [Step.preorderAll])
  | stuck => exact hK.elim

/-- The result that was handed back is recorded. -/
theorem notes_recorded (r : StepResult) (c : Context) :
    (e.record r c).Notes log (Answered F (r :: c.results) Context.results) := by
  refine answered_of_reports (e.notes_record r c) ?_
  rintro _ rfl
  simp [Context.record]

/-! ## Steps -/

variable (e log F)

/-- A step of `ss` that is no group has a result that `F` allows when it is given to its executor,
and nothing else is added to the log. -/
def Answers (ss : List Step) : Prop :=
  ∀ t ∈ Step.preorderAll ss, t.isGroup = false → ∀ c began,
    (e.dispatch t c (t.begun began)).Notes log (Answered F [] fun own => [own])

variable {e log F}

theorem Answers.head {s : Step} {ss : List Step} (h : e.Answers log F (s :: ss)) :
    e.Answers log F [s] :=
  fun t ht => h t (Step.mem_preorderAll_head t ht)

theorem Answers.tail {s : Step} {ss : List Step} (h : e.Answers log F (s :: ss)) :
    e.Answers log F ss :=
  fun t ht => h t (List.mem_append_right _ ht)

theorem Answers.children {s : Step} (h : e.Answers log F [s]) : e.Answers log F s.children := by
  intro t ht
  refine h t ?_
  rw [Step.preorderAll_singleton, Step.preorder_eq]
  exact List.mem_cons_of_mem _ ht

theorem Answers.of_mem {s : Step} {ss : List Step} (h : e.Answers log F ss) (hs : s ∈ ss) :
    e.Answers log F [s] := by
  intro t ht
  obtain ⟨before, after, rfl⟩ := List.append_of_mem hs
  refine h t ?_
  rw [Step.preorderAll_append]
  exact List.mem_append_right _ (Step.mem_preorderAll_head t ht)

/-- A result that nothing was done for is handed back beside the record. -/
theorem answered_handBack {x : Activity (World σ) StepResult} {P : StepResult → Prop}
    (h : x.Notes log (Quietly P)) (c : Context) :
    (x.bind fun own => .done (own, c)).Notes log
      (Answered F c.results fun p : StepResult × Context => p.1 :: p.2.results) := by
  have hx : x.Notes log (Answered F c.results fun _ => c.results) :=
    h.answered fun _ _ => List.Subset.refl _
  exact hx.answered_bind fun own => Activity.notes_answered_done (List.subset_cons_self _ _)

mutual

/-- A step that is run keeps the results that there are, and adds its own. -/
theorem Answers.of_runStep : ∀ {s : Step} (c : Context), e.Answers log F [s] →
    (e.runStep s c).Notes log
      (Answered F c.results fun p => p.1 :: p.2.results)
  | .mk i n d k enabled goesOn cs ps ss, c, h => by
      rw [runStep_eq]
      refine Activity.notes_stamp.quietly fun began _ => fun v => ?_
      dsimp only
      rw [proceed]
      split
      · exact answered_handBack (notes_close _ rfl none) (c.enter _)
      split
      · have hinner : e.Answers log F ss := h.children
        have hchildren := hinner.of_runChildren (c.enter (.mk i n d k enabled goesOn cs ps ss))
        rw [Activity.bind_eq]
        exact hchildren.answered_bind fun p =>
          answered_handBack (notes_closeGroup _ began p.1) p.2
      · next hgroup =>
        refine Activity.Notes.bind (h _ List.mem_cons_self (Bool.eq_false_iff.mpr hgroup) _ began)
          (fun K own hown => ?_) fun K m => id
        refine ⟨List.subset_cons_self _ _, fun t ht => ?_⟩
        rw [List.append_nil] at ht
        obtain ⟨r, hr, hF⟩ := hown.2 t ht
        exact ⟨r, List.mem_singleton.mp hr ▸ List.mem_cons_self, hF⟩
termination_by structural s => s

/-- Steps of a group keep the results that there are. -/
theorem Answers.of_runChildren : ∀ {ss : List Step} (c : Context), e.Answers log F ss →
    (e.runChildren ss c).Notes log (Answered F c.results fun p => p.2.results)
  | [], c, _ => Activity.notes_answered_done (List.Subset.refl _)
  | s :: ss, c, h => by
      simp only [runChildren, Activity.bind_eq]
      refine (Answers.of_runStep c h.head).answered_bind fun p =>
        (notes_recorded p.1 p.2).answered_bind fun c' => ?_
      split
      · exact Activity.notes_answered_done (List.Subset.refl _)
      · exact Answers.of_runChildren c' h.tail
termination_by structural ss => ss

end

/-! ## Sequential runs -/

theorem Answers.of_runSteps : ∀ {ss : List Step} (c : Context), e.Answers log F ss →
    (e.runSteps ss c).Notes log (Answered F c.results Context.results)
  | [], c, _ => Activity.notes_answered_done (List.Subset.refl _)
  | s :: ss, c, h => by
      simp only [runSteps, Activity.bind_eq]
      intro w
      dsimp only [Activity.bind]
      split
      · exact Activity.notes_answered_done (List.Subset.refl _)
      refine (h.head.of_runStep c).answered_bind fun p =>
        (notes_recorded p.1 p.2).answered_bind fun c' => ?_
      have htold : (e.tell (.progress c')).Notes log (Answered F c'.results fun _ => c'.results) :=
        answered_of_reports (e.notes_tell _) fun _ _ => List.Subset.refl _
      refine htold.answered_bind fun _ => ?_
      split
      · exact Activity.notes_answered_done (List.Subset.refl _)
      · exact Answers.of_runSteps c' h.tail

theorem answered_conclude (c : Context) :
    (e.conclude c).Notes log (Answered F c.results Context.results) := by
  refine answered_of_reports (e.notes_conclude c) ?_
  rintro _ rfl
  exact List.Subset.refl _

theorem answered_finish (status : Status) (c : Context) :
    (e.finish status c).Notes log (Answered F c.results Context.results) :=
  answered_of_reports (e.notes_finish status c) fun _ hc' => hc' ▸ List.Subset.refl _

theorem answered_begin (s : Sequence) :
    (e.begin s).Notes log (Answered F [] fun _ => []) :=
  (e.notes_begin s).answered fun _ _ => List.Subset.refl _

/-- A run step by step keeps the results of the steps that it adds to the log. -/
theorem Answers.of_sequential {s : Sequence} (h : e.Answers log F s.steps) :
    (e.sequential s).Notes log (Answered F [] Context.results) := by
  simp only [sequential, Activity.bind_eq]
  refine (answered_begin s).answered_bind fun started => ?_
  split
  · next c =>
    exact (answered_conclude c).mono fun _ _ hc => hc.weaken (List.nil_subset _)
  · next c =>
    refine Activity.Notes.mono ((h.of_runSteps c).answered_bind fun c' => answered_finish _ c')
      fun _ _ hc => hc.weaken (List.nil_subset _)

theorem answered_join (f : Fan σ) :
    (e.join f).Notes log (Answered F f.context.results Context.results) := by
  refine answered_of_reports (e.notes_join f) ?_
  rintro c' ⟨rs, -, hresults⟩
  rw [hresults]
  exact List.subset_append_left _ _

/-! ## Branches -/

/-- A branch adds only steps that have a result, whether it comes to its end or not. -/
theorem Answers.of_branch {s : Step} (h : e.Answers log F [s]) (c : Context) :
    (e.branch s c).Notes log fun K _ => ∀ t ∈ K, ∃ r, F t r := by
  have hbranch : (e.branch s c).Notes log (Answered F c.branch.results id) := by
    simp only [branch, Activity.bind_eq]
    refine (h.of_runStep c.branch).answered_bind fun p =>
      (notes_recorded p.1 p.2).answered_bind fun c' => ?_
    exact Activity.notes_answered_done (List.Subset.refl _)
  exact hbranch.mono fun _ _ => Answered.exists_answer

/-- The share of a branch in the log consists of steps that have a result. -/
theorem Shares.answered {ss : List Step} {i : Nat} {K : List Step}
    {stage : Stage (Bool → Activity (World σ) (List StepResult)) BranchEnd}
    (h : Shares ss (fun w => log w.surroundings) (fun _ K _ => ∀ t ∈ K, ∃ r, F t r) i K stage)
    (w : World σ) : ∀ t ∈ K, ∃ r, F t r := by
  cases h with
  | fresh hK => simp [hK]
  | waiting hK => simp [hK]
  | granted hK => simp [hK]
  | skipped hK => simp [hK]
  | @inside next _ _ hrest =>
    -- Whatever is left comes to some end.
    obtain ⟨ending, v, hcourse⟩ : ∃ ending v, (next false).Course Eq w ending v :=
      Activity.exists_course (fun _ => rfl) _ w
    obtain ⟨L, -, hL⟩ := (hrest false).of_course (by rintro _ _ rfl; rfl) hcourse
    exact fun t ht => hL t (List.mem_append_left _ ht)
  | finished _ hK => exact hK
  | crashed _ hK => exact hK

/-- What the branches of a parallel run have added so far has results. -/
theorem Answers.of_reaches {ss : List Step} {c : Context} {bound : Nat} (h : e.Answers log F ss)
    (hothers : ∀ w v, others w v → w.Onward v ∧ log v.surroundings = log w.surroundings)
    {w₀ : World σ} {x : Flight σ} (hx : e.Reaches others ss c bound w₀ x) :
    ∃ made, log x.world.surroundings = log w₀.surroundings ++ made ∧ ∀ t ∈ made, ∃ r, F t r := by
  obtain ⟨shares, made, hmade, hperm, hshares⟩ := hx.exists_shares
    (fun s hs => Activity.notes_iff.mp ((h.of_mem hs).of_branch c)) hothers
  refine ⟨made, hmade, fun t ht => ?_⟩
  obtain ⟨i, hi, hti⟩ := List.mem_flatMap.mp (hperm.mem_iff.mpr ht)
  have hlength := (hx.reached fun w v hv => (hothers w v hv).1).stands.1
  have hstage := List.getElem?_eq_getElem (hlength ▸ List.mem_range.mp hi)
  exact (hshares i _ hstage).answered w₀ t hti

/-! ## Runs -/

/-- Whatever executors and reporter do, however branches take turns and whenever the run is
cancelled: each step that a run adds to the log has a result that `F` allows. -/
theorem Answers.of_runs {s : Sequence} (h : e.Answers log F s.steps)
    (hothers : ∀ w v, others w v → w.Onward v ∧ log v.surroundings = log w.surroundings)
    {mode : Mode} {w w' : World σ} {ending : Ending Context}
    (hrun : e.Runs others mode s w ending w') :
    ∃ made, log w'.surroundings = log w.surroundings ++ made ∧ ∀ t ∈ made, ∃ r, F t r := by
  have hquiet : ∀ w v, others w v → log v.surroundings = log w.surroundings :=
    fun w v hv => (hothers w v hv).2
  cases mode with
  | sequential =>
    obtain ⟨made, hmade, hanswered⟩ := h.of_sequential.of_course hquiet hrun
    exact ⟨made, hmade, hanswered.exists_answer⟩
  | parallel bound =>
    have hrun : e.Parallel others bound s w ending w' := hrun
    cases hrun with
    | refused hbegin hconclude =>
      obtain ⟨K, hK, hbegun⟩ := (answered_begin (F := F) s).of_course hquiet hbegin
      obtain ⟨K', hK', hconcluded⟩ := (answered_conclude (F := F) _).of_course hquiet hconclude
      refine ⟨K ++ K', by rw [hK', hK, List.append_assoc], ?_⟩
      exact List.forall_mem_append.mpr ⟨hbegun.exists_answer, hconcluded.exists_answer⟩
    | joined hbegin hx _ hjoin =>
      obtain ⟨K, hK, hbegun⟩ := (answered_begin (F := F) s).of_course hquiet hbegin
      obtain ⟨made, hmade, hanswered⟩ := h.of_reaches hothers hx
      obtain ⟨K', hK', hjoined⟩ := (answered_join (F := F) _).of_course hquiet hjoin
      refine ⟨K ++ made ++ K', by simp only [hK', hmade, hK, List.append_assoc], ?_⟩
      exact List.forall_mem_append.mpr ⟨List.forall_mem_append.mpr
        ⟨hbegun.exists_answer, hanswered⟩, hjoined.exists_answer⟩

end Engine
end Runbook
