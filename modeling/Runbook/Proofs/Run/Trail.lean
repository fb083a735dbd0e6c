import Runbook.Proofs.Run.Branches
import Runbook.Proofs.Run.Notes
import Runbook.Proofs.Step.Preorder

/-!
# The trail of steps

An engine *logs* if a call of an executor adds no other entry to the log than the step it is for.
Whatever executors and reporter do, steps that were run then leave a *trail*: every result has come
to its end and belongs to one of the steps, and every step that an executor was called for has a
result.  Only a reporter that panics cuts the trail short (`Engine.Logs.notes_runStep`,
`Engine.Logs.notes_sequential`).

Every engine logs nothing, so what is said here of results holds of every engine.
-/

namespace Runbook

variable {σ τ α β : Type} {others : World σ → World σ → Prop}

/-! ## Trails -/

/-- The result has come to its end. -/
structure StepResult.Settled (r : StepResult) : Prop where
  /-- Nothing follows its status. -/
  terminal : r.status.isTerminal = true
  /-- It has ended. -/
  ended : r.ended.isSome = true

theorem StepResult.Closes.settled {r own : StepResult} (h : r.Closes own) : own.Settled :=
  ⟨h.terminal, h.ended⟩

/-- What steps that were run leave: results, and calls of executors. -/
structure Trail (ss : List Step) (rs : List StepResult) (calls : List Step) : Prop where
  /-- Every result has come to its end. -/
  settled : ∀ r ∈ rs, r.Settled
  /-- It belongs to one of the steps. -/
  named : ∀ r ∈ rs, ∃ t ∈ Step.preorderAll ss, r.key = t.key
  /-- The calls are for these steps. -/
  among : ∀ t ∈ calls, t ∈ Step.preorderAll ss
  /-- Every step that an executor was called for has a result. -/
  recorded : ∀ t ∈ calls, ∃ r ∈ rs, r.key = t.key

namespace Trail

variable {s : Step} {ss ts : List Step} {rs rs' : List StepResult} {calls calls' : List Step}

theorem nil : Trail ss [] [] where
  settled := by simp
  named := by simp
  among := by simp
  recorded := by simp

theorem append (h : Trail ss rs calls) (h' : Trail ts rs' calls') :
    Trail (ss ++ ts) (rs ++ rs') (calls ++ calls') where
  settled := List.forall_mem_append.mpr ⟨h.settled, h'.settled⟩
  named := by
    rw [Step.preorderAll_append]
    refine List.forall_mem_append.mpr ⟨fun r hr => ?_, fun r hr => ?_⟩
    · obtain ⟨t, ht, hkey⟩ := h.named r hr
      exact ⟨t, List.mem_append_left _ ht, hkey⟩
    · obtain ⟨t, ht, hkey⟩ := h'.named r hr
      exact ⟨t, List.mem_append_right _ ht, hkey⟩
  among := by
    rw [Step.preorderAll_append]
    exact List.forall_mem_append.mpr ⟨fun t ht => List.mem_append_left _ (h.among t ht),
      fun t ht => List.mem_append_right _ (h'.among t ht)⟩
  recorded := by
    refine List.forall_mem_append.mpr ⟨fun t ht => ?_, fun t ht => ?_⟩
    · obtain ⟨r, hr, hkey⟩ := h.recorded t ht
      exact ⟨r, List.mem_append_left _ hr, hkey⟩
    · obtain ⟨r, hr, hkey⟩ := h'.recorded t ht
      exact ⟨r, List.mem_append_right _ hr, hkey⟩

/-- Some more steps leave nothing. -/
theorem append_left (h : Trail ss rs calls) (ts : List Step) : Trail (ss ++ ts) rs calls := by
  have happend := h.append (@nil ts)
  rwa [List.append_nil, List.append_nil] at happend

/-- A step without further steps leaves its own result, and a call for itself at most. -/
theorem single {own : StepResult} {began : Timestamp} (hown : (s.begun began).Closes own)
    (hcalls : ∀ t ∈ calls, t = s) : Trail [s] [own] calls where
  settled := List.forall_mem_singleton.mpr hown.settled
  named := List.forall_mem_singleton.mpr
    ⟨s, by rw [Step.preorderAll_singleton, Step.preorder_eq]; exact List.mem_cons_self,
      Prod.ext hown.stepId hown.stepName⟩
  among := by
    intro t ht
    rw [hcalls t ht, Step.preorderAll_singleton, Step.preorder_eq]
    exact List.mem_cons_self
  recorded := fun t ht =>
    ⟨own, List.mem_singleton_self own, hcalls t ht ▸ Prod.ext hown.stepId hown.stepName⟩

/-- A step leaves what the steps in it leave, and its own result. -/
theorem group {own : StepResult} {began : Timestamp} (h : Trail s.children rs calls)
    (hown : (s.begun began).Closes own) : Trail [s] (rs ++ [own]) calls := by
  have hin : ∀ t ∈ Step.preorderAll s.children, t ∈ Step.preorderAll [s] := by
    intro t ht
    rw [Step.preorderAll_singleton, Step.preorder_eq]
    exact List.mem_cons_of_mem _ ht
  have hself : Trail [s] [own] [] := single hown (by simp)
  refine ⟨List.forall_mem_append.mpr ⟨h.settled, hself.settled⟩,
    List.forall_mem_append.mpr ⟨fun r hr => ?_, hself.named⟩, fun t ht => hin t (h.among t ht),
    fun t ht => ?_⟩
  · obtain ⟨t, ht, hkey⟩ := h.named r hr
    exact ⟨t, hin t ht, hkey⟩
  · obtain ⟨r, hr, hkey⟩ := h.recorded t ht
    exact ⟨r, List.mem_append_left _ hr, hkey⟩

end Trail

/-! ## Engines -/

namespace Engine

variable (e : Engine σ) {log : σ → List Step}

/-- A call of an executor adds no other entry to the log than the step it is for. -/
def Logs (log : σ → List Step) : Prop :=
  ∀ s x, e.registry.resolve? s = some x → ∀ c,
    (World.onScene (x.execute s c)).Notes log fun K _ => ∀ t ∈ K, t = s

/-- A call of an executor adds the step that it is for to the log, and nothing else. -/
def Keeps (log : σ → List Step) : Prop :=
  ∀ s x, e.registry.resolve? s = some x → ∀ c,
    (World.onScene (x.execute s c)).Notes log fun K _ => K = [s]

theorem Keeps.logs {e : Engine σ} (h : e.Keeps log) : e.Logs log := by
  intro s x hx c
  refine (h s x hx c).mono fun K _ hK => ?_
  rw [hK]
  exact List.forall_mem_singleton.mpr rfl

/-- The reporter panics on a report, with a message or without one. -/
def PanicsOn (n : Notice) (m : Option String) : Prop :=
  ∃ reporter ∈ e.reporter, ∃ earlier, reporter.respond earlier n = .panicked m

/-- Nothing is added to a log that stays empty. -/
theorem notes_onScene_nothing : ∀ x : Activity (Scene σ) α,
    (World.onScene x).Notes (fun _ => ([] : List Step)) fun K _ => K = []
  | .done _ => rfl
  | .panic _ => rfl
  | .look next => fun w => notes_onScene_nothing (next w.toScene)
  | .update _ next => ⟨[], fun _ => rfl, notes_onScene_nothing next⟩
  | .await _ next => fun c => notes_onScene_nothing (next c)

/-- Every engine logs nothing. -/
theorem logs_nothing : e.Logs fun _ => [] := by
  intro s x _ c
  refine (notes_onScene_nothing _).mono fun K _ hK => ?_
  subst hK
  simp

/-- What steps come to that were run: a trail, unless the reporter panics. -/
def Comes (ss : List Step) (P : List Step → α → Prop) (calls : List Step) : Ending α → Prop
  | .returned a => P calls a
  | .panicked m => (∀ t ∈ calls, t ∈ Step.preorderAll ss) ∧ ∃ n, e.PanicsOn n m
  | .stuck => False

/-- Nothing was added, unless the reporter panics. -/
def Reports (P : α → Prop) : List Step → Ending α → Prop :=
  e.Comes [] fun calls a => calls = [] ∧ P a

theorem notes_tell (n : Notice) : (e.tell n).Notes log (e.Reports fun _ => True) := by
  rw [tell]
  split
  · exact ⟨rfl, trivial⟩
  · next reporter hreporter =>
    intro w
    dsimp only
    split
    · next m hpanic => exact ⟨by simp, n, reporter, hreporter, w.notices, hpanic⟩
    · exact ⟨[], fun _ => (List.append_nil _).symm, rfl, trivial⟩

theorem notes_record (r : StepResult) (c : Context) :
    (e.record r c).Notes log (e.Reports fun c' => c' = c.record r) := by
  rw [record, Activity.bind_eq]
  refine (e.notes_tell _).bind (fun K _ hK => ?_) fun _ _ => id
  obtain ⟨rfl, -⟩ := hK
  exact ⟨rfl, rfl⟩

theorem adds_close {log : World σ → List τ} (hlog : World.Detached log) (r : StepResult)
    {status : Status} (h : status.isTerminal = true) (error : Option String) :
    (close r status error : Activity (World σ) StepResult).Adds log
      (Quietly fun own => r.Closes own) := by
  rw [close, Activity.bind_eq]
  exact (Activity.adds_stamp hlog).quietly fun now _ => ⟨rfl, r.closes_close h error now⟩

theorem notes_close (r : StepResult) {status : Status} (h : status.isTerminal = true)
    (error : Option String) :
    (close r status error : Activity (World σ) StepResult).Notes log
      (Quietly fun own => r.Closes own) :=
  Activity.notes_iff.mpr (adds_close World.detached_surroundings r h error)

variable {e}

/-- What steps come to after calls for others of the steps `ts`, and what comes next. -/
theorem Comes.bind {ss ts K : List Step} {x : Activity (World σ) α}
    {f : α → Activity (World σ) β} {P : List Step → α → Prop} {Q : List Step → β → Prop}
    (hx : x.Notes log (e.Comes ss P)) (hss : ∀ t ∈ Step.preorderAll ss, t ∈ Step.preorderAll ts)
    (hK : ∀ t ∈ K, t ∈ Step.preorderAll ts)
    (hf : ∀ calls a, P calls a → (f a).Notes log fun more => e.Comes ts Q (K ++ calls ++ more)) :
    (x.bind f).Notes log fun calls => e.Comes ts Q (K ++ calls) := by
  refine Activity.Notes.bind hx (fun calls a ha => ?_) fun calls m hpanic => ?_
  · exact (hf calls a ha).mono fun more r hr => List.append_assoc K calls more ▸ hr
  · exact ⟨List.forall_mem_append.mpr ⟨hK, fun t ht => hss t (hpanic.1 t ht)⟩, hpanic.2⟩

/-- A report after calls for some of the steps `ts`, and what comes next. -/
theorem Reports.bind {ts K : List Step} {x : Activity (World σ) α}
    {f : α → Activity (World σ) β} {P : α → Prop} {Q : List Step → β → Prop}
    (hx : x.Notes log (e.Reports P)) (hK : ∀ t ∈ K, t ∈ Step.preorderAll ts)
    (hf : ∀ a, P a → (f a).Notes log fun more => e.Comes ts Q (K ++ more)) :
    (x.bind f).Notes log fun calls => e.Comes ts Q (K ++ calls) := by
  refine Comes.bind hx (by simp [Step.preorderAll]) hK fun calls a ha => ?_
  obtain ⟨rfl, ha⟩ := ha
  rw [List.append_nil]
  exact hf a ha

/-- What steps come to after calls for others of the steps `ts`. -/
theorem Comes.after {ss ts K : List Step} {x : Activity (World σ) α}
    {P Q : List Step → α → Prop} (hx : x.Notes log (e.Comes ss P))
    (hss : ∀ t ∈ Step.preorderAll ss, t ∈ Step.preorderAll ts)
    (hK : ∀ t ∈ K, t ∈ Step.preorderAll ts) (hPQ : ∀ more a, P more a → Q (K ++ more) a) :
    x.Notes log fun more => e.Comes ts Q (K ++ more) := by
  refine hx.mono fun more r hr => ?_
  cases r with
  | returned a => exact hPQ more a hr
  | panicked m =>
    exact ⟨List.forall_mem_append.mpr ⟨hK, fun t ht => hss t (hr.1 t ht)⟩, hr.2⟩
  | stuck => exact hr

/-- Whatever the executor does and adds to a log, the step comes to its end. -/
theorem adds_dispatch {log : World σ → List τ} (hlog : World.Detached log) {Q : List τ → Prop}
    (hnone : Q []) {s : Step} {c : Context}
    (hx : ∀ x, e.registry.resolve? s = some x →
      (World.onScene (x.execute s c)).Adds log fun K _ => Q K) (r : StepResult) :
    (e.dispatch s c r).Adds log (Returns fun K own => r.Closes own ∧ Q K) := by
  have hclose : ∀ K, Q K → ∀ error,
      (close r .failed error : Activity (World σ) StepResult).Adds log fun K' =>
        Returns (fun K own => r.Closes own ∧ Q K) (K ++ K') := by
    intro K hK error
    refine (adds_close hlog r rfl error).weaken fun K' own hown => ?_
    obtain ⟨rfl, hown⟩ := hown
    exact ⟨hown, (List.append_nil K).symm ▸ hK⟩
  rw [dispatch]
  split
  · exact hclose [] hnone _
  · next x hresolve =>
    rw [Activity.bind_eq]
    have hcalled : (World.onScene (x.execute s c)).caught.Adds log (Returns fun K _ => Q K) :=
      (hx x hresolve).caught (fun _ _ => id) fun _ _ => id
    refine hcalled.returns fun K outcome hK => ?_
    split
    · rw [Activity.bind_eq]
      refine (Activity.adds_stamp hlog).quietly fun now _ => ⟨Outcome.closes_result _ r now, ?_⟩
      rwa [List.append_nil]
    · exact hclose K hK _
    · exact hclose K hK _

theorem Logs.notes_dispatch (hlogs : e.Logs log) (s : Step) (c : Context) (r : StepResult) :
    (e.dispatch s c r).Notes log
      (Returns fun calls own => r.Closes own ∧ ∀ t ∈ calls, t = s) :=
  Activity.notes_iff.mpr (adds_dispatch World.detached_surroundings (by simp)
    (fun x hx => Activity.notes_iff.mp (hlogs s x hx c)) r)

/-! ## Steps -/

theorem adds_closeGroup {log : World σ → List τ} (hlog : World.Detached log) (s : Step)
    (began : Timestamp) (culprit : Option String) :
    (closeGroup s began culprit : Activity (World σ) StepResult).Adds log
      (Quietly fun own => (s.begun began).Closes own) := by
  cases culprit with
  | none => exact adds_close hlog _ rfl _
  | some name => exact adds_close hlog _ rfl _

theorem notes_closeGroup (s : Step) (began : Timestamp) (culprit : Option String) :
    (closeGroup s began culprit : Activity (World σ) StepResult).Notes log
      (Quietly fun own => (s.begun began).Closes own) :=
  Activity.notes_iff.mpr (adds_closeGroup World.detached_surroundings s began culprit)

/-- A result is handed back with a context to whose record the steps have added theirs. -/
theorem notes_handBack {x : Activity (World σ) StepResult} {s : Step} {began : Timestamp}
    {c : Context} {ts K : List Step} {Q : List Step → StepResult × Context → Prop}
    (hx : x.Notes log (Quietly fun own => (s.begun began).Closes own))
    (hQ : ∀ own, (s.begun began).Closes own → Q K (own, c)) :
    (x.bind fun own => .done (own, c)).Notes log fun more => e.Comes ts Q (K ++ more) := by
  refine hx.quietly fun own hown => ?_
  show Q (K ++ []) (own, c)
  rw [List.append_nil]
  exact hQ own hown

/-- What a step comes to that is run and recorded, and what comes next. -/
theorem notes_visited {s : Step} {ss : List Step} {c : Context}
    {f : StepResult × Context → Context → Activity (World σ) α} {Q : List Step → α → Prop}
    (hstep : (e.runStep s c).Notes log (e.Comes [s] fun calls p =>
      ∃ inner, p.2.results = c.results ++ inner ∧ Trail [s] (inner ++ [p.1]) calls))
    (hf : ∀ p c' rs calls, c'.results = c.results ++ rs → Trail [s] rs calls →
      (f p c').Notes log fun more => e.Comes (s :: ss) Q (calls ++ more)) :
    ((e.runStep s c).bind fun p => (e.record p.1 p.2).bind (f p)).Notes log
      (e.Comes (s :: ss) Q) := by
  refine Comes.bind (K := []) hstep Step.mem_preorderAll_head (by simp) fun calls p hp => ?_
  obtain ⟨inner, hresults, htrail⟩ := hp
  refine Reports.bind (e.notes_record _ _) (htrail.append_left ss).among fun c' hc' => ?_
  refine hf p c' _ calls ?_ htrail
  rw [hc', Context.record, hresults, List.append_assoc]

/-- What the steps after the first one come to, after it has left a trail. -/
theorem notes_onward {s : Step} {ss calls : List Step} {before rs : List StepResult}
    {x : Activity (World σ) α} {results : α → List StepResult} (htrail : Trail [s] rs calls)
    (hx : x.Notes log (e.Comes ss fun more a =>
      ∃ rs', results a = before ++ rs ++ rs' ∧ Trail ss rs' more)) :
    x.Notes log fun more => e.Comes (s :: ss) (fun calls a =>
      ∃ rs, results a = before ++ rs ∧ Trail (s :: ss) rs calls) (calls ++ more) := by
  refine Comes.after hx (fun t => List.mem_append_right _) (htrail.append_left ss).among
    fun more a ha => ?_
  obtain ⟨rs', hresults, hmore⟩ := ha
  exact ⟨rs ++ rs', by rw [hresults, List.append_assoc], htrail.append hmore⟩

mutual

/-- Whatever executors do, a step leaves a trail, unless the reporter panics. -/
theorem Logs.notes_runStep (hlogs : e.Logs log) : ∀ (s : Step) (c : Context),
    (e.runStep s c).Notes log (e.Comes [s] fun calls p =>
      ∃ inner, p.2.results = c.results ++ inner ∧ Trail [s] (inner ++ [p.1]) calls)
  | .mk i n d k enabled goesOn cs ps ss, c => by
      rw [runStep_eq]
      refine Activity.notes_stamp.quietly fun began _ => fun v => ?_
      dsimp only
      rw [proceed]
      split
      · exact notes_handBack (K := []) (notes_close _ rfl none) fun own hown =>
          ⟨[], (List.append_nil _).symm, .single hown (by simp)⟩
      split
      · rw [Activity.bind_eq]
        refine Comes.bind (K := []) (Logs.notes_runChildren hlogs ss _) (fun t ht => ?_) (by simp)
          fun calls p hp => ?_
        · rw [Step.preorderAll_singleton, Step.preorder_eq]
          exact List.mem_cons_of_mem _ ht
        · obtain ⟨inner, hresults, htrail⟩ := hp
          exact notes_handBack (notes_closeGroup _ began p.1) fun own hown =>
            ⟨inner, hresults, Trail.group (s := .mk i n d k enabled goesOn cs ps ss) htrail hown⟩
      · rw [Activity.bind_eq]
        refine (hlogs.notes_dispatch _ _ _).returns fun calls own hown => ?_
        exact ⟨[], (List.append_nil _).symm,
          .single hown.1 (by rw [List.append_nil]; exact hown.2)⟩
termination_by structural s => s

/-- The steps of a group leave a trail. -/
theorem Logs.notes_runChildren (hlogs : e.Logs log) : ∀ (ss : List Step) (c : Context),
    (e.runChildren ss c).Notes log (e.Comes ss fun calls p =>
      ∃ rs, p.2.results = c.results ++ rs ∧ Trail ss rs calls)
  | [], c => ⟨[], (List.append_nil _).symm, .nil⟩
  | s :: ss, c => by
      simp only [runChildren, Activity.bind_eq]
      refine notes_visited (Logs.notes_runStep hlogs s c) fun p c' rs calls hresults htrail => ?_
      split
      · refine ⟨rs, hresults, ?_⟩
        rw [List.append_nil]
        exact htrail.append_left ss
      · exact notes_onward htrail (hresults ▸ Logs.notes_runChildren hlogs ss c')
termination_by structural ss => ss

end

/-- A branch leaves the trail of its step. -/
theorem Logs.notes_branch (hlogs : e.Logs log) (s : Step) (c : Context) :
    (e.branch s c).Notes log (e.Comes [s] fun calls rs => Trail [s] rs calls) := by
  simp only [branch, Activity.bind_eq]
  refine notes_visited (hlogs.notes_runStep s c.branch) fun p c' rs calls hresults htrail => ?_
  show Trail [s] c'.results (calls ++ [])
  rw [List.append_nil, hresults]
  exact htrail

/-! ## Sequential runs -/

/-- The steps at the top level leave a trail. -/
theorem Logs.notes_runSteps (hlogs : e.Logs log) : ∀ (ss : List Step) (c : Context),
    (e.runSteps ss c).Notes log (e.Comes ss fun calls c' =>
      ∃ rs, c'.results = c.results ++ rs ∧ Trail ss rs calls)
  | [], c => ⟨[], (List.append_nil _).symm, .nil⟩
  | s :: ss, c => by
      simp only [runSteps, Activity.bind_eq]
      intro w
      dsimp only [Activity.bind]
      split
      · exact ⟨[], (List.append_nil _).symm, .nil⟩
      refine notes_visited (hlogs.notes_runStep s c) fun p c' rs calls hresults htrail => ?_
      refine Reports.bind (e.notes_tell _) (htrail.append_left ss).among fun _ _ => ?_
      split
      · refine ⟨rs, hresults, ?_⟩
        rw [List.append_nil]
        exact htrail.append_left ss
      · exact notes_onward htrail (hresults ▸ Logs.notes_runSteps hlogs ss c')

variable (e)

theorem notes_conclude (c : Context) :
    (e.conclude c).Notes log (e.Reports fun c' => c' = c) := by
  rw [conclude, Activity.bind_eq]
  refine (e.notes_tell _).bind (fun K _ hK => ?_) fun _ _ => id
  obtain ⟨rfl, -⟩ := hK
  exact ⟨rfl, rfl⟩

theorem notes_finish (status : Status) (c : Context) :
    (e.finish status c).Notes log (e.Reports fun c' => c'.results = c.results) := by
  rw [finish, Activity.bind_eq]
  refine Activity.notes_stamp.quietly fun now _ => (e.notes_conclude _).mono fun K r hr => ?_
  cases r with
  | returned c' => exact ⟨hr.1, hr.2 ▸ rfl⟩
  | panicked m => exact hr
  | stuck => exact hr

/-- A run begins with an empty record. -/
theorem adds_begin {log : World σ → List τ} (hlog : World.Detached log) (s : Sequence) :
    (e.begin s).Adds log (Quietly fun started =>
      (∀ c, started = .ok c → c.results = []) ∧ ∀ c, started = .error c → c.results = []) := by
  simp only [begin, Activity.bind_eq]
  refine (Activity.adds_stamp hlog).quietly fun now _ => ?_
  refine ⟨[], fun w => (hlog w _ w.clock).trans (List.append_nil _).symm, ?_⟩
  dsimp only [Activity.bind]
  split
  · exact ⟨rfl, by rintro _ ⟨⟩; rfl, by rintro _ ⟨⟩⟩
  · exact (Activity.adds_stamp hlog).quietly fun now _ =>
      ⟨rfl, by rintro _ ⟨⟩, by rintro _ ⟨⟩; rfl⟩

theorem notes_begin (s : Sequence) :
    (e.begin s).Notes log (Quietly fun started =>
      (∀ c, started = .ok c → c.results = []) ∧ ∀ c, started = .error c → c.results = []) :=
  Activity.notes_iff.mpr (e.adds_begin World.detached_surroundings s)

variable {e}

/-- A sequential run leaves the trail of its steps, unless the reporter panics. -/
theorem Logs.notes_sequential (hlogs : e.Logs log) (s : Sequence) :
    (e.sequential s).Notes log (e.Comes s.steps fun calls c => Trail s.steps c.results calls) := by
  simp only [sequential, Activity.bind_eq]
  refine (e.notes_begin s).quietly fun started hstarted => ?_
  split
  · next c =>
    refine Comes.after (K := []) (e.notes_conclude c) (by simp [Step.preorderAll]) (by simp)
      fun calls c' hc' => ?_
    obtain ⟨rfl, rfl⟩ := hc'
    rw [hstarted.2 _ rfl]
    exact .nil
  · next c =>
    refine Comes.bind (K := []) (hlogs.notes_runSteps s.steps c) (fun _ => id) (by simp)
      fun calls c₁ hc₁ => ?_
    obtain ⟨rs, hresults, htrail⟩ := hc₁
    refine Comes.after (e.notes_finish _ _) (by simp [Step.preorderAll]) htrail.among
      fun more c' hc' => ?_
    obtain ⟨rfl, hc'⟩ := hc'
    rw [List.nil_append, List.append_nil, hc', hresults, hstarted.1 c rfl]
    exact htrail

end Engine
end Runbook
