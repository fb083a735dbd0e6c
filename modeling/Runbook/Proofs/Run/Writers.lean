import Runbook.Builtin.Plan
import Runbook.Proofs.Run.Deeds
import Runbook.Proofs.Run.Trail

/-!
# Who writes variables

An executor *spares* the variables if it makes no change to them.  The engine itself spares them
once they are published, and so do the built-in executors but for two, which set one variable each
(`Plan.does_follow`).

What a step does is to be told by its result.  `tells` says which deeds the result of a step tells,
and an engine is *explained* by it if this is so of every executor that a step is given to.  The
record of the steps that were run then tells all deeds in their order, a step after the steps in it
(`Engine.Explained.does_runStep`).
-/

namespace Runbook

variable {σ α β : Type}

namespace Activity

/-- The activity leaves the variables alone. -/
def Spares : Activity (Scene σ) α → Prop
  | done _ => True
  | panic _ => True
  | look next => ∀ s, (next s).Spares
  | update change next => (∀ s, (change s).store = s.store) ∧ next.Spares
  | await _ next => ∀ c, (next c).Spares

/-- An executor that spares the variables does nothing. -/
theorem Spares.does : ∀ {x : Activity (Scene σ) α}, x.Spares → ∀ m : Moment,
    (World.onScene x).Does (fun K _ _ => K = []) m
  | .done _, _, _ => rfl
  | .panic _, _, _ => rfl
  | .look _, h, _ => fun w _ => Spares.does (h w.toScene) _
  | .update _ _, h, _ => fun w _ =>
      ⟨[], _, .quiet (h.1 w.toScene) (World.onward_withScene _ w).clock, Spares.does h.2 _⟩
  | .await _ _, h, _ => fun m c => Spares.does (h c) m

/-! ## What is returned -/

/-- If something is returned, `P` allows it after the deeds. -/
def Leaves (P : List Deed → α → Prop) (K : List Deed) (r : Ending α) (_ : Moment) : Prop :=
  ∀ a, r = .returned a → P K a

/-- Nothing is done, and if something is returned, `P` allows it. -/
def Idle (P : α → Prop) (K : List Deed) (r : Ending α) (_ : Moment) : Prop :=
  K = [] ∧ ∀ a, r = .returned a → P a

section

variable {x : Activity (World σ) α} {f : α → Activity (World σ) β} {m : Moment}

theorem Does.leaves {P : List Deed → α → Prop} {Q : List Deed → β → Prop}
    (hx : x.Does (Leaves P) m)
    (hf : ∀ K a m', P K a → (f a).Does (Leaves fun L => Q (K ++ L)) m') :
    (x.bind f).Does (Leaves Q) m := by
  refine hx.bind (fun K a m' ha => hf K a m' (ha a rfl)) fun K e m' _ a ha => ?_
  cases ha

theorem Does.idle {P : α → Prop} {Q : List Deed → β → Prop} (hx : x.Does (Idle P) m)
    (hf : ∀ a m', P a → (f a).Does (Leaves Q) m') : (x.bind f).Does (Leaves Q) m := by
  refine hx.bind (fun K a m' ha => ?_) fun K e m' _ a ha => ?_
  · obtain ⟨rfl, ha⟩ := ha
    exact hf a m' (ha a rfl)
  · cases ha

theorem Does.idle_idle {P : α → Prop} {Q : β → Prop} (hx : x.Does (Idle P) m)
    (hf : ∀ a m', P a → (f a).Does (Idle Q) m') : (x.bind f).Does (Idle Q) m := by
  refine hx.bind (fun K a m' ha => ?_) fun K e m' he => ⟨he.1, fun a ha => ?_⟩
  · obtain ⟨rfl, ha⟩ := ha
    exact hf a m' (ha a rfl)
  · cases ha

end

theorem idle_done {P : α → Prop} {a : α} (h : P a) (m : Moment) :
    (done a : Activity (World σ) α).Does (Idle P) m := by
  refine ⟨rfl, fun b hb => ?_⟩
  cases hb
  exact h

theorem idle_stamp (m : Moment) :
    (World.stamp : Activity (World σ) Timestamp).Does (Idle fun _ => True) m :=
  (does_stamp m).mono fun _ _ _ h => ⟨h.1, fun _ _ => trivial⟩

end Activity

open Activity (Leaves Idle idle_done idle_stamp does_stamp)

/-! ## Plans -/

/-- What following a plan for a step comes to that was begun at a time. -/
inductive Plan.Comes (began : Timestamp) :
    Plan → List Deed → Except ExecutionError Outcome → Prop where
  /-- An error was handed back. -/
  | refused {p : Plan} {f : ExecutionError} : Comes began p [] (.error f)
  /-- The step has failed without outputs. -/
  | failed {p : Plan} {o : Outcome} : o.status = .failed → o.outputs = [] → Comes began p [] (.ok o)
  /-- A process was started. -/
  | process {spec : ProcessSpec} {more : Pairs} {o : Outcome} :
      Comes began (.process spec more) [] (.ok o)
  /-- The variable was set. -/
  | written {name value : String} {outputs : Pairs} {o : Outcome} : o.status = .completed →
      o.outputs = outputs → Comes began (.write name value outputs) [⟨began, name, value⟩] (.ok o)

/-- Only a plan that hands back an outcome is followed by a deed. -/
theorem Plan.Comes.eq_nil {began : Timestamp} {p : Plan} {K : List Deed}
    {reply : Except ExecutionError Outcome} (h : p.Comes began K reply)
    (hno : ∀ o, reply ≠ .ok o) : K = [] := by
  cases h with
  | refused => rfl
  | failed => rfl
  | process => rfl
  | written => exact absurd rfl (hno _)

/-- Running a process does nothing to variables, and hands back an outcome. -/
theorem ProcessSpec.does_run (spec : ProcessSpec) (host : Host σ) (more : Pairs) (m : Moment) :
    (World.onScene (spec.run host more)).Does
      (fun K r _ => K = [] ∧ ∃ o, r = .returned (.ok o)) m := by
  intro w _
  refine fun v _ => ⟨[], _, .quiet rfl (World.onward_withScene _ v).clock, ?_⟩
  split
  · exact fun _ _ => ⟨rfl, _, rfl⟩
  · intro m cancelled
    dsimp only
    split
    · exact fun _ _ => ⟨rfl, _, rfl⟩
    split
    · exact fun _ _ => ⟨rfl, _, rfl⟩
    split
    · exact fun _ _ => ⟨rfl, _, rfl⟩
    · exact fun _ _ => ⟨rfl, _, rfl⟩

/-- Following a plan does no other deed than the write that is planned. -/
theorem Plan.does_follow (host : Host σ) {began : Timestamp} {m : Moment}
    (hfloor : m.floor.Before began) (hnow : began.notAfter m.now = true) : ∀ p : Plan,
    (World.onScene (p.follow host)).Does
      (fun K r _ => ∃ reply, r = .returned reply ∧ p.Comes began K reply) m
  | .refuse _ => ⟨_, rfl, .refused⟩
  | .fail _ => fun _ _ => ⟨_, rfl, .failed rfl rfl⟩
  | .process spec more => (spec.does_run host more m).mono fun K r _ h => by
      obtain ⟨rfl, o, rfl⟩ := h
      exact ⟨_, rfl, .process⟩
  | .write name value outputs => by
      intro w hw
      have hbegan := Timestamp.notAfter_trans hnow hw.now
      dsimp only
      split
      · next store hset =>
        intro v hv
        have hnow := Timestamp.notAfter_trans hbegan hv.now
        refine ⟨[⟨began, name, value⟩], _, .deed hfloor hnow ?_ rfl,
          fun _ _ => ⟨_, rfl, .written rfl rfl⟩⟩
        rw [hv.store, ← hw.store]
        exact hset
      · exact ⟨_, rfl, .refused⟩

/-- An executor that follows plans does what the plan of a step comes to. -/
theorem Executor.does_ofPlan (host : Host σ) (kind : Kind) (plan : Step → Store → Plan) (s : Step)
    (c : Context) {began : Timestamp} {m : Moment} (hfloor : m.floor.Before began)
    (hnow : began.notAfter m.now = true) :
    (World.onScene ((Executor.ofPlan host kind plan).execute s c)).Does
      (fun K r _ => ∃ store reply, r = .returned reply ∧ (plan s store).Comes began K reply) m := by
  intro w hw
  have hfollow := (plan s w.store).does_follow host (m := { m with now := w.clock }) hfloor
    (Timestamp.notAfter_trans hnow hw.now)
  exact hfollow.mono fun K r _ hreply => ⟨w.store, hreply⟩

/-! ## Records -/

section

variable (tells : Step → StepResult → List Deed → Prop)

/-- Results of the steps tell deeds, one result after the other. -/
inductive Told (ss : List Step) : List StepResult → List Deed → Prop where
  /-- Nothing is told. -/
  | nil : Told ss [] []
  /-- The first result tells the first deeds. -/
  | cons {t : Step} {r : StepResult} {rs : List StepResult} {K L : List Deed} :
      t ∈ Step.preorderAll ss → r.stepId = t.id → tells t r K → Told ss rs L →
      Told ss (r :: rs) (K ++ L)

end

section

variable {tells : Step → StepResult → List Deed → Prop} {ss ts : List Step}
  {rs rs' : List StepResult} {K L : List Deed}

theorem Told.mono (h : Told tells ss rs K)
    (hss : ∀ t ∈ Step.preorderAll ss, t ∈ Step.preorderAll ts) : Told tells ts rs K := by
  induction h with
  | nil => exact .nil
  | cons ht hid hr _ ih => exact .cons (hss _ ht) hid hr ih

theorem Told.append (h : Told tells ss rs K) (h' : Told tells ss rs' L) :
    Told tells ss (rs ++ rs') (K ++ L) := by
  induction h with
  | nil => exact h'
  | cons ht hid hr _ ih =>
    rw [List.append_assoc]
    exact .cons ht hid hr ih

/-- The result of a step tells its deeds. -/
theorem Told.single {s : Step} {r : StepResult} (hid : r.stepId = s.id) (hr : tells s r K) :
    Told tells [s] [r] K := by
  have hself : s ∈ Step.preorderAll [s] := by
    rw [Step.preorderAll_singleton, Step.preorder_eq]
    exact List.mem_cons_self
  have htold := Told.cons hself hid hr .nil
  rwa [List.append_nil] at htold

/-- What is told by the steps in a step. -/
theorem Told.inner {s : Step} (h : Told tells s.children rs K) : Told tells [s] rs K := by
  refine h.mono fun t ht => ?_
  rw [Step.preorderAll_singleton, Step.preorder_eq]
  exact List.mem_cons_of_mem _ ht

theorem Told.head {s : Step} (h : Told tells [s] rs K) : Told tells (s :: ss) rs K :=
  h.mono Step.mem_preorderAll_head

theorem Told.tail {s : Step} (h : Told tells ss rs K) : Told tells (s :: ss) rs K :=
  h.mono fun _ => List.mem_append_right _

end

/-! ## Engines -/

namespace Engine

variable (e : Engine σ) {tells : Step → StepResult → List Deed → Prop}

theorem idle_tell (n : Notice) (m : Moment) : (e.tell n).Does (Idle fun _ => True) m := by
  rw [tell]
  split
  · exact idle_done trivial m
  · intro w _
    dsimp only
    split
    · exact ⟨rfl, fun _ _ => trivial⟩
    · exact fun v _ => ⟨[], _, .quiet rfl (Timestamp.notAfter_refl _), idle_done trivial _⟩

theorem idle_record (r : StepResult) (c : Context) (m : Moment) :
    (e.record r c).Does (Idle fun c' => c' = c.record r) m := by
  rw [record, Activity.bind_eq]
  exact (e.idle_tell _ m).idle_idle fun _ _ _ => idle_done (P := (· = c.record r)) rfl _

theorem idle_conclude (c : Context) (m : Moment) :
    (e.conclude c).Does (Idle fun c' => c' = c) m := by
  rw [conclude, Activity.bind_eq]
  exact (e.idle_tell _ m).idle_idle fun _ _ _ => idle_done (P := (· = c)) rfl _

theorem idle_finish (status : Status) (c : Context) (m : Moment) :
    (e.finish status c).Does (Idle fun c' => c'.results = c.results) m := by
  rw [finish, Activity.bind_eq]
  refine (idle_stamp m).idle_idle fun now m' _ => ?_
  exact (e.idle_conclude _ m').mono fun K r _ h => ⟨h.1, fun c' hc' => by rw [h.2 c' hc']; rfl⟩

theorem idle_close (r : StepResult) (status : Status) (error : Option String) (m : Moment) :
    (close r status error : Activity (World σ) StepResult).Does
      (Idle fun own => ∃ now, own = r.close status error now) m := by
  rw [close, Activity.bind_eq]
  exact (idle_stamp m).idle_idle fun now _ _ => idle_done ⟨now, rfl⟩ _

theorem idle_closeGroup (s : Step) (began : Timestamp) (m : Moment) : ∀ culprit : Option String,
    (closeGroup s began culprit : Activity (World σ) StepResult).Does
      (Idle fun own => ∃ status error now, own = (s.begun began).close status error now) m
  | some _ => (idle_close _ _ _ m).mono fun _ _ _ h => ⟨h.1, fun own hown => ⟨_, _, h.2 own hown⟩⟩
  | none => (idle_close _ _ _ m).mono fun _ _ _ h => ⟨h.1, fun own hown => ⟨_, _, h.2 own hown⟩⟩

theorem idle_gatherAll : ∀ (task : Nat) (bs : List (Step × BranchEnd)) (m : Moment),
    (gatherAll task bs : Activity (World σ) (List StepResult)).Does (Idle fun _ => True) m
  | _, [], m => idle_done trivial m
  | task, (s, b) :: bs, m => by
      simp only [gatherAll, Activity.bind_eq]
      have hgather : (gather task s b : Activity (World σ) (List StepResult)).Does
          (Idle fun _ => True) m := by
        cases b with
        | finished rs => exact idle_done trivial m
        | skipped => exact idle_done trivial m
        | crashed e =>
          simp only [gather, Activity.bind_eq]
          exact (idle_stamp m).idle_idle fun _ _ _ =>
            (idle_close _ _ _ _).idle_idle fun _ _ _ => idle_done trivial _
      exact hgather.idle_idle fun _ _ _ =>
        (idle_gatherAll _ _ _).idle_idle fun _ _ _ => idle_done trivial _

theorem idle_join (f : Fan σ) (m : Moment) : (e.join f).Does (Idle fun _ => True) m := by
  simp only [join, Activity.bind_eq]
  exact (idle_gatherAll _ _ _).idle_idle fun _ _ _ =>
    (e.idle_finish _ _ _).mono fun _ _ _ h => ⟨h.1, fun _ _ => trivial⟩

/-- What the steps of the engine do is told by their results. -/
structure Explained (tells : Step → StepResult → List Deed → Prop) : Prop where
  /-- A result that no executor has handed back tells of no deeds. -/
  closed : ∀ (s : Step) (began : Timestamp) (status : Status) (error : Option String)
    (ended : Timestamp), tells s ((s.begun began).close status error ended) []
  /-- What an executor hands back tells its deeds, and an executor that hands nothing back has done
  nothing. -/
  executed : ∀ s x, e.registry.resolve? s = some x → ∀ (c : Context) (began : Timestamp)
    (m : Moment), m.floor.Before began → began.notAfter m.now = true →
    (World.onScene (x.execute s c)).Does (fun K r _ =>
      (∀ o, r = .returned (.ok o) → ∀ now, tells s (o.result (s.begun began) now) K) ∧
        ((∀ o, r ≠ .returned (.ok o)) → K = [])) m

variable {e}

/-- What a step that is given to its executor does is told by its result. -/
theorem Explained.does_dispatch (h : e.Explained tells) (s : Step) (c : Context)
    {began : Timestamp} {m : Moment} (hfloor : m.floor.Before began)
    (hnow : began.notAfter m.now = true) :
    (e.dispatch s c (s.begun began)).Does
      (Leaves fun K own => own.stepId = s.id ∧ tells s own K) m := by
  have hclosed : ∀ error m, (close (s.begun began) .failed error :
      Activity (World σ) StepResult).Does
        (Leaves fun K own => own.stepId = s.id ∧ tells s own K) m := by
    intro error m
    refine (idle_close _ _ _ m).mono fun K r _ hidle own hown => ?_
    obtain ⟨now, rfl⟩ := hidle.2 own hown
    rw [hidle.1]
    exact ⟨rfl, h.closed s began _ _ now⟩
  rw [dispatch]
  split
  · exact hclosed _ _
  · next x hx =>
    rw [Activity.bind_eq]
    have hcaught : (World.onScene (x.execute s c)).caught.Does
        (Leaves fun K reply => (∀ o, reply = .ok (.ok o) → ∀ now,
          tells s (o.result (s.begun began) now) K) ∧ ((∀ o, reply ≠ .ok (.ok o)) → K = [])) m := by
      have hexecuted := h.executed s x hx c began m hfloor hnow
      refine hexecuted.caught (fun K a _ ha => ?_) fun K f _ hf => ?_
      · rintro _ ⟨⟩
        refine ⟨fun o ho => ha.1 o (by cases ho; rfl), fun hno => ha.2 fun o ho => ?_⟩
        cases ho
        exact hno o rfl
      · rintro _ ⟨⟩
        refine ⟨fun o ho => ?_, fun _ => hf.2 fun o ho => ?_⟩
        · cases ho
        · cases ho
    refine hcaught.leaves fun K reply m' hreply => ?_
    split
    · next o =>
      rw [Activity.bind_eq]
      refine (idle_stamp m').idle fun now _ _ own hown => ?_
      cases hown
      rw [List.append_nil]
      exact ⟨(Outcome.closes_result o _ now).stepId, hreply.1 o rfl now⟩
    · rw [hreply.2 (by simp)]
      exact hclosed _ _
    · rw [hreply.2 (by simp)]
      exact hclosed _ _

/-- What is left of a step once its conditions were looked at, if this is so of the steps in it. -/
theorem Explained.does_proceed (h : e.Explained tells) (s : Step) (c : Context) {began : Timestamp}
    (store : Store) {m : Moment} (hfloor : m.floor.Before began)
    (hnow : began.notAfter m.now = true)
    (hchildren : ∀ c m, (e.runChildren s.children c).Does (Leaves fun K p =>
      ∃ rs, p.2.results = c.results ++ rs ∧ Told tells s.children rs K) m) :
    (e.proceed s c began store).Does (Leaves fun K p =>
      ∃ inner, p.2.results = c.results ++ inner ∧ Told tells [s] (inner ++ [p.1]) K) m := by
  rw [proceed]
  split
  · rw [Activity.bind_eq]
    refine (idle_close _ _ _ _).idle fun own _ hown => ?_
    obtain ⟨now, rfl⟩ := hown
    rintro _ ⟨⟩
    exact ⟨[], (List.append_nil _).symm, .single rfl (h.closed _ _ _ _ now)⟩
  split
  · rw [Activity.bind_eq]
    refine (hchildren _ _).leaves fun K ⟨culprit, c'⟩ m' hp => ?_
    obtain ⟨inner, hresults, htold⟩ := hp
    dsimp only
    rw [Activity.bind_eq]
    refine (idle_closeGroup _ _ _ _).idle fun own _ hown => ?_
    obtain ⟨status, error, now, rfl⟩ := hown
    rintro _ ⟨⟩
    exact ⟨inner, hresults, Told.append htold.inner (.single rfl (h.closed _ _ _ _ now))⟩
  · rw [Activity.bind_eq]
    refine (h.does_dispatch s _ hfloor hnow).leaves fun K own _ hown => ?_
    rintro _ ⟨⟩
    rw [List.append_nil]
    exact ⟨[], (List.append_nil _).symm, .single hown.1 hown.2⟩

mutual

/-- What a step and the steps in it do is told by their results. -/
theorem Explained.does_runStep (h : e.Explained tells) : ∀ (s : Step) (c : Context) (m : Moment),
    (e.runStep s c).Does (Leaves fun K p => ∃ inner, p.2.results = c.results ++ inner ∧
      Told tells [s] (inner ++ [p.1]) K) m
  | .mk i n d k enabled goesOn cs ps ss, c, m => by
      rw [runStep_eq]
      refine (does_stamp m).bind (fun K began m' hbegan => ?_) fun K f m' hbegan => ?_
      · obtain ⟨rfl, _, hreturned, hfloor, rfl⟩ := hbegan
        cases hreturned
        exact fun v hv =>
          h.does_proceed _ c v.store hfloor hv.now (Explained.does_runChildren h ss)
      · obtain ⟨_, _, hreturned, _⟩ := hbegan
        cases hreturned
termination_by structural s => s

/-- What the steps of a group do is told by their results. -/
theorem Explained.does_runChildren (h : e.Explained tells) :
    ∀ (ss : List Step) (c : Context) (m : Moment),
    (e.runChildren ss c).Does (Leaves fun K p => ∃ rs, p.2.results = c.results ++ rs ∧
      Told tells ss rs K) m
  | [], c, m => by
      rintro _ ⟨⟩
      exact ⟨[], (List.append_nil _).symm, .nil⟩
  | s :: ss, c, m => by
      simp only [runChildren, Activity.bind_eq]
      refine (Explained.does_runStep h s c m).leaves fun K p _ hp => ?_
      obtain ⟨inner, hinner, htold⟩ := hp
      refine (e.idle_record _ _ _).idle fun c' _ hc' => ?_
      have hresults : c'.results = c.results ++ (inner ++ [p.1]) := by
        rw [hc', Context.record, hinner, List.append_assoc]
      split
      · rintro _ ⟨⟩
        rw [List.append_nil]
        exact ⟨_, hresults, htold.head⟩
      · refine (Explained.does_runChildren h ss c' _).mono fun L r _ hr q hq => ?_
        obtain ⟨rs, hrs, hmore⟩ := hr q hq
        exact ⟨_, by rw [hrs, hresults, List.append_assoc], htold.head.append hmore.tail⟩
termination_by structural ss => ss

end

/-! ## Runs -/

/-- A run begins with the variables that it publishes. -/
theorem store_begin {others : World σ → World σ → Prop}
    (hothers : ∀ w v, others w v → w.Apart v) {s : Sequence} {w w' : World σ}
    {ending : Ending (Except Context Context)} (h : (e.begin s).Course others w ending w') :
    w'.store = (s.publish e.machine).store := by
  simp only [begin, Activity.bind_eq] at h
  obtain ⟨now, v, -, h⟩ := h.of_bind_of_returns fun _ _ => not_course_stamp
  obtain ⟨u, -, h⟩ := Activity.Course.of_update h
  dsimp only [Activity.bind] at h
  split at h
  · obtain ⟨-, rfl⟩ := h.of_done
    rfl
  · obtain ⟨last, t, hstamp, hdone⟩ := h.of_bind_of_returns fun _ _ => not_course_stamp
    obtain ⟨-, rfl⟩ := hdone.of_done
    obtain ⟨x, hx, hw', -⟩ := hstamp.of_stamp
    rw [(hothers _ _ hw').2]
    exact (hothers _ _ hx).2

/-- What a branch does is told by the results that it leaves. -/
theorem Explained.does_branch (h : e.Explained tells) (s : Step) (c : Context) (m : Moment) :
    (e.branch s c).Does (Leaves fun K rs => Told tells [s] rs K) m := by
  simp only [branch, Activity.bind_eq]
  refine (h.does_runStep s c.branch m).leaves fun K p _ hp => ?_
  obtain ⟨inner, hinner, htold⟩ := hp
  refine (e.idle_record _ _ _).idle fun c' _ hc' => ?_
  rintro _ ⟨⟩
  rw [List.append_nil, hc', Context.record, hinner]
  exact htold

/-- What the steps at the top level do is told by their results. -/
theorem Explained.does_runSteps (h : e.Explained tells) :
    ∀ (ss : List Step) (c : Context) (m : Moment), (e.runSteps ss c).Does (Leaves fun K c' =>
      ∃ rs, c'.results = c.results ++ rs ∧ Told tells ss rs K) m
  | [], c, m => by
      rintro _ ⟨⟩
      exact ⟨[], (List.append_nil _).symm, .nil⟩
  | s :: ss, c, m => by
      simp only [runSteps, Activity.bind_eq]
      intro w _
      dsimp only [Activity.bind]
      split
      · rintro _ ⟨⟩
        exact ⟨[], (List.append_nil _).symm, .nil⟩
      refine (h.does_runStep s c _).leaves fun K p _ hp => ?_
      obtain ⟨inner, hinner, htold⟩ := hp
      refine (e.idle_record _ _ _).idle fun c' _ hc' => (e.idle_tell _ _).idle fun _ _ _ => ?_
      have hresults : c'.results = c.results ++ (inner ++ [p.1]) := by
        rw [hc', Context.record, hinner, List.append_assoc]
      split
      · rintro _ ⟨⟩
        rw [List.append_nil]
        exact ⟨_, hresults, htold.head⟩
      · refine (Explained.does_runSteps h ss c' _).mono fun L r _ hr c'' hc'' => ?_
        obtain ⟨rs, hrs, hmore⟩ := hr c'' hc''
        exact ⟨_, by rw [hrs, hresults, List.append_assoc], htold.head.append hmore.tail⟩

variable (e)

/-- What a sequential run does once it has begun. -/
def onceBegun (s : Sequence) : Except Context Context → Activity (World σ) Context
  | .error c => e.conclude c
  | .ok c => (e.runSteps s.steps c).bind (e.finish .completed)

theorem sequential_eq (s : Sequence) : e.sequential s = (e.begin s).bind (e.onceBegun s) := by
  rw [sequential, Activity.bind_eq]
  refine congrArg _ (funext fun started => ?_)
  cases started <;> rfl

variable {e}

/-- A sequential run begins, or is refused, and goes on from there. -/
theorem exists_begun {others : World σ → World σ → Prop} {s : Sequence} {w w' : World σ}
    {ending : Ending Context} (h : (e.sequential s).Course others w ending w') :
    ∃ started w₀, (e.begin s).Course others w (.returned started) w₀ ∧
      (e.onceBegun s started).Course others w₀ ending w' := by
  rw [sequential_eq] at h
  exact h.of_bind_of_returns fun m _ hpanic => ((e.notes_begin s).ending hpanic).elim

/-- What a sequential run does that has published its variables is told by its record. -/
theorem Explained.does_onceBegun (h : e.Explained tells) (s : Sequence) (c : Context) (m : Moment) :
    (e.onceBegun s (.ok c)).Does (Leaves fun K c' =>
      ∃ rs, c'.results = c.results ++ rs ∧ Told tells s.steps rs K) m := by
  refine (h.does_runSteps s.steps c m).leaves fun K c₁ m' hc₁ => ?_
  obtain ⟨rs, hresults, htold⟩ := hc₁
  refine (e.idle_finish _ c₁ m').mono fun L r _ hidle c' hc' => ?_
  rw [hidle.1]
  dsimp only
  rw [List.append_nil]
  exact ⟨rs, (hidle.2 c' hc').trans hresults, htold⟩

end Engine
end Runbook
