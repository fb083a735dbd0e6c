import Runbook.Proofs.Run.Muted

/-!
# What a reporter is told

A calm reporter is told exactly what is recorded.  A run step by step tells the results of each
step at the top level in the order in which they are recorded, and then how far it has come: this
is `Context.TellsInTurn`.  Branches tell their results in whatever order they come to them, and only
when they are put together the run tells how it has ended: `Context.TellsAtOnce`.

`Engine.overheard` puts this together with what a muted engine comes to: the reporter hears of the
record, and the record knows nothing of the reporter.
-/

namespace Runbook

variable {σ α : Type} {others : World σ → World σ → Prop}

/-! ## Reports -/

/-- The result that is reported. -/
def Notice.result? : Notice → Option StepResult
  | step r => some r
  | progress _ => none

/-- What is told of a step at the top level with the account: its results, and how far the run has
come with it. -/
def Account.notices (a : Account) (c : Context) : List Notice :=
  a.block.map .step ++ [.progress c]

/-- After the results `rs`, each report of the progress carries the results reported before it. -/
def Counted (rs : List StepResult) (N : List Notice) : Prop :=
  ∀ before c after, N = before ++ .progress c :: after →
    c.results = rs ++ before.filterMap Notice.result?

namespace Counted

variable {rs : List StepResult} {N : List Notice}

theorem nil (rs : List StepResult) : Counted rs [] := by
  intro before c after h
  cases before <;> cases h

theorem step {r : StepResult} (h : Counted (rs ++ [r]) N) : Counted rs (.step r :: N) := by
  intro before c after hN
  cases before with
  | nil => cases hN
  | cons n before =>
    obtain ⟨rfl, hrest⟩ := List.cons.inj hN
    rw [h before c after hrest, List.append_assoc]
    rfl

theorem steps : ∀ {xs rs : List StepResult}, Counted (rs ++ xs) N →
    Counted rs (xs.map .step ++ N)
  | [], rs, h => by rwa [List.append_nil] at h
  | x :: xs, rs, h => step (steps (by rwa [List.append_assoc]))

theorem progress {c : Context} (hc : c.results = rs) (h : Counted rs N) :
    Counted rs (.progress c :: N) := by
  intro before d after hN
  cases before with
  | nil =>
    obtain ⟨hd, -⟩ := List.cons.inj hN
    cases hd
    exact hc.trans (List.append_nil rs).symm
  | cons n before =>
    obtain ⟨rfl, hrest⟩ := List.cons.inj hN
    exact h before d after hrest

end Counted

namespace Context

/-- What a run step by step tells that comes to the context. -/
structure TellsInTurn (c : Context) (s : Sequence) (N : List Notice) : Prop where
  /-- Of each step at the top level that was run it tells the results, and then how far it has come,
  which is still running.  The context is told last. -/
  told : ∃ told : List (Account × Context),
    Account.FollowAll (told.map Prod.fst) s.steps ∧
    c.results = Account.blocks (told.map Prod.fst) ∧ (∀ p ∈ told, p.2.status = .running) ∧
    N = told.flatMap (fun p => p.1.notices p.2) ++ [.progress c]
  /-- The results that are told are those of the record, in its order. -/
  results : N.filterMap Notice.result? = c.results
  /-- Each report of the progress carries the results that were told before it. -/
  counted : Counted [] N

/-- What a parallel run tells that comes to the context: the results of the record in some order,
and the context last. -/
def TellsAtOnce (c : Context) (N : List Notice) : Prop :=
  ∃ L, L.Perm (c.results.map .step) ∧ N = L ++ [.progress c]

/-- What a run tells that comes to the context. -/
def Tells (c : Context) (s : Sequence) (N : List Notice) : Mode → Prop
  | .sequential => c.TellsInTurn s N
  | .parallel _ => c.TellsAtOnce N

/-! ## Contexts that gain results -/

/-- The context has gained the results of accounts, each of which was told. -/
structure Gains (c : Context) (as : List Account) (K : List Notice) (c' : Context) : Prop where
  /-- The results. -/
  results : c'.results = c.results ++ Account.blocks as
  /-- The status is as it was. -/
  status : c'.status = c.status
  /-- What was told. -/
  notices : K = (Account.blocks as).map .step

theorem Gains.nil (c : Context) : c.Gains [] [] c := ⟨(List.append_nil _).symm, rfl, rfl⟩

/-- When a step is entered nothing is gained. -/
theorem Gains.of_enter {c c' : Context} {s : Step} {as : List Account} {K : List Notice}
    (h : (c.enter s).Gains as K c') : c.Gains as K c' :=
  ⟨h.results, h.status, h.notices⟩

/-- The result of a step follows those of the steps in it. -/
theorem Gains.record {c c' : Context} {as : List Account} {K : List Notice} (h : c.Gains as K c')
    (own : StepResult) : c.Gains [⟨own, as⟩] (K ++ [.step own]) (c'.record own) where
  results := by
    rw [Context.record, h.results, Account.blocks, Account.blocks, Account.block, List.append_nil,
      List.append_assoc]
  status := h.status
  notices := by
    rw [h.notices, Account.blocks, Account.blocks, Account.block, List.append_nil, List.map_append]
    rfl

theorem Gains.append {c c₁ c' : Context} {as bs : List Account} {K L : List Notice}
    (h : c.Gains as K c₁) (h' : c₁.Gains bs L c') : c.Gains (as ++ bs) (K ++ L) c' where
  results := by rw [h'.results, h.results, Account.blocks_append, List.append_assoc]
  status := h'.status.trans h.status
  notices := by rw [h'.notices, h.notices, Account.blocks_append, List.map_append]

/-- Steps at the top level were run and told, and how far the run has come after each. -/
structure Narrates (c : Context) (told : List (Account × Context)) (K : List Notice)
    (c' : Context) : Prop where
  /-- The results. -/
  results : c'.results = c.results ++ Account.blocks (told.map Prod.fst)
  /-- Meanwhile the status is as it was. -/
  status : ∀ p ∈ told, p.2.status = c.status
  /-- What was told. -/
  notices : K = told.flatMap fun p => p.1.notices p.2
  /-- Each report of the progress carries the results that were told before it. -/
  counted : ∀ N, Counted c'.results N → Counted c.results (K ++ N)

/-- There are no further steps. -/
theorem Narrates.nil (c : Context) {c' : Context} (h : c'.results = c.results) :
    c.Narrates [] [] c' where
  results := h.trans (List.append_nil _).symm
  status := by simp
  notices := rfl
  counted N hN := h ▸ hN

theorem Narrates.cons {c c₁ c' : Context} {a : Account} {K L : List Notice}
    {told : List (Account × Context)} (h : c.Gains [a] K c₁) (h' : c₁.Narrates told L c') :
    c.Narrates ((a, c₁) :: told) (K ++ ([.progress c₁] ++ L)) c' where
  results := by
    rw [h'.results, h.results, List.map_cons, Account.blocks, Account.blocks, Account.blocks,
      List.append_nil, List.append_assoc]
  status := List.forall_mem_cons.mpr ⟨h.status, fun p hp => (h'.status p hp).trans h.status⟩
  notices := by
    rw [h'.notices, h.notices, List.flatMap_cons, Account.notices, Account.blocks, Account.blocks,
      List.append_nil, List.append_assoc]
  counted N hN := by
    rw [h.notices, List.append_assoc, List.append_assoc]
    refine Counted.steps ?_
    rw [← h.results]
    exact .progress rfl (h'.counted N hN)

end Context

/-! ## The work of engines -/

theorem World.detached_notices : World.Detached (World.notices (σ := σ)) := fun _ _ _ => rfl

/-- Executors make no reports. -/
theorem Activity.adds_onScene : ∀ x : Activity (Scene σ) α,
    (World.onScene x).Adds World.notices fun K _ => K = []
  | .done _ => rfl
  | .panic _ => rfl
  | .look next => fun w => adds_onScene (next w.toScene)
  | .update _ next => ⟨[], fun _ => (List.append_nil _).symm, adds_onScene next⟩
  | .await _ next => fun c => adds_onScene (next c)

namespace Engine

variable {e : Engine σ}

/-- The engine has a reporter that does not panic. -/
structure Heard (e : Engine σ) : Prop where
  /-- It does not panic. -/
  calm : e.Calm
  /-- It is there. -/
  present : e.reporter.isSome = true

namespace Heard

theorem adds_tell (h : e.Heard) (n : Notice) :
    (e.tell n).Adds World.notices (Returns fun K _ => K = [n]) := by
  obtain ⟨reporter, hreporter⟩ := Option.isSome_iff_exists.mp h.present
  rw [tell, hreporter]
  intro w
  dsimp only
  split
  · next m hpanic => exact absurd hpanic (h.calm reporter hreporter _ _ m)
  · exact ⟨[n], fun _ => rfl, rfl⟩

/-- A step that is run and recorded is told, and then what comes next. -/
theorem adds_visited (h : e.Heard) {s : Step} {c : Context}
    {f : StepResult × Context → Context → Activity (World σ) α}
    {Q : List Notice → Ending α → Prop}
    (hstep : (e.runStep s c).Adds World.notices (Returns fun K p =>
      ∃ as, (Account.mk p.1 as).Follows s ∧ c.Gains as K p.2))
    (hf : ∀ a p c' K, a.Follows s → a.own = p.1 → c.Gains [a] K c' →
      (f p c').Adds World.notices fun L => Q (K ++ L)) :
    ((e.runStep s c).bind fun p => (e.record p.1 p.2).bind (f p)).Adds World.notices Q := by
  refine hstep.returns fun K p hp => ?_
  obtain ⟨as, hfollows, hgains⟩ := hp
  have hrecord : (e.record p.1 p.2).Adds World.notices
      (Returns fun K c' => K = [.step p.1] ∧ c' = p.2.record p.1) := by
    rw [record, Activity.bind_eq]
    refine (h.adds_tell _).returns fun K _ hK => ?_
    exact ⟨by rw [hK]; rfl, rfl⟩
  refine hrecord.returns fun L c' hL => ?_
  obtain ⟨rfl, rfl⟩ := hL
  refine (hf _ p _ _ hfollows rfl (hgains.record p.1)).mono fun M r hr => ?_
  rwa [List.append_assoc] at hr

mutual

/-- A step tells the results of the steps in it. -/
theorem adds_runStep (h : e.Heard) : ∀ (s : Step) (c : Context),
    (e.runStep s c).Adds World.notices (Returns fun K p =>
      ∃ as, (Account.mk p.1 as).Follows s ∧ c.Gains as K p.2)
  | .mk i n d k enabled goesOn cs ps ss, c => by
      rw [runStep_eq]
      refine (Activity.adds_stamp World.detached_notices).quietly fun began _ => fun v => ?_
      dsimp only
      rw [proceed]
      split
      · refine (adds_close World.detached_notices _ rfl none).quietly fun own hown => ?_
        exact ⟨[], ⟨Prod.ext hown.stepId hown.stepName, trivial⟩, .of_enter (.nil _)⟩
      split
      · refine (adds_runChildren h ss _).returns fun K p hp => ?_
        obtain ⟨as, hfollows, hgains⟩ := hp
        refine (adds_closeGroup World.detached_notices _ began p.1).quietly fun own hown => ?_
        refine ⟨as, ⟨Prod.ext hown.stepId hown.stepName, hfollows⟩, ?_⟩
        rw [List.append_nil]
        exact hgains.of_enter
      · refine (adds_dispatch (Q := fun K => K = []) World.detached_notices rfl
          (fun x _ => Activity.adds_onScene _) _).returns fun K own hK => ?_
        obtain ⟨hown, rfl⟩ := hK
        exact ⟨[], ⟨Prod.ext hown.stepId hown.stepName, trivial⟩, .of_enter (.nil _)⟩
termination_by structural s => s

/-- The children of a group tell their results. -/
theorem adds_runChildren (h : e.Heard) : ∀ (ss : List Step) (c : Context),
    (e.runChildren ss c).Adds World.notices (Returns fun K p =>
      ∃ as, Account.FollowAll as ss ∧ c.Gains as K p.2)
  | [], c => ⟨[], trivial, .nil c⟩
  | s :: ss, c => by
      simp only [runChildren]
      refine h.adds_visited (adds_runStep h s c) fun a p c' K hfollows _ hgains => ?_
      split
      · exact ⟨[a], ⟨hfollows, trivial⟩, (List.append_nil K).symm ▸ hgains⟩
      · refine (adds_runChildren h ss c').weaken fun L q hq => ?_
        obtain ⟨as, hfollowAll, hmore⟩ := hq
        exact ⟨a :: as, ⟨hfollows, hfollowAll⟩, hgains.append hmore⟩
termination_by structural ss => ss

end

/-- A run begins with an empty record, and nothing is told of that. -/
theorem course_begin {s : Sequence} {w w₀ : World σ} {started : Except Context Context}
    (hothers : ∀ w v, others w v → v.notices = w.notices)
    (hbegin : (e.begin s).Course others w (.returned started) w₀) :
    w₀.notices = w.notices ∧ (∀ c, started = .ok c → c.results = [] ∧ c.status = .running) ∧
      ∀ c, started = .error c → c.results = [] := by
  obtain ⟨K, hK, rfl, -⟩ :=
    (e.adds_begin World.detached_notices s).of_course hothers hbegin
  refine ⟨hK.trans (List.append_nil _), ?_⟩
  by_cases hpublish : (s.publish e.machine).refused = none
  · obtain ⟨now, hreturned⟩ := Engine.course_begin hpublish hbegin
    cases hreturned
    exact ⟨by rintro _ ⟨⟩; exact ⟨rfl, rfl⟩, by rintro _ ⟨⟩⟩
  · obtain ⟨c, hreturned, hresults, -⟩ := course_begin_refused hpublish hbegin
    cases hreturned
    exact ⟨by rintro _ ⟨⟩, by rintro _ ⟨⟩; exact hresults⟩

variable {s : Sequence} {w w' : World σ} {ending : Ending Context}

end Heard

/-! ## Reporters and runs -/

end Engine
end Runbook
