import Mathlib.Data.List.Nodup
import Mathlib.Logic.Function.Basic
import Runbook.Proofs.Run.SideBySide
import Runbook.Proofs.Run.Trail
import Runbook.Run.Queue

/-!
# Parallel runs from beginning to end

`Engine.Parallel` are the endings of a parallel run among others: its variables are published, its
branches take turns in any order until all are over, and what they leave is put together.  A
parallel run alone that comes to an end is one of these runs, if others may let time pass
(`Engine.Parallel.of_runParallel`).

In each state every branch has its share in a log, and the log consists of these shares
(`Engine.Reaches.exists_shares`).  Of the calls of executors its share is, or will be, the trail of
its step, unless the reporter panics (`Engine.Reaches.exists_traced`).  What the branches leave is
gathered in the record of the run (`Engine.Gathered`, `Engine.notes_join`).
-/

namespace Runbook

variable {σ τ : Type} {others : World σ → World σ → Prop}

namespace Engine

variable (e : Engine σ)

/-! ## Runs -/

/-- The endings of a parallel run of a sequence. -/
inductive Parallel (others : World σ → World σ → Prop) (bound : Nat) (s : Sequence) (w : World σ) :
    Ending Context → World σ → Prop where
  /-- All branches are over, and what they leave is put together. -/
  | joined {c₀ : Context} {w₀ w' : World σ} {x : Flight σ} {ending : Ending Context} :
      (e.begin s).Course others w (.returned (.ok c₀)) w₀ →
      e.Reaches others s.steps c₀ bound w₀ x → x.branches.isEmpty = true →
      (e.join ⟨s.steps, c₀, x.branches⟩).Course others x.world ending w' →
      Parallel others bound s w ending w'
  /-- The variables of the run are refused. -/
  | refused {c₀ : Context} {w₀ w' : World σ} {ending : Ending Context} :
      (e.begin s).Course others w (.returned (.error c₀)) w₀ →
      (e.conclude c₀).Course others w₀ ending w' → Parallel others bound s w ending w'

/-- The endings of a run of a sequence. -/
def Runs (others : World σ → World σ → Prop) (mode : Mode) (s : Sequence) (w : World σ)
    (ending : Ending Context) (w' : World σ) : Prop :=
  match mode with
  | .sequential => (e.sequential s).Course others w ending w'
  | .parallel bound => e.Parallel others bound s w ending w'

variable {e} {ss : List Step} {c : Context} {bound : Nat}

/-- A run comes to the same states from an earlier world, in which others have not moved yet. -/
theorem Reaches.of_others {w₀ v₀ : World σ} (hv₀ : others w₀ v₀) {x : Flight σ}
    (h : e.Reaches others ss c bound v₀ x) : e.Reaches others ss c bound w₀ x := by
  induction h with
  | start => exact .others .start hv₀
  | turn i _ ih => exact ih.turn i
  | others _ hv ih => exact ih.others hv

section

variable (ss) (log : World σ → List τ) (P : Step → List τ → Ending (List StepResult) → Prop)

/-- Where a branch stands that has its share in a log.  `P` says what the work of a step comes to
after which entries. -/
inductive Shares (i : Nat) (K : List τ) :
    Stage (Bool → Activity (World σ) (List StepResult)) BranchEnd → Prop where
  /-- It has not come yet. -/
  | fresh : K = [] → Shares i K .fresh
  /-- It waits for a place. -/
  | waiting : K = [] → Shares i K .waiting
  /-- It was granted a place. -/
  | granted : K = [] → Shares i K .granted
  /-- It was not started. -/
  | skipped : K = [] → Shares i K (.ended .skipped)
  /-- What is left of its work completes its share. -/
  | inside {next : Bool → Activity (World σ) (List StepResult)} {s : Step} : ss[i]? = some s →
      (∀ b, (next b).Adds log fun L => P s (K ++ L)) → Shares i K (.inside next)
  /-- It has come to its end. -/
  | finished {rs : List StepResult} {s : Step} : ss[i]? = some s → P s K (.returned rs) →
      Shares i K (.ended (.finished rs))
  /-- It has broken off. -/
  | crashed {m : Option String} {s : Step} : ss[i]? = some s → P s K (.panicked m) →
      Shares i K (.ended (.crashed m))

end

section

variable {log : World σ → List τ} {P : Step → List τ → Ending (List StepResult) → Prop} {i : Nat}
  {K : List τ}

theorem Shares.come (h : Shares ss log P i K .fresh) : Shares ss log P i K .waiting := by
  cases h with
  | fresh hK => exact .waiting hK

theorem Shares.grant (h : Shares ss log P i K .waiting) : Shares ss log P i K .granted := by
  cases h with
  | waiting hK => exact .granted hK

theorem Shares.skip (h : Shares ss log P i K .granted) : Shares ss log P i K (.ended .skipped) := by
  cases h with
  | granted hK => exact .skipped hK

/-- A branch with a place that goes on adds to its share, and leaves those of the others. -/
theorem exists_shares_carryOn {b : Branches σ} {s : Step} {shares : Nat → List τ}
    {work : Activity (World σ) (List StepResult)}
    (hothers : ∀ j stage, j ≠ i → b.stages[j]? = some stage →
      Shares ss log P j (shares j) stage)
    (hs : ss[i]? = some s) (hwork : work.Adds log fun L => P s (shares i ++ L)) (w : World σ) :
    ∃ K, log (carryOn b i work w).world = log w ++ K ∧
      (carryOn b i work w).branches.ForAll fun j stage =>
        Shares ss log P j (Function.update shares i (shares i ++ K) j) stage := by
  obtain ⟨K, hK, hleft⟩ := hwork.of_advance w
  refine ⟨K, by rw [world_carryOn, hK], ?_⟩
  have hself : Function.update shares i (shares i ++ K) i = shares i ++ K :=
    Function.update_self _ _ _
  have hothers : ∀ j stage, j ≠ i → b.stages[j]? = some stage →
      Shares ss log P j (Function.update shares i (shares i ++ K) j) stage := by
    intro j stage hj hstage
    rw [Function.update_of_ne hj]
    exact hothers j stage hj hstage
  rw [carryOn]
  generalize work.advance (·.cancelled) w = p at hleft
  obtain ⟨pause, v⟩ := p
  cases pause with
  | done rs =>
    refine Gate.forAll_leave hothers (.finished hs ?_) fun _ => .grant
    rw [hself]
    exact hleft
  | panicked m =>
    refine Gate.forAll_leave hothers (.crashed hs ?_) fun _ => .grant
    rw [hself]
    exact hleft
  | asleep d next =>
    refine Gate.forAll_put hothers (.inside hs fun c => ?_)
    rw [hself]
    exact (hleft c).mono fun L r hr => List.append_assoc (shares i) K L ▸ hr

/-- The turn of a branch adds to its share. -/
theorem Turned.exists_shares (hbranch : ∀ s ∈ ss, (e.branch s c).Adds log (P s)) {x y : Flight σ}
    (hturned : e.Turned ss c x i y) {shares : Nat → List τ}
    (h : x.branches.ForAll fun j stage => Shares ss log P j (shares j) stage) :
    ∃ K, log y.world = log x.world ++ K ∧ (K ≠ [] → i < ss.length) ∧
      y.branches.ForAll fun j stage =>
        Shares ss log P j (Function.update shares i (shares i ++ K) j) stage := by
  have hgate : (x.branches.call i x.world.cancelled .skipped).gate.ForAll
      fun j stage => Shares ss log P j (shares j) stage :=
    h.call (fun _ => .come) (fun _ => .grant) fun _ _ => .skip
  cases hturned with
  | @started s hadmission hs =>
    have hwork : (e.branch s c).Adds log fun L => P s (shares i ++ L) := by
      cases hgate i _ (Gate.call_admitted hadmission).2 with
      | granted hnone =>
        rw [hnone]
        exact hbranch s (List.mem_of_getElem? hs)
    obtain ⟨K, hK, hafter⟩ :=
      exists_shares_carryOn (fun j stage _ => hgate j stage) hs hwork x.world
    exact ⟨K, hK, fun _ => (List.getElem?_eq_some_iff.mp hs).1, hafter⟩
  | resumed hinside =>
    cases h i _ hinside with
    | inside hs hrest =>
      obtain ⟨K, hK, hafter⟩ :=
        exists_shares_carryOn (fun j stage _ => h j stage) hs (hrest _) x.world
      exact ⟨K, hK, fun _ => (List.getElem?_eq_some_iff.mp hs).1, hafter⟩
  | stayed =>
    refine ⟨[], (List.append_nil _).symm, fun hne => absurd rfl hne, ?_⟩
    rwa [List.append_nil, Function.update_eq_self]

end

/-- What is added to the share of one branch is added to those of all. -/
theorem flatMap_update_perm {shares : Nat → List τ} {i : Nat} {K : List τ} :
    ∀ {l : List Nat}, l.Nodup → (K ≠ [] → i ∈ l) →
      (l.flatMap (Function.update shares i (shares i ++ K))).Perm (l.flatMap shares ++ K)
  | [], _, hi => by
      have hnone : K = [] := by
        by_contra hne
        exact List.not_mem_nil (hi hne)
      rw [hnone]
      rfl
  | j :: l, hnodup, hi => by
      obtain ⟨hj, hnodup⟩ := List.nodup_cons.mp hnodup
      rw [List.flatMap_cons, List.flatMap_cons]
      by_cases hij : j = i
      · subst hij
        have hsame : l.flatMap (Function.update shares j (shares j ++ K)) = l.flatMap shares :=
          List.flatMap_congr fun k hk => Function.update_of_ne (ne_of_mem_of_not_mem hk hj) _ _
        rw [hsame, Function.update_self, List.append_assoc, List.append_assoc]
        exact List.perm_append_comm.append_left _
      · rw [Function.update_of_ne hij, List.append_assoc]
        have hmem : K ≠ [] → i ∈ l := fun hne => List.mem_of_ne_of_mem (Ne.symm hij) (hi hne)
        exact (flatMap_update_perm hnodup hmem).append_left _

/-- In every state that a parallel run comes to, every branch has its share in the log, and the log
consists of these shares. -/
theorem Reaches.exists_shares {log : World σ → List τ}
    {P : Step → List τ → Ending (List StepResult) → Prop}
    (hbranch : ∀ s ∈ ss, (e.branch s c).Adds log (P s))
    (hothers : ∀ w v, others w v → w.Onward v ∧ log v = log w) {w₀ : World σ} {x : Flight σ}
    (h : e.Reaches others ss c bound w₀ x) :
    ∃ (shares : Nat → List τ) (L : List τ), log x.world = log w₀ ++ L ∧
      ((List.range ss.length).flatMap shares).Perm L ∧
      x.branches.ForAll fun i stage => Shares ss log P i (shares i) stage := by
  induction h with
  | start =>
    refine ⟨fun _ => [], [], (List.append_nil _).symm, ?_, Gate.forAll_ofBound fun _ => .fresh rfl⟩
    rw [List.flatMap_eq_nil_iff.mpr fun _ _ => rfl]
  | turn i hx ih =>
    obtain ⟨shares, L, hL, hperm, hshares⟩ := ih
    have hlength := (hx.reached fun w v hv => (hothers w v hv).1).stands.1
    obtain ⟨K, hK, hi, hafter⟩ := (turned_afterTurn hlength i).exists_shares hbranch hshares
    refine ⟨_, L ++ K, by rw [hK, hL, List.append_assoc], ?_, hafter⟩
    exact (flatMap_update_perm List.nodup_range fun hne => List.mem_range.mpr (hi hne)).trans
      (hperm.append_right K)
  | others _ hv ih =>
    obtain ⟨shares, L, hL, hperm, hshares⟩ := ih
    exact ⟨shares, L, (hothers _ _ hv).2.trans hL, hperm, hshares⟩

/-! ## The trails of branches -/

variable (e ss) {log : σ → List Step}

/-- Where a branch stands whose executors were called for some steps. -/
inductive Traced (log : σ → List Step) (i : Nat) (calls : List Step) :
    Stage (Bool → Activity (World σ) (List StepResult)) BranchEnd → Prop where
  /-- It has not come yet. -/
  | fresh : calls = [] → Traced log i calls .fresh
  /-- It waits for a place. -/
  | waiting : calls = [] → Traced log i calls .waiting
  /-- It was granted a place. -/
  | granted : calls = [] → Traced log i calls .granted
  /-- It was not started. -/
  | skipped : calls = [] → Traced log i calls (.ended .skipped)
  /-- What is left of its work completes the trail of its step. -/
  | inside {next : Bool → Activity (World σ) (List StepResult)} {s : Step} : ss[i]? = some s →
      (∀ b, (next b).Notes log fun more => e.Comes [s] (fun calls rs => Trail [s] rs calls)
        (calls ++ more)) →
      Traced log i calls (.inside next)
  /-- It has left the trail of its step. -/
  | finished {rs : List StepResult} {s : Step} : ss[i]? = some s → Trail [s] rs calls →
      Traced log i calls (.ended (.finished rs))
  /-- It has broken off because the reporter panicked. -/
  | crashed {m : Option String} {s : Step} : ss[i]? = some s →
      (∀ t ∈ calls, t ∈ Step.preorderAll [s]) → (∃ n, e.PanicsOn n m) →
      Traced log i calls (.ended (.crashed m))

variable {e ss}

/-- The share of a branch in the calls is its trail. -/
theorem Shares.traced {i : Nat} {calls : List Step}
    {stage : Stage (Bool → Activity (World σ) (List StepResult)) BranchEnd}
    (h : Shares ss (fun w => log w.surroundings)
      (fun s calls => e.Comes [s] (fun calls rs => Trail [s] rs calls) calls) i calls stage) :
    e.Traced ss log i calls stage := by
  cases h with
  | fresh hcalls => exact .fresh hcalls
  | waiting hcalls => exact .waiting hcalls
  | granted hcalls => exact .granted hcalls
  | skipped hcalls => exact .skipped hcalls
  | inside hs hrest => exact .inside hs fun b => Activity.notes_iff.mpr (hrest b)
  | finished hs htrail => exact .finished hs htrail
  | crashed hs hcomes => exact .crashed hs hcomes.1 hcomes.2

/-- In every state that a parallel run comes to, every branch has a trail, and each call that was
made belongs to a branch. -/
theorem Reaches.exists_traced (hlogs : e.Logs log)
    (hothers : ∀ w v, others w v → w.Onward v ∧ log v.surroundings = log w.surroundings)
    {w₀ : World σ} {x : Flight σ} (h : e.Reaches others ss c bound w₀ x) :
    ∃ (calls : Nat → List Step) (made : List Step),
      log x.world.surroundings = log w₀.surroundings ++ made ∧
      (∀ t ∈ made, ∃ i, i < ss.length ∧ t ∈ calls i) ∧
      x.branches.ForAll fun i stage => e.Traced ss log i (calls i) stage := by
  obtain ⟨calls, made, hmade, hperm, hshares⟩ :=
    h.exists_shares (fun s _ => Activity.notes_iff.mp (hlogs.notes_branch s c)) hothers
  refine ⟨calls, made, hmade, fun t ht => ?_, fun i stage hstage => (hshares i stage hstage).traced⟩
  obtain ⟨i, hi, hti⟩ := List.mem_flatMap.mp (hperm.mem_iff.mpr ht)
  exact ⟨i, List.mem_range.mp hi, hti⟩

/-! ## The record -/

/-- The results that branches leave, the first of them being task `task`. -/
inductive Gathered : (task : Nat) → List (Step × BranchEnd) → List StepResult → Prop where
  /-- There are no branches. -/
  | nil {task : Nat} : Gathered task [] []
  /-- A branch that came to its end leaves its results. -/
  | finished {task : Nat} {s : Step} {bs : List (Step × BranchEnd)} {rs more : List StepResult} :
      Gathered (task + 1) bs more → Gathered task ((s, .finished rs) :: bs) (rs ++ more)
  /-- A branch that was not started leaves nothing. -/
  | skipped {task : Nat} {s : Step} {bs : List (Step × BranchEnd)} {more : List StepResult} :
      Gathered (task + 1) bs more → Gathered task ((s, .skipped) :: bs) more
  /-- A branch that broke off leaves one failed result of its step. -/
  | crashed {task : Nat} {s : Step} {m : Option String} {bs : List (Step × BranchEnd)}
      {more : List StepResult} {began ended : Timestamp} :
      Gathered (task + 1) bs more →
      Gathered task ((s, .crashed m) :: bs)
        ((s.begun began).close .failed (some (brokenOff task m)) ended :: more)

theorem notes_gatherAll : ∀ (task : Nat) (bs : List (Step × BranchEnd)),
    (gatherAll task bs : Activity (World σ) (List StepResult)).Notes log
      (Quietly (Gathered task bs))
  | _, [] => ⟨rfl, .nil⟩
  | task, (s, b) :: bs => by
      simp only [gatherAll, Activity.bind_eq]
      cases b with
      | finished rs =>
        exact (notes_gatherAll (task + 1) bs).quietly fun more hmore => ⟨rfl, .finished hmore⟩
      | skipped =>
        exact (notes_gatherAll (task + 1) bs).quietly fun more hmore => ⟨rfl, .skipped hmore⟩
      | crashed m =>
        refine Activity.Notes.quietly (P := fun rs => ∃ began ended, rs =
          [(s.begun began).close .failed (some (brokenOff task m)) ended]) ?_ fun rs hrs => ?_
        · simp only [gather, close, Activity.bind_eq]
          refine Activity.notes_stamp.quietly fun began _ => ?_
          refine Activity.Notes.quietly (P := fun r => ∃ ended,
            r = (s.begun began).close .failed (some (brokenOff task m)) ended) ?_ fun r hr => ?_
          · exact Activity.notes_stamp.quietly fun ended _ => ⟨rfl, ended, rfl⟩
          · obtain ⟨ended, rfl⟩ := hr
            exact ⟨rfl, began, ended, rfl⟩
        · obtain ⟨began, ended, rfl⟩ := hrs
          exact (notes_gatherAll (task + 1) bs).quietly fun more hmore => ⟨rfl, .crashed hmore⟩

theorem notes_join (f : Fan σ) :
    (e.join f).Notes log (e.Reports fun c' => ∃ rs,
      Gathered 1 (f.steps.zip f.branches.outcomes) rs ∧
        c'.results = f.context.results ++ sortedByStart rs) := by
  simp only [join, Activity.bind_eq]
  refine (notes_gatherAll _ _).quietly fun rs hrs => (e.notes_finish _ _).mono fun K r hr => ?_
  cases r with
  | returned c' => exact ⟨hr.1, rs, hrs, hr.2⟩
  | panicked m => exact hr
  | stuck => exact hr

end Engine
end Runbook
