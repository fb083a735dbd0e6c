import Runbook.Proofs.Run.Trail

/-!
# Executors that do not wait

An activity is *wakeful* if it never waits, whatever it finds.  It comes to its end, or it panics,
as soon as it is carried on (`Activity.Wakeful.complete`).  A run of an engine is wakeful if the
executors of its steps are, and then so are its branches (`Engine.Wakeful.branch`).

So a branch of such a run is over after its first turn (`Engine.Taken`).  Branches that have their
first turns in the order of their steps are *in line*: some are over, and the others have not come
yet (`Engine.Taken.turn`).
-/

namespace Runbook

variable {σ α β : Type}

/-! ## Activities -/

namespace Activity

/-- In no world the activity waits. -/
def Wakeful (x : Activity (World σ) α) : Prop :=
  ∀ w d next, (x.advance (·.cancelled) w).1 ≠ .asleep d next

theorem wakeful_done (a : α) : (done a : Activity (World σ) α).Wakeful := fun _ _ _ => nofun

theorem wakeful_panic (m : Option String) : (panic m : Activity (World σ) α).Wakeful :=
  fun _ _ _ => nofun

theorem wakeful_look {next : World σ → Activity (World σ) α} (h : ∀ w, (next w).Wakeful) :
    (look next).Wakeful :=
  fun w => h w w

theorem wakeful_update (change : World σ → World σ) {next : Activity (World σ) α}
    (h : next.Wakeful) : (update change next).Wakeful :=
  fun w => h (change w)

theorem wakeful_stamp : (World.stamp : Activity (World σ) Timestamp).Wakeful :=
  wakeful_update _ (wakeful_look fun _ => wakeful_done _)

theorem Wakeful.bind {x : Activity (World σ) α} {f : α → Activity (World σ) β} (h : x.Wakeful)
    (hf : ∀ a, (f a).Wakeful) : (x.bind f).Wakeful := by
  intro w d next
  rw [advance_bind]
  have hx := h w
  generalize x.advance (·.cancelled) w = p at hx
  obtain ⟨pause, v⟩ := p
  cases pause with
  | done a => exact hf a v d next
  | panicked m => exact nofun
  | asleep d' next' => exact absurd rfl (hx d' next')

/-- A caught activity waits only where the activity does. -/
theorem exists_asleep_of_caught {x : Activity (World σ) α} {w : World σ} {d : Delay}
    {next : Bool → Activity (World σ) (Except (Option String) α)}
    (h : (x.caught.advance (·.cancelled) w).1 = .asleep d next) :
    ∃ next', (x.advance (·.cancelled) w).1 = .asleep d next' := by
  induction x generalizing w with
  | done a => cases h
  | panic m => cases h
  | look next ih => exact ih w h
  | update change next ih => exact ih h
  | await d' next' ih =>
    rw [caught, advance] at h
    rw [advance]
    split at h
    · next hcancelled =>
      rw [if_pos hcancelled]
      exact ih true h
    · next hcancelled =>
      rw [if_neg hcancelled]
      cases h
      exact ⟨next', rfl⟩

theorem Wakeful.caught {x : Activity (World σ) α} (h : x.Wakeful) : x.caught.Wakeful := by
  intro w d next hasleep
  obtain ⟨next', hnext⟩ := exists_asleep_of_caught hasleep
  exact h w d next' hnext

/-- Whether a wakeful activity is carried on to its next wait or to its end makes no difference. -/
theorem Wakeful.complete {x : Activity (World σ) α} (h : x.Wakeful) (w : World σ) :
    (∃ a v, x.advance (·.cancelled) w = (.done a, v) ∧
      x.complete (·.cancelled) World.pass w = (.returned a, v)) ∨
    ∃ m v, x.advance (·.cancelled) w = (.panicked m, v) ∧
      x.complete (·.cancelled) World.pass w = (.panicked m, v) := by
  have hpause := h w
  clear h
  induction x generalizing w with
  | done a => exact .inl ⟨a, w, rfl, rfl⟩
  | panic m => exact .inr ⟨m, w, rfl, rfl⟩
  | look next ih => exact ih w w hpause
  | update change next ih => exact ih (change w) hpause
  | await d next ih =>
    rw [advance] at hpause ⊢
    rw [Activity.complete]
    split at hpause
    · next hover =>
      rw [if_pos hover, if_pos hover]
      exact ih true w hpause
    · exact absurd rfl (hpause d next)

end Activity

/-! ## Engines -/

namespace Engine

open Activity

variable (e : Engine σ)

/-- The executors of the steps, and of the steps in these, do not wait. -/
def Wakeful (ss : List Step) : Prop :=
  ∀ t ∈ Step.preorderAll ss, ∀ x, e.registry.resolve? t = some x →
    ∀ c, (World.onScene (x.execute t c)).Wakeful

theorem wakeful_tell (n : Notice) : (e.tell n).Wakeful := by
  rw [tell]
  split
  · exact wakeful_done ()
  · refine wakeful_look fun w => ?_
    split
    · exact wakeful_panic _
    · exact wakeful_update _ (wakeful_done ())

theorem wakeful_record (r : StepResult) (c : Context) : (e.record r c).Wakeful :=
  (e.wakeful_tell _).bind fun _ => wakeful_done _

theorem wakeful_close (r : StepResult) (status : Status) (error : Option String) :
    (close r status error : Activity (World σ) StepResult).Wakeful :=
  wakeful_stamp.bind fun _ => wakeful_done _

theorem wakeful_closeGroup (s : Step) (began : Timestamp) :
    ∀ culprit : Option String, (closeGroup s began culprit : Activity (World σ) StepResult).Wakeful
  | some _ => wakeful_close _ _ _
  | none => wakeful_close _ _ _

theorem wakeful_begin (s : Sequence) : (e.begin s).Wakeful := by
  refine wakeful_stamp.bind fun now => wakeful_update _ ?_
  dsimp only [Activity.bind]
  split
  · exact wakeful_done _
  · exact wakeful_stamp.bind fun _ => wakeful_done _

theorem wakeful_conclude (c : Context) : (e.conclude c).Wakeful :=
  (e.wakeful_tell _).bind fun _ => wakeful_done _

theorem wakeful_finish (status : Status) (c : Context) : (e.finish status c).Wakeful :=
  wakeful_stamp.bind fun _ => e.wakeful_conclude _

theorem wakeful_gatherAll : ∀ (task : Nat) (bs : List (Step × BranchEnd)),
    (gatherAll task bs : Activity (World σ) (List StepResult)).Wakeful
  | _, [] => wakeful_done _
  | task, (s, b) :: bs => by
      have hgather : (gather task s b : Activity (World σ) (List StepResult)).Wakeful := by
        cases b with
        | finished rs => exact wakeful_done rs
        | skipped => exact wakeful_done []
        | crashed m =>
          exact wakeful_stamp.bind fun _ => (wakeful_close _ _ _).bind fun _ => wakeful_done _
      exact hgather.bind fun _ => (wakeful_gatherAll _ _).bind fun _ => wakeful_done _

/-- What branches leave is put together without a wait. -/
theorem wakeful_join (f : Fan σ) : (e.join f).Wakeful :=
  (wakeful_gatherAll _ _).bind fun _ => e.wakeful_finish _ _

variable {e}

namespace Wakeful

theorem head {s : Step} {ss : List Step} (h : e.Wakeful (s :: ss)) : e.Wakeful [s] :=
  fun t ht => h t (Step.mem_preorderAll_head t ht)

theorem tail {s : Step} {ss : List Step} (h : e.Wakeful (s :: ss)) : e.Wakeful ss :=
  fun t ht => h t (List.mem_append_right _ ht)

theorem of_mem {s : Step} : ∀ {ss : List Step}, e.Wakeful ss → s ∈ ss → e.Wakeful [s]
  | _ :: _, h, hs => by
      obtain rfl | hs := List.mem_cons.mp hs
      · exact h.head
      · exact of_mem h.tail hs

theorem dispatch {s : Step} (h : e.Wakeful [s]) (c : Context) (r : StepResult) :
    (e.dispatch s c r).Wakeful := by
  rw [Engine.dispatch]
  split
  · exact wakeful_close _ _ _
  · next x hx =>
    have hs : s ∈ Step.preorderAll [s] := by
      rw [Step.preorderAll_singleton, Step.preorder_eq]
      exact List.mem_cons_self
    refine (h s hs x hx c).caught.bind fun reply => ?_
    split
    · exact wakeful_stamp.bind fun _ => wakeful_done _
    · exact wakeful_close _ _ _
    · exact wakeful_close _ _ _

mutual

theorem runStep : ∀ {s : Step}, e.Wakeful [s] → ∀ c : Context, (e.runStep s c).Wakeful
  | .mk i n d k enabled goesOn cs ps ss, h, c => by
      rw [runStep_eq]
      refine wakeful_stamp.bind fun began => wakeful_look fun v => ?_
      rw [proceed]
      split
      · exact (wakeful_close _ _ _).bind fun _ => wakeful_done _
      split
      · have hinner : e.Wakeful ss := fun t ht =>
          h t (List.mem_append_left _ (List.mem_cons_of_mem _ ht))
        exact (runChildren hinner _).bind fun p =>
          (wakeful_closeGroup _ began p.1).bind fun _ => wakeful_done _
      · exact (h.dispatch _ _).bind fun _ => wakeful_done _
termination_by structural s => s

theorem runChildren : ∀ {ss : List Step}, e.Wakeful ss →
    ∀ c : Context, (e.runChildren ss c).Wakeful
  | [], _, _ => wakeful_done _
  | s :: ss, h, c => by
      rw [Engine.runChildren]
      refine (runStep h.head c).bind fun p => (e.wakeful_record _ _).bind fun c' => ?_
      split
      · exact wakeful_done _
      · exact runChildren h.tail c'
termination_by structural ss => ss

end

/-- A branch does not wait if the executors of its step do not. -/
theorem branch {s : Step} (h : e.Wakeful [s]) (c : Context) : (e.branch s c).Wakeful :=
  (h.runStep _).bind fun _ => (e.wakeful_record _ _).bind fun _ => wakeful_done _

end Wakeful

/-! ## First turns -/

/-- What becomes of a branch in its first turn if it has a place and does not wait, and the world
that it leaves. -/
inductive Taken (e : Engine σ) (s : Step) (c : Context) (w : World σ) :
    BranchEnd → World σ → Prop where
  /-- In a run that is cancelled it is not started. -/
  | skipped : w.cancelled = true → Taken e s c w .skipped w
  /-- It comes to its end. -/
  | finished {rs : List StepResult} {w' : World σ} : w.cancelled = false →
      (e.branch s c).advance (·.cancelled) w = (.done rs, w') → Taken e s c w (.finished rs) w'
  /-- It breaks off. -/
  | crashed {m : Option String} {w' : World σ} : w.cancelled = false →
      (e.branch s c).advance (·.cancelled) w = (.panicked m, w') → Taken e s c w (.crashed m) w'

variable {s : Step} {ss : List Step} {c : Context} {w w' : World σ} {b : BranchEnd}

/-- A branch that does not wait is over after its first turn. -/
theorem Wakeful.exists_taken (h : e.Wakeful [s]) (c : Context) (w : World σ) :
    ∃ b w', e.Taken s c w b w' := by
  cases hcancelled : w.cancelled with
  | true => exact ⟨_, _, .skipped hcancelled⟩
  | false =>
    obtain ⟨rs, v, hadvance, -⟩ | ⟨m, v, hadvance, -⟩ := (h.branch c).complete w
    · exact ⟨_, v, .finished hcancelled hadvance⟩
    · exact ⟨_, v, .crashed hcancelled hadvance⟩

/-- The branches when the first of them are over and `n` have not come yet. -/
def inLine (bound : Nat) (ends : List BranchEnd) (n : Nat) : Branches σ where
  free := Gate.places bound
  stages := ends.map .ended ++ List.replicate n .fresh

variable (bound : Nat) (ends : List BranchEnd) (n : Nat)

theorem inLine_nil : (inLine bound [] n : Branches σ) = Gate.ofBound bound n := rfl

theorem stage_inLine_self :
    (inLine bound ends (n + 1) : Branches σ).stages[ends.length]? = some .fresh := by
  simp [inLine, List.replicate_succ]

theorem put_inLine (b : BranchEnd) :
    (inLine bound ends (n + 1) : Branches σ).put ends.length (.ended b) =
      inLine bound (ends ++ [b]) n := by
  simp [inLine, Gate.put, List.replicate_succ]

theorem isEmpty_inLine : (inLine bound ends n : Branches σ).isEmpty = (n == 0) := by
  cases n with
  | zero => simp [Gate.isEmpty, inLine, Stage.outcome?]
  | succ n => simp [Gate.isEmpty, inLine, Stage.outcome?, List.replicate_succ]

theorem outcomes_inLine : (inLine bound ends 0 : Branches σ).outcomes = ends := by
  rw [Gate.outcomes, inLine, List.replicate_zero, List.append_nil, List.filterMap_map]
  exact List.filterMap_some

/-- No branch in line waits for a place. -/
theorem release_inLine {k : Nat} (hk : Gate.places bound = k + 1) :
    ({ inLine bound ends n with free := k } : Branches σ).release =
      (inLine bound ends n, none) := by
  have hnone : (inLine bound ends n : Branches σ).stages.findIdx? (·.isWaiting) = none := by
    rw [List.findIdx?_eq_none_iff, inLine]
    refine List.forall_mem_append.mpr ⟨fun stage hstage => ?_, fun stage hstage => ?_⟩
    · obtain ⟨a, -, rfl⟩ := List.mem_map.mp hstage
      rfl
    · rw [List.eq_of_mem_replicate hstage]
      rfl
  rw [Gate.release]
  dsimp only
  rw [hnone, ← hk]
  rfl

/-- A branch in line that comes to its end gives back its place. -/
theorem leave_inLine (b : BranchEnd) {k : Nat} (hk : Gate.places bound = k + 1) :
    (({ inLine bound ends (n + 1) with free := k } : Branches σ).put ends.length .granted).leave
        ends.length b = (inLine bound (ends ++ [b]) n, none) := by
  have hstages : ((inLine bound ends (n + 1) : Branches σ).stages.set ends.length .granted).set
        ends.length (.ended b) = (inLine bound (ends ++ [b]) n : Branches σ).stages := by
    rw [List.set_set]
    exact congrArg Gate.stages (put_inLine bound ends n b)
  rw [← release_inLine bound (ends ++ [b]) n hk]
  exact congrArg (fun stages => (⟨k, stages⟩ : Branches σ).release) hstages

variable {bound ends n}

/-- The first branch in line that has not come yet is over after its turn. -/
theorem Taken.turn (h : e.Taken s c w b w') (hs : ss[ends.length]? = some s) :
    e.turn ⟨ss, c, inLine bound ends (n + 1)⟩ ends.length w =
      ⟨inLine bound (ends ++ [b]) n, w', none, none⟩ := by
  obtain ⟨k, hk⟩ : ∃ k, Gate.places bound = k + 1 :=
    Nat.exists_eq_add_one.mpr (Nat.lt_of_lt_of_le Nat.one_pos (Nat.le_max_left 1 bound))
  have hfresh := @stage_inLine_self σ bound ends n
  have hcall : (inLine bound ends (n + 1) : Branches σ).call ends.length false .skipped =
      ⟨({ inLine bound ends (n + 1) with free := k } : Branches σ).put ends.length .granted,
        .admitted, none⟩ := by
    rw [Gate.call, hfresh]
    simp [inLine, hk]
  cases h with
  | skipped hcancelled =>
    have hcall : (inLine bound ends (n + 1) : Branches σ).call ends.length true .skipped =
        ⟨inLine bound (ends ++ [.skipped]) n, .gone, none⟩ := by
      rw [Gate.call, hfresh, ← put_inLine]
      rfl
    simp only [Engine.turn, hcancelled, hcall]
  | finished hcancelled hadvance =>
    simp only [Engine.turn, hcancelled, hcall, hs]
    rw [carryOn, hadvance]
    dsimp only
    rw [leave_inLine bound ends n _ hk]
  | crashed hcancelled hadvance =>
    simp only [Engine.turn, hcancelled, hcall, hs]
    rw [carryOn, hadvance]
    dsimp only
    rw [leave_inLine bound ends n _ hk]

/-- A branch that is over, or that there is not, has its turn for nothing. -/
theorem turn_of_gone {f : Fan σ} {i : Nat}
    (h : ∀ s, f.branches.stages[i]? = some s → ∃ b, s = .ended b) (w : World σ) :
    e.turn f i w = ⟨f.branches, w, none, none⟩ := by
  have hcall : f.branches.call i w.cancelled .skipped = ⟨f.branches, .gone, none⟩ := by
    rw [Gate.call]
    cases hs : f.branches.stages[i]? with
    | none => rfl
    | some s =>
      obtain ⟨b, rfl⟩ := h s hs
      rfl
  rw [Engine.turn, hcall]

end Engine
end Runbook
