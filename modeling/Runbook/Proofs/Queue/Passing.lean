import Runbook.Proofs.Queue.Fortunes
import Runbook.Proofs.Run.Wakeful

/-!
# What passes the branches of a run

The branches of a run that are on the agenda keep their turns, in the same order, whatever happens
but a turn of one of them (`Queue.Sound.passes_happen`).  For nothing else makes one of them ready,
as long as none of them sleeps, unless the run sets them up: then all get ready, in the order of the
steps (`Queue.SetsUp`).
-/

namespace Runbook

variable {σ : Type}

/-! ## Agendas -/

namespace Agenda

variable {κ : Type} {p : κ → Bool} {a b c : Agenda κ}

/-- None of some tasks sleeps. -/
def Awake (p : κ → Bool) (a : Agenda κ) : Prop := ∀ s ∈ a.sleepers, p s.task = false

/-- Some tasks are ready as before, in the same order, and none of them falls asleep. -/
structure Passes (p : κ → Bool) (a b : Agenda κ) : Prop where
  /-- The same ones are ready. -/
  ready : b.ready.filter p = a.ready.filter p
  /-- None falls asleep. -/
  awake : a.Awake p → b.Awake p

theorem Passes.refl (p : κ → Bool) (a : Agenda κ) : a.Passes p a := ⟨rfl, id⟩

theorem Passes.trans (h : a.Passes p b) (h' : b.Passes p c) : a.Passes p c :=
  ⟨h'.ready.trans h.ready, h'.awake ∘ h.awake⟩

/-- Other tasks fall asleep. -/
theorem passes_sleep {k : κ} (hk : p k = false) (a : Agenda κ) (due : Option Int) :
    a.Passes p (a.sleep k due) where
  ready := rfl
  awake := fun h => List.forall_mem_append.mpr ⟨h, List.forall_mem_singleton.mpr hk⟩

variable [DecidableEq κ]

theorem Awake.wakeAll (h : a.Awake p) (ks : List κ) : (a.wakeAll ks).Awake p := by
  induction ks generalizing a with
  | nil => exact h
  | cons k ks ih => exact ih (a := a.wake k) fun s hs => h s (List.mem_filter.mp hs).1

/-- Other tasks are woken. -/
theorem passes_wakeAll {ks : List κ} (hks : ∀ k ∈ ks, p k = false) (a : Agenda κ) :
    a.Passes p (a.wakeAll ks) :=
  ⟨filter_ready_wakeAll hks, fun h => h.wakeAll ks⟩

/-- Those that are roused were asleep. -/
theorem Awake.passes_rouse (h : a.Awake p) (among : κ → Bool) : a.Passes p (a.rouse among) := by
  refine passes_wakeAll (fun k hk => ?_) a
  obtain ⟨s, hs, rfl⟩ := List.mem_map.mp (List.mem_filter.mp hk).1
  exact h s hs

/-- A task is woken that is on the agenda. -/
theorem Awake.passes_wake (h : a.Awake p) {k : κ} (hk : a.Holds k) : a.Passes p (a.wake k) := by
  refine ⟨?_, fun hawake => hawake.wakeAll [k]⟩
  obtain hready | ⟨s, hs, rfl⟩ := hk
  · rw [wake, if_pos hready]
  · exact (passes_wakeAll (List.forall_mem_singleton.mpr (h s hs)) a).ready

omit [DecidableEq κ] in
/-- Another task keeps its turn. -/
theorem passes_again {k : κ} (hk : p k = false) (a : Agenda κ) : a.Passes p (a.again k) where
  ready := List.filter_cons_of_neg (Bool.eq_false_iff.mp hk)
  awake := id

/-- Another task is taken off. -/
theorem passes_without {k : κ} (hk : p k = false) (a : Agenda κ) : a.Passes p (a.without k) where
  ready := by
    rw [Agenda.without, ← List.erase_filter]
    exact List.erase_of_not_mem fun hmem => by
      rw [(List.mem_filter.mp hmem).2] at hk
      cases hk
  awake := id

/-- The turn of a task is noted that does not fall asleep, or of another one. -/
theorem Awake.passes_note (h : a.Awake p) {self : κ} {granted : Option κ}
    {sleep : Option Delay} (hself : sleep = none ∨ p self = false)
    (hgranted : ∀ k, granted = some k → p k = false) (among : κ → Bool) (cancelled : Bool)
    (w : World σ) : a.Passes p (a.note self among cancelled granted sleep w) := by
  have hroused : a.Passes p (if cancelled then a.rouse among else a) := by
    split
    · exact h.passes_rouse among
    · exact .refl p a
  cases granted with
  | none =>
    cases sleep with
    | none => exact hroused
    | some d => exact hroused.trans (passes_sleep (hself.resolve_left nofun) _ _)
  | some k =>
    have hwoken := hroused.trans
      (passes_wakeAll (List.forall_mem_singleton.mpr (hgranted k rfl)) _)
    cases sleep with
    | none => exact hwoken
    | some d => exact hwoken.trans (passes_sleep (hself.resolve_left nofun) _ _)

/-- Tasks of which none was ready get ready in order. -/
theorem filter_ready_wakeAll_self {ks : List κ} (hks : ∀ k ∈ ks, p k = true) (hnodup : ks.Nodup)
    (hnone : ∀ k ∈ ks, k ∉ a.ready) :
    (a.wakeAll ks).ready.filter p = a.ready.filter p ++ ks := by
  induction ks generalizing a with
  | nil => exact (List.append_nil _).symm
  | cons k ks ih =>
    obtain ⟨hk, hks⟩ := List.forall_mem_cons.mp hks
    obtain ⟨hfirst, hnodup⟩ := List.nodup_cons.mp hnodup
    obtain ⟨hready, hnone⟩ := List.forall_mem_cons.mp hnone
    have hwake : (a.wake k).ready = a.ready ++ [k] := if_neg hready
    have hrest : ∀ j ∈ ks, j ∉ (a.wake k).ready := by
      intro j hj hmem
      rw [hwake, List.mem_append, List.mem_singleton] at hmem
      obtain hmem | rfl := hmem
      · exact hnone j hj hmem
      · exact hfirst hj
    rw [wakeAll, List.foldl_cons, ← wakeAll, ih hks hnodup hrest, hwake, List.filter_append,
      List.filter_cons, if_pos hk, List.filter_nil, List.append_assoc]
    rfl

end Agenda

/-- The task is a branch of the run with a number. -/
def Task.isBranchOf (n : Nat) : Task → Bool
  | run _ => false
  | branch m _ => m == n

theorem Task.exists_of_isBranchOf {n : Nat} : ∀ {t : Task}, t.isBranchOf n = true →
    ∃ i, t = .branch n i
  | branch _ i, h => ⟨i, congrArg (branch · i) (eq_of_beq h)⟩

theorem Task.isBranchOf_of_number {n : Nat} : ∀ {t : Task}, t.number ≠ n → t.isBranchOf n = false
  | run _, _ => rfl
  | branch _ _, h => beq_false_of_ne h

/-- The branches of the run have not been set up yet. -/
def Stage.Unspread : Stage (UnderWay σ) RunEnd → Prop
  | inside (.fan _) => False
  | ended _ => False
  | _ => True

/-- Branches that are put together do not wait, and no others are set up. -/
theorem Engine.advance_join (e : Engine σ) (f : Fan σ) (w : World σ) :
    (∃ c v, ((e.join f).bind fun c => .done (.ended c)).advance (·.cancelled) w =
      ((.done (.ended c), v) : Pause (World σ) (Stride σ) × World σ)) ∨
    ∃ m v, ((e.join f).bind fun c => .done (.ended c)).advance (·.cancelled) w =
      ((.panicked m, v) : Pause (World σ) (Stride σ) × World σ) := by
  rw [Activity.advance_bind]
  obtain ⟨c, v, hadvance, -⟩ | ⟨m, v, hadvance, -⟩ := (e.wakeful_join f).complete w
  · exact .inl ⟨c, v, by rw [hadvance]; rfl⟩
  · exact .inr ⟨m, v, by rw [hadvance]⟩

namespace Queue

variable {e : Engine σ} {q q' : Queue σ} {t : Task} {r : QueuedRun} {bound n : Nat} {ev : Event}

/-! ## Turns -/

/-- The run with a number sets up its branches, and all of them get ready. -/
structure SetsUp (n : Nat) (q q' : Queue σ) : Prop where
  /-- It had none before. -/
  before : ∃ s, q.gate.stages[n]? = some s ∧ s.Unspread
  /-- Now it waits for them. -/
  after : ∃ f, q'.gate.stages[n]? = some (.inside (.fan f))
  /-- They get ready in the order of the steps. -/
  agenda : ∃ a k, q.agenda.Passes (·.isBranchOf n) a ∧
    q'.agenda = a.wakeAll ((List.range k).map (.branch n))

/-- Branches that do not sleep pass a turn that makes none of them ready. -/
theorem passes_close (hawake : q.agenda.Awake (·.isBranchOf n)) {gate : Gate (UnderWay σ) RunEnd}
    {w : World σ} {granted : Option Task} {sleep : Option Delay} {next : List Task}
    (hself : sleep = none ∨ t.isBranchOf n = false)
    (hgranted : ∀ k, granted = some k → k.isBranchOf n = false)
    (hnext : ∀ k ∈ next, k.isBranchOf n = false) :
    q.agenda.Passes (·.isBranchOf n) (q.close r t gate w granted sleep next).agenda :=
  (hawake.passes_note hself hgranted _ _ w).trans (Agenda.passes_wakeAll hnext _)

/-- Branches that do not sleep pass a turn of a run. -/
theorem passes_close_run (hawake : q.agenda.Awake (·.isBranchOf n))
    (gate : Gate (UnderWay σ) RunEnd) (w : World σ) (granted : Option Nat)
    (sleep : Option Delay) :
    q.agenda.Passes (·.isBranchOf n)
      (q.close r (.run r.number) gate w (granted.map .run) sleep []).agenda := by
  refine passes_close hawake (.inr rfl) (fun k hk => ?_) nofun
  obtain ⟨j, -, rfl⟩ := Option.map_eq_some_iff.mp hk
  rfl

/-- A run that is inside goes on.  The branches of a run pass, unless this run sets them up. -/
theorem passes_carryOn (hawake : q.agenda.Awake (·.isBranchOf n)) {u : UnderWay σ}
    (hs : q.gate.stages[r.number]? = some (.inside u)) (x : Activity (World σ) (Stride σ)) :
    q.agenda.Passes (·.isBranchOf n) (carryOn q r x).agenda ∨
      (∃ f w, x.advance (·.cancelled) (q.worldOf r) = (.done (.spread f), w)) ∧
        (Stage.Unspread (.inside u) → SetsUp n q (carryOn q r x)) := by
  rw [carryOn]
  split
  · exact .inl ((passes_close_run hawake _ _ _ _).trans (Agenda.passes_again rfl _))
  · next f w hadvance =>
    have hpasses := passes_close_run hawake (r := r) q.gate w none none
    by_cases hn : r.number = n
    · subst hn
      refine .inr ⟨⟨f, w, hadvance⟩, fun hu => ?_⟩
      refine ⟨⟨_, hs, hu⟩, ⟨f, ?_⟩, _, f.steps.length, hpasses, rfl⟩
      exact List.getElem?_set_self (List.getElem?_eq_some_iff.mp hs).1
    · refine .inl (hpasses.trans (Agenda.passes_wakeAll (fun k hk => ?_) _))
      obtain ⟨i, -, rfl⟩ := List.mem_map.mp hk
      exact Task.isBranchOf_of_number hn
  · exact .inl (passes_close_run hawake _ _ _ _)
  · exact .inl (passes_close_run hawake _ _ none _)

/-- The turn of a run that has not been admitted. -/
theorem passes_approach (hawake : q.agenda.Awake (·.isBranchOf n)) :
    q.agenda.Passes (·.isBranchOf n) (approach e q r).agenda := by
  rw [approach]
  dsimp only
  split
  · exact Agenda.passes_again rfl _
  · exact passes_close_run hawake _ _ none _
  · exact (passes_close_run hawake _ _ _ _).trans (Agenda.passes_again rfl _)

/-- The turn of a run that is inside. -/
theorem passes_proceed (hawake : q.agenda.Awake (·.isBranchOf n)) {u : UnderWay σ}
    (hs : q.gate.stages[r.number]? = some (.inside u)) :
    q.agenda.Passes (·.isBranchOf n) (proceed e q r u).agenda ∨ SetsUp n q (proceed e q r u) := by
  rw [proceed.eq_def]
  split
  · exact .inl (Agenda.passes_again rfl _)
  · cases u with
    | single next =>
      exact (passes_carryOn hawake hs (next r.cancelled)).imp_right fun h => h.2 trivial
    | fan f =>
      dsimp only
      split
      · obtain hpasses | ⟨⟨g, w, hspread⟩, -⟩ := passes_carryOn hawake hs
          ((e.join f).bind fun c => .done (.ended c))
        · exact .inl hpasses
        · obtain ⟨c, v, hended⟩ | ⟨m, v, hended⟩ := e.advance_join f (q.worldOf r)
          · rw [hended] at hspread
            cases hspread
          · rw [hended] at hspread
            cases hspread
      · exact .inl (.refl _ _)

/-- The turn of a run that has given its place back. -/
theorem passes_conclude (c : Context) :
    q.agenda.Passes (·.isBranchOf n) (q.conclude r c).agenda := by
  rw [conclude]
  split
  · exact .refl _ _
  · split
    · exact Agenda.passes_again rfl _
    · exact .refl _ _

/-- The turn of a run. -/
theorem passes_runTurn (hawake : q.agenda.Awake (·.isBranchOf n)) :
    q.agenda.Passes (·.isBranchOf n) (runTurn e q r).agenda ∨ SetsUp n q (runTurn e q r) := by
  rw [runTurn]
  split
  · next hs => exact passes_proceed hawake hs
  · exact .inl (passes_conclude _)
  · exact .inl (.refl _ _)
  · exact .inl (passes_approach hawake)

/-- The turn of a branch of another run. -/
theorem passes_branchTurn (hawake : q.agenda.Awake (·.isBranchOf n)) (hn : r.number ≠ n) (i : Nat) :
    q.agenda.Passes (·.isBranchOf n) (branchTurn e q r i).agenda := by
  rw [branchTurn]
  split
  · have hother : ∀ j, (Task.branch r.number j).isBranchOf n = false :=
      fun _ => Task.isBranchOf_of_number hn
    refine passes_close hawake (.inr (hother i)) (fun k hk => ?_) fun k hk => ?_
    · obtain ⟨j, -, rfl⟩ := Option.map_eq_some_iff.mp hk
      exact hother j
    · split at hk
      · rw [List.mem_singleton.mp hk]
        rfl
      · cases hk
  · exact .refl _ _

/-- The turn of a task that is none of the branches of a run. -/
theorem passes_turn (hawake : q.agenda.Awake (·.isBranchOf n)) (ht : t.isBranchOf n = false) :
    q.agenda.Passes (·.isBranchOf n) (turn e q t).agenda ∨ SetsUp n q (turn e q t) := by
  cases hfind : q.find? t.number with
  | none =>
    simp only [turn, hfind]
    exact .inl (.refl _ _)
  | some r =>
    cases t with
    | run m =>
      simp only [turn, hfind]
      exact passes_runTurn hawake
    | branch m i =>
      simp only [turn, hfind]
      refine .inl (passes_branchTurn hawake ?_ i)
      rw [(find?_eq_some hfind).2]
      exact beq_eq_false_iff_ne.mp ht

/-! ## Events -/

/-- A task has its turn before all others that are ready, and none is woken but those on the
agenda. -/
def AsTheyCome (a : Agenda Task) : Event → Prop
  | .turn t => a.ready.head? = some t
  | .wake t => a.Holds t
  | _ => True

theorem SetsUp.of_without (h : SetsUp n (q.without t) q') (ht : t.isBranchOf n = false) :
    SetsUp n q q' where
  before := h.before
  after := h.after
  agenda := by
    obtain ⟨a, k, hpasses, hagenda⟩ := h.agenda
    exact ⟨a, k, (Agenda.passes_without ht q.agenda).trans hpasses, hagenda⟩

/-- The branches of a run pass whatever happens but their own turns, unless the run sets them up. -/
theorem Sound.passes_happen (h : q.Sound e bound) (hawake : q.agenda.Awake (·.isBranchOf n))
    (hcomes : AsTheyCome q.agenda ev)
    (hev : ∀ i, ev ≠ .turn (.branch n i)) :
    q.agenda.Passes (·.isBranchOf n) (q.happen e ev).agenda ∨ SetsUp n q (q.happen e ev) := by
  cases ev with
  | submit s mode =>
    have hnew : ∀ t ∈ [Task.run q.gate.stages.length], t.isBranchOf n = false :=
      List.forall_mem_singleton.mpr rfl
    exact .inl (Agenda.passes_wakeAll hnew q.agenda)
  | cancel m =>
    rw [Queue.happen]
    obtain heq | ⟨-, -, heq⟩ := q.cancel_eq_or m
    · rw [heq]
      exact .inl (.refl _ _)
    · rw [heq]
      exact .inl (hawake.passes_rouse _)
  | wait m => exact .inl (.refl _ _)
  | remove m =>
    obtain ⟨keep, -, heq⟩ := h.exists_remove m
    rw [Queue.happen, heq]
    exact .inl (.refl _ _)
  | prune => exact .inl (.refl _ _)
  | wake t => exact .inl (hawake.passes_wake hcomes)
  | pass millis => exact .inl (.refl _ _)
  | turn t =>
    have ht : t.isBranchOf n = false := by
      refine Bool.eq_false_iff.mpr fun hbranch => ?_
      obtain ⟨i, rfl⟩ := Task.exists_of_isBranchOf hbranch
      exact hev i rfl
    rw [Queue.happen, if_pos (List.mem_of_mem_head? hcomes)]
    have hwithout := Agenda.passes_without (p := (·.isBranchOf n)) ht q.agenda
    exact (passes_turn (q := q.without t) (hwithout.awake hawake) ht).imp hwithout.trans
      (·.of_without ht)

end Queue
end Runbook
