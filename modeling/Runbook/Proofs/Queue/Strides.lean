import Runbook.Proofs.Queue.Standing

/-!
# What a turn does

A turn is told in full by one of four cases (`Queue.Took`, `Queue.took_turn`): nothing happens, a
run takes a place, it puts down how far it is, or it goes a *stretch*.  A stretch is where a run
comes to in the turn of one of its tasks, with the world that it leaves and what the turn means for
other tasks.  `Queue.Strides` says which stretches there are.
-/

namespace Runbook

variable {σ : Type}

/-! ## Gates -/

/-- A task goes to a stage and no place is lost.  Another one stays where it is, unless it waits and
is granted a place. -/
structure Gate.MovesTo {α β : Type} (g g' : Gate α β) (i : Nat) (s : Stage α β)
    (grant : Option Nat) : Prop where
  /-- The task is at the stage. -/
  self : g'.stages[i]? = some s
  /-- Another one is where it was, or was granted a place. -/
  others : ∀ j t, j ≠ i → g'.stages[j]? = some t →
    ∃ u, g.stages[j]? = some u ∧ (t = u ∨ u = .waiting ∧ t = .granted ∧ grant = some j)
  /-- No task is added. -/
  length : g'.stages.length = g.stages.length
  /-- No place is lost. -/
  fair : ∀ bound, g.Fair bound → g'.Fair bound

namespace Gate

variable {α β : Type} {g g' : Gate α β} {i : Nat} {s : Stage α β} {grant : Option Nat}

/-- A task that stays where it is. -/
theorem movesTo_self (hs : g.stages[i]? = some s) : g.MovesTo g i s none where
  self := hs
  others := fun _ t _ ht => ⟨t, ht, .inl rfl⟩
  length := rfl
  fair := fun _ => id

/-- A task that keeps its place, or goes on without one. -/
theorem movesTo_put (hs : g.stages[i]? = some s) {t : Stage α β} (hplace : s.hasPlace = t.hasPlace)
    (ht : t = .waiting → g.free = 0) : g.MovesTo (g.put i t) i t none where
  self := List.getElem?_set_self (List.getElem?_eq_some_iff.mp hs).1
  others := fun _ u hj hu => ⟨u, (List.getElem?_set_ne hj.symm).symm.trans hu, .inl rfl⟩
  length := length_put i t
  fair := fun _ h => h.put hs hplace ht

/-- A task that gives its place back. -/
theorem movesTo_leave (hs : g.stages[i]? = some s) (hplace : s.hasPlace = true) (b : β) :
    g.MovesTo (g.leave i b).1 i (.ended b) (g.leave i b).2 where
  self := stages_leave_self (List.getElem?_eq_some_iff.mp hs).1 b
  others := by
    intro j u hj hu
    have hall : (g.leave i b).1.ForAll fun j t => j ≠ i → ∃ u, g.stages[j]? = some u ∧
        (t = u ∨ u = .waiting ∧ t = .granted ∧ (g.leave i b).2 = some j) :=
      forAll_leave_waiting (fun _ t _ ht _ => ⟨t, ht, .inl rfl⟩) (fun hself => absurd rfl hself)
        fun _ _ hwaiting hgrant _ => ⟨_, hwaiting, .inr ⟨rfl, rfl, hgrant⟩⟩
    exact hall j u hu hj
  length := length_leave i b
  fair := fun _ h => h.leave hs hplace b

/-- A task that is admitted takes its place. -/
theorem movesTo_admitted {cancelled : Bool} {away : β}
    (h : (g.call i cancelled away).admission = .admitted) (a : α) :
    cancelled = false ∧ ∃ s, g.stages[i]? = some s ∧ s.isEager = true ∧
      g.MovesTo ((g.call i cancelled away).gate.put i (.inside a)) i (.inside a) none := by
  have hplace := (call_admitted h).2
  have hfair : ∀ bound, g.Fair bound →
      ((g.call i cancelled away).gate.put i (.inside a)).Fair bound :=
    fun bound hfair => (hfair.call i cancelled away).put hplace rfl (by rintro ⟨⟩)
  have hcalled := called g i cancelled away
  generalize g.call i cancelled away = call at h hcalled hfair ⊢
  cases hcalled with
  | comes hcancelled hs =>
    have hlt := (List.getElem?_eq_some_iff.mp hs).1
    refine ⟨hcancelled, _, hs, rfl, ?_, fun j u hj hu => ?_, ?_, hfair⟩
    · exact List.getElem?_set_self (by simpa using hlt)
    · rw [put, put, List.set_set, List.getElem?_set_ne hj.symm] at hu
      exact ⟨u, hu, .inl rfl⟩
    · rw [length_put, length_put]
  | enters hcancelled hs =>
    have hmoves := movesTo_put (t := .inside a) hs rfl (by rintro ⟨⟩)
    exact ⟨hcancelled, _, hs, rfl, hmoves.self, hmoves.others, hmoves.length, hfair⟩
  | inside => cases h
  | queues => cases h
  | waits => cases h
  | turns => cases h
  | leaves => cases h
  | ended => cases h

/-- What holds of every task still holds if it holds of the one that moved, and of one that is
granted a place. -/
theorem ForAll.movesTo {P Q : Nat → Stage α β → Prop} (h : g.ForAll P)
    (hmoves : g.MovesTo g' i s grant) (hs : Q i s) (hothers : ∀ j t, j ≠ i → P j t → Q j t)
    (hgrant : ∀ j, P j .waiting → grant = some j → Q j .granted) : g'.ForAll Q := by
  intro j t ht
  by_cases hj : j = i
  · subst hj
    cases hmoves.self.symm.trans ht
    exact hs
  · obtain ⟨u, hu, rfl | ⟨rfl, rfl, heq⟩⟩ := hmoves.others j t hj ht
    · exact hothers j _ hj (h j _ hu)
    · exact hgrant j (h j _ hu) heq

end Gate

/-! ## Stretches -/

/-- What becomes in its turn of a run that has not been admitted and takes no place. -/
inductive Stage.Proceeds (cancelled : Bool) :
    Stage (UnderWay σ) RunEnd → Stage (UnderWay σ) RunEnd → Prop where
  /-- It comes while no place is free. -/
  | comes : cancelled = false → Proceeds cancelled .fresh .waiting
  /-- It waits on. -/
  | waits : cancelled = false → Proceeds cancelled .waiting .waiting
  /-- It goes away without having started. -/
  | calledOff {s : Stage (UnderWay σ) RunEnd} {c : Context} : cancelled = true →
      s.isOutside = true → c.CalledOff → Proceeds cancelled s (.ended (.finished c))

theorem Stage.Proceeds.isOutside {cancelled : Bool} {s s' : Stage (UnderWay σ) RunEnd}
    (h : s.Proceeds cancelled s') : s.isOutside = true := by
  cases h with
  | comes => rfl
  | waits => rfl
  | calledOff _ hs => exact hs

/-- Where a run stands that went on until it waits or is over. -/
def Pause.stage : Pause (World σ) (Stride σ) → Stage (UnderWay σ) RunEnd
  | .done (.ended c) => .ended (.finished c)
  | .done (.spread f) => .inside (.fan f)
  | .panicked _ => .ended .crashed
  | .asleep _ next => .inside (.single next)

/-- Where a run comes to in the turn of one of its tasks, and what this means for other tasks. -/
structure Stretch (σ : Type) where
  /-- Where the run stands. -/
  stage : Stage (UnderWay σ) RunEnd
  /-- The world that it leaves. -/
  world : World σ
  /-- The task that was granted a place. -/
  granted : Option Task
  /-- The task that had its turn fell asleep, perhaps for some milliseconds. -/
  sleep : Option Delay
  /-- The tasks that are woken. -/
  next : List Task

/-- The agenda after the turn of a task of a run in which the run went a stretch.  A run that is
over keeps its turn. -/
def Stretch.noted (y : Stretch σ) (a : Agenda Task) (t : Task) (n : Nat) (cancelled : Bool) :
    Agenda Task :=
  let b := (a.note t (fun u => u.number == n) cancelled y.granted y.sleep y.world).wakeAll y.next
  if y.stage.isOver then b.again t else b

theorem Stretch.noted_of_under {y : Stretch σ} (h : y.stage.isOver = false) (a : Agenda Task)
    (t : Task) (n : Nat) (cancelled : Bool) : y.noted a t n cancelled =
      (a.note t (fun u => u.number == n) cancelled y.granted y.sleep y.world).wakeAll y.next := by
  rw [noted, h]
  rfl

namespace Queue

/-- The queue after a turn of a task of a run in which the run went a stretch. -/
def takes (q : Queue σ) (r : QueuedRun) (t : Task) (gate : Gate (UnderWay σ) RunEnd)
    (y : Stretch σ) : Queue σ :=
  { q.modifyRun r.number (.returned y.world) with
    gate := gate
    agenda := y.noted q.agenda t r.number (!r.cancelled && y.world.cancelled)
    clock := y.world.clock
    notices := y.world.notices
    surroundings := y.world.surroundings }

/-- The queue after a turn in which a run put down how far it is, and keeps its turn or not. -/
def tells (q : Queue σ) (r : QueuedRun) (t : Task) (f : QueuedRun → QueuedRun) (keeps : Bool) :
    Queue σ :=
  if keeps then (q.modifyRun r.number f).again t else q.modifyRun r.number f

/-- What a run puts down that stands at a stage.  It keeps its turn as long as it has more to put
down, or work to do. -/
inductive Tells (r : QueuedRun) :
    Stage (UnderWay σ) RunEnd → (QueuedRun → QueuedRun) → Bool → Prop where
  /-- It puts down that it is running. -/
  | running {u : UnderWay σ} : r.state = .queued → Tells r (.inside u) (.shown .running) true
  /-- It leaves its record. -/
  | recorded {c : Context} : r.state.isFinished = false → r.record = none →
      Tells r (.ended (.finished c)) (.recorded c) true
  /-- It puts down that it is finished. -/
  | finished {c : Context} : r.state.isFinished = false → r.record.isSome = true →
      Tells r (.ended (.finished c)) (.shown (.finished c.status)) false

section

variable (e : Engine σ)

/-- The work that a run goes on with when it is inside and its turn comes. -/
inductive Resumes (cancelled : Bool) : UnderWay σ → Activity (World σ) (Stride σ) → Prop where
  /-- A run that waited is resumed. -/
  | single {next : Bool → Activity (World σ) (Stride σ)} :
      Resumes cancelled (.single next) (next cancelled)
  /-- Branches that are all over are put together. -/
  | joined {f : Fan σ} : f.branches.isEmpty = true →
      Resumes cancelled (.fan f) ((e.join f).bind fun c => .done (.ended c))

/-- What the turn of a task makes of the run with number `n`. -/
inductive Strides (n : Nat) : Task → Stage (UnderWay σ) RunEnd → World σ → Stretch σ → Prop where
  /-- A run that has not been admitted proceeds, and its world stays as it is.  If it waits it falls
  asleep. -/
  | outside {s s' : Stage (UnderWay σ) RunEnd} {w : World σ} {granted : Option Task}
      {sleep : Option Delay} :
      s.Proceeds w.cancelled s' → (s' = .waiting → sleep.isSome = true) →
      Strides n (.run n) s w ⟨s', w, granted, sleep, []⟩
  /-- A run that is inside goes on until it waits or is over.  If it waits it falls asleep, and
  branches that it has set up are woken. -/
  | goesOn {u : UnderWay σ} {x : Activity (World σ) (Stride σ)} {w : World σ}
      {granted : Option Task} {sleep : Option Delay} {next : List Task} :
      Resumes e w.cancelled u x →
      (∀ d more, (x.advance (·.cancelled) w).1 = .asleep d more → sleep = some d) →
      (∀ f, (x.advance (·.cancelled) w).1 = .done (.spread f) →
        next = (List.range f.steps.length).map (.branch n)) →
      Strides n (.run n) (.inside u) w
        ⟨(x.advance (·.cancelled) w).1.stage, (x.advance (·.cancelled) w).2, granted, sleep, next⟩
  /-- A branch has its turn, and wakes its run if it is over then. -/
  | branch {f : Fan σ} {i : Nat} {w : World σ} :
      Strides n (.branch n i) (.inside (.fan f)) w
        ⟨.inside (.fan { f with branches := (e.turn f i w).branches }), (e.turn f i w).world,
          (e.turn f i w).granted.map (.branch n), (e.turn f i w).sleep,
          if ((e.turn f i w).branches.stages[i]?.bind (·.outcome?)).isSome then [.run n] else []⟩

/-- Nothing is to be done for a run at a stage in the turn of a task. -/
inductive Idle (n : Nat) : Task → Stage (UnderWay σ) RunEnd → Prop where
  /-- The run has no branches. -/
  | branch {i : Nat} {s : Stage (UnderWay σ) RunEnd} : (∀ f, s ≠ .inside (.fan f)) →
      Idle n (.branch n i) s
  /-- The run waits for its branches. -/
  | fan {f : Fan σ} : f.branches.isEmpty = false → Idle n (.run n) (.inside (.fan f))
  /-- The run is over. -/
  | ended {t : Task} {b : RunEnd} : Idle n t (.ended b)

/-- What a turn does. -/
inductive Took (q : Queue σ) (t : Task) : Queue σ → Prop where
  /-- Nothing, and the run that the task belongs to owes the table nothing. -/
  | idle : (∀ r s, q.find? t.number = some r → q.gate.stages[r.number]? = some s →
      Idle r.number t s ∧ (t = .run r.number → ¬ r.Owes s)) → Took q t q
  /-- A run takes a place. -/
  | admitted {r : QueuedRun} {s : Stage (UnderWay σ) RunEnd} {gate : Gate (UnderWay σ) RunEnd} :
      t = .run r.number → q.find? r.number = some r → q.gate.stages[r.number]? = some s →
      s.isEager = true → r.cancelled = false →
      q.gate.MovesTo gate r.number (.inside (.single fun _ => work e r.sequence r.mode)) none →
      Took q t ({ q with gate := gate }.again t)
  /-- A run puts down how far it is. -/
  | told {r : QueuedRun} {s : Stage (UnderWay σ) RunEnd} {f : QueuedRun → QueuedRun}
      {keeps : Bool} :
      t = .run r.number → q.find? r.number = some r → q.gate.stages[r.number]? = some s →
      Tells r s f keeps → Took q t (q.tells r t f keeps)
  /-- It takes the run that the task belongs to along a stretch. -/
  | turned {r : QueuedRun} {s : Stage (UnderWay σ) RunEnd} {y : Stretch σ}
      {gate : Gate (UnderWay σ) RunEnd} {grant : Option Nat} :
      q.find? t.number = some r → q.gate.stages[r.number]? = some s →
      Strides e r.number t s (q.worldOf r) y →
      (t = .run r.number → s.isInside = true → r.state ≠ .queued) →
      q.gate.MovesTo gate r.number y.stage grant →
      (∀ j, grant = some j → y.granted = some (.run j)) →
      Took q t (q.takes r t gate y)

end

variable {e : Engine σ} {q q' : Queue σ} {t : Task} {r : QueuedRun} {bound n : Nat}
  {s : Stage (UnderWay σ) RunEnd}

/-! ## Turns -/

/-- The turn of a run that has not been admitted. -/
theorem took_approach (hfind : q.find? r.number = some r) (hs : q.gate.stages[r.number]? = some s)
    (houtside : s.isOutside = true) : Took e q (.run r.number) (approach e q r) := by
  have hc := calledOff_neverStarted e r.sequence q.clock
  rw [approach]
  generalize neverStarted e r.sequence q.clock = c at hc ⊢
  have hadmitted : (q.gate.call r.number r.cancelled (.finished c)).admission = .admitted → _ :=
    fun h => Gate.movesTo_admitted h (.single fun _ => work e r.sequence r.mode)
  have hcalled := q.gate.called r.number r.cancelled (.finished c)
  generalize q.gate.call r.number r.cancelled (.finished c) = call at hcalled hadmitted ⊢
  cases hcalled with
  | comes =>
    obtain ⟨hcancelled, s', hs', heager, hmoves⟩ := hadmitted rfl
    exact .admitted rfl hfind hs' heager hcancelled hmoves
  | enters =>
    obtain ⟨hcancelled, s', hs', heager, hmoves⟩ := hadmitted rfl
    exact .admitted rfl hfind hs' heager hcancelled hmoves
  | inside hs' =>
    cases hs.symm.trans hs'
    cases houtside
  | ended hover =>
    obtain ⟨b, rfl⟩ := hover s hs
    cases houtside
  | queues hcancelled hs' hfree =>
    have hstrides : Strides e r.number (.run r.number) .fresh (q.worldOf r)
        ⟨.waiting, q.worldOf r, none, some ⟨none, true⟩, []⟩ :=
      .outside (.comes hcancelled) fun _ => rfl
    exact .turned hfind hs' hstrides (by rintro - ⟨⟩)
      (Gate.movesTo_put hs' rfl fun _ => hfree) (by rintro _ ⟨⟩)
  | waits hcancelled hs' =>
    have hstrides : Strides e r.number (.run r.number) .waiting (q.worldOf r)
        ⟨.waiting, q.worldOf r, none, some ⟨none, true⟩, []⟩ :=
      .outside (.waits hcancelled) fun _ => rfl
    exact .turned hfind hs' hstrides (by rintro - ⟨⟩) (Gate.movesTo_self hs') (by rintro _ ⟨⟩)
  | turns hcancelled hs' hplace =>
    cases hs.symm.trans hs'
    have hstrides : Strides e r.number (.run r.number) s (q.worldOf r)
        ⟨.ended (.finished c), q.worldOf r, none, none, []⟩ :=
      .outside (.calledOff hcancelled houtside hc) (by rintro ⟨⟩)
    refine .turned hfind hs hstrides (fun _ hinside => ?_)
      (Gate.movesTo_put hs hplace (by rintro ⟨⟩)) (by rintro _ ⟨⟩)
    cases s <;> cases houtside <;> cases hinside
  | leaves hcancelled hs' =>
    have hstrides : Strides e r.number (.run r.number) .granted (q.worldOf r)
        ⟨.ended (.finished c), q.worldOf r, (q.gate.leave r.number (.finished c)).2.map .run, none,
          []⟩ := .outside (.calledOff hcancelled rfl hc) (by rintro ⟨⟩)
    refine .turned hfind hs' hstrides (by rintro - ⟨⟩) (Gate.movesTo_leave hs' rfl _) fun j hj => ?_
    rw [hj]
    rfl

/-- A run that is inside and goes on takes a stretch. -/
theorem took_carryOn {u : UnderWay σ} {x : Activity (World σ) (Stride σ)}
    (hfind : q.find? r.number = some r) (hs : q.gate.stages[r.number]? = some (.inside u))
    (hx : Resumes e r.cancelled u x) (hstate : r.state ≠ .queued) :
    Took e q (.run r.number) (carryOn q r x) := by
  have hgrants : ∀ b j, (q.gate.leave r.number b).2 = some j →
      (q.gate.leave r.number b).2.map Task.run = some (.run j) := by
    intro b j hj
    rw [hj]
    rfl
  rw [carryOn]
  split
  · next c w hadvance =>
    have hstrides : Strides e r.number (.run r.number) (.inside u) (q.worldOf r)
        ⟨_, _, (q.gate.leave r.number (.finished c)).2.map .run, none, []⟩ :=
      .goesOn hx (by simp [hadvance]) (by simp [hadvance])
    rw [hadvance] at hstrides
    exact .turned hfind hs hstrides (fun _ _ => hstate) (Gate.movesTo_leave hs rfl _) (hgrants _)
  · next f w hadvance =>
    have hstrides : Strides e r.number (.run r.number) (.inside u) (q.worldOf r)
        ⟨_, _, none, none, (List.range f.steps.length).map (.branch r.number)⟩ :=
      .goesOn hx (by simp [hadvance]) (by simp [hadvance])
    rw [hadvance] at hstrides
    exact .turned hfind hs hstrides (fun _ _ => hstate) (Gate.movesTo_put hs rfl (by rintro ⟨⟩))
      (by rintro _ ⟨⟩)
  · next m w hadvance =>
    have hstrides : Strides e r.number (.run r.number) (.inside u) (q.worldOf r)
        ⟨_, _, (q.gate.leave r.number .crashed).2.map .run, none, []⟩ :=
      .goesOn hx (by simp [hadvance]) (by simp [hadvance])
    rw [hadvance] at hstrides
    exact .turned hfind hs hstrides (fun _ _ => hstate) (Gate.movesTo_leave hs rfl _) (hgrants _)
  · next d more w hadvance =>
    have hstrides : Strides e r.number (.run r.number) (.inside u) (q.worldOf r)
        ⟨_, _, none, some d, []⟩ :=
      .goesOn hx (by simp [hadvance]) (by simp [hadvance])
    rw [hadvance] at hstrides
    exact .turned hfind hs hstrides (fun _ _ => hstate) (Gate.movesTo_put hs rfl (by rintro ⟨⟩))
      (by rintro _ ⟨⟩)

/-- The turn of a run that is inside. -/
theorem took_proceed {u : UnderWay σ} (hfind : q.find? r.number = some r)
    (hs : q.gate.stages[r.number]? = some (.inside u)) :
    Took e q (.run r.number) (proceed e q r u) := by
  rw [proceed.eq_def]
  split
  · next hqueued => exact .told rfl hfind hs (.running hqueued)
  · next hstate =>
    cases u with
    | single next => exact took_carryOn hfind hs .single hstate
    | fan f =>
      dsimp only
      split
      · next hover => exact took_carryOn hfind hs (.joined hover) hstate
      · next hunder =>
        refine .idle fun r' s' hr' hs' => ?_
        cases hfind.symm.trans hr'
        cases hs.symm.trans hs'
        exact ⟨.fan (Bool.eq_false_iff.mpr hunder), fun _ => hstate⟩

/-- The turn of a run that has given its place back. -/
theorem took_conclude {c : Context} (hfind : q.find? r.number = some r)
    (hs : q.gate.stages[r.number]? = some (.ended (.finished c))) :
    Took e q (.run r.number) (q.conclude r c) := by
  rw [conclude]
  split
  · next hfinished =>
    refine .idle fun r' s' hr' hs' => ?_
    cases hfind.symm.trans hr'
    cases hs.symm.trans hs'
    exact ⟨.ended, fun _ howes => Bool.false_ne_true (Eq.trans (Eq.symm howes) hfinished)⟩
  · next hunfinished =>
    have hunfinished := Bool.eq_false_iff.mpr hunfinished
    split
    · next hnone =>
      exact .told rfl hfind hs (.recorded hunfinished (Option.isNone_iff_eq_none.mp hnone))
    · next hsome =>
      have hsome : r.record.isSome = true := by simpa [Option.isSome_iff_ne_none] using hsome
      exact .told rfl hfind hs (.finished hunfinished hsome)

/-- The turn of a branch. -/
theorem took_branch {i : Nat} (hfind : q.find? r.number = some r) :
    Took e q (.branch r.number i) (branchTurn e q r i) := by
  rw [branchTurn]
  split
  · next f hs =>
    exact .turned hfind hs .branch (by rintro ⟨⟩) (Gate.movesTo_put hs rfl (by rintro ⟨⟩))
      (by rintro _ ⟨⟩)
  · next hs =>
    refine .idle fun r' s hr' hs' => ?_
    cases hfind.symm.trans hr'
    refine ⟨.branch fun f hf => hs f ?_, by rintro ⟨⟩⟩
    rw [hs', hf]

/-- Every turn does one of these things. -/
theorem took_turn (hknown : ∀ r ∈ q.table, r.number < q.gate.stages.length) (t : Task) :
    Took e q t (turn e q t) := by
  cases hfind : q.find? t.number with
  | none =>
    simp only [turn, hfind]
    refine .idle fun r s hr => ?_
    rw [hfind] at hr
    cases hr
  | some r =>
    obtain ⟨hmem, hnumber⟩ := find?_eq_some hfind
    have hself : q.find? r.number = some r := hnumber ▸ hfind
    cases t with
    | branch m i =>
      obtain rfl : r.number = m := hnumber
      simp only [turn, hfind]
      exact took_branch hself
    | run m =>
      obtain rfl : r.number = m := hnumber
      obtain ⟨s, hs⟩ : ∃ s, q.gate.stages[r.number]? = some s :=
        ⟨_, List.getElem?_eq_getElem (hknown r hmem)⟩
      simp only [turn, hfind, runTurn, hs]
      cases s with
      | inside u => exact took_proceed hself hs
      | ended b =>
        cases b with
        | finished c => exact took_conclude hself hs
        | crashed =>
          refine .idle fun r' s' hr' hs' => ?_
          cases hself.symm.trans hr'
          cases hs.symm.trans hs'
          exact ⟨.ended, fun _ howes => howes.elim⟩
      | fresh => exact took_approach hself hs rfl
      | waiting => exact took_approach hself hs rfl
      | granted => exact took_approach hself hs rfl

end Queue
end Runbook
