import Runbook.Proofs.Queue.Events

/-!
# Runs that are cancelled before their work begins

An activity is *barren* if in a world that is cancelled it never waits and leaves the surroundings
alone.  The work of a run is barren (`Queue.barren_work`): once cancelled it sets the run up, passes
over its steps and ends it.  So a run that was cancelled before its work began stays *untouched*,
whatever happens from then on (`Queue.Moves.untouched`): no executor is called in its turns and in
those of its branches, and it leaves no results.
-/

namespace Runbook

variable {σ α β : Type}

/-! ## Barren activities -/

namespace Activity

/-- In a world that is cancelled the activity does not wait, leaves the surroundings alone and comes
to nothing but what `P` allows, unless it breaks off. -/
def Barren (P : α → Prop) : Activity (World σ) α → Prop
  | done a => P a
  | panic _ => True
  | look next => ∀ w, w.cancelled = true → (next w).Barren P
  | update change next =>
      (∀ w, w.cancelled = true →
        (change w).cancelled = true ∧ (change w).surroundings = w.surroundings) ∧ next.Barren P
  | await _ _ => False

/-- What a barren activity has come to in a world that is cancelled. -/
def Pause.Within (P : α → Prop) : Pause (World σ) α → Prop
  | .done a => P a
  | .panicked _ => True
  | .asleep _ _ => False

variable {P : α → Prop} {Q : β → Prop}

theorem Barren.bind {f : α → Activity (World σ) β} :
    ∀ {x : Activity (World σ) α}, x.Barren P → (∀ a, P a → (f a).Barren Q) → (x.bind f).Barren Q
  | .done a, h, hf => hf a h
  | .panic _, _, _ => trivial
  | .look _, h, hf => fun w hw => (h w hw).bind hf
  | .update _ _, h, hf => ⟨h.1, h.2.bind hf⟩
  | .await _ _, h, _ => h.elim

/-- Carried on in a world that is cancelled, a barren activity comes to its end, and the
surroundings are what they were. -/
theorem Barren.advance : ∀ {x : Activity (World σ) α}, x.Barren P → ∀ {w : World σ},
    w.cancelled = true →
    Pause.Within P (x.advance (·.cancelled) w).1 ∧
      (x.advance (·.cancelled) w).2.cancelled = true ∧
      (x.advance (·.cancelled) w).2.surroundings = w.surroundings
  | .done _, h, _, hw => ⟨h, hw, rfl⟩
  | .panic _, _, _, hw => ⟨trivial, hw, rfl⟩
  | .look _, h, w, hw => (h w hw).advance hw
  | .update _ _, h, w, hw => by
      obtain ⟨hcancelled, hsurroundings⟩ := h.1 w hw
      obtain ⟨hpause, hcancelled', hsame⟩ := h.2.advance hcancelled
      exact ⟨hpause, hcancelled', hsame.trans hsurroundings⟩
  | .await _ _, h, _, _ => h.elim

theorem barren_stamp : (World.stamp (σ := σ)).Barren fun _ => True :=
  ⟨fun _ hw => ⟨hw, rfl⟩, fun _ _ => trivial⟩

end Activity

namespace Engine

open Activity (Barren)

variable (e : Engine σ)

theorem barren_tell (n : Notice) : (e.tell n).Barren fun _ => True := by
  rw [tell]
  cases e.reporter with
  | none => trivial
  | some reporter =>
    intro w _
    dsimp only
    split
    · trivial
    · exact ⟨fun _ hw => ⟨hw, rfl⟩, trivial⟩

/-- A record without results. -/
theorem barren_conclude {c : Context} (h : c.results = []) :
    (e.conclude c).Barren fun c => c.results = [] := by
  rw [conclude, Activity.bind_eq]
  exact (e.barren_tell _).bind fun _ _ => h

theorem barren_finish {c : Context} (h : c.results = []) (status : Status) :
    (e.finish status c).Barren fun c => c.results = [] := by
  rw [finish, Activity.bind_eq]
  exact Activity.barren_stamp.bind fun _ _ => e.barren_conclude h

/-- A run begins without results. -/
theorem barren_begin (s : Sequence) : (e.begin s).Barren fun started =>
    (∀ c, started = .ok c → c.results = []) ∧ ∀ c, started = .error c → c.results = [] := by
  simp only [begin, Activity.bind_eq]
  refine Activity.barren_stamp.bind fun now _ => ⟨fun _ hw => ⟨hw, rfl⟩, ?_⟩
  dsimp only [Activity.bind]
  split
  · refine ⟨?_, by rintro _ ⟨⟩⟩
    rintro _ ⟨⟩
    rfl
  · refine Activity.barren_stamp.bind fun now _ => ⟨by rintro _ ⟨⟩, ?_⟩
    rintro _ ⟨⟩
    rfl

/-- No step is run in a world that is cancelled. -/
theorem barren_runSteps {c : Context} (h : c.results = []) (ss : List Step) :
    (e.runSteps ss c).Barren fun c => c.results = [] := by
  cases ss with
  | nil => exact h
  | cons s ss =>
    rw [runSteps]
    intro w hw
    dsimp only [Activity.bind]
    rw [if_pos hw]
    exact h

theorem barren_sequential (s : Sequence) : (e.sequential s).Barren fun c => c.results = [] := by
  rw [sequential, Activity.bind_eq]
  refine (e.barren_begin s).bind fun started hstarted => ?_
  split
  · exact e.barren_conclude (hstarted.2 _ rfl)
  · exact (e.barren_runSteps (hstarted.1 _ rfl) s.steps).bind fun _ hc => e.barren_finish hc _

theorem barren_oversized (s : Sequence) : (e.oversized s).Barren fun c => c.results = [] := by
  rw [oversized, Activity.bind_eq]
  refine (e.barren_begin s).bind fun started hstarted => ?_
  split
  · exact e.barren_conclude (hstarted.2 _ rfl)
  · trivial

theorem barren_gatherAll : ∀ (task : Nat) (bs : List (Step × BranchEnd)),
    (∀ b ∈ bs, b.2 = .skipped) → (gatherAll (σ := σ) task bs).Barren (· = [])
  | _, [], _ => rfl
  | task, (s, b) :: bs, h => by
      obtain rfl : b = .skipped := h _ List.mem_cons_self
      have hmore := barren_gatherAll (task + 1) bs fun b hb => h b (List.mem_cons_of_mem _ hb)
      rw [gatherAll, Activity.bind_eq]
      exact hmore.bind fun more hmore => hmore

end Engine

/-! ## Runs without a step -/

/-- No branch has started, and the record is empty. -/
structure Fan.Untouched (f : Fan σ) : Prop where
  /-- There are no results. -/
  results : f.context.results = []
  /-- Every branch is still to come, or was skipped. -/
  branches : ∀ s ∈ f.branches.stages, s = .fresh ∨ s = .ended .skipped

/-- The work has led to a record without results, or to branches none of which has started. -/
def Stride.Untouched : Stride σ → Prop
  | .ended c => c.results = []
  | .spread f => f.Untouched

/-- No step of the run has been started, and none will be once it is cancelled. -/
inductive Stage.Untouched : Stage (UnderWay σ) RunEnd → Prop where
  /-- It has not been admitted. -/
  | outside {s : Stage (UnderWay σ) RunEnd} : s.isOutside = true → Untouched s
  /-- What is left of its work is barren. -/
  | single {next : Bool → Activity (World σ) (Stride σ)} :
      (next true).Barren Stride.Untouched → Untouched (.inside (.single next))
  /-- It waits for branches none of which has started. -/
  | fan {f : Fan σ} : f.Untouched → Untouched (.inside (.fan f))
  /-- It has ended without results. -/
  | finished {c : Context} : c.results = [] → Untouched (.ended (.finished c))
  /-- It broke off. -/
  | brokenOff : Untouched (.ended .crashed)

/-- The run is cancelled, and no step of it has been started. -/
structure QueuedRun.Untouched (r : QueuedRun) (s : Stage (UnderWay σ) RunEnd) : Prop where
  /-- It is cancelled. -/
  cancelled : r.cancelled = true
  /-- A record that it has left has no results. -/
  left : ∀ c, r.record = some c → c.results = []
  /-- It is at a stage at which no step has been started. -/
  stage : s.Untouched

/-- What is left of barren work in a world that is cancelled. -/
theorem Activity.Pause.Within.untouched {pause : Pause (World σ) (Stride σ)}
    (h : Activity.Pause.Within Stride.Untouched pause) : pause.stage.Untouched := by
  cases pause with
  | panicked m => exact .brokenOff
  | asleep d next => exact h.elim
  | done stride =>
    cases stride with
    | ended c => exact .finished h
    | spread f => exact .fan h

namespace Queue

variable {e : Engine σ} {q : Queue σ} {t : Task} {r r' : QueuedRun} {bound n : Nat} {ev : Event}
  {s s' : Stage (UnderWay σ) RunEnd} {y : Stretch σ}

/-- Branches that were all skipped are put together to a record without results. -/
theorem barren_join {f : Fan σ} (h : f.Untouched) : (e.join f).Barren fun c => c.results = [] := by
  have hskipped : ∀ b ∈ f.steps.zip f.branches.outcomes, b.2 = .skipped := by
    rintro ⟨s, b⟩ hb
    obtain ⟨stage, hstage, houtcome⟩ := List.mem_filterMap.mp (List.of_mem_zip hb).2
    obtain rfl | rfl := h.branches stage hstage
    · cases houtcome
    · cases houtcome
      rfl
  rw [Engine.join, Activity.bind_eq]
  refine (Engine.barren_gatherAll 1 _ hskipped).bind ?_
  rintro _ rfl
  refine e.barren_finish ?_ _
  rw [List.mergeSort_nil, List.append_nil]
  exact h.results

/-- The work of a run is barren. -/
theorem barren_work (e : Engine σ) (s : Sequence) (mode : Mode) :
    (work e s mode).Barren Stride.Untouched := by
  cases mode with
  | sequential => exact (e.barren_sequential s).bind fun _ hc => hc
  | parallel bound =>
    rw [work]
    split
    · refine (e.barren_begin s).bind fun started hstarted => ?_
      split
      · exact (e.barren_conclude (hstarted.2 _ rfl)).bind fun _ hc => hc
      · next c =>
        have hfan : (Engine.fan (σ := σ) bound s c).Untouched :=
          ⟨hstarted.1 c rfl, fun _ hstage => .inl (List.eq_of_mem_replicate hstage)⟩
        dsimp only
        split
        · exact (barren_join hfan).bind fun _ hc => hc
        · exact hfan
    · exact (e.barren_oversized s).bind fun _ hc => hc

/-- The turn of a branch in a run that is cancelled skips it. -/
theorem turn_untouched {f : Fan σ} (h : f.Untouched) (i : Nat) {w : World σ}
    (hw : w.cancelled = true) :
    (e.turn f i w).world = w ∧ Fan.Untouched { f with branches := (e.turn f i w).branches } := by
  rw [Engine.turn, Gate.call, hw]
  cases hs : f.branches.stages[i]? with
  | none => exact ⟨rfl, h⟩
  | some s =>
    obtain rfl | rfl := h.branches s (List.mem_of_getElem? hs)
    · refine ⟨rfl, h.results, fun s hs => ?_⟩
      obtain hs | rfl := List.mem_or_eq_of_mem_set hs
      · exact h.branches s hs
      · exact .inr rfl
    · exact ⟨rfl, h⟩

/-- A stretch of a run that is cancelled starts no step. -/
theorem Strides.untouched {w : World σ} (h : Strides e n t s w y) (hs : s.Untouched)
    (hw : w.cancelled = true) :
    y.stage.Untouched ∧ y.world.cancelled = true ∧ y.world.surroundings = w.surroundings := by
  cases h with
  | outside hproceeds =>
    refine ⟨?_, hw, rfl⟩
    cases hproceeds with
    | comes => exact .outside rfl
    | waits => exact .outside rfl
    | calledOff _ _ hc => exact .finished hc.results
  | @goesOn u x w _ _ _ hresumes =>
    have hx : x.Barren Stride.Untouched := by
      rw [hw] at hresumes
      cases hresumes with
      | single =>
        cases hs with
        | outside hs => cases hs
        | single hnext => exact hnext
      | joined =>
        cases hs with
        | outside hs => cases hs
        | fan hf => exact (barren_join hf).bind fun _ hc => hc
    obtain ⟨hpause, hcancelled, hsame⟩ := hx.advance hw
    exact ⟨hpause.untouched, hcancelled, hsame⟩
  | @branch f i =>
    cases hs with
    | outside hs => cases hs
    | fan hf =>
      obtain ⟨hworld, hf'⟩ := turn_untouched (e := e) hf i hw
      dsimp only
      rw [hworld]
      exact ⟨.fan hf', hw, rfl⟩

/-- A run that was cancelled before a step of it was started stays so. -/
theorem Moves.untouched (hmove : Moves e q ev r s r' s') (h : r.Untouched s) : r'.Untouched s' := by
  cases hmove with
  | elsewhere _ hs' =>
    obtain rfl | ⟨-, rfl⟩ := hs'
    · exact h
    · exact ⟨h.cancelled, h.left, .outside rfl⟩
  | cancelled => exact ⟨rfl, h.left, h.stage⟩
  | rests => exact h
  | admitted _ _ hcancelled => exact nomatch hcancelled.symm.trans h.cancelled
  | told _ htells =>
    cases htells with
    | running => exact ⟨h.cancelled, h.left, h.stage⟩
    | recorded =>
      refine ⟨h.cancelled, ?_, h.stage⟩
      rintro _ ⟨⟩
      cases h.stage with
      | outside hs => cases hs
      | finished hc => exact hc
    | finished => exact ⟨h.cancelled, h.left, h.stage⟩
  | turned _ hstrides =>
    obtain ⟨hstage, hcancelled, -⟩ := hstrides.untouched h.stage h.cancelled
    exact ⟨hcancelled, h.left, hstage⟩

/-- A run that is cancelled while it shows as queued is untouched. -/
theorem untouched_cancel (hshows : r.Shows e s) (hqueued : r.state = .queued) :
    r.cancel.Untouched s := by
  have hnothing : r.record = none → ∀ c, r.record = some c → c.results = [] :=
    fun hnone c hc => nomatch hc.symm.trans hnone
  cases hshows with
  | outside hs _ hnone => exact ⟨rfl, hnothing hnone, .outside hs⟩
  | admitted _ hnone => exact ⟨rfl, hnothing hnone, .single (barren_work e _ _)⟩
  | inside hrunning => exact nomatch hqueued.symm.trans hrunning
  | ending hstate hrecord =>
    obtain hrunning | ⟨-, hc⟩ := hstate
    · exact nomatch hqueued.symm.trans hrunning
    · refine ⟨rfl, fun c' hc' => ?_, .finished hc.results⟩
      obtain hnone | hsome := hrecord
      · exact hnothing hnone c' hc'
      · rw [← Option.some.inj (hsome.symm.trans hc')]
        exact hc.results
  | finished hfinished => exact nomatch hqueued.symm.trans hfinished
  | brokenOff hrunning => exact nomatch hqueued.symm.trans hrunning

end Queue
end Runbook
