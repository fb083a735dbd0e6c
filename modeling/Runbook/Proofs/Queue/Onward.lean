import Runbook.Proofs.Queue.Turns

/-!
# Time goes on in a queue

What is left of the work of a run, and of its branches, goes onward (`Queue.Progressive`).  So the
clock of a queue is not turned back by anything that happens (`Queue.Sound.progressive_happen`).
-/

namespace Runbook

variable {σ : Type}

/-! ## Work -/

namespace Engine

variable (e : Engine σ)

theorem forward_gatherAll : ∀ (task : Nat) (bs : List (Step × BranchEnd)),
    (gatherAll task bs : Activity (World σ) (List StepResult)).Forward
  | _, [] => trivial
  | task, (s, b) :: bs => by
      have hgather : (gather task s b : Activity (World σ) (List StepResult)).Forward := by
        cases b with
        | finished rs => trivial
        | skipped => trivial
        | crashed m =>
          exact Activity.forward_stamp.bind fun _ =>
            (forward_close _ _ _).bind fun _ => Activity.forward_done _
      exact hgather.bind fun _ =>
        (forward_gatherAll (task + 1) bs).bind fun _ => Activity.forward_done _

theorem forward_join (f : Fan σ) : (e.join f).Forward :=
  (forward_gatherAll _ _).bind fun _ => e.forward_finish _ _

end Engine

/-- The activity goes onward, and branches that it sets up have not come yet. -/
structure Activity.Progressive (x : Activity (World σ) (Stride σ)) : Prop where
  /-- It goes onward. -/
  forward : x.Forward
  /-- What it comes to, unless it breaks off. -/
  delivers : x.Delivers (fun _ => True) Stride.Concluded

/-- What is left of each branch goes onward. -/
def Branches.Forward (b : Branches σ) : Prop :=
  b.ForAll fun _ s => ∀ next, s = .inside next → ∀ c, (next c).Forward

/-- What is left of the work of the run, or of its branches, goes onward. -/
def UnderWay.Progressive : UnderWay σ → Prop
  | single next => ∀ c, (next c).Progressive
  | fan f => f.branches.stages.length = f.steps.length ∧ Branches.Forward f.branches

/-- What is left of the work of a run that is inside goes onward. -/
def Stage.Progressive (s : Stage (UnderWay σ) RunEnd) : Prop := ∀ u, s = .inside u → u.Progressive

theorem Engine.forward_oversized (e : Engine σ) (s : Sequence) : (e.oversized s).Forward := by
  refine (e.forward_begin s).bind fun started => ?_
  split
  · exact e.forward_conclude _
  · trivial

/-- The work of a run goes onward. -/
theorem Engine.progressive_work (e : Engine σ) (s : Sequence) (mode : Mode) :
    (Queue.work e s mode).Progressive := by
  refine ⟨?_, (e.delivers_work s mode).mono fun _ _ => trivial⟩
  cases mode with
  | sequential => exact (e.forward_sequential s).bind fun _ => Activity.forward_done _
  | parallel bound =>
    rw [Queue.work]
    split
    · refine (e.forward_begin s).bind fun started => ?_
      split
      · exact (e.forward_conclude _).bind fun _ => Activity.forward_done _
      · dsimp only
        split
        · exact (e.forward_join _).bind fun _ => Activity.forward_done _
        · trivial
    · exact (e.forward_oversized s).bind fun _ => Activity.forward_done _

/-! ## Turns of branches -/

namespace Engine

variable {e : Engine σ} {ss : List Step} {c : Context} {i : Nat}

theorem forward_carryOn {b : Branches σ} {work : Activity (World σ) (List StepResult)}
    (h : Branches.Forward b) (hwork : work.Forward) (w : World σ) :
    Branches.Forward (carryOn b i work w).branches := by
  have hleft := @Activity.Forward.of_asleep σ _ _ hwork w
  rw [carryOn]
  generalize work.advance (·.cancelled) w = p at hleft
  obtain ⟨pause, v⟩ := p
  cases pause with
  | done rs =>
    exact Gate.forAll_leave (fun j s _ => h j s) (by rintro _ ⟨⟩) (by rintro _ _ _ ⟨⟩)
  | panicked m =>
    exact Gate.forAll_leave (fun j s _ => h j s) (by rintro _ ⟨⟩) (by rintro _ _ _ ⟨⟩)
  | asleep d next =>
    refine Gate.ForAll.put h fun next' hnext => ?_
    cases hnext
    exact hleft rfl

/-- The turn of a branch goes onward, and so does what is left of all branches. -/
theorem Turned.forward {x y : Flight σ} (hturned : e.Turned ss c x i y)
    (h : Branches.Forward x.branches) : Branches.Forward y.branches ∧ x.world.Onward y.world := by
  have hgate : Branches.Forward (x.branches.call i x.world.cancelled .skipped).gate :=
    Gate.ForAll.call h (fun _ _ => nofun) (fun _ _ => nofun) fun _ _ _ => nofun
  cases hturned with
  | started =>
    refine ⟨forward_carryOn hgate (e.forward_branch _ _) _, ?_⟩
    rw [Turn.flight, world_carryOn]
    exact (e.forward_branch _ _).onward_advance _
  | resumed hinside =>
    have hnext := h i _ hinside _ rfl x.world.cancelled
    refine ⟨forward_carryOn h hnext _, ?_⟩
    rw [Turn.flight, world_carryOn]
    exact hnext.onward_advance _
  | stayed => exact ⟨hgate, .refl _⟩

theorem forward_turn {f : Fan σ} (hlength : f.branches.stages.length = f.steps.length)
    (h : Branches.Forward f.branches) (i : Nat) (w : World σ) :
    (e.turn f i w).branches.stages.length = f.steps.length ∧
      Branches.Forward (e.turn f i w).branches ∧ w.Onward (e.turn f i w).world := by
  have hturned := turned_afterTurn (e := e) (c := f.context) (x := ⟨f.branches, w, []⟩) hlength i
  exact ⟨hturned.length.trans hlength, hturned.forward h⟩

end Engine

/-! ## Turns of runs -/

namespace Queue

variable {e : Engine σ} {q q' : Queue σ} {t : Task} {r : QueuedRun} {bound n : Nat}

theorem Resumes.progressive {cancelled : Bool} {u : UnderWay σ} {x : Activity (World σ) (Stride σ)}
    (h : Resumes e cancelled u x) (hu : u.Progressive) : x.Progressive := by
  cases h with
  | single => exact hu cancelled
  | joined =>
    exact ⟨(e.forward_join _).bind fun _ => Activity.forward_done _,
      (e.delivers_joined _).mono fun _ _ => trivial⟩

/-- A run that goes on goes onward, and so does what is left of it. -/
theorem progressive_stage {x : Activity (World σ) (Stride σ)} (hx : x.Progressive)
    (w : World σ) : (x.advance (·.cancelled) w).1.stage.Progressive := by
  have hpending := hx.delivers.of_advance w
  have hforward := @Activity.Forward.of_asleep σ _ _ hx.forward w
  intro u hu
  generalize (x.advance (·.cancelled) w).1 = pause at hpending hforward hu
  cases pause with
  | panicked m => cases hu
  | asleep d next =>
    cases hu
    exact fun c => ⟨hforward rfl c, hpending c⟩
  | done stride =>
    cases stride with
    | ended c => cases hu
    | spread f =>
      cases hu
      obtain ⟨bound, hbranches⟩ := hpending
      rw [UnderWay.Progressive, hbranches]
      exact ⟨List.length_replicate, Gate.forAll_ofBound fun _ => nofun⟩

theorem Strides.progressive {s : Stage (UnderWay σ) RunEnd} {w : World σ} {y : Stretch σ}
    (h : Strides e n t s w y) (hs : s.Progressive) :
    y.stage.Progressive ∧ w.Onward y.world := by
  cases h with
  | outside hproceeds =>
    refine ⟨fun u hu => ?_, .refl w⟩
    subst hu
    cases hproceeds
  | goesOn hresumes =>
    have hx := hresumes.progressive (hs _ rfl)
    exact ⟨progressive_stage hx w, hx.forward.onward_advance w⟩
  | branch =>
    obtain ⟨hlength, hforward⟩ := hs _ rfl
    obtain ⟨hlength', hforward', honward⟩ := Engine.forward_turn (e := e) hlength hforward _ w
    refine ⟨fun u hu => ?_, honward⟩
    cases hu
    exact ⟨hlength', hforward'⟩

/-! ## Histories -/

/-- What is left of the work of every run goes onward. -/
def Progressive (q : Queue σ) : Prop := q.gate.ForAll fun _ s => s.Progressive

theorem progressive_new (bound : Nat) (clock : Timestamp) (surroundings : σ) :
    (new bound clock surroundings).Progressive :=
  fun _ _ hs => nomatch hs

theorem Took.progressive (h : Took e q t q') (hq : q.Progressive) :
    q'.Progressive ∧ q.clock.notAfter q'.clock = true := by
  cases h with
  | idle => exact ⟨hq, Timestamp.notAfter_refl _⟩
  | admitted _ _ _ _ _ hmoves =>
    refine ⟨Gate.ForAll.movesTo hq hmoves ?_ (fun _ _ _ => id) fun _ _ _ => nofun,
      Timestamp.notAfter_refl _⟩
    intro u hu
    cases hu
    exact fun _ => e.progressive_work _ _
  | told =>
    rw [tells]
    split <;> exact ⟨hq, Timestamp.notAfter_refl _⟩
  | turned _ hs hstrides _ hmoves =>
    obtain ⟨hstage, honward⟩ := hstrides.progressive (hq _ _ hs)
    exact ⟨Gate.ForAll.movesTo hq hmoves hstage (fun _ _ _ => id) fun _ _ _ => nofun, honward.clock⟩

/-- Whatever happens, what is left of the work of every run goes onward, and so does the clock. -/
theorem Sound.progressive_happen (h : q.Sound e bound) (hq : q.Progressive) (ev : Event) :
    (q.happen e ev).Progressive ∧ q.clock.notAfter (q.happen e ev).clock = true := by
  cases ev with
  | submit s mode => exact ⟨Gate.ForAll.enroll hq nofun, Timestamp.notAfter_refl _⟩
  | cancel m =>
    have hsame : (q.cancel m).2.gate = q.gate ∧ (q.cancel m).2.clock = q.clock := by
      rw [Queue.cancel]
      split
      · exact ⟨rfl, rfl⟩
      · split <;> exact ⟨rfl, rfl⟩
    rw [Queue.happen, Progressive, hsame.1, hsame.2]
    exact ⟨hq, Timestamp.notAfter_refl _⟩
  | wait m => exact ⟨hq, Timestamp.notAfter_refl _⟩
  | remove m =>
    obtain ⟨keep, -, heq⟩ := h.exists_remove m
    rw [Queue.happen, heq]
    exact ⟨hq, Timestamp.notAfter_refl _⟩
  | prune => exact ⟨hq, Timestamp.notAfter_refl _⟩
  | wake t => exact ⟨hq, Timestamp.notAfter_refl _⟩
  | pass millis => exact ⟨hq, Timestamp.notAfter_atLeast _ _⟩
  | turn t =>
    rw [Queue.happen]
    split
    · exact (h.took t).progressive hq
    · exact ⟨hq, Timestamp.notAfter_refl _⟩

end Queue
end Runbook
