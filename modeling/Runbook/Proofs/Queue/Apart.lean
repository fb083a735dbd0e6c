import Runbook.Proofs.Queue.Fortunes
import Runbook.Proofs.Run.Wakeful

/-!
# Runs apart

A run in a queue that nobody cancels is a run of its sequence, in its mode and with variables of its
own, beside which other things happen.  It is so at every stage (`Queue.Follows`), and what it comes
to is what such a run comes to (`Engine.CameTo`).

Nor is it forgotten.  As long as it is not over one of its tasks is on the agenda
(`Queue.Attended`), so once none of them is left there it is over.
-/

namespace Runbook

variable {σ : Type}

/-! ## What a run comes to -/

namespace Engine

section

variable (e : Engine σ) (s : Sequence) (mode : Mode)

/-- A run with variables of its own, beside which other things happened, has come to its end, or
broke off because it asked for too many places. -/
def CameTo (b : RunEnd) : Prop :=
  (∃ w ending w', w.Fresh ∧ e.Runs World.Elsewhere mode s w ending w' ∧ ending.Leaves b) ∨
    mode.fits = false ∧ b = .crashed

/-- The work of such a run has led to a stride. -/
def WorksOut (w' : World σ) : Ending (Stride σ) → Prop
  | .returned (.ended c) => e.CameTo s mode (.finished c)
  | .returned (.spread f) => ∃ bound c w, mode = .parallel bound ∧ s.steps ≠ [] ∧ w.Fresh ∧
      (e.begin s).Course World.Elsewhere w (.returned (.ok c)) w' ∧ f = fan bound s c
  | .panicked _ => e.CameTo s mode .crashed
  | .stuck => True

end

variable {e : Engine σ} {s : Sequence} {mode : Mode} {bound : Nat} {c : Context} {w w₀ w' : World σ}

/-- An activity that ends the run works out if it leaves what such a run comes to. -/
theorem worksOut_of_ended {x : Activity (World σ) Context} {r : Ending (Stride σ)}
    (hleaves : ∀ ending b, x.Course World.Elsewhere w₀ ending w' → ending.Leaves b →
      e.CameTo s mode b)
    (h : (x.bind fun c => .done (.ended c)).Course World.Elsewhere w₀ r w') :
    e.WorksOut s mode w' r := by
  obtain ⟨c, v, hx, hdone⟩ | ⟨m, hx, rfl⟩ := h.of_bind
  · obtain ⟨rfl, rfl⟩ := hdone.of_done
    exact hleaves _ _ hx (.finished c)
  · exact hleaves _ _ hx (.crashed m)

/-- Putting branches together that are all over works out. -/
theorem worksOut_of_join {x : Flight σ} {r : Ending (Stride σ)} (hw : w.Fresh)
    (hbegin : (e.begin s).Course World.Elsewhere w (.returned (.ok c)) w₀)
    (hx : e.Reaches World.Elsewhere s.steps c bound w₀ x) (hover : x.branches.isEmpty = true)
    (h : ((e.join ⟨s.steps, c, x.branches⟩).bind fun c => .done (.ended c)).Course World.Elsewhere
      x.world r w') : e.WorksOut s (.parallel bound) w' r :=
  worksOut_of_ended
    (fun _ _ hjoin hb => .inl ⟨w, _, w', hw, .joined hbegin hx hover hjoin, hb⟩) h

/-- A run that asks for too many places breaks off, unless its variables are refused. -/
theorem worksOut_of_oversized {r : Ending (Stride σ)} (hw : w.Fresh)
    (hfits : (Mode.parallel bound).fits = false)
    (h : ((e.oversized s).bind fun c => .done (.ended c)).Course World.Elsewhere w r w') :
    e.WorksOut s (.parallel bound) w' r := by
  refine worksOut_of_ended (fun ending b hcourse hb => ?_) h
  obtain ⟨started, w₀, hbegin, hcourse⟩ := hcourse.of_bind_of_returns fun _ _ hpanic =>
    ((e.notes_begin s).ending hpanic).elim
  cases started with
  | error c => exact .inl ⟨w, ending, w', hw, .refused hbegin hcourse, hb⟩
  | ok c =>
    cases hcourse
    cases hb
    exact .inr ⟨hfits, rfl⟩

/-- The work of a run works out. -/
theorem worksOut_of_work {r : Ending (Stride σ)} (hw : w.Fresh)
    (h : (Queue.work e s mode).Course World.Elsewhere w r w') : e.WorksOut s mode w' r := by
  cases mode with
  | sequential =>
    exact worksOut_of_ended (fun ending _ hrun hb => .inl ⟨w, ending, w', hw, hrun, hb⟩) h
  | parallel bound =>
    rw [Queue.work] at h
    split at h
    · -- Neither a stamp nor publishing panics.
      obtain ⟨started, w₀, hbegin, h⟩ := h.of_bind_of_returns fun _ _ hpanic =>
        ((e.notes_begin s).ending hpanic).elim
      cases started with
      | error c =>
        refine worksOut_of_ended (fun ending _ hconclude hb => ?_) h
        exact .inl ⟨w, ending, w', hw, .refused hbegin hconclude, hb⟩
      | ok c =>
        dsimp only at h
        split at h
        · next hempty =>
          have hover : (Gate.ofBound bound s.steps.length : Branches σ).isEmpty = true := by
            rw [List.isEmpty_iff.mp hempty]
            rfl
          exact worksOut_of_join hw hbegin .start hover h
        · next hsteps =>
          obtain ⟨rfl, rfl⟩ := h.of_done
          exact ⟨bound, c, w, rfl, fun hnil => hsteps (List.isEmpty_iff.mpr hnil), hw, hbegin, rfl⟩
    · next hfits => exact worksOut_of_oversized hw (Bool.eq_false_iff.mpr hfits) h

end Engine

/-! ## Stages -/

namespace Queue

/-- Where a run stands in a world that is on its way apart. -/
def Follows (e : Engine σ) (s : Sequence) (mode : Mode) (w : World σ) :
    Stage (UnderWay σ) RunEnd → Prop
  | .inside (.single next) => ∀ v r w', w.Elsewhere v →
      (next v.cancelled).Course World.Elsewhere v r w' → e.WorksOut s mode w' r
  | .inside (.fan f) => ∃ bound c v w₀ x, mode = .parallel bound ∧ v.Fresh ∧
      (e.begin s).Course World.Elsewhere v (.returned (.ok c)) w₀ ∧
      e.Reaches World.Elsewhere s.steps c bound w₀ x ∧ f = ⟨s.steps, c, x.branches⟩ ∧ w = x.world
  | .ended b => e.CameTo s mode b
  | .fresh => w.Fresh
  | .waiting => w.Fresh
  | .granted => w.Fresh

variable {e : Engine σ} {s : Sequence} {mode : Mode} {n : Nat} {t : Task} {ev : Event}
  {stage : Stage (UnderWay σ) RunEnd} {w v : World σ}

theorem Follows.fresh (h : Follows e s mode w stage) (houtside : stage.isOutside = true) :
    w.Fresh := by
  cases stage with
  | fresh => exact h
  | waiting => exact h
  | granted => exact h
  | inside u => cases houtside
  | ended b => cases houtside

/-- What happens elsewhere does not turn a run from its way. -/
theorem Follows.elsewhere (h : Follows e s mode w stage) (hv : w.Elsewhere v) :
    Follows e s mode v stage := by
  cases stage with
  | fresh => exact hv.fresh h
  | waiting => exact hv.fresh h
  | granted => exact hv.fresh h
  | ended b => exact h
  | inside u =>
    cases u with
    | single next => exact fun u r w' hu => h u r w' (hv.trans hu)
    | fan f =>
      obtain ⟨bound, c, u, w₀, x, hmode, hu, hbegin, hx, rfl, rfl⟩ := h
      exact ⟨bound, c, u, w₀, _, hmode, hu, hbegin, hx.others hv, rfl, rfl⟩

/-- A run that goes on until it waits or is over goes its way. -/
theorem follows_advance {x : Activity (World σ) (Stride σ)}
    (h : ∀ r w', x.Course World.Elsewhere w r w' → e.WorksOut s mode w' r) :
    Follows e s mode (x.advance (·.cancelled) w).2 (x.advance (·.cancelled) w).1.stage := by
  have hleads := @Activity.Course.of_advance σ _ World.Elsewhere .refl x w
  generalize x.advance (·.cancelled) w = p at hleads
  obtain ⟨pause, u⟩ := p
  cases pause with
  | panicked m => exact h _ _ (hleads .panicked)
  | asleep d next => exact fun v r w' hv hcourse => h _ _ (hleads (.asleep hv hcourse))
  | done stride =>
    have hworks := h _ _ (hleads .done)
    cases stride with
    | ended c => exact hworks
    | spread f =>
      obtain ⟨bound, c, v, hmode, -, hv, hbegin, rfl⟩ := hworks
      exact ⟨bound, c, v, u, _, hmode, hv, hbegin, .start, rfl, rfl⟩

/-- The work that a run goes on with works out. -/
theorem Resumes.worksOut {u : UnderWay σ} {x : Activity (World σ) (Stride σ)}
    (h : Resumes e w.cancelled u x) (hu : Follows e s mode w (.inside u)) {r : Ending (Stride σ)}
    {w' : World σ} (hcourse : x.Course World.Elsewhere w r w') : e.WorksOut s mode w' r := by
  cases h with
  | single => exact hu w r w' (.refl w) hcourse
  | joined hover =>
    obtain ⟨bound, c, v, w₀, x, rfl, hv, hbegin, hx, rfl, rfl⟩ := hu
    exact Engine.worksOut_of_join hv hbegin hx hover hcourse

theorem Strides.follows {y : Stretch σ} (h : Strides e n t stage w y)
    (hx : Follows e s mode w stage) : Follows e s mode y.world y.stage := by
  cases h with
  | outside hproceeds =>
    cases hproceeds with
    | comes => exact hx
    | waits => exact hx
    | calledOff hcancelled houtside =>
      rw [(hx.fresh houtside).cancelled] at hcancelled
      cases hcancelled
  | goesOn hresumes => exact follows_advance fun _ _ => hresumes.worksOut hx
  | branch =>
    obtain ⟨bound, c, v, w₀, x, hmode, hv, hbegin, hreaches, rfl, rfl⟩ := hx
    exact ⟨bound, c, v, w₀, _, hmode, hv, hbegin, hreaches.turn _, rfl, rfl⟩

/-- A run that fares on goes its way. -/
theorem Fares.follows {x y : Sight σ} (h : Fares e n s mode ev x y)
    (hx : Follows e s mode x.world x.stage) : Follows e s mode y.world y.stage := by
  cases h with
  | stays hv => exact hx.elsewhere hv
  | granted hv => exact hv.fresh hx
  | admitted houtside =>
    have hw := hx.fresh houtside
    exact fun v r w' hv hcourse => Engine.worksOut_of_work (hv.fresh hw) hcourse
  | rests => exact hx
  | turned hstrides => exact hstrides.follows hx

end Queue

/-! ## Tasks on the agenda -/

/-- Each task is over if all are. -/
theorem Gate.exists_ended {α β : Type} {g : Gate α β} (h : g.isEmpty = true) {i : Nat}
    (hi : i < g.stages.length) : ∃ b, g.stages[i]? = some (.ended b) := by
  have hover := List.all_eq_true.mp h _ (List.getElem_mem hi)
  rw [List.getElem?_eq_getElem hi]
  cases hs : g.stages[i] with
  | ended b => exact ⟨b, rfl⟩
  | _ =>
    rw [hs] at hover
    cases hover

namespace Engine

variable {e : Engine σ} {f : Fan σ} {i : Nat}

theorem sleep_carryOn {b : Branches σ} (hi : i < b.stages.length)
    (work : Activity (World σ) (List StepResult)) (w : World σ) :
    (∃ x, (carryOn b i work w).branches.stages[i]? = some (.ended x)) ∨
      ∃ d, (carryOn b i work w).sleep = some d := by
  rw [carryOn]
  split
  · exact .inl ⟨_, Gate.stages_leave_self hi _⟩
  · exact .inl ⟨_, Gate.stages_leave_self hi _⟩
  · exact .inr ⟨_, rfl⟩

/-- After its turn a branch is over or asleep. -/
theorem sleep_turn (hlength : f.branches.stages.length = f.steps.length)
    (hi : i < f.branches.stages.length) (w : World σ) :
    (∃ x, (e.turn f i w).branches.stages[i]? = some (.ended x)) ∨
      ∃ d, (e.turn f i w).sleep = some d := by
  obtain ⟨s, hs⟩ : ∃ s, f.steps[i]? = some s := ⟨_, List.getElem?_eq_getElem (hlength ▸ hi)⟩
  have hcalled := Gate.called f.branches i w.cancelled .skipped
  rw [turn]
  generalize f.branches.call i w.cancelled .skipped = call at hcalled
  cases hcalled with
  | comes =>
    simp only [hs]
    exact sleep_carryOn ((Gate.length_put _ _).symm ▸ hi) _ _
  | enters =>
    simp only [hs]
    exact sleep_carryOn hi _ _
  | inside => exact sleep_carryOn hi _ _
  | queues => exact .inr ⟨_, rfl⟩
  | waits => exact .inr ⟨_, rfl⟩
  | turns => exact .inl ⟨_, List.getElem?_set_self hi⟩
  | leaves => exact .inl ⟨_, Gate.stages_leave_self hi _⟩
  | ended hover =>
    have hstage := List.getElem?_eq_getElem hi
    obtain ⟨x, hx⟩ := hover _ hstage
    exact .inl ⟨x, hstage.trans (congrArg some hx)⟩

end Engine

namespace Queue

/-- A run that was admitted and is not over has a task on the agenda: itself while it waits, and
once all its branches are over, and each of its branches until then. -/
def Attended (n : Nat) (a : Agenda Task) : Stage (UnderWay σ) RunEnd → Prop
  | .inside (.single _) => a.Holds (.run n)
  | .inside (.fan f) => f.branches.stages.length = f.steps.length ∧
      (f.branches.isEmpty = true → .run n ∈ a.ready) ∧
      f.branches.ForAll fun i s => s.outcome? = none → a.Holds (.branch n i)
  | _ => True

variable {e : Engine σ} {s : Sequence} {mode : Mode} {n : Nat} {t : Task} {ev : Event}
  {stage : Stage (UnderWay σ) RunEnd} {w : World σ} {a b : Agenda Task}

theorem Attended.keeps (h : Attended n a stage) (hkeeps : a.Keeps (·.number = n) b) :
    Attended n b stage := by
  cases stage with
  | fresh => trivial
  | waiting => trivial
  | granted => trivial
  | ended x => trivial
  | inside u =>
    cases u with
    | single next => exact hkeeps.holds _ rfl h
    | fan f =>
      obtain ⟨hlength, hrun, hbranches⟩ := h
      exact ⟨hlength, fun hover => hkeeps.ready _ rfl (hrun hover),
        hbranches.mono fun i stage hstage hnot => hkeeps.holds _ rfl (hstage hnot)⟩

/-- A run that goes on until it waits or is over has a task on the agenda. -/
theorem attended_goesOn {y : Stretch σ} {x : Activity (World σ) (Stride σ)}
    (hworks : ∀ r w', x.Course World.Elsewhere w r w' → e.WorksOut s mode w' r)
    (hstage : y.stage = (x.advance (·.cancelled) w).1.stage)
    (hsleep : ∀ d more, (x.advance (·.cancelled) w).1 = .asleep d more → y.sleep = some d)
    (hnext : ∀ f, (x.advance (·.cancelled) w).1 = .done (.spread f) →
      y.next = (List.range f.steps.length).map (.branch n)) (a : Agenda Task) (cancelled : Bool) :
    Attended n (y.noted a (.run n) n cancelled) y.stage := by
  have hleads := @Activity.Course.of_advance σ _ World.Elsewhere .refl x w
  generalize x.advance (·.cancelled) w = p at hleads hsleep hnext hstage
  obtain ⟨pause, u⟩ := p
  have hnoted := fun hover => Stretch.noted_of_under (y := y) hover a (.run n) n cancelled
  rw [hstage] at hnoted ⊢
  cases pause with
  | panicked m => trivial
  | asleep d next =>
    rw [hnoted rfl, hsleep d next rfl]
    exact Agenda.Holds.wakeAll _ (Agenda.holds_note_self _ _ _ _ _ _)
  | done stride =>
    cases stride with
    | ended c => trivial
    | spread f =>
      obtain ⟨bound, c, v, -, hsteps, -, -, rfl⟩ := hworks _ _ (hleads .done)
      refine ⟨List.length_replicate, fun hover => ?_, fun i stage hs _ => .inl ?_⟩
      · obtain ⟨s₁, ss, hss⟩ := List.exists_cons_of_ne_nil hsteps
        rw [Engine.fan, hss] at hover
        cases hover
      · have hi : i < s.steps.length :=
          Nat.lt_of_lt_of_eq (List.getElem?_eq_some_iff.mp hs).1 List.length_replicate
        rw [hnoted rfl, hnext _ rfl]
        exact Agenda.mem_ready_wakeAll_of_mem
          (List.mem_map.mpr ⟨i, List.mem_range.mpr hi, rfl⟩)

/-- After the turn of a branch each branch that is not over is on the agenda, and if all are over
the run is. -/
theorem attended_branch {f : Fan σ} {i : Nat} {y : Stretch σ}
    (h : Attended n a (.inside (.fan f)))
    (hy : Strides e n (.branch n i) (.inside (.fan f)) w y) (cancelled : Bool) :
    Attended n (y.noted (a.without (.branch n i)) (.branch n i) n cancelled) y.stage := by
  obtain ⟨hlength, hrun, hbranches⟩ := h
  have hkeeps : ∀ u, u ≠ .branch n i → a.Keeps (· = u)
      (y.noted (a.without (.branch n i)) (.branch n i) n cancelled) := by
    refine fun u hu => (Agenda.keeps_without _ ?_ a).trans (keeps_noted _ y _ _ n cancelled)
    rintro _ rfl
    exact hu
  cases hy with
  | branch =>
  have hlength' := (Engine.turned_afterTurn (e := e) (c := f.context) (x := ⟨f.branches, w, []⟩)
    hlength i).length
  refine ⟨hlength'.trans hlength, fun hover => ?_, fun j stage hstage hnot => ?_⟩
  · obtain hi | hi := Nat.lt_or_ge i f.branches.stages.length
    · obtain ⟨x, hx⟩ := Gate.exists_ended hover (Nat.lt_of_lt_of_eq hi hlength'.symm)
      rw [Stretch.noted_of_under rfl]
      refine Agenda.mem_ready_wakeAll_of_mem ?_
      simp [hx, Stage.outcome?]
    · have hnone : ∀ s, f.branches.stages[i]? = some s → ∃ b, s = .ended b := by
        rw [List.getElem?_eq_none hi]
        rintro _ ⟨⟩
      dsimp only at hover
      rw [Engine.turn_of_gone hnone] at hover
      exact (hkeeps (.run n) (by rintro ⟨⟩)).ready _ rfl (hrun hover)
  · by_cases hj : j = i
    · subst hj
      have hi : j < f.branches.stages.length :=
        hlength' ▸ (List.getElem?_eq_some_iff.mp hstage).1
      obtain ⟨x, hx⟩ | ⟨d, hd⟩ := Engine.sleep_turn (e := e) hlength hi w
      · cases hx.symm.trans hstage
        cases hnot
      · rw [Stretch.noted_of_under rfl]
        dsimp only
        rw [hd]
        exact Agenda.Holds.wakeAll _ (Agenda.holds_note_self _ _ _ _ _ _)
    · obtain hold | hgranted := Engine.forAll_turn_granted (e := e)
        (P := fun j stage => j ≠ i → stage.outcome? = none → a.Holds (.branch n j)) hlength
        (fun j stage _ hstage _ => hbranches j stage hstage) (fun _ _ hne => absurd rfl hne) w
        j stage hstage
      · refine (hkeeps (.branch n j) ?_).holds _ rfl (hold hj hnot)
        rintro ⟨⟩
        exact hj rfl
      · refine .inl (mem_ready_noted ?_ _ _ _ _)
        dsimp only
        rw [hgranted]
        rfl

/-- A run that fares on its way has a task on the agenda until it is over. -/
theorem Fares.attended {x y : Sight σ} (h : Fares e n s mode ev x y)
    (hfollows : Follows e s mode x.world x.stage) (hx : Attended n x.agenda x.stage) :
    Attended n y.agenda y.stage := by
  cases h with
  | stays _ hkeeps => exact hx.keeps hkeeps
  | granted => trivial
  | admitted _ hready => exact .inl hready
  | @rests _ stage _ _ hidle =>
    cases hidle with
    | branch hnot =>
      cases stage with
      | inside u =>
        cases u with
        | single next =>
          exact (Agenda.keeps_without (· = .run n) (by rintro _ rfl; exact nofun)
            _).holds _ rfl hx
        | fan f => exact absurd rfl (hnot f)
      | _ => trivial
    | fan hunder =>
      obtain ⟨hlength, -, hbranches⟩ := hx
      refine ⟨hlength, fun hover => absurd (hunder.symm.trans hover) Bool.false_ne_true,
        hbranches.mono fun i stage hstage hnot => ?_⟩
      exact (Agenda.keeps_without (· = .branch n i) (by rintro _ rfl; exact nofun)
        _).holds _ rfl (hstage hnot)
    | ended => trivial
  | turned hstrides =>
    cases hstrides with
    | outside hproceeds => cases hproceeds <;> trivial
    | goesOn hresumes hsleep hnext =>
      exact attended_goesOn (fun _ _ => hresumes.worksOut hfollows) rfl hsleep hnext _ _
    | branch => exact attended_branch hx .branch _

end Queue
end Runbook
