import Runbook.Proofs.Run.Gate
import Runbook.Proofs.Run.Sequential
import Runbook.Run.Parallel

/-!
# Branches of a parallel run

A parallel run is a sequence of turns of its branches, in any order, between which others may move:
other runs, the passing of time, whoever cancels.  `Engine.Reaches` are the states that it comes to
in this way, together with the branches that were started, in the order of their starts, and
`Engine.Reached` are those of a run among others who go onward.

In each of them every branch *stands* somewhere (`Engine.Reached.stands`): it was not started, and
is over only if the run was cancelled; or it was started once and is on a course of the work of its
step that nobody else cuts short.
-/

namespace Runbook

variable {σ : Type} {others : World σ → World σ → Prop}

/-- Others may let time pass. -/
def World.Timely (others : World σ → World σ → Prop) : Prop :=
  ∀ w t, w.clock.notAfter t = true → others w { w with clock := t }

namespace World.Timely

theorem refl (h : World.Timely others) (w : World σ) : others w w :=
  h w _ (Timestamp.notAfter_refl _)

theorem pass (h : World.Timely others) (ms : Nat) (w : World σ) : others w (World.pass ms w) :=
  h w _ (Timestamp.notAfter_later _ _)

end World.Timely

theorem World.timely_onward : World.Timely (σ := σ) World.Onward :=
  fun _ _ ht => ⟨ht, id⟩

/-- A parallel run under way. -/
structure Flight (σ : Type) where
  /-- The branches. -/
  branches : Branches σ
  /-- The world. -/
  world : World σ
  /-- The branches that were started, in the order of their starts. -/
  started : List Nat

/-- The state after a turn, with the branches that were started. -/
def Turn.flight (t : Turn σ) (started : List Nat) : Flight σ := ⟨t.branches, t.world, started⟩

namespace Engine

variable (e : Engine σ)

theorem forward_branch (s : Step) (c : Context) : (e.branch s c).Forward := by
  simp only [branch, Activity.bind_eq]
  exact (e.forward_runStep _ _).bind fun _ => (e.forward_record _ _).bind fun _ =>
    Activity.forward_done _

/-! ## Runs of branches -/

section

variable (ss : List Step) (c : Context)

/-- The branches and the world after the turn of a branch, which may have started it. -/
def afterTurn (x : Flight σ) (i : Nat) : Flight σ :=
  (e.turn ⟨ss, c, x.branches⟩ i x.world).flight
    (match (x.branches.call i x.world.cancelled .skipped).admission with
    | .admitted => x.started ++ [i]
    | _ => x.started)

/-- What the turn of a branch leads to: the branch is started, or it is resumed, or it stays outside
or over. -/
inductive Turned (x : Flight σ) (i : Nat) : Flight σ → Prop where
  /-- The branch is started and goes on until it waits. -/
  | started {s : Step} :
      (x.branches.call i x.world.cancelled .skipped).admission = .admitted → ss[i]? = some s →
      Turned x i
        ((carryOn (x.branches.call i x.world.cancelled .skipped).gate i (e.branch s c)
          x.world).flight (x.started ++ [i]))
  /-- The branch was inside and goes on until it waits again. -/
  | resumed {next : Bool → Activity (World σ) (List StepResult)} :
      x.branches.stages[i]? = some (.inside next) →
      Turned x i ((carryOn x.branches i (next x.world.cancelled) x.world).flight x.started)
  /-- The branch does not go on. -/
  | stayed :
      (∀ next, (x.branches.call i x.world.cancelled .skipped).admission ≠ .inside next) →
      Turned x i
        { x with branches := (x.branches.call i x.world.cancelled .skipped).gate }

/-- The states that a parallel run of steps comes to among others. -/
inductive Reaches (others : World σ → World σ → Prop) (ss : List Step) (c : Context) (bound : Nat)
    (w₀ : World σ) : Flight σ → Prop where
  /-- No branch has come yet. -/
  | start : Reaches others ss c bound w₀ ⟨Gate.ofBound bound ss.length, w₀, []⟩
  /-- A branch has its turn. -/
  | turn {x : Flight σ} (i : Nat) :
      Reaches others ss c bound w₀ x → Reaches others ss c bound w₀ (e.afterTurn ss c x i)
  /-- Others move. -/
  | others {x : Flight σ} {v : World σ} :
      Reaches others ss c bound w₀ x → others x.world v →
      Reaches others ss c bound w₀ { x with world := v }

/-- The states that it comes to among others who go onward. -/
abbrev Reached (bound : Nat) (w₀ : World σ) : Flight σ → Prop :=
  e.Reaches World.Onward ss c bound w₀

/-- Where a branch stands in a world, after starts of branches. -/
inductive Stands (w : World σ) (started : List Nat) (i : Nat) :
    Stage (Bool → Activity (World σ) (List StepResult)) BranchEnd → Prop where
  /-- It has not come yet. -/
  | fresh : i ∉ started → Stands w started i .fresh
  /-- It waits for a place. -/
  | waiting : i ∉ started → Stands w started i .waiting
  /-- It was granted a place. -/
  | granted : i ∉ started → Stands w started i .granted
  /-- It was started once, and what is left leads to ends of the work of its step. -/
  | inside {next : Bool → Activity (World σ) (List StepResult)} {s : Step} {w₀ : World σ} :
      started.count i = 1 → ss[i]? = some s → w₀.cancelled = false → (∀ b, (next b).Forward) →
      (∀ v r w', w.Onward v → (next v.cancelled).Course World.Onward v r w' →
        (e.branch s c).Course World.Onward w₀ r w') →
      Stands w started i (.inside next)
  /-- It was started once and has come to the end of its work. -/
  | finished {rs : List StepResult} {s : Step} {w₀ w' : World σ} :
      started.count i = 1 → ss[i]? = some s → w₀.cancelled = false →
      (e.branch s c).Course World.Onward w₀ (.returned rs) w' →
      Stands w started i (.ended (.finished rs))
  /-- It was started once and has broken off. -/
  | crashed {m : Option String} {s : Step} {w₀ w' : World σ} :
      started.count i = 1 → ss[i]? = some s → w₀.cancelled = false →
      (e.branch s c).Course World.Onward w₀ (.panicked m) w' →
      Stands w started i (.ended (.crashed m))
  /-- The run was cancelled before it was started. -/
  | skipped : i ∉ started → w.cancelled = true → Stands w started i (.ended .skipped)

end

variable {e} {ss : List Step} {c : Context} {w : World σ} {started : List Nat} {i : Nat}

/-- A branch stands where it stands while others go onward. -/
theorem Stands.onward {v : World σ}
    {stage : Stage (Bool → Activity (World σ) (List StepResult)) BranchEnd}
    (h : e.Stands ss c w started i stage) (hv : w.Onward v) : e.Stands ss c v started i stage := by
  cases h with
  | fresh hout => exact .fresh hout
  | waiting hout => exact .waiting hout
  | granted hout => exact .granted hout
  | inside hcount hs hw₀ hforward hrest =>
    exact .inside hcount hs hw₀ hforward fun u r w' hu => hrest u r w' (hv.trans hu)
  | finished hcount hs hw₀ hcourse => exact .finished hcount hs hw₀ hcourse
  | crashed hcount hs hw₀ hcourse => exact .crashed hcount hs hw₀ hcourse
  | skipped hout hcancelled => exact .skipped hout (hv.cancelled hcancelled)

/-- A branch stands where it stands while another one is started. -/
theorem Stands.append {j : Nat}
    {stage : Stage (Bool → Activity (World σ) (List StepResult)) BranchEnd}
    (h : e.Stands ss c w started j stage) (hj : j ≠ i) :
    e.Stands ss c w (started ++ [i]) j stage := by
  have hnot : j ∉ started → j ∉ started ++ [i] := by simp [hj]
  have hcount : started.count j = 1 → (started ++ [i]).count j = 1 := by
    intro hone
    rw [List.count_append, hone, List.count_singleton, if_neg]
    simpa using hj.symm
  cases h with
  | fresh hout => exact .fresh (hnot hout)
  | waiting hout => exact .waiting (hnot hout)
  | granted hout => exact .granted (hnot hout)
  | inside hone hs hw₀ hforward hrest => exact .inside (hcount hone) hs hw₀ hforward hrest
  | finished hone hs hw₀ hcourse => exact .finished (hcount hone) hs hw₀ hcourse
  | crashed hone hs hw₀ hcourse => exact .crashed (hcount hone) hs hw₀ hcourse
  | skipped hout hcancelled => exact .skipped (hnot hout) hcancelled

theorem Stands.come (h : e.Stands ss c w started i .fresh) :
    e.Stands ss c w started i .waiting := by
  cases h with
  | fresh hout => exact .waiting hout

theorem Stands.grant (h : e.Stands ss c w started i .waiting) :
    e.Stands ss c w started i .granted := by
  cases h with
  | waiting hout => exact .granted hout

theorem Stands.skip (h : e.Stands ss c w started i .granted) (hw : w.cancelled = true) :
    e.Stands ss c w started i (.ended .skipped) := by
  cases h with
  | granted hout => exact .skipped hout hw

/-- A branch with a place that goes on stands on its course, and the others where they stood. -/
theorem forAll_carryOn {b : Branches σ} {work : Activity (World σ) (List StepResult)} {s : Step}
    {w₀ : World σ}
    (hothers : ∀ j stage, j ≠ i → b.stages[j]? = some stage → e.Stands ss c w started j stage)
    (hone : started.count i = 1) (hs : ss[i]? = some s) (hw₀ : w₀.cancelled = false)
    (hforward : work.Forward)
    (hwork : ∀ r w', work.Course World.Onward w r w' →
      (e.branch s c).Course World.Onward w₀ r w') :
    (carryOn b i work w).branches.ForAll (e.Stands ss c (carryOn b i work w).world started) := by
  have honward := hforward.onward_advance w
  have hleft := @Activity.Forward.of_asleep σ _ _ hforward w
  have hcourse := fun r w' => hwork r w' ∘ Activity.Course.of_advance World.Onward.refl
  rw [carryOn]
  generalize work.advance (·.cancelled) w = p at honward hleft hcourse
  obtain ⟨pause, v⟩ := p
  have hothers := fun j stage hj hstage => (hothers j stage hj hstage).onward honward
  cases pause with
  | done rs =>
    exact Gate.forAll_leave hothers (.finished hone hs hw₀ (hcourse _ _ .done)) fun _ => .grant
  | panicked m =>
    exact Gate.forAll_leave hothers (.crashed hone hs hw₀ (hcourse _ _ .panicked)) fun _ => .grant
  | asleep delay next =>
    exact Gate.forAll_put hothers
      (.inside hone hs hw₀ (hleft rfl) fun u r w' hu hnext => hcourse r w' (.asleep hu hnext))

/-! ## Turns -/

theorem turned_afterTurn {x : Flight σ} (hlength : x.branches.stages.length = ss.length) (i : Nat) :
    e.Turned ss c x i (e.afterTurn ss c x i) := by
  have hgate := Gate.length_call (g := x.branches) i x.world.cancelled .skipped
  have hstayed := @Turned.stayed σ e ss c x i
  cases hadmission : (x.branches.call i x.world.cancelled .skipped).admission with
  | admitted =>
    have hplace := (Gate.call_admitted hadmission).2
    have hi : i < ss.length := by
      rw [← hlength, ← hgate]
      exact (List.getElem?_eq_some_iff.mp hplace).1
    have hs : ss[i]? = some ss[i] := List.getElem?_eq_getElem hi
    simp only [afterTurn, turn, hadmission, hs]
    exact .started hadmission hs
  | inside next =>
    obtain ⟨hinside, hsame⟩ := Gate.call_inside hadmission
    simp only [afterTurn, turn, hadmission, hsame]
    exact .resumed hinside
  | held =>
    simp only [afterTurn, turn, hadmission]
    exact hstayed (by simp [hadmission])
  | gone =>
    simp only [afterTurn, turn, hadmission]
    exact hstayed (by simp [hadmission])

/-- The turn of a branch leaves every branch where it may stand. -/
theorem Turned.forAll_stands {x y : Flight σ} (hturned : e.Turned ss c x i y)
    (h : x.branches.ForAll (e.Stands ss c x.world x.started)) :
    y.branches.ForAll (e.Stands ss c y.world y.started) := by
  have hgate : (x.branches.call i x.world.cancelled .skipped).gate.ForAll
      (e.Stands ss c x.world x.started) :=
    h.call (fun _ => .come) (fun _ => .grant) fun hcancelled _ hplace => hplace.skip hcancelled
  cases hturned with
  | started hadmission hs =>
    obtain ⟨hnot, hplace⟩ := Gate.call_admitted hadmission
    have hone : (x.started ++ [i]).count i = 1 := by
      cases hgate i _ hplace with
      | granted hout =>
        rw [List.count_append, List.count_eq_zero_of_not_mem hout, List.count_singleton_self]
    exact forAll_carryOn (fun j stage hj hstage => (hgate j stage hstage).append hj) hone hs hnot
      (e.forward_branch _ _) fun _ _ hcourse => hcourse
  | resumed hinside =>
    cases h i _ hinside with
    | inside hone hs hw₀ hforward hrest =>
      exact forAll_carryOn (fun j stage _ => h j stage) hone hs hw₀ (hforward _)
        fun r w' => hrest x.world r w' (.refl _)
  | stayed => exact hgate

theorem length_carryOn (b : Branches σ) (i : Nat) (work : Activity (World σ) (List StepResult))
    (w : World σ) : (carryOn b i work w).branches.stages.length = b.stages.length := by
  rw [carryOn]
  split
  · exact Gate.length_leave _ _
  · exact Gate.length_leave _ _
  · exact Gate.length_put _ _

theorem Turned.length {x y : Flight σ} (h : e.Turned ss c x i y) :
    y.branches.stages.length = x.branches.stages.length := by
  cases h with
  | started => exact (length_carryOn _ _ _ _).trans (Gate.length_call _ _ _)
  | resumed => exact length_carryOn _ _ _ _
  | stayed => exact Gate.length_call _ _ _

theorem world_carryOn (b : Branches σ) (i : Nat) (work : Activity (World σ) (List StepResult))
    (w : World σ) : (carryOn b i work w).world = (work.advance (·.cancelled) w).2 := by
  rw [carryOn]
  split
  · next h => rw [h]
  · next h => rw [h]
  · next h => rw [h]

/-- During the turn of a branch the world goes onward. -/
theorem Turned.onward {x y : Flight σ} (hturned : e.Turned ss c x i y)
    (h : x.branches.ForAll (e.Stands ss c x.world x.started)) : x.world.Onward y.world := by
  cases hturned with
  | started =>
    rw [Turn.flight, world_carryOn]
    exact (e.forward_branch _ _).onward_advance _
  | resumed hinside =>
    cases h i _ hinside with
    | inside _ _ _ hforward _ =>
      rw [Turn.flight, world_carryOn]
      exact (hforward _).onward_advance _
  | stayed => exact .refl _

/-! ## Runs -/

/-- In every state that a parallel run comes to, every branch stands somewhere. -/
theorem Reached.stands {bound : Nat} {w₀ : World σ} {x : Flight σ}
    (h : e.Reached ss c bound w₀ x) :
    x.branches.stages.length = ss.length ∧
      x.branches.ForAll (e.Stands ss c x.world x.started) := by
  induction h with
  | start => exact ⟨List.length_replicate, Gate.forAll_ofBound fun _ => .fresh List.not_mem_nil⟩
  | turn i _ ih =>
    have hturned : e.Turned ss c _ i _ := turned_afterTurn ih.1 i
    exact ⟨hturned.length.trans ih.1, hturned.forAll_stands ih.2⟩
  | others _ hv ih => exact ⟨ih.1, ih.2.mono fun _ _ hstands => hstands.onward hv⟩

/-- A run among others who go onward comes to no other states. -/
theorem Reaches.reached (hothers : ∀ w v, others w v → w.Onward v) {bound : Nat} {w₀ : World σ}
    {x : Flight σ} (h : e.Reaches others ss c bound w₀ x) : e.Reached ss c bound w₀ x := by
  induction h with
  | start => exact .start
  | turn i _ ih => exact .turn i ih
  | others _ hv ih => exact .others ih (hothers _ _ hv)

end Engine
end Runbook
