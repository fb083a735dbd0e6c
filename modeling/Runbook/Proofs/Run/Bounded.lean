import Mathlib.Logic.Relation
import Runbook.Proofs.Run.Branches
import Runbook.Proofs.Run.Places
import Runbook.Proofs.Run.SideBySide

/-!
# The bound of a parallel run

A parallel run makes its moves by an agenda: whichever branch is ready has its turn, waits may be
over at any time, and others may go onward.  In whatever order this happens, the branches that have
started and not ended are never more than the bound allows, none starts once the run is cancelled,
and a branch waits for a place while nobody is ready only if all places are taken by branches that
are suspended inside a step.  This is `Engine.Bounded`, and `Engine.bounded_of_moves` says that it
holds in every state that such a run comes to.

A parallel run alone makes these moves: `Engine.moves_settle`.
-/

namespace Runbook

variable {σ : Type}

/-! ## Agendas -/

namespace Agenda

variable {κ : Type} [DecidableEq κ] {a : Agenda κ} {j : κ}

theorem mem_ready_wake (k : κ) (h : j ∈ a.ready) : j ∈ (a.wake k).ready := by
  rw [wake]
  split
  · exact h
  · exact List.mem_append_left _ h

theorem self_mem_ready_wake (a : Agenda κ) (k : κ) : k ∈ (a.wake k).ready := by
  rw [wake]
  split
  · next h => exact h
  · exact List.mem_append_right _ (List.mem_singleton_self k)

theorem mem_ready_wakeAll : ∀ (ks : List κ) {a : Agenda κ}, j ∈ a.ready → j ∈ (a.wakeAll ks).ready
  | [], _, h => h
  | k :: ks, _, h => mem_ready_wakeAll ks (mem_ready_wake k h)

/-- Who is ready stays ready when a turn is noted, and who was granted a place gets ready. -/
theorem mem_ready_note {self : κ} {among : κ → Bool} {cancelled : Bool} {granted : Option κ}
    {sleep : Option Delay} {w : World σ} (h : j ∈ a.ready ∨ granted = some j) :
    j ∈ (a.note self among cancelled granted sleep w).ready := by
  have hroused : j ∈ a.ready → j ∈ (if cancelled then a.rouse among else a).ready := by
    intro hj
    split
    · exact mem_ready_wakeAll _ hj
    · exact hj
  cases granted with
  | none =>
    have hready := hroused (h.resolve_right (by simp))
    cases sleep with
    | none => exact hready
    | some d => exact hready
  | some k =>
    have hready : j ∈ ((if cancelled then a.rouse among else a).wake k).ready := by
      obtain h | h := h
      · exact mem_ready_wake k (hroused h)
      · cases h
        exact self_mem_ready_wake _ _
    cases sleep with
    | none => exact hready
    | some d => exact hready

/-- The task whose turn it is was ready, and is so no more. -/
theorem turn?_eq_some {k : κ} {rest : Agenda κ} (h : a.turn? = some (k, rest)) :
    k ∈ a.ready ∧ rest = { a with ready := a.ready.erase k } := by
  rw [turn?] at h
  split at h
  · cases h
  · next j ks hready =>
    cases h
    rw [hready, List.erase_cons_head]
    exact ⟨List.mem_cons_self, rfl⟩

end Agenda

namespace Engine

variable {e : Engine σ} {ss : List Step} {c : Context} {bound i : Nat} {w : World σ}

/-! ## Places -/

theorem fair_carryOn {b : Branches σ} (hb : b.Fair bound)
    {s : Stage (Bool → Activity (World σ) (List StepResult)) BranchEnd}
    (hs : b.stages[i]? = some s) (hplace : s.hasPlace = true)
    (work : Activity (World σ) (List StepResult)) (w : World σ) :
    (carryOn b i work w).branches.Fair bound := by
  rw [carryOn]
  split
  · exact hb.leave hs hplace _
  · exact hb.leave hs hplace _
  · exact hb.put hs hplace (by simp)

/-- The turn of a branch loses no place, whatever becomes of the branch. -/
theorem Turned.fair {x y : Flight σ} (hturned : e.Turned ss c x i y) (h : x.branches.Fair bound) :
    y.branches.Fair bound := by
  have hgate := h.call i x.world.cancelled .skipped
  cases hturned with
  | started hadmission _ => exact fair_carryOn hgate (Gate.call_admitted hadmission).2 rfl _ _
  | resumed hinside => exact fair_carryOn h hinside rfl _ _
  | stayed => exact hgate

theorem Reached.fair {w₀ : World σ} {x : Flight σ} (h : e.Reached ss c bound w₀ x) :
    x.branches.Fair bound := by
  induction h with
  | start => exact Gate.fair_ofBound _ _
  | turn i hx ih => exact (turned_afterTurn (Reached.stands hx).1 i).fair ih
  | others _ _ ih => exact ih

/-! ## Branches that have started and not ended -/

/-- The branches that were started are among the branches. -/
theorem Reached.lt_of_started {w₀ : World σ} {x : Flight σ} (h : e.Reached ss c bound w₀ x) :
    ∀ i ∈ x.started, i < ss.length := by
  induction h with
  | start => simp
  | @turn x i hx ih =>
    have hturned : e.Turned ss c x i _ := turned_afterTurn (Reached.stands hx).1 i
    generalize e.afterTurn ss c x i = y at hturned
    cases hturned with
    | started _ hs =>
      exact List.forall_mem_append.mpr
        ⟨ih, List.forall_mem_singleton.mpr (List.getElem?_eq_some_iff.mp hs).1⟩
    | resumed _ => exact ih
    | stayed _ => exact ih
  | others _ _ ih => exact ih

/-- The branches that have started and not ended are those that are suspended inside a step. -/
theorem Reached.inside_iff {w₀ : World σ} {x : Flight σ} (h : e.Reached ss c bound w₀ x) (i : Nat) :
    (∃ next, x.branches.stages[i]? = some (.inside next)) ↔
      i ∈ x.started ∧ ∀ b, x.branches.stages[i]? ≠ some (.ended b) := by
  obtain ⟨hlength, hstands⟩ := h.stands
  constructor
  · rintro ⟨next, hinside⟩
    cases hstands i _ hinside with
    | inside hone _ _ _ _ =>
      refine ⟨List.count_pos_iff.mp (hone ▸ Nat.one_pos), fun b hb => ?_⟩
      rw [hinside] at hb
      cases hb
  · rintro ⟨hstarted, hnot⟩
    have hlt : i < x.branches.stages.length := hlength ▸ h.lt_of_started i hstarted
    have hstage := List.getElem?_eq_getElem hlt
    have hstand := hstands i _ hstage
    cases hs : x.branches.stages[i] with
    | inside next => exact ⟨next, hstage.trans (congrArg some hs)⟩
    | ended b => exact absurd (hstage.trans (congrArg some hs)) (hnot b)
    | fresh =>
      rw [hs] at hstand
      cases hstand with
      | fresh hout => exact absurd hstarted hout
    | waiting =>
      rw [hs] at hstand
      cases hstand with
      | waiting hout => exact absurd hstarted hout
    | granted =>
      rw [hs] at hstand
      cases hstand with
      | granted hout => exact absurd hstarted hout

/-- In a run that is cancelled the turn of a branch starts none. -/
theorem started_afterTurn {x : Flight σ} (h : x.world.cancelled = true) (i : Nat) :
    (e.afterTurn ss c x i).started = x.started := by
  rw [afterTurn, Turn.flight]
  split
  · next hadmission =>
    rw [(Gate.call_admitted hadmission).1] at h
    cases h
  · rfl

end Engine

/-! ## Moves -/

/-- A parallel run under way, with the turns of its branches. -/
structure Rota (σ : Type) where
  /-- The run. -/
  flight : Flight σ
  /-- The turns of its branches. -/
  agenda : Agenda Nat

/-- The run in a world that others leave.  If they cancel it, every branch that sleeps is woken. -/
def Rota.inWorld (x : Rota σ) (v : World σ) : Rota σ :=
  ⟨{ x.flight with world := v },
    if !x.flight.world.cancelled && v.cancelled then x.agenda.rouse fun _ => true else x.agenda⟩

/-- Every branch that waits for nothing but its turn is ready. -/
def Rota.Alert (x : Rota σ) : Prop :=
  x.flight.branches.ForAll fun i s => s.isEager = true → i ∈ x.agenda.ready

theorem Rota.inWorld_of_eq (x : Rota σ) {v : World σ} (h : v.cancelled = x.flight.world.cancelled) :
    x.inWorld v = ⟨{ x.flight with world := v }, x.agenda⟩ := by
  rw [inWorld, h, Bool.not_and_self]
  rfl

namespace Engine

section

variable (e : Engine σ) (ss : List Step) (c : Context)

/-- A run of steps that has just been set up: every branch is ready. -/
def setUp (bound : Nat) (w₀ : World σ) : Rota σ :=
  ⟨⟨Gate.ofBound bound ss.length, w₀, []⟩, ⟨List.range ss.length, []⟩⟩

/-- The run after the turn of a branch that was ready. -/
def afterReady (x : Rota σ) (i : Nat) : Rota σ :=
  let t := e.turn ⟨ss, c, x.flight.branches⟩ i x.flight.world
  ⟨e.afterTurn ss c x.flight i,
    ({ x.agenda with ready := x.agenda.ready.erase i } : Agenda Nat).note i (fun _ => true)
      (!x.flight.world.cancelled && t.world.cancelled) t.granted t.sleep t.world⟩

/-- A move of a parallel run. -/
inductive Move : Rota σ → Rota σ → Prop where
  /-- A branch that is ready has its turn. -/
  | turn {x : Rota σ} {i : Nat} : i ∈ x.agenda.ready → Move x (e.afterReady ss c x i)
  /-- A branch is woken because its wait is over, or for nothing. -/
  | wake {x : Rota σ} (i : Nat) : Move x ⟨x.flight, x.agenda.wake i⟩
  /-- Others go onward. -/
  | others {x : Rota σ} {v : World σ} : x.flight.world.Onward v → Move x (x.inWorld v)

/-- A parallel run moves from one state to another. -/
def Moves : Rota σ → Rota σ → Prop := Relation.ReflTransGen (e.Move ss c)

end

variable {e : Engine σ} {ss : List Step} {c : Context} {bound : Nat} {w₀ : World σ} {x y : Rota σ}

theorem Move.reached (h : e.Move ss c x y) (hx : e.Reached ss c bound w₀ x.flight) :
    e.Reached ss c bound w₀ y.flight := by
  cases h with
  | turn _ => exact hx.turn _
  | wake _ => exact hx
  | others hv => exact hx.others hv

theorem Moves.reached (h : e.Moves ss c x y) (hx : e.Reached ss c bound w₀ x.flight) :
    e.Reached ss c bound w₀ y.flight := by
  induction h with
  | refl => exact hx
  | tail _ hmove ih => exact hmove.reached ih

/-- In a run that is cancelled a move starts no branch, and the run stays cancelled. -/
theorem Move.started (h : e.Move ss c x y) (hx : e.Reached ss c bound w₀ x.flight)
    (hcancelled : x.flight.world.cancelled = true) :
    y.flight.started = x.flight.started ∧ y.flight.world.cancelled = true := by
  cases h with
  | turn _ =>
    have hstands := hx.stands
    exact ⟨started_afterTurn hcancelled _,
      ((turned_afterTurn hstands.1 _).onward hstands.2).cancelled hcancelled⟩
  | wake _ => exact ⟨rfl, hcancelled⟩
  | others hv => exact ⟨rfl, hv.cancelled hcancelled⟩

/-- Once the run is cancelled no branch starts. -/
theorem Moves.started (h : e.Moves ss c x y) (hx : e.Reached ss c bound w₀ x.flight)
    (hcancelled : x.flight.world.cancelled = true) :
    y.flight.started = x.flight.started ∧ y.flight.world.cancelled = true := by
  induction h with
  | refl => exact ⟨rfl, hcancelled⟩
  | tail hmoves hmove ih =>
    obtain ⟨hsame, hstill⟩ := hmove.started (Moves.reached hmoves hx) ih.2
    exact ⟨hsame.trans ih.1, hstill⟩

/-! ## Branches that are ready -/

theorem granted_of_admitted {g : Branches σ} {i : Nat} {cancelled : Bool}
    (h : (g.call i cancelled .skipped).admission ≠ .gone) :
    (g.call i cancelled .skipped).granted = none := by
  have hcalled := Gate.called g i cancelled .skipped
  generalize g.call i cancelled .skipped = call at hcalled h ⊢
  cases hcalled with
  | leaves => exact absurd rfl h
  | comes => rfl
  | enters => rfl
  | inside => rfl
  | queues => rfl
  | waits => rfl
  | turns => rfl
  | ended => rfl

/-- A branch that goes on changes the stage of no other branch but the one that is granted its
place, and is not eager afterwards. -/
theorem forAll_carryOn_granted {P : Nat → Stage _ BranchEnd → Prop} {b : Branches σ} {i : Nat}
    (h : ∀ j s, j ≠ i → b.stages[j]? = some s → P j s) (hidle : ∀ s, s.isEager = false → P i s)
    (work : Activity (World σ) (List StepResult)) (w : World σ) :
    (carryOn b i work w).branches.ForAll fun j s =>
      P j s ∨ (carryOn b i work w).granted = some j := by
  rw [carryOn]
  split
  · exact Gate.forAll_leave_granted h (hidle _ rfl)
  · exact Gate.forAll_leave_granted h (hidle _ rfl)
  · exact Gate.forAll_put (fun j s hj hs => .inl (h j s hj hs)) (.inl (hidle _ rfl))

/-- The turn of a branch changes the stage of no other branch but the one that is granted a place,
and the branch is not eager afterwards. -/
theorem forAll_turn_granted {P : Nat → Stage _ BranchEnd → Prop} {f : Fan σ} {i : Nat}
    (hlength : f.branches.stages.length = f.steps.length)
    (h : ∀ j s, j ≠ i → f.branches.stages[j]? = some s → P j s)
    (hidle : ∀ s, s.isEager = false → P i s) (w : World σ) :
    (e.turn f i w).branches.ForAll fun j s => P j s ∨ (e.turn f i w).granted = some j := by
  have hgate := Gate.forAll_call_granted w.cancelled .skipped h hidle
  have hstayed : (f.branches.call i w.cancelled .skipped).admission ≠ .admitted →
      (f.branches.call i w.cancelled .skipped).gate.ForAll fun j s =>
        P j s ∨ (f.branches.call i w.cancelled .skipped).granted = some j :=
    fun hnot => hgate.mono fun j s hj => hj.resolve_left fun hself => hnot hself.2
  have hgone := @granted_of_admitted σ f.branches i w.cancelled
  cases hadmission : (f.branches.call i w.cancelled .skipped).admission with
  | admitted =>
    have hplace := (Gate.call_admitted hadmission).2
    have hi : i < f.steps.length := by
      rw [← hlength, ← Gate.length_call (g := f.branches) i w.cancelled .skipped]
      exact (List.getElem?_eq_some_iff.mp hplace).1
    have hs : f.steps[i]? = some f.steps[i] := List.getElem?_eq_getElem hi
    have hnone := hgone (by simp [hadmission])
    have hothers : ∀ j s, j ≠ i →
        (f.branches.call i w.cancelled .skipped).gate.stages[j]? = some s → P j s := by
      intro j s hj hstage
      obtain ⟨rfl, -⟩ | hP | hgranted := hgate j s hstage
      · exact absurd rfl hj
      · exact hP
      · rw [hnone] at hgranted
        cases hgranted
    simp only [turn, hadmission, hs]
    exact forAll_carryOn_granted hothers hidle _ _
  | inside next =>
    simp only [turn, hadmission, (Gate.call_inside hadmission).2]
    exact forAll_carryOn_granted h hidle _ _
  | held =>
    have hheld := hstayed (by simp [hadmission])
    rw [hgone (by simp [hadmission])] at hheld
    simp only [turn, hadmission]
    exact hheld
  | gone =>
    simp only [turn, hadmission]
    exact hstayed (by simp [hadmission])

theorem alert_setUp (ss : List Step) (bound : Nat) (w₀ : World σ) : (setUp ss bound w₀).Alert := by
  intro i s hs _
  have hlt := (List.getElem?_eq_some_iff.mp hs).1
  rw [setUp, Gate.ofBound, List.length_replicate] at hlt
  exact List.mem_range.mpr hlt

theorem Move.alert (h : e.Move ss c x y) (hx : e.Reached ss c bound w₀ x.flight)
    (halert : x.Alert) : y.Alert := by
  cases h with
  | @turn i _ =>
    have hturn := forAll_turn_granted (e := e)
      (P := fun j s => s.isEager = true → j ∈ x.agenda.ready.erase i)
      (f := ⟨ss, c, x.flight.branches⟩) hx.stands.1
      (fun j s hj hs heager => (List.mem_erase_of_ne hj).mpr (halert j s hs heager))
      (fun s hidle heager => absurd (hidle.symm.trans heager) Bool.false_ne_true)
      x.flight.world
    intro j s hs heager
    obtain hready | hgranted := hturn j s hs
    · exact Agenda.mem_ready_note (.inl (hready heager))
    · exact Agenda.mem_ready_note (.inr hgranted)
  | wake i => exact fun j s hs heager => Agenda.mem_ready_wake i (halert j s hs heager)
  | others hv =>
    intro j s hs heager
    have hready := halert j s hs heager
    rw [Rota.inWorld]
    split
    · exact Agenda.mem_ready_wakeAll _ hready
    · exact hready

/-! ## The bound -/

section

variable (e ss c bound)

/-- What holds in a state of a parallel run with a bound. -/
structure Bounded (x : Rota σ) : Prop where
  /-- No place is lost: each is free, or one branch has it. -/
  accounted : x.flight.branches.free + x.flight.branches.taken = Gate.places bound
  /-- The branches that have started and not ended are those that are suspended inside a step. -/
  underWay : ∀ i, (∃ next, x.flight.branches.stages[i]? = some (.inside next)) ↔
    i ∈ x.flight.started ∧ ∀ b, x.flight.branches.stages[i]? ≠ some (.ended b)
  /-- They are not more than the bound allows. -/
  bounded : x.flight.branches.stages.countP (·.isInside) ≤ Gate.places bound
  /-- Once the run is cancelled no branch starts. -/
  closed : x.flight.world.cancelled = true →
    ∀ y, e.Moves ss c x y → y.flight.started = x.flight.started
  /-- A branch waits to start while nobody is ready only if as many branches as the bound allows are
  suspended inside a step. -/
  full : .waiting ∈ x.flight.branches.stages → x.agenda.ready = [] →
    x.flight.branches.stages.countP (·.isInside) = Gate.places bound

end

theorem Moves.alert (h : e.Moves ss c x y) (hx : e.Reached ss c bound w₀ x.flight)
    (halert : x.Alert) : y.Alert := by
  induction h with
  | refl => exact halert
  | tail hmoves hmove ih => exact hmove.alert (Moves.reached hmoves hx) ih

theorem bounded_of_alert (halert : x.Alert) (hx : e.Reached ss c bound w₀ x.flight) :
    e.Bounded ss c bound x where
  accounted := hx.fair.accounted
  underWay := hx.inside_iff
  bounded := calc
    x.flight.branches.stages.countP (·.isInside)
    _ ≤ x.flight.branches.taken := x.flight.branches.countP_isInside_le
    _ ≤ x.flight.branches.free + x.flight.branches.taken := Nat.le_add_left _ _
    _ = Gate.places bound := hx.fair.accounted
  closed := fun hcancelled _ hy => (hy.started hx hcancelled).1
  full := by
    intro hwaiting hready
    have hidle : ∀ s ∈ x.flight.branches.stages, s.isEager = false := by
      intro s hs
      obtain ⟨i, hi⟩ := List.mem_iff_getElem?.mp hs
      refine Bool.eq_false_iff.mpr fun heager => ?_
      have hmem := halert i s hi heager
      rw [hready] at hmem
      cases hmem
    have hfree := hx.fair.full hwaiting
    have haccounted := hx.fair.accounted
    rw [Gate.countP_isInside hidle]
    omega

/-- Whatever executors and reporter do, in whatever order branches have their turns and waits are
over, and whenever the run is cancelled: in every state that a parallel run comes to the bound is
kept and no place is lost. -/
theorem bounded_of_moves (h : e.Moves ss c (setUp ss bound w₀) x) : e.Bounded ss c bound x :=
  have hx : e.Reached ss c bound w₀ x.flight := h.reached .start
  bounded_of_alert (h.alert .start (alert_setUp ss bound w₀)) hx

/-- An engine whose executor waits until the run is cancelled. -/
def patient : Engine Unit :=
  ⟨[.ofKind .custom fun _ _ =>
      .await ⟨none, true⟩ fun _ => .done (.ok ⟨.completed, none, [], none⟩)],
    none, "host", fun _ => "run"⟩

/-- With the bound zero the second of two steps waits until the first is over. -/
theorem bounded_of_moves_patient :
    let ss : List Step := [.plain "a" "A" .custom [], .plain "b" "B" .custom []]
    let c := Context.new "run" "1" "one"
    let x := patient.afterReady ss c (patient.afterReady ss c (setUp ss 0 .epoch) 0) 1
    patient.Moves ss c (setUp ss 0 .epoch) x ∧ patient.Bounded ss c 0 x ∧
      .waiting ∈ x.flight.branches.stages ∧ x.agenda.ready = [] ∧
      x.flight.world.cancelled = false := by
  intro ss c x
  have hmoves : patient.Moves ss c (setUp ss 0 .epoch) x :=
    .tail (.single (.turn (by decide))) (.turn (by decide +kernel))
  have hwaiting : x.flight.branches.stages[1]? = some .waiting := rfl
  exact ⟨hmoves, bounded_of_moves hmoves, List.mem_of_getElem? hwaiting, rfl, rfl⟩

/-! ## Runs that nothing goes on beside -/

theorem Moves.trans {z : Rota σ} (h : e.Moves ss c x y) (h' : e.Moves ss c y z) :
    e.Moves ss c x z :=
  Relation.ReflTransGen.trans h h'

theorem moves_wakeAll (f : Flight σ) : ∀ (ks : List Nat) (a : Agenda Nat),
    e.Moves ss c ⟨f, a⟩ ⟨f, a.wakeAll ks⟩
  | [], _ => .refl
  | k :: ks, a => .head (.wake k) (moves_wakeAll f ks (a.wake k))

/-- A turn, or the passing of time, is made of moves. -/
theorem moves_next? {y : Alone σ}
    (h : Alone.next? e ⟨⟨ss, c, x.flight.branches⟩, x.flight.world, x.agenda⟩ = some y) :
    ∃ z, e.Moves ss c x z ∧ y = ⟨⟨ss, c, z.flight.branches⟩, z.flight.world, z.agenda⟩ := by
  rw [Alone.next?] at h
  split at h
  · next i a hturn =>
    cases h
    obtain ⟨hready, hrest⟩ := Agenda.turn?_eq_some hturn
    exact ⟨_, .single (.turn hready), by rw [hrest]; rfl⟩
  · obtain ⟨time, -, rfl⟩ := Option.map_eq_some_iff.mp h
    let v := { x.flight.world with clock := x.flight.world.clock.atLeast time }
    have honward : x.flight.world.Onward v := ⟨Timestamp.notAfter_atLeast _ _, id⟩
    have hsame : x.inWorld v = ⟨{ x.flight with world := v }, x.agenda⟩ := x.inWorld_of_eq rfl
    refine ⟨⟨{ x.flight with world := v }, x.agenda.fire time⟩, .head (.others honward) ?_, rfl⟩
    rw [hsame]
    exact moves_wakeAll _ _ _

/-- A parallel run alone makes these moves. -/
theorem moves_settle : ∀ (turns : Nat) (x : Rota σ),
    ∃ y, e.Moves ss c x y ∧
      Alone.settle e turns ⟨⟨ss, c, x.flight.branches⟩, x.flight.world, x.agenda⟩ =
        ⟨⟨ss, c, y.flight.branches⟩, y.flight.world, y.agenda⟩
  | 0, x => ⟨x, .refl, rfl⟩
  | turns + 1, x => by
      rw [Alone.settle]
      cases hnext : Alone.next? e ⟨⟨ss, c, x.flight.branches⟩, x.flight.world, x.agenda⟩ with
      | none => exact ⟨x, .refl, rfl⟩
      | some y =>
        obtain ⟨z, hz, rfl⟩ := moves_next? hnext
        obtain ⟨u, hu, hsettle⟩ := moves_settle turns z
        exact ⟨u, hz.trans hu, hsettle⟩

end Engine
end Runbook
