import Runbook.Proofs.Run.Abreast
import Runbook.Proofs.Run.Echoes
import Runbook.Proofs.Run.Parallel

/-!
# Echoes of parallel runs

If an engine echoes another one, the branches of its parallel runs stand where those of the other
stand, turn by turn.  So alone both come to the same (`Engine.Echoes.runParallel`), and among others
who can do the same beside both, each run of the one has its like among the runs of the other, step
by step and in parallel (`Engine.Echoes.runs`, `Engine.Echoes.runs_back`).
-/

namespace Runbook

variable {σ ω : Type} {f : ω → σ} {N : List Notice → List Notice → Prop}

/-! ## Branches -/

/-- The branches stand where others stand, and what is left of them echoes what is left of those. -/
def Branches.Echoes (f : ω → σ) (N : List Notice → List Notice → Prop) (b : Branches ω)
    (b' : Branches σ) : Prop :=
  Gate.Abreast (fun next next' => ∀ c, (next c).Echoes (World.Echoes f N) (next' c)) Eq b b'

theorem Branches.Echoes.outcomes {b : Branches ω} {b' : Branches σ} (h : b.Echoes f N b') :
    b.outcomes = b'.outcomes :=
  List.forall₂_eq_eq_eq ▸ Gate.Abreast.outcomes h

/-- The turn of a branch leads to the same as another one. -/
structure Turn.Echoes (f : ω → σ) (N : List Notice → List Notice → Prop) (t : Turn ω)
    (t' : Turn σ) : Prop where
  /-- The branches. -/
  branches : Branches.Echoes f N t.branches t'.branches
  /-- The world. -/
  world : t.world.Echoes f N t'.world
  /-- Whether the branch fell asleep. -/
  sleep : t.sleep = t'.sleep
  /-- The branch that was granted a place. -/
  granted : t.granted = t'.granted

namespace Engine

variable {e : Engine ω} {e' : Engine σ} {ss : List Step} {c : Context}

theorem echoes_carryOn {b : Branches ω} {b' : Branches σ} (hb : Branches.Echoes f N b b') (i : Nat)
    {work : Activity (World ω) (List StepResult)} {work' : Activity (World σ) (List StepResult)}
    (hwork : work.Echoes (World.Echoes f N) work') {w : World ω} {v : World σ}
    (hwv : w.Echoes f N v) : (carryOn b i work w).Echoes f N (carryOn b' i work' v) := by
  obtain ⟨hpause, hworld⟩ := hwork.advance hwv
  rw [carryOn, carryOn]
  generalize work.advance (·.cancelled) w = p at hpause hworld
  generalize work'.advance (·.cancelled) v = p' at hpause hworld
  obtain ⟨pause, u⟩ := p
  obtain ⟨pause', u'⟩ := p'
  cases hpause with
  | done rs => exact ⟨(hb.leave i rfl).1, hworld, rfl, (hb.leave i rfl).2⟩
  | panicked m => exact ⟨(hb.leave i rfl).1, hworld, rfl, (hb.leave i rfl).2⟩
  | asleep hnext => exact ⟨hb.put (.inside hnext) i, hworld, rfl, rfl⟩

namespace Echoes

variable (h : e.Echoes f N e')

include h

theorem turn (ss : List Step) (c : Context) {b : Branches ω} {b' : Branches σ}
    (hb : Branches.Echoes f N b b') (i : Nat) {w : World ω} {v : World σ} (hwv : w.Echoes f N v) :
    (e.turn ⟨ss, c, b⟩ i w).Echoes f N (e'.turn ⟨ss, c, b'⟩ i v) := by
  obtain ⟨hgate, hadmission, hgranted⟩ := hb.call i v.cancelled (Eq.refl BranchEnd.skipped)
  rw [Engine.turn, Engine.turn, hwv.cancelled]
  dsimp only
  generalize b.call i v.cancelled .skipped = call at *
  generalize b'.call i v.cancelled .skipped = call' at *
  obtain ⟨gate, admission, granted⟩ := call
  obtain ⟨gate', admission', granted'⟩ := call'
  cases hadmission with
  | admitted =>
    cases ss[i]? with
    | none => exact ⟨hgate, hwv, rfl, hgranted⟩
    | some s => exact echoes_carryOn hgate i (h.branch s c) hwv
  | inside hnext => exact echoes_carryOn hgate i (hnext _) hwv
  | held => exact ⟨hgate, hwv, rfl, rfl⟩
  | gone => exact ⟨hgate, hwv, rfl, hgranted⟩

theorem join (ss : List Step) (c : Context) {b : Branches ω} {b' : Branches σ}
    (hb : Branches.Echoes f N b b') :
    (e.join ⟨ss, c, b⟩).Echoes (World.Echoes f N) (e'.join ⟨ss, c, b'⟩) := by
  simp only [Engine.join, hb.outcomes]
  exact (echoes_gatherAll _ _).bind fun _ => h.finish _ _

end Echoes

/-! ## Runs alone -/

/-- A parallel run stands where another one stands. -/
structure Alone.Echoes (f : ω → σ) (N : List Notice → List Notice → Prop) (x : Alone ω)
    (x' : Alone σ) : Prop where
  /-- The steps. -/
  steps : x.fan.steps = x'.fan.steps
  /-- The record. -/
  context : x.fan.context = x'.fan.context
  /-- The branches. -/
  branches : Branches.Echoes f N x.fan.branches x'.fan.branches
  /-- The world. -/
  world : x.world.Echoes f N x'.world
  /-- The turns. -/
  agenda : x.agenda = x'.agenda

namespace Echoes

variable (h : e.Echoes f N e')

include h

/-- One turn, or the passing of time, keeps a run where the other one stands. -/
theorem next? {x : Alone ω} {x' : Alone σ} (hx : x.Echoes f N x') :
    Alone.next? e x = none ∧ Alone.next? e' x' = none ∨
      ∃ y y', Alone.next? e x = some y ∧ Alone.next? e' x' = some y' ∧ y.Echoes f N y' := by
  obtain ⟨⟨ss, c, b⟩, w, agenda⟩ := x
  obtain ⟨⟨_, _, b'⟩, v, _⟩ := x'
  obtain ⟨rfl, rfl, hb, hwv, rfl⟩ := hx
  have hwv : w.Echoes f N v := hwv
  rw [Alone.next?, Alone.next?]
  cases agenda.turn? with
  | some p =>
    obtain ⟨i, rest⟩ := p
    obtain ⟨hbranches, hworld, hsleep, hgranted⟩ := h.turn ss c hb i hwv
    refine .inr ⟨_, _, rfl, rfl, rfl, rfl, hbranches, hworld, ?_⟩
    simp only [Agenda.note, hsleep, hgranted, hwv.cancelled, hworld.cancelled, hworld.clock]
  | none =>
    cases agenda.nextDue? with
    | none => exact .inl ⟨rfl, rfl⟩
    | some time =>
      refine .inr ⟨_, _, rfl, rfl, rfl, rfl, hb, ?_, rfl⟩
      exact ⟨hwv.store, hwv.cancelled, congrArg (·.atLeast time) hwv.clock, hwv.surroundings,
        hwv.notices⟩

theorem settle : ∀ (turns : Nat) {x : Alone ω} {x' : Alone σ}, x.Echoes f N x' →
    (Alone.settle e turns x).Echoes f N (Alone.settle e' turns x')
  | 0, _, _, hx => hx
  | turns + 1, x, x', hx => by
      rw [Alone.settle, Alone.settle]
      obtain ⟨hnone, hnone'⟩ | ⟨y, y', hy, hy', hechoes⟩ := h.next? hx
      · rw [hnone, hnone']
        exact hx
      · rw [hy, hy']
        exact settle turns hechoes

/-- Alone and in parallel both engines come to the same. -/
theorem runParallel (turns bound : Nat) (s : Sequence) {w : World ω} {v : World σ}
    (hwv : w.Echoes f N v) :
    (e.runParallel turns bound s w).1 = (e'.runParallel turns bound s v).1 ∧
      (e.runParallel turns bound s w).2.Echoes f N (e'.runParallel turns bound s v).2 := by
  obtain ⟨hending, hworld⟩ := (h.begin s).complete hwv
  rw [Engine.runParallel, Engine.runParallel]
  generalize (e.begin s).complete (·.cancelled) World.pass w = p at hending hworld
  generalize (e'.begin s).complete (·.cancelled) World.pass v = p' at hending hworld
  obtain ⟨ending, w⟩ := p
  obtain ⟨_, v⟩ := p'
  obtain rfl : ending = _ := hending
  have hwv : w.Echoes f N v := hworld
  cases ending with
  | panicked m => exact ⟨rfl, hwv⟩
  | stuck => exact ⟨rfl, hwv⟩
  | returned started =>
    cases started with
    | error c => exact (h.conclude c).complete hwv
    | ok c =>
      have hstart : Alone.Echoes f N ⟨fan bound s c, w, ⟨List.range s.steps.length, []⟩⟩
          ⟨fan bound s c, v, ⟨List.range s.steps.length, []⟩⟩ :=
        ⟨rfl, rfl, Gate.abreast_ofBound _ _, hwv, rfl⟩
      obtain ⟨hsteps, hcontext, hbranches, hsettled, -⟩ := h.settle turns hstart
      dsimp only
      rw [runBranches, runBranches, hbranches.isEmpty]
      split
      · generalize Alone.settle e turns _ = y at *
        generalize Alone.settle e' turns _ = y' at *
        obtain ⟨⟨ss, c, b⟩, w, agenda⟩ := y
        obtain ⟨⟨_, _, b'⟩, v, agenda'⟩ := y'
        obtain rfl : ss = _ := hsteps
        obtain rfl : c = _ := hcontext
        exact (h.join ss c hbranches).complete hsettled
      · exact ⟨rfl, hsettled⟩

/-! ## Runs among others -/

variable {others : World ω → World ω → Prop} {others' : World σ → World σ → Prop} {bound : Nat}

/-- Each state that a parallel run comes to has its like among those of the other run. -/
theorem reaches (hothers : World.MatchedBy others others' (World.Echoes f N)) {w : World ω}
    {v : World σ} (hwv : w.Echoes f N v) {x : Flight ω} (hx : e.Reaches others ss c bound w x) :
    ∃ x', e'.Reaches others' ss c bound v x' ∧ Branches.Echoes f N x.branches x'.branches ∧
      x.world.Echoes f N x'.world := by
  induction hx with
  | start => exact ⟨_, .start, Gate.abreast_ofBound _ _, hwv⟩
  | turn i _ ih =>
    obtain ⟨x', hx', hbranches, hworld⟩ := ih
    have hturn := h.turn ss c hbranches i hworld
    exact ⟨_, hx'.turn i, hturn.branches, hturn.world⟩
  | others _ hv ih =>
    obtain ⟨x', hx', hbranches, hworld⟩ := ih
    obtain ⟨v', hv', hworld'⟩ := hothers _ _ _ hworld hv
    exact ⟨_, hx'.others hv', hbranches, hworld'⟩

/-- Each run has its like among the runs of the other engine, after which others may still move. -/
theorem runs (hothers : World.MatchedBy others others' (World.Echoes f N))
    (hself : ∀ v, others' v v) (htrans : ∀ t u v, others' t u → others' u v → others' t v)
    {mode : Mode} {s : Sequence} {w w' : World ω} {v : World σ} {ending : Ending Context}
    (hrun : e.Runs others mode s w ending w') (hwv : w.Echoes f N v) :
    ∃ u v', e'.Runs others' mode s v ending u ∧ others' u v' ∧ w'.Echoes f N v' := by
  cases mode with
  | sequential => exact (h.sequential s).course hothers hself htrans hrun hwv
  | parallel bound =>
    cases hrun with
    | refused hbegin hconclude =>
      obtain ⟨u, v₀, hbegin', hu, hv₀⟩ := (h.begin s).course hothers hself htrans hbegin hwv
      obtain ⟨t, v', hconclude', ht, hv'⟩ :=
        (h.conclude _).course hothers hself htrans hconclude hv₀
      obtain ⟨t', hfirst, ht'⟩ := hconclude'.of_others hself htrans hu
      exact ⟨t', v', .refused hbegin' hfirst, htrans _ _ _ ht' ht, hv'⟩
    | joined hbegin hx hover hjoin =>
      obtain ⟨u, v₀, hbegin', hu, hv₀⟩ := (h.begin s).course hothers hself htrans hbegin hwv
      obtain ⟨x', hx', hbranches, hworld⟩ := h.reaches hothers hv₀ hx
      obtain ⟨t, v', hjoin', ht, hv'⟩ :=
        (h.join s.steps _ hbranches).course hothers hself htrans hjoin hworld
      exact ⟨t, v', .joined hbegin' (hx'.of_others hu) (hbranches.isEmpty ▸ hover) hjoin', ht, hv'⟩

end Echoes

end Engine
end Runbook
