import Runbook.Proofs.Run.Paired

/-!
# A run in line and the run alone

A parallel run of a stateless engine whose branches are taken in the order of their steps, and
beside which other things happen, has the run of the sequence alone *alongside*: both are set up
alike, and whenever a branch of the one is over, the turn of the same branch of the other leads to
the like (`Engine.Alongside.taken`).  When the branches are put together both come to the like
(`Engine.Alongside.joined`).
-/

namespace Runbook

variable {σ : Type}

/-- Carried on, the activity comes to a record or breaks off without a wait, and the ending
resembles this. -/
def Activity.EndsLike (x : Activity (World σ) Context) (w : World σ) (ending : Ending Context) :
    Prop :=
  (∃ c u, x.advance (·.cancelled) w = (.done c, u) ∧ ending.Resembles (.finished c)) ∨
    ∃ m u, x.advance (·.cancelled) w = (.panicked m, u) ∧ ending.Resembles .crashed

/-- What a wakeful activity comes to resembles what its like comes to. -/
theorem Activity.Wakeful.endsLike {x y : Activity (World σ) Context} {w v : World σ}
    {R : World σ → World σ → Prop} {T : Timestamp → Timestamp → Prop} (hy : y.Wakeful)
    (h : (x.advance (·.cancelled) w).1.Twin R (Context.Alike T) (y.advance (·.cancelled) v).1) :
    x.EndsLike w (y.complete (·.cancelled) World.pass v).1 := by
  rw [EndsLike]
  generalize x.advance (·.cancelled) w = p at h ⊢
  obtain ⟨pause, u⟩ := p
  obtain ⟨c', v', hadvance, hcomplete⟩ | ⟨m, v', hadvance, hcomplete⟩ := hy.complete v
  · rw [hadvance] at h
    rw [hcomplete]
    cases h with
    | done hc => exact .inl ⟨_, u, rfl, .finished hc.timeless⟩
  · rw [hadvance] at h
    rw [hcomplete]
    cases h with
    | panicked => exact .inr ⟨m, u, rfl, .crashed m⟩

namespace Engine

/-! ## The run alone -/

section

variable (e : Engine σ)

/-- What a parallel run alone comes to that goes on until nothing comes any more, in a number of
turns at most. -/
def outcome (turns : Nat) (x : Alone σ) : Ending Context × World σ :=
  let y := Alone.settle e turns x
  if y.fan.branches.isEmpty then (e.join y.fan).complete (·.cancelled) World.pass y.world
  else (.stuck, y.world)

/-- A parallel run alone whose branches are in line: some are over, and `n` have not come yet. -/
def aloneInLine (bound : Nat) (s : Sequence) (c : Context) (ends : List BranchEnd) (n : Nat)
    (w : World σ) : Alone σ :=
  ⟨⟨s.steps, c, inLine bound ends n⟩, w, ⟨List.range' ends.length n, []⟩⟩

variable {e} {s : Sequence} {t : Step} {c : Context} {bound n : Nat} {ends : List BranchEnd}
  {w w' : World σ} {b : BranchEnd}

theorem runBranches_eq (turns : Nat) :
    e.runBranches turns bound s c w =
      e.outcome turns (aloneInLine bound s c [] s.steps.length w) := by
  rw [runBranches, fan, List.range_eq_range']
  rfl

/-- A turn takes the first branch that has not come yet. -/
theorem Taken.outcome (h : e.Taken t c w b w') (ht : s.steps[ends.length]? = some t)
    (turns : Nat) :
    e.outcome (turns + 1) (aloneInLine bound s c ends (n + 1) w) =
      e.outcome turns (aloneInLine bound s c (ends ++ [b]) n w') := by
  have hturn : e.turn ⟨s.steps, c, inLine bound ends (n + 1)⟩ ends.length w = _ := h.turn ht
  have hnote : ∀ cancelled : Bool, (⟨List.range' (ends.length + 1) n, []⟩ : Agenda Nat).note
      ends.length (fun _ => true) cancelled none none w' =
        ⟨List.range' (ends.length + 1) n, []⟩ := by
    rintro (_ | _) <;> rfl
  simp only [Engine.outcome, aloneInLine, Alone.settle, Alone.next?, List.range'_succ, Agenda.turn?,
    hturn, hnote, List.length_append, List.length_singleton]

/-- When no branch is left they are put together. -/
theorem outcome_joined (turns : Nat) :
    e.outcome turns (aloneInLine bound s c ends 0 w) =
      (e.join ⟨s.steps, c, inLine bound ends 0⟩).complete (·.cancelled) World.pass w := by
  have hover : Alone.settle e turns (aloneInLine bound s c ends 0 w) =
      aloneInLine bound s c ends 0 w := by
    cases turns <;> rfl
  rw [outcome, hover]
  exact if_pos (isEmpty_inLine bound ends 0)

end

/-! ## Both runs -/

section

variable (e : Engine σ) (bound : Nat) (s : Sequence) (v₀ : World σ)

/-- The first branches of a parallel run with the context `c` are over, with `ends`, and `n` have
not come yet.  The run alone that begins in the world `v₀` has come as far, to the like. -/
structure Alongside (c : Context) (ends : List BranchEnd) (n : Nat) (w : World σ) : Prop where
  /-- Each step has a branch. -/
  length : ends.length + n = s.steps.length
  /-- Nothing is recorded yet. -/
  empty : c.results = []
  /-- Where the run alone stands. -/
  alone : ∃ c' ends' v U, c.Alike (fun _ _ => True) c' ∧
    List.Forall₂ (BranchEnd.Alike U) ends ends' ∧ w.InStep U v ∧
    ∀ turns, e.runParallel (ends.length + turns) bound s v₀ =
      e.outcome turns (aloneInLine bound s c' ends' n v)

end

variable {e : Engine σ} {bound n : Nat} {s : Sequence} {v₀ : World σ} {c : Context}
  {ends : List BranchEnd} {w w' : World σ}

theorem Alongside.elsewhere (h : e.Alongside bound s v₀ c ends n w) (hw : w.Elsewhere w') :
    e.Alongside bound s v₀ c ends n w' := by
  obtain ⟨c', ends', v, U, hc, hends, hwv, hrun⟩ := h.alone
  exact ⟨h.length, h.empty, c', ends', v, U, hc, hends, hwv.elsewhere hw, hrun⟩

/-- Both runs take a branch. -/
theorem Alongside.taken (hstateless : e.Stateless fun _ _ => True)
    (h : e.Alongside bound s v₀ c ends (n + 1) w) {t : Step} {b : BranchEnd}
    (ht : s.steps[ends.length]? = some t) (hb : e.Taken t c w b w') :
    e.Alongside bound s v₀ c (ends ++ [b]) n w' := by
  obtain ⟨c', ends', v, U, hc, hends, hwv, hrun⟩ := h.alone
  obtain ⟨b', v', U', hb', hU, hbb', hwv'⟩ := hstateless.exists_taken hc hwv hb
  refine ⟨?_, h.empty, c', ends' ++ [b'], v', U', hc, ?_, hwv', fun turns => ?_⟩
  · rw [List.length_append, List.length_singleton, Nat.add_assoc, Nat.add_comm 1]
    exact h.length
  · exact List.rel_append (hends.imp fun _ _ => BranchEnd.Alike.mono hU) (.cons hbb' .nil)
  · rw [← hb'.outcome (hends.length_eq ▸ ht), ← hrun]
    congr 1
    rw [List.length_append, List.length_singleton]
    omega

/-- When the branches are put together both runs come to the like. -/
theorem Alongside.joined (hstateless : e.Stateless fun _ _ => True)
    (h : e.Alongside bound s v₀ c ends 0 w) {turns : Nat} (hturns : s.steps.length ≤ turns) :
    (e.join ⟨s.steps, c, inLine bound ends 0⟩).EndsLike w (e.runParallel turns bound s v₀).1 := by
  obtain ⟨c', ends', v, U, hc, hends, hwv, hrun⟩ := h.alone
  obtain ⟨extra, rfl⟩ := Nat.exists_eq_add_of_le (Nat.le_trans (Nat.le_of_eq h.length) hturns)
  have houtcomes : List.Forall₂ (BranchEnd.Alike U) (inLine bound ends 0 : Branches σ).outcomes
      (inLine bound ends' 0 : Branches σ).outcomes := by
    rw [outcomes_inLine, outcomes_inLine]
    exact hends
  obtain ⟨U', hpause⟩ := hstateless.join_inStep hc h.empty houtcomes hwv
  rw [Nat.add_zero, hrun, outcome_joined]
  exact (e.wakeful_join _).endsLike hpause

/-- Both runs are set up alike, or the variables of both are refused and they end alike. -/
theorem Stateless.alongside (hstateless : e.Stateless fun _ _ => True) (bound : Nat) (s : Sequence)
    (hw : w.Fresh) (hv : v₀.Fresh) :
    (∃ c w', (e.begin s).advance (·.cancelled) w = (.done (.ok c), w') ∧
      e.Alongside bound s v₀ c [] s.steps.length w') ∨
    ∃ c w', (e.begin s).advance (·.cancelled) w = (.done (.error c), w') ∧
      ∀ turns, (e.conclude c).EndsLike w' (e.runParallel turns bound s v₀).1 := by
  have htwin : (e.begin s).Twin World.Akin (Context.BothAlike fun _ _ => True) (e.begin s) :=
    twin_begin (fun _ _ _ _ => trivial) s
  obtain ⟨hpause, hworld⟩ := htwin.advance (hw.akin hv)
  have hcourse := @Activity.Course.of_advance σ _ Eq (fun _ => rfl) (e.begin s) w
  generalize (e.begin s).advance (·.cancelled) w = p at hpause hworld hcourse
  obtain ⟨pause, w'⟩ := p
  obtain ⟨started', v, hadvance, hcomplete⟩ | ⟨m, v, hadvance, -⟩ :=
    (e.wakeful_begin s).complete v₀
  · rw [hadvance] at hpause hworld
    cases hpause with
    | @done started _ hstarted =>
    cases hstarted with
    | @begun c c' hc =>
      obtain ⟨hempty, -⟩ := ((e.notes_begin s).ending (hcourse .done)).2
      refine .inl ⟨c, w', rfl, Nat.zero_add _, hempty c rfl, c', [], v, fun _ _ => False, hc, .nil,
        ⟨hworld, Timestamp.paired_nothing _ _⟩, fun turns => ?_⟩
      rw [runParallel, hcomplete, ← runBranches_eq, List.length_nil, Nat.zero_add]
    | @refused c c' hc =>
      refine .inr ⟨c, w', rfl, fun turns => ?_⟩
      have htwin : (e.conclude c).Twin World.Akin (Context.Alike fun _ _ => True) (e.conclude c') :=
        hstateless.twin_conclude hc
      rw [runParallel, hcomplete]
      exact (e.wakeful_conclude c').endsLike (htwin.advance hworld).1
  · -- Neither a stamp nor publishing panics.
    rw [hadvance] at hpause
    cases hpause with
    | panicked => exact ((e.notes_begin s).ending (hcourse .panicked)).elim

/-! ## Runs that ask for too many places -/

theorem wakeful_oversized (e : Engine σ) (s : Sequence) : (e.oversized s).Wakeful :=
  (e.wakeful_begin s).bind fun started => by
    cases started with
    | error c => exact e.wakeful_conclude c
    | ok c => exact Activity.wakeful_panic _

/-- A run that asks for too many places ends like the run alone. -/
theorem Stateless.oversized_endsLike (hstateless : e.Stateless fun _ _ => True) (s : Sequence)
    (hw : w.Fresh) (hv : v₀.Fresh) : (e.oversized s).EndsLike w
      ((e.oversized s).complete (·.cancelled) World.pass v₀).1 := by
  have htwin : (e.oversized s).Twin World.Akin (Context.Alike fun _ _ => True) (e.oversized s) := by
    refine (twin_begin (fun _ _ _ _ => trivial) s).bind fun started started' hstarted => ?_
    cases hstarted with
    | begun => exact .panic _
    | refused hc => exact hstateless.twin_conclude hc
  exact (e.wakeful_oversized s).endsLike (htwin.advance (hw.akin hv)).1

end Engine
end Runbook
