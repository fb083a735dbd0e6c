import Runbook.Run.Gate

/-!
# What holds at a gate

A move at a gate touches the stage of one task, and perhaps that of a task that waits, which is
granted a place.  So what holds of every task is kept by a move that keeps it for the one task, if
waiting for a place and being granted one make no difference: `Gate.ForAll.release`.
-/

namespace Runbook.Gate

variable {α β : Type} {g : Gate α β} {P : Nat → Stage α β → Prop}

/-- It holds of every task and its stage. -/
def ForAll (P : Nat → Stage α β → Prop) (g : Gate α β) : Prop :=
  ∀ i s, g.stages[i]? = some s → P i s

theorem forAll_ofBound {bound n : Nat} (h : ∀ i, P i .fresh) :
    (ofBound bound n : Gate α β).ForAll P := by
  intro i s hs
  obtain rfl := List.eq_of_mem_replicate (List.mem_of_getElem? hs)
  exact h i

theorem ForAll.mono {Q : Nat → Stage α β → Prop} (h : g.ForAll P) (hPQ : ∀ i s, P i s → Q i s) :
    g.ForAll Q :=
  fun i s hs => hPQ i s (h i s hs)

/-! ## Moves -/

/-- A task that is put to a stage leaves the others where they are. -/
theorem forAll_put {i : Nat} {s : Stage α β}
    (h : ∀ j t, j ≠ i → g.stages[j]? = some t → P j t) (hs : P i s) : (g.put i s).ForAll P := by
  intro j t ht
  by_cases hj : j = i
  · subst hj
    have hlt : j < g.stages.length := by
      have hlt := (List.getElem?_eq_some_iff.mp ht).1
      rwa [put, List.length_set] at hlt
    rw [put, List.getElem?_set_self hlt] at ht
    cases ht
    exact hs
  · rw [put, List.getElem?_set_ne (Ne.symm hj)] at ht
    exact h j t hj ht

theorem ForAll.put (h : g.ForAll P) {i : Nat} {s : Stage α β} (hs : P i s) :
    (g.put i s).ForAll P :=
  forAll_put (fun j t _ ht => h j t ht) hs

/-- A place that gets free is granted to a task that waits, if there is one. -/
theorem ForAll.release (h : g.ForAll P) (hgrant : ∀ j, P j .waiting → P j .granted) :
    g.release.1.ForAll P := by
  rw [Gate.release]
  split
  · next j hj =>
    obtain ⟨hlt, hwaiting, -⟩ := List.findIdx?_eq_some_iff_getElem.mp hj
    refine h.put (hgrant j ?_)
    have hstage := h j _ (List.getElem?_eq_getElem hlt)
    cases hs : g.stages[j] with
    | waiting => exact hs ▸ hstage
    | fresh => simp [hs, Stage.isWaiting] at hwaiting
    | granted => simp [hs, Stage.isWaiting] at hwaiting
    | inside a => simp [hs, Stage.isWaiting] at hwaiting
    | ended b => simp [hs, Stage.isWaiting] at hwaiting
  · exact h

/-- A task that is over leaves the others where they are, up to one that waits. -/
theorem forAll_leave {i : Nat} {b : β} (h : ∀ j t, j ≠ i → g.stages[j]? = some t → P j t)
    (hb : P i (.ended b)) (hgrant : ∀ j, P j .waiting → P j .granted) :
    (g.leave i b).1.ForAll P :=
  (forAll_put h hb).release hgrant

/-- A task whose turn comes goes on towards its place, or away if the run is cancelled. -/
theorem ForAll.call (h : g.ForAll P) {i : Nat} {cancelled : Bool} {away : β}
    (hwait : ∀ j, P j .fresh → P j .waiting) (hgrant : ∀ j, P j .waiting → P j .granted)
    (haway : cancelled = true → ∀ j, P j .granted → P j (.ended away)) :
    (g.call i cancelled away).gate.ForAll P := by
  rw [Gate.call]
  split
  · next hs =>
    have hwaiting := hwait i (h i _ hs)
    split
    · next hcancelled => exact h.put (haway hcancelled i (hgrant i hwaiting))
    · split
      · exact h.put hwaiting
      · exact ForAll.put h (hgrant i hwaiting)
  · next hs =>
    split
    · next hcancelled => exact h.put (haway hcancelled i (hgrant i (h i _ hs)))
    · exact h
  · next hs =>
    split
    · next hcancelled =>
      exact forAll_leave (fun j t _ => h j t) (haway hcancelled i (h i _ hs)) hgrant
    · exact h
  · exact h
  · exact h

/-- A task is admitted only if the run is not cancelled, and has its place then. -/
theorem call_admitted {i : Nat} {cancelled : Bool} {away : β}
    (h : (g.call i cancelled away).admission = .admitted) :
    cancelled = false ∧ (g.call i cancelled away).gate.stages[i]? = some .granted := by
  cases hs : g.stages[i]? with
  | none =>
    simp only [call, hs] at h
    cases h
  | some s =>
    have hlt : i < g.stages.length := (List.getElem?_eq_some_iff.mp hs).1
    cases s <;> cases cancelled <;>
      simp only [call, hs, Bool.false_eq_true, if_true, if_false] at h ⊢
    case fresh.false =>
      split at h
      · cases h
      · exact ⟨trivial, List.getElem?_set_self hlt⟩
    case granted.false => exact ⟨trivial, trivial⟩
    all_goals cases h

/-- A task that is inside finds itself there, and nothing has changed. -/
theorem call_inside {i : Nat} {cancelled : Bool} {away : β} {a : α}
    (h : (g.call i cancelled away).admission = .inside a) :
    g.stages[i]? = some (.inside a) ∧ (g.call i cancelled away).gate = g := by
  cases hs : g.stages[i]? with
  | none =>
    simp only [call, hs] at h
    cases h
  | some s =>
    cases s <;> cases cancelled <;>
      simp only [call, hs, Bool.false_eq_true, if_true, if_false] at h ⊢
    case fresh.false => split at h <;> cases h
    case inside.false => cases h; exact ⟨rfl, trivial⟩
    case inside.true => cases h; exact ⟨rfl, trivial⟩
    all_goals cases h

/-! ## The number of tasks -/

@[simp] theorem length_put (i : Nat) (s : Stage α β) :
    (g.put i s).stages.length = g.stages.length :=
  List.length_set

@[simp] theorem length_release : g.release.1.stages.length = g.stages.length := by
  rw [release]
  split
  · exact length_put _ _
  · rfl

@[simp] theorem length_leave (i : Nat) (b : β) :
    (g.leave i b).1.stages.length = g.stages.length := by
  rw [leave, length_release, length_put]

theorem length_call (i : Nat) (cancelled : Bool) (away : β) :
    (g.call i cancelled away).gate.stages.length = g.stages.length := by
  rw [call]
  split
  · split
    · exact length_put _ _
    · split
      · exact length_put _ _
      · exact length_put _ _
  · split
    · exact length_put _ _
    · rfl
  · split
    · exact length_leave _ _
    · rfl
  · rfl
  · rfl

/-! ## Gates whose tasks are all over -/

theorem eq_map_ended :
    ∀ {ss : List (Stage α β)}, (ss.all fun s => s.outcome?.isSome) = true →
      ss = (ss.filterMap (·.outcome?)).map .ended
  | [], _ => rfl
  | .ended b :: ss, h => by
      rw [List.all_cons, Bool.and_eq_true] at h
      exact congrArg (Stage.ended b :: ·) (eq_map_ended h.2)
  | .fresh :: _, h => by cases h
  | .waiting :: _, h => by cases h
  | .granted :: _, h => by cases h
  | .inside _ :: _, h => by cases h

theorem stages_of_isEmpty (h : g.isEmpty = true) : g.stages = g.outcomes.map .ended :=
  eq_map_ended h

end Runbook.Gate
