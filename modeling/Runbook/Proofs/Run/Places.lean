import Runbook.Proofs.Run.Gate

/-!
# The places of a gate

At a gate no place is lost and none is made up: the free places and those of the tasks that have one
are as many as there are places, and no place is free while a task waits.  This is `Gate.Fair`, and
every move at a gate keeps it.

A task that has not come yet, or that was granted a place, is *eager*: nothing keeps it from taking
its turn.  A move makes no task eager but the one that it says was granted a place
(`Gate.forAll_leave_granted`).
-/

namespace Runbook

variable {α β : Type}

/-- The task waits for nothing but its turn. -/
def Stage.isEager : Stage α β → Bool
  | fresh => true
  | granted => true
  | _ => false

theorem Stage.eq_waiting : ∀ {s : Stage α β}, s.isWaiting = true → s = waiting
  | waiting, _ => rfl
  | fresh, h => nomatch h
  | granted, h => nomatch h
  | inside _, h => nomatch h
  | ended _, h => nomatch h

namespace Gate

variable {g : Gate α β} {bound i : Nat} {s : Stage α β}

/-! ## Turns -/

/-- What the turn of a task leads to. -/
inductive Called (g : Gate α β) (i : Nat) (cancelled : Bool) (away : β) : Call α β → Prop where
  /-- The task comes while a place is free. -/
  | comes {n : Nat} : cancelled = false → g.stages[i]? = some .fresh → g.free = n + 1 →
      Called g i cancelled away ⟨({ g with free := n } : Gate α β).put i .granted, .admitted, none⟩
  /-- The task takes the place that it was granted. -/
  | enters : cancelled = false → g.stages[i]? = some .granted →
      Called g i cancelled away ⟨g, .admitted, none⟩
  /-- The task is inside. -/
  | inside {a : α} :
      g.stages[i]? = some (.inside a) → Called g i cancelled away ⟨g, .inside a, none⟩
  /-- The task comes while no place is free. -/
  | queues : cancelled = false → g.stages[i]? = some .fresh → g.free = 0 →
      Called g i cancelled away ⟨g.put i .waiting, .held, none⟩
  /-- The task waits on. -/
  | waits : cancelled = false → g.stages[i]? = some .waiting →
      Called g i cancelled away ⟨g, .held, none⟩
  /-- The task goes away without a place. -/
  | turns {s : Stage α β} : cancelled = true → g.stages[i]? = some s → s.hasPlace = false →
      Called g i cancelled away ⟨g.put i (.ended away), .gone, none⟩
  /-- The task goes away and gives back its place. -/
  | leaves : cancelled = true → g.stages[i]? = some .granted →
      Called g i cancelled away ⟨(g.leave i away).1, .gone, (g.leave i away).2⟩
  /-- The task is over, or there is none. -/
  | ended : (∀ s, g.stages[i]? = some s → ∃ b, s = .ended b) →
      Called g i cancelled away ⟨g, .gone, none⟩

theorem called (g : Gate α β) (i : Nat) (cancelled : Bool) (away : β) :
    Called g i cancelled away (g.call i cancelled away) := by
  cases hs : g.stages[i]? with
  | none =>
    simp only [call, hs]
    exact .ended (by simp [hs])
  | some s =>
    cases s <;> cases cancelled <;>
      simp only [call, hs, Bool.false_eq_true, if_true, if_false]
    case fresh.false =>
      split
      · next hfree => exact .queues rfl hs hfree
      · next n hfree => exact .comes rfl hs hfree
    case fresh.true => exact .turns rfl hs rfl
    case waiting.false => exact .waits rfl hs
    case waiting.true => exact .turns rfl hs rfl
    case granted.false => exact .enters rfl hs
    case granted.true => exact .leaves rfl hs
    case inside.false => exact .inside hs
    case inside.true => exact .inside hs
    case ended.false b => exact .ended (by simp [hs])
    case ended.true b => exact .ended (by simp [hs])

/-! ## Places -/

/-- The number of tasks with a place. -/
def taken (g : Gate α β) : Nat := g.stages.countP (·.hasPlace)

/-- No place is lost, and none is free while a task waits. -/
structure Fair (bound : Nat) (g : Gate α β) : Prop where
  /-- Every place is free or taken. -/
  accounted : g.free + g.taken = places bound
  /-- While a task waits every place is taken. -/
  full : .waiting ∈ g.stages → g.free = 0

theorem fair_ofBound (bound n : Nat) : (ofBound bound n : Gate α β).Fair bound where
  accounted := by
    have hnone : (ofBound bound n : Gate α β).taken = 0 := by
      rw [taken, List.countP_eq_zero]
      intro s hs
      obtain rfl := List.eq_of_mem_replicate hs
      exact Bool.false_ne_true
    rw [hnone]
    rfl
  full := fun h => nomatch List.eq_of_mem_replicate h

/-- A task that is put to a stage may give its place away, or take one. -/
theorem taken_put (h : g.stages[i]? = some s) (t : Stage α β) :
    (g.put i t).taken + s.hasPlace.toNat = g.taken + t.hasPlace.toNat := by
  obtain ⟨hlt, hs⟩ := List.getElem?_eq_some_iff.mp h
  have hpos : s.hasPlace.toNat ≤ g.taken := by
    cases hplace : s.hasPlace with
    | false => exact Nat.zero_le _
    | true => exact List.countP_pos_iff.mpr ⟨s, List.mem_of_getElem? h, hplace⟩
  have hset := List.countP_set (p := (·.hasPlace)) (a := t) hlt
  rw [hs] at hset
  rw [taken, put]
  rw [taken] at hpos ⊢
  rw [hset]
  cases hplace : s.hasPlace <;> cases htplace : t.hasPlace <;>
    simp only [hplace, Bool.toNat_true, Bool.toNat_false] at hpos ⊢ <;> simp <;> omega

theorem mem_put {t : Stage α β} (h : s ∈ (g.put i t).stages) : s = t ∨ s ∈ g.stages :=
  (List.mem_or_eq_of_mem_set h).symm

/-- A task that is put to a stage keeps its place, and no other task begins to wait. -/
theorem Fair.put {t : Stage α β} (h : g.Fair bound) (hs : g.stages[i]? = some s)
    (hplace : s.hasPlace = t.hasPlace) (ht : t = .waiting → g.free = 0) :
    (g.put i t).Fair bound where
  accounted := by
    have htaken := taken_put hs t
    rw [hplace] at htaken
    rw [Nat.add_right_cancel htaken]
    exact h.accounted
  full := by
    intro hwaiting
    obtain heq | hwaiting := mem_put hwaiting
    · exact ht heq.symm
    · exact h.full hwaiting

/-- A place that gets free is granted, or free. -/
theorem fair_release (haccounted : g.free + 1 + g.taken = places bound)
    (hfull : .waiting ∈ g.stages → g.free = 0) : g.release.1.Fair bound := by
  rw [release]
  split
  · next j hj =>
    obtain ⟨hlt, hwaiting, -⟩ := List.findIdx?_eq_some_iff_getElem.mp hj
    have hstage : g.stages[j]? = some .waiting :=
      (List.getElem?_eq_getElem hlt).trans (congrArg some (Stage.eq_waiting hwaiting))
    have htaken : (g.put j .granted).taken = g.taken + 1 := taken_put hstage .granted
    refine ⟨?_, fun _ => hfull (List.mem_of_getElem? hstage)⟩
    rw [htaken, ← haccounted]
    show g.free + (g.taken + 1) = _
    omega
  · next hnone =>
    refine ⟨haccounted, fun hwaiting => ?_⟩
    exact absurd (List.findIdx?_eq_none_iff.mp hnone _ hwaiting) (by simp [Stage.isWaiting])

/-- A task with a place that is over gives it back. -/
theorem Fair.leave (h : g.Fair bound) (hs : g.stages[i]? = some s) (hplace : s.hasPlace = true)
    (b : β) : (g.leave i b).1.Fair bound := by
  have htaken : (g.put i (.ended b)).taken + 1 = g.taken := by
    have hput := taken_put hs (.ended b)
    rwa [hplace] at hput
  refine fair_release ?_ fun hwaiting => ?_
  · rw [← h.accounted, ← htaken]
    show g.free + 1 + _ = _
    omega
  · obtain heq | hwaiting := mem_put hwaiting
    · cases heq
    · exact h.full hwaiting

theorem Fair.call (h : g.Fair bound) (i : Nat) (cancelled : Bool) (away : β) :
    (g.call i cancelled away).gate.Fair bound := by
  have hcalled := called g i cancelled away
  generalize g.call i cancelled away = call at hcalled ⊢
  cases hcalled with
  | enters => exact h
  | inside => exact h
  | waits => exact h
  | ended => exact h
  | queues _ hs hfree => exact h.put hs rfl fun _ => hfree
  | turns _ hs hplace => exact h.put hs hplace (by simp)
  | leaves _ hs => exact h.leave hs rfl away
  | @comes n _ hs hfree =>
    refine ⟨?_, fun hwaiting => ?_⟩
    · have haccounted := h.accounted
      have htaken : (g.put i .granted).taken = g.taken + 1 := taken_put hs .granted
      show n + (g.put i .granted).taken = _
      omega
    · obtain heq | hwaiting := mem_put (g := g) hwaiting
      · cases heq
      · rw [h.full hwaiting] at hfree
        cases hfree

/-- Where no task is eager, those with a place are inside. -/
theorem countP_isInside (h : ∀ s ∈ g.stages, s.isEager = false) :
    g.stages.countP (·.isInside) = g.taken := by
  refine List.countP_congr fun s hs => ?_
  have hs := h s hs
  cases s with
  | granted => cases hs
  | fresh => exact Iff.rfl
  | waiting => exact Iff.rfl
  | inside a => exact Iff.rfl
  | ended b => exact Iff.rfl

/-- A task that is inside has a place. -/
theorem countP_isInside_le (g : Gate α β) : g.stages.countP (·.isInside) ≤ g.taken :=
  List.countP_mono_left fun s _ h => by
    cases s with
    | inside a => rfl
    | fresh => cases h
    | waiting => cases h
    | granted => cases h
    | ended b => cases h

/-! ## Tasks that were granted a place -/

variable {P : Nat → Stage α β → Prop}

/-- A place that gets free changes the stage of no task but the one that it is granted. -/
theorem forAll_release_granted (h : g.ForAll P) :
    g.release.1.ForAll fun j s => P j s ∨ g.release.2 = some j := by
  rw [release]
  split
  · exact forAll_put (fun k t _ ht => .inl (h k t ht)) (.inr rfl)
  · exact fun j s hs => .inl (h j s hs)

/-- A task that is over changes the stage of no other task but the one that is granted its place. -/
theorem forAll_leave_granted {b : β} (h : ∀ j t, j ≠ i → g.stages[j]? = some t → P j t)
    (hb : P i (.ended b)) :
    (g.leave i b).1.ForAll fun j s => P j s ∨ (g.leave i b).2 = some j :=
  forAll_release_granted (forAll_put h hb)

/-- The turn of a task changes the stage of no other task but the one that was granted a place, and
the task itself is not eager after it unless it is admitted. -/
theorem forAll_call_granted (cancelled : Bool) (away : β)
    (h : ∀ j t, j ≠ i → g.stages[j]? = some t → P j t) (hidle : ∀ t, t.isEager = false → P i t) :
    (g.call i cancelled away).gate.ForAll fun j s =>
      j = i ∧ (g.call i cancelled away).admission = .admitted ∨
        P j s ∨ (g.call i cancelled away).granted = some j := by
  have hothers : ∀ j t, j ≠ i → g.stages[j]? = some t → P j t ∨ (none : Option Nat) = some j :=
    fun j t hj ht => .inl (h j t hj ht)
  -- A task that stays where it is, and is not eager there, leaves every task as it is.
  have hsame : (∀ t, g.stages[i]? = some t → t.isEager = false) →
      g.ForAll fun j s => P j s ∨ (none : Option Nat) = some j := by
    intro hself j t ht
    by_cases hj : j = i
    · subst hj
      exact .inl (hidle t (hself t ht))
    · exact hothers j t hj ht
  have hstage : ∀ {s : Stage α β}, g.stages[i]? = some s → s.isEager = false →
      ∀ t, g.stages[i]? = some t → t.isEager = false := by
    intro s hs heager t ht
    cases hs.symm.trans ht
    exact heager
  have hcalled := called g i cancelled away
  generalize g.call i cancelled away = call at hcalled ⊢
  cases hcalled with
  | comes =>
    exact forAll_put (fun j t hj ht => .inr (hothers j t hj ht)) (.inl ⟨rfl, rfl⟩)
  | enters =>
    intro j t ht
    by_cases hj : j = i
    · exact .inl ⟨hj, rfl⟩
    · exact .inr (hothers j t hj ht)
  | inside hs => exact (hsame (hstage hs rfl)).mono fun _ _ => .inr
  | waits _ hs => exact (hsame (hstage hs rfl)).mono fun _ _ => .inr
  | ended hover =>
    refine (hsame fun t ht => ?_).mono fun _ _ => .inr
    obtain ⟨b, rfl⟩ := hover t ht
    rfl
  | queues =>
    exact forAll_put (fun j t hj ht => .inr (hothers j t hj ht)) (.inr (.inl (hidle _ rfl)))
  | turns =>
    exact forAll_put (fun j t hj ht => .inr (hothers j t hj ht)) (.inr (.inl (hidle _ rfl)))
  | leaves => exact (forAll_leave_granted h (hidle _ rfl)).mono fun _ _ => .inr

end Gate
end Runbook
