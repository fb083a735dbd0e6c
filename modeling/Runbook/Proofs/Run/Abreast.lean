import Mathlib.Data.List.Forall2
import Runbook.Run.Gate

/-!
# Gates abreast

Two gates stand *abreast* if they have the same free places and their tasks stand at the same
places, where `R` relates the states of tasks inside and `Q` what became of those that are over.  A
move at both gates leaves them abreast.
-/

namespace Runbook

variable {α α' β β' : Type} {R : α → α' → Prop} {Q : β → β' → Prop}

/-- Both tasks stand at the same place. -/
inductive Stage.Abreast (R : α → α' → Prop) (Q : β → β' → Prop) :
    Stage α β → Stage α' β' → Prop where
  /-- Neither has come yet. -/
  | fresh : Abreast R Q .fresh .fresh
  /-- Both wait. -/
  | waiting : Abreast R Q .waiting .waiting
  /-- Both were granted a place. -/
  | granted : Abreast R Q .granted .granted
  /-- Both are inside. -/
  | inside {a : α} {a' : α'} : R a a' → Abreast R Q (.inside a) (.inside a')
  /-- Both are over. -/
  | ended {b : β} {b' : β'} : Q b b' → Abreast R Q (.ended b) (.ended b')

/-- Both gates have the same free places, and their tasks stand at the same places. -/
structure Gate.Abreast (R : α → α' → Prop) (Q : β → β' → Prop) (g : Gate α β) (g' : Gate α' β') :
    Prop where
  /-- The free places. -/
  free : g.free = g'.free
  /-- The tasks. -/
  stages : List.Forall₂ (Stage.Abreast R Q) g.stages g'.stages

/-- Two tasks find the same at their gates. -/
inductive Admission.Abreast (R : α → α' → Prop) : Admission α → Admission α' → Prop where
  /-- Both go inside. -/
  | admitted : Abreast R .admitted .admitted
  /-- Both are inside already. -/
  | inside {a : α} {a' : α'} : R a a' → Abreast R (.inside a) (.inside a')
  /-- Both have to wait. -/
  | held : Abreast R .held .held
  /-- Both are over. -/
  | gone : Abreast R .gone .gone

namespace Stage.Abreast

variable {s : Stage α β} {s' : Stage α' β'}

theorem isWaiting (h : s.Abreast R Q s') : s.isWaiting = s'.isWaiting := by
  cases h <;> rfl

/-- Either both tasks are over or neither is. -/
theorem outcome? (h : s.Abreast R Q s') :
    s.outcome? = none ∧ s'.outcome? = none ∨
      ∃ b b', s.outcome? = some b ∧ s'.outcome? = some b' ∧ Q b b' := by
  cases h with
  | ended hb => exact .inr ⟨_, _, rfl, rfl, hb⟩
  | _ => exact .inl ⟨rfl, rfl⟩

end Stage.Abreast

namespace Gate

theorem forall₂_set {l : List (Stage α β)} {l' : List (Stage α' β')} {s : Stage α β}
    {s' : Stage α' β'} (h : List.Forall₂ (Stage.Abreast R Q) l l') (hs : s.Abreast R Q s')
    (i : Nat) : List.Forall₂ (Stage.Abreast R Q) (l.set i s) (l'.set i s') := by
  induction h generalizing i with
  | nil => exact .nil
  | cons hhead htail ih =>
    cases i with
    | zero => exact .cons hs htail
    | succ i => exact .cons hhead (ih i)

theorem findIdx?_isWaiting {l : List (Stage α β)} {l' : List (Stage α' β')}
    (h : List.Forall₂ (Stage.Abreast R Q) l l') :
    l.findIdx? (·.isWaiting) = l'.findIdx? (·.isWaiting) := by
  induction h with
  | nil => rfl
  | cons hhead _ ih => rw [List.findIdx?_cons, List.findIdx?_cons, hhead.isWaiting, ih]

namespace Abreast

variable {g : Gate α β} {g' : Gate α' β'}

theorem put (h : g.Abreast R Q g') {s : Stage α β} {s' : Stage α' β'} (hs : s.Abreast R Q s')
    (i : Nat) : (g.put i s).Abreast R Q (g'.put i s') :=
  ⟨h.free, forall₂_set h.stages hs i⟩

theorem release (h : g.Abreast R Q g') :
    g.release.1.Abreast R Q g'.release.1 ∧ g.release.2 = g'.release.2 := by
  rw [Gate.release, Gate.release, findIdx?_isWaiting h.stages]
  split
  · exact ⟨h.put .granted _, rfl⟩
  · exact ⟨⟨congrArg (· + 1) h.free, h.stages⟩, rfl⟩

theorem leave (h : g.Abreast R Q g') (i : Nat) {b : β} {b' : β'} (hb : Q b b') :
    (g.leave i b).1.Abreast R Q (g'.leave i b').1 ∧ (g.leave i b).2 = (g'.leave i b').2 :=
  (h.put (.ended hb) i).release

/-- Tasks of the same number stand at the same place, if there are any. -/
theorem getElem? (h : g.Abreast R Q g') (i : Nat) :
    g.stages[i]? = none ∧ g'.stages[i]? = none ∨
      ∃ s s', g.stages[i]? = some s ∧ g'.stages[i]? = some s' ∧ s.Abreast R Q s' := by
  have hlength := h.stages.length_eq
  by_cases hi : i < g.stages.length
  · exact .inr ⟨_, _, List.getElem?_eq_getElem hi, List.getElem?_eq_getElem (hlength ▸ hi),
      h.stages.get hi (hlength ▸ hi)⟩
  · rw [Nat.not_lt] at hi
    exact .inl ⟨List.getElem?_eq_none hi, List.getElem?_eq_none (hlength ▸ hi)⟩

/-- In their turns both tasks find the same and leave the gates abreast. -/
theorem call (h : g.Abreast R Q g') (i : Nat) (cancelled : Bool) {away : β} {away' : β'}
    (haway : Q away away') :
    (g.call i cancelled away).gate.Abreast R Q (g'.call i cancelled away').gate ∧
      (g.call i cancelled away).admission.Abreast R (g'.call i cancelled away').admission ∧
      (g.call i cancelled away).granted = (g'.call i cancelled away').granted := by
  obtain ⟨hs, hs'⟩ | ⟨s, s', hs, hs', habreast⟩ := h.getElem? i
  · rw [Gate.call, Gate.call, hs, hs']
    exact ⟨h, .gone, rfl⟩
  rw [Gate.call, Gate.call, hs, hs']
  cases habreast with
  | fresh =>
    cases cancelled with
    | true => exact ⟨h.put (.ended haway) i, .gone, rfl⟩
    | false =>
      simp only [Bool.false_eq_true, if_false, h.free]
      cases g'.free with
      | zero => exact ⟨h.put .waiting i, .held, rfl⟩
      | succ n => exact ⟨⟨rfl, forall₂_set h.stages .granted i⟩, .admitted, rfl⟩
  | waiting =>
    cases cancelled with
    | true => exact ⟨h.put (.ended haway) i, .gone, rfl⟩
    | false => exact ⟨h, .held, rfl⟩
  | granted =>
    cases cancelled with
    | true => exact ⟨(h.leave i haway).1, .gone, (h.leave i haway).2⟩
    | false => exact ⟨h, .admitted, rfl⟩
  | inside hstate => exact ⟨h, .inside hstate, rfl⟩
  | ended hb => exact ⟨h, .gone, rfl⟩

theorem outcomes (h : g.Abreast R Q g') : List.Forall₂ Q g.outcomes g'.outcomes := by
  have hstages := h.stages
  rw [Gate.outcomes, Gate.outcomes]
  generalize g.stages = l, g'.stages = l' at hstages
  induction hstages with
  | nil => exact .nil
  | cons hhead _ ih =>
    obtain ⟨hs, hs'⟩ | ⟨b, b', hs, hs', hb⟩ := hhead.outcome?
    · rwa [List.filterMap_cons_none hs, List.filterMap_cons_none hs']
    · rw [List.filterMap_cons_some hs, List.filterMap_cons_some hs']
      exact .cons hb ih

theorem isEmpty (h : g.Abreast R Q g') : g.isEmpty = g'.isEmpty := by
  have hstages := h.stages
  rw [Gate.isEmpty, Gate.isEmpty]
  generalize g.stages = l, g'.stages = l' at hstages
  induction hstages with
  | nil => rfl
  | cons hhead _ ih =>
    rw [List.all_cons, List.all_cons, ih]
    obtain ⟨hs, hs'⟩ | ⟨b, b', hs, hs', -⟩ := hhead.outcome?
    · rw [hs, hs']
      rfl
    · rw [hs, hs']
      rfl

end Abreast

theorem abreast_ofBound (bound n : Nat) :
    (ofBound bound n : Gate α β).Abreast R Q (ofBound bound n : Gate α' β') := by
  refine ⟨rfl, ?_⟩
  rw [ofBound, ofBound]
  induction n with
  | zero => exact .nil
  | succ n ih => exact .cons .fresh ih

end Gate
end Runbook
