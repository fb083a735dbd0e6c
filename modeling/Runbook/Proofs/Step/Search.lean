import Mathlib.Data.List.Nodup
import Runbook.Proofs.Validation.Errors

/-!
# Searching for steps

A step is searched for by its identity, from the top of the tree down: a step before the steps in
it, and all of these before the next step beside it.  The search ends with the first step it finds,
so it goes through the preorder up to that step (`Step.findAll?_eq`), however deep the step stands
and however often its identity is repeated.

`Sequence.searches` puts together how the search and the count of steps go by the preorder.
-/

namespace Runbook

namespace Step

mutual

/-- The first step of a tree with an identity is the first one of its preorder. -/
theorem find?_eq (wanted : String) : ∀ s : Step,
    find? wanted s = s.preorder.find? fun t => t.id = wanted
  | .mk i n d k e c cs ps ss => by
      rw [find?, preorder, List.find?_cons]
      by_cases h : i = wanted
      · simp [h, id]
      · simp [h, id, findAll?_eq wanted ss]
termination_by structural s => s

theorem findAll?_eq (wanted : String) : ∀ ss : List Step,
    findAll? wanted ss = (preorderAll ss).find? fun t => t.id = wanted
  | [] => rfl
  | s :: ss => by
      rw [findAll?, preorderAll, List.find?_append, find?_eq wanted s, findAll?_eq wanted ss]
      cases s.preorder.find? fun t => decide (t.id = wanted) <;> rfl
termination_by structural ss => ss

end

end Step

namespace Sequence

variable {s : Sequence}

/-- A step that is found is the first one with its identity. -/
theorem findStep?_eq_some_iff {wanted : String} {t : Step} :
    s.findStep? wanted = some t ↔ ∃ before after, s.allSteps = before ++ t :: after ∧
      t.id = wanted ∧ ∀ u ∈ before, u.id ≠ wanted := by
  rw [findStep?, Step.findAll?_eq, List.find?_eq_some_iff_append]
  simp only [decide_eq_true_eq, Bool.not_eq_true', decide_eq_false_iff_not]
  constructor
  · rintro ⟨hid, before, after, hsteps, hbefore⟩
    exact ⟨before, after, hsteps, hid, hbefore⟩
  · rintro ⟨before, after, hsteps, hid, hbefore⟩
    exact ⟨hid, before, after, hsteps, hbefore⟩

/-- Nothing is found if no step has the identity. -/
theorem findStep?_eq_none_iff {wanted : String} :
    s.findStep? wanted = none ↔ ∀ t ∈ s.allSteps, t.id ≠ wanted := by
  rw [findStep?, Step.findAll?_eq, List.find?_eq_none]
  simp only [decide_eq_true_eq]
  rfl

/-- Of distinct steps, one is found by its identity. -/
theorem findStep?_of_mem (hdistinct : (s.allSteps.map Step.id).Nodup) {t : Step}
    (ht : t ∈ s.allSteps) : s.findStep? t.id = some t := by
  cases hfound : s.findStep? t.id with
  | none => exact absurd rfl (findStep?_eq_none_iff.mp hfound t ht)
  | some u =>
    obtain ⟨before, after, hsteps, hid, -⟩ := findStep?_eq_some_iff.mp hfound
    have hu : u ∈ s.allSteps := hsteps ▸ List.mem_append_right before List.mem_cons_self
    rw [List.inj_on_of_nodup_map hdistinct hu ht hid]

/-- Where no step is reported as repeated, no two steps have the same identity. -/
theorem nodup_ids_of_errors {supports : Option (Step → Bool)}
    (h : ∀ id name, .duplicateStep id name ∉ (s.validate supports).errors) :
    (s.allSteps.map Step.id).Nodup := by
  have hnone : (s.validate supports).errors.filter Finding.isDuplicateStep = [] := by
    refine List.filter_eq_nil_iff.mpr fun f hf hduplicate => ?_
    cases f with
    | duplicateStep id name => exact h id name hf
    | _ => cases hduplicate
  rw [duplicateSteps_validate, List.map_eq_nil_iff] at hnone
  exact (latecomers_eq_nil_iff Step.id).mp hnone

variable (s)

/-- The steps are searched and counted in preorder. -/
structure Searches : Prop where
  /-- The preorder lists the steps at any depth, those in steps that are no groups included. -/
  listed : ∀ t, t ∈ s.allSteps ↔ ∃ u ∈ s.steps, u.LeadsDownTo t
  /-- The search finds the first step with the identity. -/
  found : ∀ wanted t, s.findStep? wanted = some t ↔ ∃ before after,
    s.allSteps = before ++ t :: after ∧ t.id = wanted ∧ ∀ u ∈ before, u.id ≠ wanted
  /-- It finds none if there is none, and only then. -/
  missing : ∀ wanted, s.findStep? wanted = none ↔ ∀ t ∈ s.allSteps, t.id ≠ wanted
  /-- As many steps are counted as are listed. -/
  counted : s.stepCount = s.allSteps.length
  /-- Where no identity is reported as repeated, every step is found by its own. -/
  own : ∀ supports, (∀ id name, .duplicateStep id name ∉ (s.validate supports).errors) →
    ∀ t ∈ s.allSteps, s.findStep? t.id = some t

/-- Whatever steps there are and whatever identities they have, the search and the count go by the
preorder. -/
theorem searches : s.Searches where
  listed _ := Step.mem_preorderAll_iff
  found _ _ := findStep?_eq_some_iff
  missing _ := findStep?_eq_none_iff
  counted := (Step.length_preorderAll s.steps).symm
  own _ h _ := findStep?_of_mem (nodup_ids_of_errors h)

end Sequence
end Runbook
