import Mathlib.Logic.Relation
import Runbook.Step

/-!
# The preorder of steps

The preorder of a tree lists a step before the steps in it, and these one tree after the other, of
whatever kind the step is.  `Step.mem_preorderAll_iff` says that it lists what can be come to from
the top by going from steps to the steps in them, and `Step.length_preorderAll` that it is as long
as the steps are many.
-/

namespace Runbook

open Relation (ReflTransGen)

namespace Step

theorem preorder_eq (s : Step) : s.preorder = s :: preorderAll s.children := by
  cases s
  rfl

theorem preorderAll_append : ∀ ss ts : List Step,
    preorderAll (ss ++ ts) = preorderAll ss ++ preorderAll ts
  | [], _ => rfl
  | s :: ss, ts => by
      rw [List.cons_append, preorderAll, preorderAll, preorderAll_append, List.append_assoc]

theorem preorderAll_singleton (s : Step) : preorderAll [s] = s.preorder :=
  List.append_nil _

theorem preorderAll_eq_flatMap : ∀ ss : List Step, preorderAll ss = ss.flatMap preorder
  | [] => rfl
  | s :: ss => by rw [preorderAll, List.flatMap_cons, preorderAll_eq_flatMap ss]

mutual

theorem length_preorder : ∀ s : Step, s.preorder.length = s.count
  | mk _ _ _ _ _ _ _ _ ss => by
      rw [preorder, count, List.length_cons, length_preorderAll ss, Nat.add_comm]

theorem length_preorderAll : ∀ ss : List Step, (preorderAll ss).length = countAll ss
  | [] => rfl
  | s :: ss => by
      rw [preorderAll, countAll, List.length_append, length_preorder s, length_preorderAll ss]

end

/-! ## What is listed -/

theorem mem_preorderAll_of_mem {s t : Step} {ss : List Step} (hs : s ∈ ss)
    (ht : t ∈ s.preorder) : t ∈ preorderAll ss := by
  rw [preorderAll_eq_flatMap]
  exact List.mem_flatMap.mpr ⟨s, hs, ht⟩

/-- The steps of the first tree come first. -/
theorem mem_preorderAll_head {s : Step} {ss : List Step} :
    ∀ t ∈ preorderAll [s], t ∈ preorderAll (s :: ss) := by
  intro t ht
  rw [preorderAll_singleton] at ht
  exact List.mem_append_left _ ht

/-- Going from steps to the steps in them, one comes from the first step to the second. -/
def LeadsDownTo : Step → Step → Prop := ReflTransGen fun s t => t ∈ s.children

mutual

theorem leadsDownTo_of_mem_preorder {t : Step} : ∀ {s : Step}, t ∈ s.preorder → s.LeadsDownTo t
  | .mk i n d k e c cs ps ss, h => by
      obtain rfl | h := List.mem_cons.mp h
      · exact .refl
      · obtain ⟨u, hu, hut⟩ := exists_leadsDownTo_of_mem_preorderAll h
        exact .head (b := u) hu hut
termination_by structural s => s

theorem exists_leadsDownTo_of_mem_preorderAll {t : Step} :
    ∀ {ss : List Step}, t ∈ preorderAll ss → ∃ u ∈ ss, u.LeadsDownTo t
  | s :: ss, h => by
      obtain h | h := List.mem_append.mp h
      · exact ⟨s, List.mem_cons_self, leadsDownTo_of_mem_preorder h⟩
      · obtain ⟨u, hu, hut⟩ := exists_leadsDownTo_of_mem_preorderAll h
        exact ⟨u, List.mem_cons_of_mem s hu, hut⟩
termination_by structural ss => ss

end

theorem mem_preorder_of_leadsDownTo {s t : Step} (h : s.LeadsDownTo t) : t ∈ s.preorder := by
  -- From the top: the preorder of a step contains that of each step in it.
  induction h using ReflTransGen.head_induction_on with
  | refl =>
    rw [preorder_eq]
    exact List.mem_cons_self
  | @head s u hu _ ih =>
    rw [preorder_eq]
    exact List.mem_cons_of_mem s (mem_preorderAll_of_mem hu ih)

/-- The steps that can be come to from the top are listed, and nothing else. -/
theorem mem_preorderAll_iff {t : Step} {ss : List Step} :
    t ∈ preorderAll ss ↔ ∃ u ∈ ss, u.LeadsDownTo t :=
  ⟨exists_leadsDownTo_of_mem_preorderAll,
    fun ⟨_, hu, hut⟩ => mem_preorderAll_of_mem hu (mem_preorder_of_leadsDownTo hut)⟩

end Step
end Runbook
