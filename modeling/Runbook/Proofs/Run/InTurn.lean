import Runbook.Proofs.Run.Performance
import Runbook.Proofs.Run.SideBySide
import Runbook.Proofs.Run.Wakeful

/-!
# Branches in turn

In a parallel run of a prompt engine that nothing goes on beside, every branch comes to its end in
its first turn.  So the branches are run one after the other, in the order of their steps, whatever
the bound (`Engine.exists_settle`), and the record lists the results in the order in which the steps
were begun (`Engine.InTurn.sortedByStart`).
-/

namespace Runbook

variable {σ : Type}

namespace Engine

variable {e : Engine σ} {act : Step → Store → Reply × Store} {log : σ → List Step}
  {ss : List Step} {c : Context}

/-! ## Branches that have been run -/

variable (e) in
/-- Branches were run one after the other, each from its beginning to its end. -/
inductive InTurn (c : Context) : List Step → World σ → List Account → World σ → Prop where
  /-- There are none. -/
  | nil {w : World σ} : InTurn c [] w [] w
  /-- The first one and then the others. -/
  | cons {s : Step} {ss : List Step} {w v w' : World σ} {a : Account} {as : List Account}
      {c' : Context} :
      e.Ran Eq s c.branch w a c' v → InTurn c ss v as w' → InTurn c (s :: ss) w (a :: as) w'

theorem InTurn.chronological {w w' : World σ} {as : List Account} (h : e.InTurn c ss w as w') :
    Chronological w.clock w'.clock (Account.chronicles as) ∧ w.Onward w' := by
  induction h with
  | nil => exact ⟨.nil _ _, .refl _⟩
  | cons hran _ ih =>
    have honward := Ran.onward e World.harmless_eq.onward hran
    exact ⟨(Ran.chronological e World.harmless_eq.onward hran).append ih.1 honward.clock ih.2.clock,
      honward.trans ih.2⟩

theorem InTurn.performed (hsteady : e.Steady Eq act) (hkeeps : e.Keeps log) {w w' : World σ}
    {as : List Account} (h : e.InTurn c ss w as w') (hw' : w'.cancelled = false) :
    Performed e act log ss w as w' := by
  induction h with
  | nil => exact .nil
  | cons hran hrest ih =>
    have hv := hrest.chronological.2.uncancelled hw'
    obtain ⟨ha, hwent⟩ := hran.performed hsteady World.harmless_eq hkeeps hv
    exact .cons ha hwent (.refl _) (ih hw')

theorem InTurn.length {w w' : World σ} {as : List Account} (h : e.InTurn c ss w as w') :
    as.length = ss.length := by
  induction h with
  | nil => rfl
  | cons _ _ ih => rw [List.length_cons, List.length_cons, ih]

/-- Sorted by their start, the results of branches in turn are those of the steps as they were
begun, a step before the steps in it. -/
theorem InTurn.sortedByStart {w w' : World σ} {as : List Account} (h : e.InTurn c ss w as w') :
    sortedByStart (Account.blocks as) = Account.chronicles as := by
  have hperm := (sortedByStart_perm (Account.blocks as)).trans (Account.blocks_perm as)
  have hsublist := sublist_of_increasing (sortedByStart_pairwise _) h.chronological.1.increasing
    hperm.symm.subperm
  exact (hsublist.eq_of_length hperm.symm.length_eq).symm

end Engine
end Runbook
