import Runbook.Proofs.Timestamp.ReadBack
import Runbook.Sequence

/-!
# Sequences that a program can hold

The properties of a step are a map, so no step at any depth has a key twice, and the two dates of a
sequence are points in time that can be held.  That is all a sequence is promised to satisfy: its
texts are any texts, and its steps may hold steps of any kind at any depth.
-/

namespace Runbook

/-- The properties are a map. -/
def Step.Proper (s : Step) : Prop := s.properties.keys.Nodup

instance (s : Step) : Decidable s.Proper := inferInstanceAs (Decidable (List.Nodup _))

/-- The dates are points in time, and the properties of every step are a map. -/
structure Sequence.Proper (s : Sequence) : Prop where
  /-- The date of creation. -/
  created : s.created.Proper
  /-- The date of the last change. -/
  modified : s.modified.Proper
  /-- The steps at any depth. -/
  steps : ∀ t ∈ s.allSteps, t.Proper

/-- The years of the dates are written with four digits. -/
structure Sequence.FourDigitYears (s : Sequence) : Prop where
  /-- The year of creation. -/
  created : 0 ≤ s.created.year ∧ s.created.year ≤ 9999
  /-- The year of the last change. -/
  modified : 0 ≤ s.modified.year ∧ s.modified.year ≤ 9999

/-! ## Trees of steps -/

/-- The steps of a tree are the one at its root and those below it. -/
theorem Step.forall_mem_preorder_mk {i n d : String} {k : Kind} {e c : Bool} {cs : List Condition}
    {ps : Pairs} {ss : List Step} {P : Step → Prop} :
    (∀ t ∈ preorder (.mk i n d k e c cs ps ss), P t) ↔
      P (.mk i n d k e c cs ps ss) ∧ ∀ t ∈ preorderAll ss, P t := by
  rw [preorder, List.forall_mem_cons]

theorem Step.forall_mem_preorderAll_cons {s : Step} {ss : List Step} {P : Step → Prop} :
    (∀ t ∈ preorderAll (s :: ss), P t) ↔
      (∀ t ∈ preorder s, P t) ∧ ∀ t ∈ preorderAll ss, P t := by
  rw [preorderAll, List.forall_mem_append]

/-! ## Maps -/

namespace Pairs

theorem insert_of_notMem {α : Type} (v : α) {k : String} : ∀ {ps : List (String × α)},
    k ∉ ps.map (·.1) → Pairs.insert ps k v = ps ++ [(k, v)]
  | [], _ => rfl
  | (j, w) :: ps, h => by
      rw [List.map_cons, List.mem_cons, not_or] at h
      rw [Pairs.insert, if_neg (Ne.symm h.1), insert_of_notMem v h.2, List.cons_append]

/-- Pairs with new keys are put behind those that are there. -/
theorem insertAll_of_nodup : ∀ {qs ps : Pairs}, (ps ++ qs).keys.Nodup →
    insertAll ps qs = ps ++ qs
  | [], ps, _ => by rw [List.append_nil]; rfl
  | (k, v) :: qs, ps, h => by
      have hnew : k ∉ ps.map (·.1) := by
        rw [keys, List.map_append, List.map_cons] at h
        exact fun hk => (List.nodup_append.mp h).2.2 k hk k List.mem_cons_self rfl
      have hrest : (ps ++ [(k, v)] ++ qs).keys.Nodup := by
        rwa [List.append_assoc, List.singleton_append]
      have hstep : insertAll ps ((k, v) :: qs) = insertAll (ps ++ [(k, v)]) qs := by
        rw [insertAll, List.foldl_cons, insert_of_notMem v hnew]
        rfl
      rw [hstep, insertAll_of_nodup hrest, List.append_assoc, List.singleton_append]

/-- A list without a repeated key is the map it stands for. -/
theorem insertAll_nil {qs : Pairs} (h : qs.keys.Nodup) : insertAll [] qs = qs := by
  rw [insertAll_of_nodup (by rwa [List.nil_append]), List.nil_append]

end Pairs
end Runbook
