import Runbook.Document.Codec
import Runbook.Proofs.Document.Shape
import Runbook.Proofs.Json.Sorted
import Runbook.Step.Alike

/-!
# The JSON form is read back

JSON data comes back with the fields of every record sorted.  For the records with a fixed set of
fields that is one more order in which the fields are read, and the outcome is the same.  The
properties of a step come back in the order of their keys, so the step that is read is *alike*, and
not always equal: `Sequence.ofData_sorted`.
-/

namespace Runbook

open Runbook.Json

/-! ## Sorted forms -/

theorem sortedValues_append : ∀ fs gs : List (Data × Data),
    sortedValues (fs ++ gs) = sortedValues fs ++ sortedValues gs
  | [], _ => rfl
  | (k, v) :: fs, gs => by
      rw [List.cons_append, sortedValues, sortedValues, sortedValues_append fs gs, List.cons_append]

theorem sortedValues_nonEmpty (empty : Bool) (key : String) (d : Data) :
    sortedValues (nonEmpty empty (field key d)) = nonEmpty empty (field key (sorted d)) := by
  cases empty <;> rfl

theorem sortedItems_map {α : Type} (f : α → Data) : ∀ as : List α,
    sortedItems (as.map f) = as.map fun a => sorted (f a)
  | [] => rfl
  | a :: as => by
      rw [List.map_cons, sortedItems, sortedItems_map f as, List.map_cons]

/-- The keys of a field that may be left out. -/
theorem keys_nonEmpty (empty : Bool) (key : String) (d : Data) :
    ((nonEmpty empty (field key d)).map (·.1)).Sublist [.text key] := by
  cases empty with
  | true => exact List.nil_sublist _
  | false => exact .refl _

/-- The data of a condition with its fields sorted. -/
theorem sorted_condition (c : Condition) : sorted c.toData =
    .record [field "operator" (.text c.operator.name), field "value" (.text c.value),
      field "variableName" (.text c.name)] := by
  have hordered : Ordered [field "operator" (.text c.operator.name), field "value" (.text c.value),
      field "variableName" (.text c.name)] :=
    ordered_of_names ["operator", "value", "variableName"] (.refl _) (by decide)
  have hsame : ([field "operator" (.text c.operator.name), field "value" (.text c.value)] ++
      [field "variableName" (.text c.name)]).Perm ([field "variableName" (.text c.name)] ++
      [field "operator" (.text c.operator.name), field "value" (.text c.value)]) :=
    List.perm_append_comm
  exact congrArg Data.record (sortFields_eq hordered hsame)

/-- The data of a variable with its fields sorted. -/
theorem sorted_variable (v : Variable) : sorted v.toData =
    .record [field "isReadOnly" (.bool v.readOnly), field "isSecret" (.bool v.secret),
      field "name" (.text v.name), field "value" (.text v.value)] := by
  have hordered : Ordered [field "isReadOnly" (.bool v.readOnly), field "isSecret" (.bool v.secret),
      field "name" (.text v.name), field "value" (.text v.value)] :=
    ordered_of_names ["isReadOnly", "isSecret", "name", "value"] (.refl _) (by decide)
  have hsame : ([field "isReadOnly" (.bool v.readOnly), field "isSecret" (.bool v.secret)] ++
      [field "name" (.text v.name), field "value" (.text v.value)]).Perm
      ([field "name" (.text v.name), field "value" (.text v.value)] ++
      [field "isReadOnly" (.bool v.readOnly), field "isSecret" (.bool v.secret)]) :=
    List.perm_append_comm
  exact congrArg Data.record (sortFields_eq hordered hsame)

/-- A permutation of a list that a function was applied to is one it was applied to. -/
theorem exists_perm_of_perm_map {α β : Type} {f : α → β} {l : List β} {as : List α}
    (h : l.Perm (as.map f)) : ∃ bs : List α, l = bs.map f ∧ bs.Perm as := by
  generalize hm : as.map f = m at h
  induction h generalizing as with
  | nil => exact ⟨[], rfl, by rw [List.map_eq_nil_iff.mp hm]⟩
  | cons x _ ih =>
      obtain ⟨a, as, rfl, rfl, hrest⟩ := List.map_eq_cons_iff.mp hm
      obtain ⟨bs, rfl, hbs⟩ := ih hrest
      exact ⟨a :: bs, rfl, hbs.cons a⟩
  | swap x y l =>
      obtain ⟨a, as, rfl, rfl, hrest⟩ := List.map_eq_cons_iff.mp hm
      obtain ⟨b, as, rfl, rfl, rfl⟩ := List.map_eq_cons_iff.mp hrest
      exact ⟨b :: a :: as, rfl, .swap _ _ _⟩
  | trans _ _ ih₁ ih₂ =>
      obtain ⟨bs, rfl, hbs⟩ := ih₂ hm
      obtain ⟨ds, rfl, hds⟩ := ih₁ rfl
      exact ⟨ds, rfl, hds.trans hbs⟩

/-- A property as a field. -/
def propertyField (p : String × String) : Data × Data := field p.1 (.text p.2)

theorem toData_properties (ps : Pairs) : Pairs.toData ps = .record (ps.map propertyField) := rfl

theorem sortedValues_properties : ∀ ps : Pairs,
    sortedValues (ps.map propertyField) = ps.map propertyField
  | [] => rfl
  | p :: ps => by
      rw [List.map_cons, propertyField, field, sortedValues, sortedValues_properties ps]
      rfl

/-- Different keys are written as different texts. -/
theorem nodup_properties {ps : Pairs} (h : ps.keys.Nodup) :
    ((ps.map propertyField).map (·.1)).Nodup := by
  rw [List.map_map]
  exact List.pairwise_map.mpr ((List.pairwise_map.mp h).imp fun hne he => hne (by injection he))

/-- The properties of a step come back in another order. -/
theorem sorted_properties {ps : Pairs} (h : ps.keys.Nodup) :
    ∃ qs : Pairs, sorted (Pairs.toData ps) = Pairs.toData qs ∧ qs.Perm ps := by
  have hdup : (([] ++ ps.map propertyField : List (Data × Data)).map (·.1)).Nodup := by
    rw [List.nil_append]
    exact nodup_properties h
  have htexts : ∀ f ∈ ps.map propertyField, ∃ k, f.1 = .text k := by
    intro f hf
    obtain ⟨p, -, rfl⟩ := List.mem_map.mp hf
    exact ⟨p.1, rfl⟩
  obtain ⟨hperm, -⟩ := sortFields_spec ⟨by simp, List.Pairwise.nil⟩ htexts hdup
  obtain ⟨qs, hqs, hp⟩ := exists_perm_of_perm_map hperm
  refine ⟨qs, ?_, hp⟩
  rw [toData_properties, toData_properties, sorted, sortedValues_properties, hqs]

open Classical in
/-- The fields of a step in the order of their keys and in the order they are written in. -/
theorem perm_stepFields {α : Type} (i n t e c : α) (ds cs ps ss : List α) :
    (ss ++ (cs ++ ([c] ++ (ds ++ ([e, i, n] ++ (ps ++ [t])))))).Perm
      ([i, n] ++ ds ++ [t, e, c] ++ cs ++ ps ++ ss) := by
  rw [List.perm_iff_count]
  intro a
  simp only [List.count_append, List.count_cons, List.count_nil]
  omega

/-- The data of a step with the fields of all records sorted. -/
theorem sorted_step (i n d : String) (k : Kind) (e c : Bool) (cs : List Condition) (ps : Pairs)
    (ss : List Step) : sorted (Step.toData (.mk i n d k e c cs ps ss)) =
      .record (nonEmpty ss.isEmpty (field "childSteps" (.list (sortedItems (stepsToData ss)))) ++
        (nonEmpty cs.isEmpty (field "conditions" (.list (cs.map fun c => sorted c.toData))) ++
        ([field "continueOnError" (.bool c)] ++
        (nonEmpty d.isEmpty (field "description" (.text d)) ++
        ([field "enabled" (.bool e), field "id" (.text i), field "name" (.text n)] ++
        (nonEmpty ps.isEmpty (field "properties" (sorted (Pairs.toData ps))) ++
        [field "type" (.text k.name)])))))) := by
  rw [Step.toData, sorted]
  refine congrArg Data.record (sortFields_eq ?_ ?_)
  · refine ordered_of_names ["childSteps", "conditions", "continueOnError", "description",
      "enabled", "id", "name", "properties", "type"] ?_ (by decide)
    simp only [List.map_append]
    exact (keys_nonEmpty _ _ _).append ((keys_nonEmpty _ _ _).append ((List.Sublist.refl _).append
      ((keys_nonEmpty _ _ _).append ((List.Sublist.refl _).append
      ((keys_nonEmpty _ _ _).append (.refl _))))))
  · simp only [sortedValues_append, sortedValues_nonEmpty]
    rw [sorted, sorted, sortedItems_map]
    exact perm_stepFields _ _ _ _ _ _ _ _ _

/-! ## Likeness -/

theorem Pairs.get?_of_mem : ∀ {qs : Pairs}, qs.keys.Nodup → ∀ p ∈ qs, qs.get? p.1 = some p.2
  | [], _, p, hp => nomatch hp
  | q :: qs, h, p, hp => by
      rw [Pairs.keys, List.map_cons, List.nodup_cons] at h
      rw [Pairs.get?_cons]
      cases List.mem_cons.mp hp with
      | inl he => rw [he, if_pos rfl]
      | inr hq =>
          have hne : p.1 ≠ q.1 := fun he => h.1 (he ▸ List.mem_map_of_mem hq)
          rw [if_neg hne, Pairs.get?_of_mem h.2 p hq]

/-- Properties in another order are the same map. -/
theorem Pairs.sameMap_of_perm {ps qs : Pairs} (h : qs.Perm ps) (hq : qs.keys.Nodup) :
    Pairs.sameMap ps qs = true := by
  rw [sameMap, Bool.and_eq_true, beq_iff_eq, List.all_eq_true]
  refine ⟨h.length_eq.symm, fun p hp => ?_⟩
  rw [Pairs.get?_of_mem hq p (h.mem_iff.mpr hp), beq_self_eq_true]

theorem isEmpty_of_allAlike : ∀ {ss ts : List Step}, Step.allAlike ss ts = true →
    ss.isEmpty = ts.isEmpty
  | [], [], _ => rfl
  | _ :: _, _ :: _, _ => rfl
  | [], _ :: _, h => nomatch h
  | _ :: _, [], h => nomatch h

/-! ## Sorted data is read back -/

variable (dl : Dialect)

theorem Condition.ofData_sorted (c : Condition) :
    Condition.ofData dl (sorted c.toData) = .ok c := by
  rw [sorted_condition]
  refine Condition.ofData_record dl ?_
  rw [ConditionDraft.takeAll_operator dl _ rfl, ConditionDraft.takeAll_value dl _ rfl,
    ConditionDraft.takeAll_name dl _ rfl]
  rfl

theorem Variable.ofData_sorted (v : Variable) : Variable.ofData dl (sorted v.toData) = .ok v := by
  rw [sorted_variable]
  refine Variable.ofData_record dl ?_
  rw [VariableDraft.takeAll_readOnly dl _ rfl, VariableDraft.takeAll_secret dl _ rfl,
    VariableDraft.takeAll_name dl _ rfl, VariableDraft.takeAll_value dl _ rfl]
  rfl

/-- The sorted fields of a step are read as its draft, given what the steps in it are read as. -/
theorem draftOf_sorted (fresh : Fresh) (place : Place) (i n d : String) (k : Kind) (e c : Bool)
    (cs : List Condition) (ps : Pairs) {ss : List Step} {items : List Data}
    (h : stepsOfItems dl fresh place 0 items = .ok ss) :
    draftOf dl fresh place {} (nonEmpty ss.isEmpty (field "childSteps" (.list items)) ++
      (nonEmpty cs.isEmpty (field "conditions" (.list (cs.map fun c => sorted c.toData))) ++
      ([field "continueOnError" (.bool c)] ++
      (nonEmpty d.isEmpty (field "description" (.text d)) ++
      ([field "enabled" (.bool e), field "id" (.text i), field "name" (.text n)] ++
      (nonEmpty ps.isEmpty (field "properties" (Pairs.toData ps)) ++
      [field "type" (.text k.name)])))))) =
      .ok (StepDraft.ofStep (.mk i n d k e c cs ps ss)) := by
  have hconditions : (dl.items (.list (cs.map fun c => sorted c.toData))).bind
      (fun ds => ds.mapM (Condition.ofData dl)) = .ok cs :=
    mapM_ok (Condition.ofData_sorted dl) cs
  have hchildren : stepsOfData dl fresh place (.list items) = .ok ss := by
    rw [stepsOfData, h]
  rw [draftOf_children dl fresh place hchildren rfl,
    draftOf_conditions dl fresh place hconditions rfl, List.singleton_append,
    draftOf_continueOnError dl fresh place c rfl, draftOf_description dl fresh place d rfl,
    List.cons_append, List.cons_append, List.cons_append, List.nil_append,
    draftOf_enabled dl fresh place e rfl, draftOf_id dl fresh place i rfl,
    draftOf_name dl fresh place n rfl,
    draftOf_properties dl fresh place (dl.texts_toData ps) rfl,
    draftOf_kind dl fresh place k rfl]
  rfl

mutual

/-- The sorted data of a step is read as a step alike. -/
theorem Step.ofData_sorted (fresh : Fresh) : ∀ (place : Place) (s : Step),
    (∀ t ∈ s.preorder, t.Proper) →
      ∃ t, Step.ofData dl fresh place (sorted s.toData) = .ok t ∧ s.alike t = true
  | place, .mk i n d k e c cs ps ss, h => by
      rw [Step.forall_mem_preorder_mk] at h
      obtain ⟨ts, hread, halike⟩ := stepsOfItems_sorted fresh place 0 ss h.2
      have hps : ps.keys.Nodup := h.1
      obtain ⟨qs, hsorted, hperm⟩ := sorted_properties hps
      have hkeys : qs.keys.Nodup := (hperm.map _).nodup_iff.mpr hps
      have hempty : ps.isEmpty = qs.isEmpty := hperm.symm.isEmpty_eq
      refine ⟨.mk i n d k e c cs qs ts, ?_, ?_⟩
      · rw [sorted_step, hsorted, isEmpty_of_allAlike halike, hempty, Step.ofData,
          draftOf_sorted dl fresh place i n d k e c cs qs hread]
        exact congrArg Except.ok (StepDraft.finish_ofStep fresh place hkeys)
      · simp [Step.alike, halike, Pairs.sameMap_of_perm hperm hkeys]

/-- The sorted data of steps is read as steps alike. -/
theorem stepsOfItems_sorted (fresh : Fresh) : ∀ (place : Place) (position : Nat) (ss : List Step),
    (∀ t ∈ Step.preorderAll ss, t.Proper) →
      ∃ ts, stepsOfItems dl fresh place position (sortedItems (stepsToData ss)) = .ok ts ∧
        Step.allAlike ss ts = true
  | place, position, [], _ => ⟨[], by rw [stepsToData, sortedItems, stepsOfItems], rfl⟩
  | place, position, s :: ss, h => by
      rw [Step.forall_mem_preorderAll_cons] at h
      obtain ⟨t, hread, halike⟩ := Step.ofData_sorted fresh (place ++ [position]) s h.1
      obtain ⟨ts, hreads, halikes⟩ := stepsOfItems_sorted fresh place (position + 1) ss h.2
      refine ⟨t :: ts, ?_, ?_⟩
      · rw [stepsToData, sortedItems, stepsOfItems, hread]
        simp only [hreads]
        rfl
      · rw [Step.allAlike, halike, halikes]
        rfl

end

open Classical in
/-- The fields of a sequence in the order of their keys and in the order they are written in. -/
theorem perm_sequenceFields {α : Type} (i n d v c m vs ss : α) :
    [c, d, i, m, n, ss, vs, v].Perm [i, n, d, v, c, m, vs, ss] := by
  rw [List.perm_iff_count]
  intro a
  simp only [List.count_cons, List.count_nil]
  omega

/-- The data of a sequence with the fields of all records sorted. -/
theorem sorted_sequence (s : Sequence) : sorted s.toData =
    .record ([field "createdDate" (.text s.created.text)] ++
      ([field "description" (.text s.description)] ++ ([field "id" (.text s.id)] ++
      ([field "modifiedDate" (.text s.modified.text)] ++ ([field "name" (.text s.name)] ++
      ([field "steps" (.list (sortedItems (stepsToData s.steps)))] ++
      ([field "variables" (.list (s.declarations.map fun v => sorted v.toData))] ++
      [field "version" (.text s.version)]))))))) := by
  rw [Sequence.toData, sorted]
  refine congrArg Data.record (sortFields_eq ?_ ?_)
  · exact ordered_of_names ["createdDate", "description", "id", "modifiedDate", "name", "steps",
      "variables", "version"] (.refl _) (by decide)
  · simp only [field, sortedValues, sorted, sortedItems_map]
    exact perm_sequenceFields _ _ _ _ _ _ _ _

/-- The sorted data of a sequence is read as a sequence alike. -/
theorem Sequence.ofData_sorted (fresh : Fresh) {s : Sequence} (h : s.Proper) :
    ∃ t, Sequence.ofData dl fresh (sorted s.toData) = .ok t ∧ s.alike t = true := by
  obtain ⟨ts, hread, halike⟩ := stepsOfItems_sorted dl fresh [] 0 s.steps h.steps
  have hvariables : (dl.items (.list (s.declarations.map fun v => sorted v.toData))).bind
      (fun ds => ds.mapM (Variable.ofData dl)) = .ok s.declarations :=
    mapM_ok (Variable.ofData_sorted dl) s.declarations
  have hsteps : stepsOfData dl fresh [] (.list (sortedItems (stepsToData s.steps))) = .ok ts := by
    rw [stepsOfData, hread]
  refine ⟨{ s with steps := ts }, ?_, by simp [Sequence.alike, halike]⟩
  rw [sorted_sequence]
  refine Sequence.ofData_record dl fresh ?_
  simp only [List.singleton_append]
  rw [SequenceDraft.takeAll_created dl fresh h.created rfl,
    SequenceDraft.takeAll_description dl fresh _ rfl, SequenceDraft.takeAll_id dl fresh _ rfl,
    SequenceDraft.takeAll_modified dl fresh h.modified rfl,
    SequenceDraft.takeAll_name dl fresh _ rfl, SequenceDraft.takeAll_steps dl fresh hsteps rfl,
    SequenceDraft.takeAll_declarations dl fresh hvariables rfl,
    SequenceDraft.takeAll_version dl fresh _ rfl]
  rfl

/-- The sorted data of a sequence is a record that a sequence is expected to be. -/
theorem Sequence.isRoot_sorted (s : Sequence) : Sequence.isRoot (sorted s.toData) = true := by
  rw [sorted_sequence]
  simp [isRoot, Data.untagged, Data.hasField, Data.field?, field, Data.same]

end Runbook
