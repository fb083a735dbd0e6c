import Runbook.Document.Fields
import Runbook.Document.Shape
import Runbook.Proofs.Document.Proper

/-!
# The data of a sequence is read back

Generic data is read field by field, and each field sets one part of a draft, whatever fields stand
before or after it.  So one lemma for each field is enough to follow a record in any order.

`Sequence.ofData_toData` says that the data a sequence is written as is read back to it, in every
dialect.
-/

namespace Runbook

variable (dl : Dialect)

/-! ## Conditions and variables -/

namespace ConditionDraft

theorem takeAll_field (f : ConditionField) {name : String}
    (hf : ConditionField.ofName? name = some f) {c c' : ConditionDraft} {d : Data}
    (h : c.take dl f d = .ok c') (fs : List (Data × Data)) :
    takeAll dl c (field name d :: fs) = takeAll dl c' fs := by
  have hname : dl.fieldName (.text name) = .ok name := rfl
  simp only [field, takeAll, hname, bind, Except.bind, hf, h]

variable {c : ConditionDraft}

theorem takeAll_name (n : String) (h : c.name = none) (fs : List (Data × Data)) :
    takeAll dl c (field "variableName" (.text n) :: fs) =
      takeAll dl { c with name := some n } fs :=
  takeAll_field dl .name (by decide) (by rw [take, h]; rfl) fs

theorem takeAll_operator (o : Operator) (h : c.operator = none) (fs : List (Data × Data)) :
    takeAll dl c (field "operator" (.text o.name) :: fs) =
      takeAll dl { c with operator := some o } fs := by
  have hread : Operator.ofData dl (.text o.name) = .ok o := by
    have htext : dl.text (.text o.name) = .ok o.name := rfl
    simp only [Operator.ofData, htext, bind, Except.bind, Operator.ofText?_name]
  exact takeAll_field dl .operator (by decide) (by rw [take, h, hread]; rfl) fs

theorem takeAll_value (v : String) (h : c.value = none) (fs : List (Data × Data)) :
    takeAll dl c (field "value" (.text v) :: fs) = takeAll dl { c with value := some v } fs :=
  takeAll_field dl .value (by decide) (by rw [take, h]; rfl) fs

end ConditionDraft

/-- What the fields of a condition are read as is what the record is read as. -/
theorem Condition.ofData_record {fs : List (Data × Data)} {c : Condition}
    (h : ({} : ConditionDraft).takeAll dl fs = .ok ⟨some c.name, some c.operator, some c.value⟩) :
    Condition.ofData dl (.record fs) = .ok c := by
  have hfields : dl.fields (.record fs) Condition.shapeName = .ok fs := rfl
  simp only [ofData, Data.untagged, hfields, bind, Except.bind, h]
  rfl

/-- A condition is read back. -/
theorem Condition.ofData_toData (c : Condition) : Condition.ofData dl c.toData = .ok c := by
  refine ofData_record dl ?_
  rw [ConditionDraft.takeAll_name dl _ rfl, ConditionDraft.takeAll_operator dl _ rfl,
    ConditionDraft.takeAll_value dl _ rfl]
  rfl

namespace VariableDraft

theorem takeAll_field (f : VariableField) {name : String}
    (hf : VariableField.ofName? name = some f) {v v' : VariableDraft} {d : Data}
    (h : v.take dl f d = .ok v') (fs : List (Data × Data)) :
    takeAll dl v (field name d :: fs) = takeAll dl v' fs := by
  have hname : dl.fieldName (.text name) = .ok name := rfl
  simp only [field, takeAll, hname, bind, Except.bind, hf, h]

variable {v : VariableDraft}

theorem takeAll_name (n : String) (h : v.name = none) (fs : List (Data × Data)) :
    takeAll dl v (field "name" (.text n) :: fs) = takeAll dl { v with name := some n } fs :=
  takeAll_field dl .name (by decide) (by rw [take, h]; rfl) fs

theorem takeAll_value (x : String) (h : v.value = none) (fs : List (Data × Data)) :
    takeAll dl v (field "value" (.text x) :: fs) = takeAll dl { v with value := some x } fs :=
  takeAll_field dl .value (by decide) (by rw [take, h]; rfl) fs

theorem takeAll_readOnly (b : Bool) (h : v.readOnly = none) (fs : List (Data × Data)) :
    takeAll dl v (field "isReadOnly" (.bool b) :: fs) =
      takeAll dl { v with readOnly := some b } fs :=
  takeAll_field dl .readOnly (by decide) (by rw [take, h]; rfl) fs

theorem takeAll_secret (b : Bool) (h : v.secret = none) (fs : List (Data × Data)) :
    takeAll dl v (field "isSecret" (.bool b) :: fs) = takeAll dl { v with secret := some b } fs :=
  takeAll_field dl .secret (by decide) (by rw [take, h]; rfl) fs

end VariableDraft

/-- What the fields of a variable are read as is what the record is read as. -/
theorem Variable.ofData_record {fs : List (Data × Data)} {v : Variable}
    (h : ({} : VariableDraft).takeAll dl fs =
      .ok ⟨some v.name, some v.value, some v.readOnly, some v.secret⟩) :
    Variable.ofData dl (.record fs) = .ok v := by
  have hfields : dl.fields (.record fs) Variable.shapeName = .ok fs := rfl
  simp only [ofData, Data.untagged, hfields, bind, Except.bind, h]
  rfl

/-- A variable is read back. -/
theorem Variable.ofData_toData (v : Variable) : Variable.ofData dl v.toData = .ok v := by
  refine ofData_record dl ?_
  rw [VariableDraft.takeAll_name dl _ rfl, VariableDraft.takeAll_value dl _ rfl,
    VariableDraft.takeAll_readOnly dl _ rfl, VariableDraft.takeAll_secret dl _ rfl]
  rfl

/-- Readings of each item are a reading of the list. -/
theorem mapM_ok {α β ε : Type} {f : α → Except ε β} {g : β → α} (h : ∀ b, f (g b) = .ok b) :
    ∀ bs : List β, (bs.map g).mapM f = .ok bs
  | [] => rfl
  | b :: bs => by
      rw [List.map_cons, List.mapM_cons, h, mapM_ok h bs]
      rfl

/-- Properties are read back. -/
theorem Dialect.texts_toData (ps : Pairs) : dl.texts (Pairs.toData ps) = .ok ps := by
  have hfields : dl.fields (Pairs.toData ps) "a map" =
      .ok (ps.map fun p => field p.1 (.text p.2)) :=
    rfl
  rw [texts, hfields]
  exact mapM_ok (g := fun p : String × String => field p.1 (.text p.2)) (fun _ => rfl) ps

/-! ## One field of a step -/

section

variable (fresh : Fresh) (place : Place)

theorem draftOf_field (f : StepField) {name : String} (hf : StepField.ofName? name = some f)
    {s s' : StepDraft} {d : Data} (h : s.take dl d (stepsOfData dl fresh place d) f = .ok s')
    (fs : List (Data × Data)) :
    draftOf dl fresh place s (field name d :: fs) = draftOf dl fresh place s' fs := by
  have hname : dl.fieldName (.text name) = .ok name := rfl
  simp only [field, draftOf, hname, hf, h]

/-- A field that is left out if it is empty. -/
theorem draftOf_nonEmpty (f : StepField) {name : String} (hf : StepField.ofName? name = some f)
    {s s' : StepDraft} {d : Data} {empty : Bool} (hempty : empty = true → s' = s)
    (h : empty = false → s.take dl d (stepsOfData dl fresh place d) f = .ok s')
    (fs : List (Data × Data)) :
    draftOf dl fresh place s (nonEmpty empty (field name d) ++ fs) =
      draftOf dl fresh place s' fs := by
  cases empty with
  | true =>
      rw [hempty rfl]
      rfl
  | false => exact draftOf_field dl fresh place f hf (h rfl) fs

variable {s : StepDraft}

theorem draftOf_id (i : String) (h : s.id = none) (fs : List (Data × Data)) :
    draftOf dl fresh place s (field "id" (.text i) :: fs) =
      draftOf dl fresh place { s with id := some i } fs :=
  draftOf_field dl fresh place .id (by decide) (by rw [StepDraft.take, h]; rfl) fs

theorem draftOf_name (n : String) (h : s.name = none) (fs : List (Data × Data)) :
    draftOf dl fresh place s (field "name" (.text n) :: fs) =
      draftOf dl fresh place { s with name := some n } fs :=
  draftOf_field dl fresh place .name (by decide) (by rw [StepDraft.take, h]; rfl) fs

theorem draftOf_kind (k : Kind) (h : s.kind = none) (fs : List (Data × Data)) :
    draftOf dl fresh place s (field "type" (.text k.name) :: fs) =
      draftOf dl fresh place { s with kind := some k } fs := by
  have hread : (dl.text (.text k.name)).map Kind.ofName = .ok k := by
    have htext : dl.text (.text k.name) = .ok k.name := rfl
    rw [htext, Except.map, Kind.ofName_name]
  exact draftOf_field dl fresh place .kind (by decide)
    (by rw [StepDraft.take, h, hread]; rfl) fs

theorem draftOf_enabled (b : Bool) (h : s.enabled = none) (fs : List (Data × Data)) :
    draftOf dl fresh place s (field "enabled" (.bool b) :: fs) =
      draftOf dl fresh place { s with enabled := some b } fs :=
  draftOf_field dl fresh place .enabled (by decide) (by rw [StepDraft.take, h]; rfl) fs

theorem draftOf_continueOnError (b : Bool) (h : s.continueOnError = none)
    (fs : List (Data × Data)) :
    draftOf dl fresh place s (field "continueOnError" (.bool b) :: fs) =
      draftOf dl fresh place { s with continueOnError := some b } fs :=
  draftOf_field dl fresh place .continueOnError (by decide)
    (by rw [StepDraft.take, h]; rfl) fs

/-- What a field is set to that is left out if it is empty. -/
def unlessEmpty {α : Type} (empty : Bool) (a : α) : Option α := if empty then none else some a

theorem draftOf_description (d : String) (h : s.description = none) (fs : List (Data × Data)) :
    draftOf dl fresh place s
      (nonEmpty d.isEmpty (field "description" (.text d)) ++ fs) =
      draftOf dl fresh place { s with description := unlessEmpty d.isEmpty d } fs :=
  draftOf_nonEmpty dl fresh place .description (by decide)
    (fun he => by rw [unlessEmpty, if_pos he, ← h])
    (fun he => by rw [unlessEmpty, he, StepDraft.take, h]; rfl) fs

theorem draftOf_conditions {cs : List Condition} {d : Data}
    (hread : (dl.items d).bind (fun ds => ds.mapM (Condition.ofData dl)) = .ok cs)
    (h : s.conditions = none) (fs : List (Data × Data)) :
    draftOf dl fresh place s (nonEmpty cs.isEmpty (field "conditions" d) ++ fs) =
      draftOf dl fresh place { s with conditions := unlessEmpty cs.isEmpty cs } fs :=
  draftOf_nonEmpty dl fresh place .conditions (by decide)
    (fun he => by rw [unlessEmpty, if_pos he, ← h])
    (fun he => by rw [unlessEmpty, he, StepDraft.take, h, hread]; rfl) fs

theorem draftOf_properties {ps : Pairs} {d : Data} (hread : dl.texts d = .ok ps)
    (h : s.properties = none) (fs : List (Data × Data)) :
    draftOf dl fresh place s (nonEmpty ps.isEmpty (field "properties" d) ++ fs) =
      draftOf dl fresh place { s with properties := unlessEmpty ps.isEmpty ps } fs :=
  draftOf_nonEmpty dl fresh place .properties (by decide)
    (fun he => by rw [unlessEmpty, if_pos he, ← h])
    (fun he => by rw [unlessEmpty, he, StepDraft.take, h, hread]; rfl) fs

theorem draftOf_children {ss : List Step} {d : Data} (hread : stepsOfData dl fresh place d = .ok ss)
    (h : s.children = none) (fs : List (Data × Data)) :
    draftOf dl fresh place s (nonEmpty ss.isEmpty (field "childSteps" d) ++ fs) =
      draftOf dl fresh place { s with children := unlessEmpty ss.isEmpty ss } fs :=
  draftOf_nonEmpty dl fresh place .children (by decide)
    (fun he => by rw [unlessEmpty, if_pos he, ← h])
    (fun he => by rw [unlessEmpty, he, StepDraft.take, h, hread]; rfl) fs

end

/-! ## Steps -/

/-- The draft of a step once all its fields are taken. -/
def StepDraft.ofStep : Step → StepDraft
  | .mk i n d k e c cs ps ss =>
      { id := some i, name := some n, description := unlessEmpty d.isEmpty d, kind := some k,
        enabled := some e, continueOnError := some c, conditions := unlessEmpty cs.isEmpty cs,
        properties := unlessEmpty ps.isEmpty ps, children := unlessEmpty ss.isEmpty ss }

theorem getD_unlessEmpty_list {α : Type} (as : List α) :
    (unlessEmpty as.isEmpty as).getD [] = as := by
  cases as <;> rfl

theorem getD_unlessEmpty_string (d : String) : (unlessEmpty d.isEmpty d).getD "" = d := by
  rw [unlessEmpty]
  split
  · rename_i h
    exact (String.isEmpty_iff.mp h).symm
  · rfl

/-- What a step leaves out is what its absence stands for. -/
theorem StepDraft.finish_ofStep (fresh : Fresh) (place : Place) {s : Step} (h : s.Proper) :
    (StepDraft.ofStep s).finish fresh place = s := by
  cases s with
  | mk i n d k e c cs ps ss =>
      have hproperties : (StepDraft.ofStep (.mk i n d k e c cs ps ss)).allProperties = ps := by
        rw [allProperties, ofStep, getD_unlessEmpty_list]
        exact Pairs.insertAll_nil h
      rw [finish, hproperties, ofStep, getD_unlessEmpty_list, getD_unlessEmpty_list,
        getD_unlessEmpty_string]
      rfl

mutual

/-- The data of a step is read back. -/
theorem Step.ofData_toData (fresh : Fresh) : ∀ (place : Place) (s : Step),
    (∀ t ∈ s.preorder, t.Proper) → Step.ofData dl fresh place s.toData = .ok s
  | place, .mk i n d k e c cs ps ss, h => by
      rw [Step.forall_mem_preorder_mk] at h
      have hconditions : (dl.items (.list (cs.map Condition.toData))).bind
          (fun ds => ds.mapM (Condition.ofData dl)) = .ok cs :=
        mapM_ok (Condition.ofData_toData dl) cs
      have hchildren : stepsOfData dl fresh place (.list (stepsToData ss)) = .ok ss := by
        rw [stepsOfData]
        exact stepsOfItems_stepsToData fresh place 0 ss h.2
      have hdraft : draftOf dl fresh place {} ([field "id" (.text i), field "name" (.text n)] ++
          (nonEmpty d.isEmpty (field "description" (.text d)) ++
          (field "type" (.text k.name) :: field "enabled" (.bool e) ::
            field "continueOnError" (.bool c) ::
          (nonEmpty cs.isEmpty (field "conditions" (.list (cs.map Condition.toData))) ++
          (nonEmpty ps.isEmpty (field "properties" (Pairs.toData ps)) ++
          (nonEmpty ss.isEmpty (field "childSteps" (.list (stepsToData ss))) ++ [])))))) =
          .ok (StepDraft.ofStep (.mk i n d k e c cs ps ss)) := by
        rw [List.cons_append, List.cons_append, List.nil_append,
          draftOf_id dl fresh place i rfl, draftOf_name dl fresh place n rfl,
          draftOf_description dl fresh place d rfl, draftOf_kind dl fresh place k rfl,
          draftOf_enabled dl fresh place e rfl, draftOf_continueOnError dl fresh place c rfl,
          draftOf_conditions dl fresh place hconditions rfl,
          draftOf_properties dl fresh place (dl.texts_toData ps) rfl,
          draftOf_children dl fresh place hchildren rfl]
        rfl
      rw [Step.toData, Step.ofData]
      simp only [List.append_assoc, List.cons_append, List.nil_append, List.append_nil] at hdraft ⊢
      rw [hdraft]
      exact congrArg Except.ok (StepDraft.finish_ofStep fresh place h.1)

/-- The data of steps is read back. -/
theorem stepsOfItems_stepsToData (fresh : Fresh) : ∀ (place : Place) (position : Nat)
    (ss : List Step), (∀ t ∈ Step.preorderAll ss, t.Proper) →
      stepsOfItems dl fresh place position (stepsToData ss) = .ok ss
  | place, position, [], _ => by rw [stepsToData, stepsOfItems]
  | place, position, s :: ss, h => by
      rw [Step.forall_mem_preorderAll_cons] at h
      rw [stepsToData, stepsOfItems, Step.ofData_toData fresh (place ++ [position]) s h.1]
      simp only [stepsOfItems_stepsToData fresh place (position + 1) ss h.2]
      rfl

end

/-! ## Sequences -/

namespace SequenceDraft

variable (fresh : Fresh)

theorem takeAll_field (f : SequenceField) {name : String}
    (hf : SequenceField.ofName? name = some f) {s s' : SequenceDraft} {d : Data}
    (h : s.take dl fresh d f = .ok s') (fs : List (Data × Data)) :
    takeAll dl fresh s (field name d :: fs) = takeAll dl fresh s' fs := by
  have hname : dl.fieldName (.text name) = .ok name := rfl
  simp only [field, takeAll, hname, bind, Except.bind, hf, h]

variable {s : SequenceDraft}

theorem takeAll_id (i : String) (h : s.id = none) (fs : List (Data × Data)) :
    takeAll dl fresh s (field "id" (.text i) :: fs) =
      takeAll dl fresh { s with id := some i } fs :=
  takeAll_field dl fresh .id (by decide) (by rw [take, h]; rfl) fs

theorem takeAll_name (n : String) (h : s.name = none) (fs : List (Data × Data)) :
    takeAll dl fresh s (field "name" (.text n) :: fs) =
      takeAll dl fresh { s with name := some n } fs :=
  takeAll_field dl fresh .name (by decide) (by rw [take, h]; rfl) fs

theorem takeAll_description (d : String) (h : s.description = none) (fs : List (Data × Data)) :
    takeAll dl fresh s (field "description" (.text d) :: fs) =
      takeAll dl fresh { s with description := some d } fs :=
  takeAll_field dl fresh .description (by decide) (by rw [take, h]; rfl) fs

theorem takeAll_version (v : String) (h : s.version = none) (fs : List (Data × Data)) :
    takeAll dl fresh s (field "version" (.text v) :: fs) =
      takeAll dl fresh { s with version := some v } fs :=
  takeAll_field dl fresh .version (by decide) (by rw [take, h]; rfl) fs

/-- The text of a point in time is read back. -/
theorem time_text {t : Timestamp} (ht : t.Proper) : dl.time (.text t.text) = .ok t := by
  simp only [Dialect.time, Data.untagged, Timestamp.readRelaxed_text ht]

theorem takeAll_created {t : Timestamp} (ht : t.Proper) (h : s.created = none)
    (fs : List (Data × Data)) :
    takeAll dl fresh s (field "createdDate" (.text t.text) :: fs) =
      takeAll dl fresh { s with created := some t } fs :=
  takeAll_field dl fresh .created (by decide) (by rw [take, h, time_text dl ht]; rfl) fs

theorem takeAll_modified {t : Timestamp} (ht : t.Proper) (h : s.modified = none)
    (fs : List (Data × Data)) :
    takeAll dl fresh s (field "modifiedDate" (.text t.text) :: fs) =
      takeAll dl fresh { s with modified := some t } fs :=
  takeAll_field dl fresh .modified (by decide) (by rw [take, h, time_text dl ht]; rfl) fs

theorem takeAll_declarations {vs : List Variable} {d : Data}
    (hread : (dl.items d).bind (fun ds => ds.mapM (Variable.ofData dl)) = .ok vs)
    (h : s.declarations = none) (fs : List (Data × Data)) :
    takeAll dl fresh s (field "variables" d :: fs) =
      takeAll dl fresh { s with declarations := some vs } fs :=
  takeAll_field dl fresh .declarations (by decide) (by rw [take, h, hread]; rfl) fs

theorem takeAll_steps {ss : List Step} {d : Data} (hread : stepsOfData dl fresh [] d = .ok ss)
    (h : s.steps = none) (fs : List (Data × Data)) :
    takeAll dl fresh s (field "steps" d :: fs) =
      takeAll dl fresh { s with steps := some ss } fs :=
  takeAll_field dl fresh .steps (by decide) (by rw [take, h, hread]; rfl) fs

/-- The draft of a sequence once all its fields are taken. -/
def ofSequence (s : Sequence) : SequenceDraft :=
  ⟨some s.id, some s.name, some s.description, some s.version, some s.created, some s.modified,
    some s.declarations, some s.steps⟩

end SequenceDraft

/-- What the fields of a sequence are read as is what the record is read as. -/
theorem Sequence.ofData_record (fresh : Fresh) {fs : List (Data × Data)} {s : Sequence}
    (h : ({} : SequenceDraft).takeAll dl fresh fs = .ok (SequenceDraft.ofSequence s)) :
    Sequence.ofData dl fresh (.record fs) = .ok s := by
  have hfields : dl.fields (.record fs) "struct TaskSequence" = .ok fs := rfl
  simp only [ofData, hfields, bind, Except.bind, h]
  rfl

/-- The data of a sequence is read back. -/
theorem Sequence.ofData_toData (fresh : Fresh) {s : Sequence} (h : s.Proper) :
    Sequence.ofData dl fresh s.toData = .ok s := by
  have hvariables : (dl.items (.list (s.declarations.map Variable.toData))).bind
      (fun ds => ds.mapM (Variable.ofData dl)) = .ok s.declarations :=
    mapM_ok (Variable.ofData_toData dl) s.declarations
  have hsteps : stepsOfData dl fresh [] (.list (stepsToData s.steps)) = .ok s.steps := by
    rw [stepsOfData]
    exact stepsOfItems_stepsToData dl fresh [] 0 s.steps h.steps
  rw [toData]
  refine ofData_record dl fresh ?_
  rw [SequenceDraft.takeAll_id dl fresh _ rfl, SequenceDraft.takeAll_name dl fresh _ rfl,
    SequenceDraft.takeAll_description dl fresh _ rfl, SequenceDraft.takeAll_version dl fresh _ rfl,
    SequenceDraft.takeAll_created dl fresh h.created rfl,
    SequenceDraft.takeAll_modified dl fresh h.modified rfl,
    SequenceDraft.takeAll_declarations dl fresh hvariables rfl,
    SequenceDraft.takeAll_steps dl fresh hsteps rfl]
  rfl

/-- The data of a sequence is a record that a sequence is expected to be. -/
theorem Sequence.isRoot_toData (s : Sequence) : Sequence.isRoot s.toData = true := by
  simp [isRoot, toData, Data.untagged, Data.hasField, Data.field?, field, Data.same]

end Runbook
