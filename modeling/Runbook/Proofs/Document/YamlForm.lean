import Runbook.Proofs.Document.JsonForm
import Runbook.Proofs.Yaml.ReadBack

/-!
# The data of a sequence is laid out for reading

The data that a sequence is written as in YAML meets what the reading of YAML asks for
(`Yaml.Laid`).  Its lists hold records only, and the one record that may be empty, the properties of
a step, is left out then.  The names of fields are short and stand on one line with their values.
The keys of properties are any texts, and a long one is put on lines of its own, but what stands
behind it is a text.
-/

namespace Runbook

open Yaml

namespace Data

theorem laid_text (s : String) : Laid (text s) := trivial

theorem laid_bool (b : Bool) : Laid (bool b) := trivial

theorem fieldsLaid_nil : FieldsLaid [] := trivial

/-- A field with one of the names of the layout. -/
theorem fieldsLaid_field {key : String} {d : Data} (hkey : isSimpleKey (.text key) = true)
    (h : Laid d) {fs : List (Data × Data)} (hfs : FieldsLaid fs) : FieldsLaid (field key d :: fs) :=
  ⟨⟨key, rfl, .inl hkey⟩, h, hfs⟩

theorem fieldsLaid_append : ∀ {fs gs : List (Data × Data)},
    FieldsLaid (fs ++ gs) ↔ FieldsLaid fs ∧ FieldsLaid gs
  | [], gs => by simp [FieldsLaid]
  | (k, v) :: fs, gs => by
      rw [List.cons_append, FieldsLaid, FieldsLaid, fieldsLaid_append, and_assoc, and_assoc]

theorem fieldsLaid_nonEmpty {empty : Bool} {key : String} {d : Data}
    (hkey : isSimpleKey (.text key) = true) (h : empty = false → Laid d) :
    FieldsLaid (nonEmpty empty (field key d)) := by
  cases empty with
  | true => exact trivial
  | false => exact fieldsLaid_field hkey (h rfl) trivial

theorem itemsLaid_map {α : Type} {f : α → Data} (hrecord : ∀ a, ∃ fs, f a = .record fs)
    (h : ∀ a, Laid (f a)) : ∀ as : List α, ItemsLaid (as.map f)
  | [] => trivial
  | a :: as => ⟨hrecord a, h a, itemsLaid_map hrecord h as⟩

/-- Keys that are taken from a list of different names are different. -/
theorem nodup_of_names (names : List String) (hnames : names.Nodup) {fs : List (Data × Data)}
    (h : (fs.map (·.1)).Sublist (names.map Data.text)) : (fs.map (·.1)).Nodup :=
  h.nodup (List.pairwise_map.mpr (hnames.imp fun hne he => hne (by injection he)))

end Data

/-! ## Sequences -/

open Data in
theorem Variable.toData_laid (v : Variable) : Laid v.toData :=
  ⟨List.cons_ne_nil _ _,
    nodup_of_names ["name", "value", "isReadOnly", "isSecret"] (by decide) (.refl _),
    fieldsLaid_field (by decide) (laid_text _) (fieldsLaid_field (by decide) (laid_text _)
      (fieldsLaid_field (by decide) (laid_bool _) (fieldsLaid_field (by decide) (laid_bool _)
        fieldsLaid_nil)))⟩

open Data in
theorem Condition.toData_laid (c : Condition) : Laid c.toData :=
  ⟨List.cons_ne_nil _ _,
    nodup_of_names ["variableName", "operator", "value"] (by decide) (.refl _),
    fieldsLaid_field (by decide) (laid_text _) (fieldsLaid_field (by decide) (laid_text _)
      (fieldsLaid_field (by decide) (laid_text _) fieldsLaid_nil))⟩

theorem Pairs.fieldsLaid_properties : ∀ ps : Pairs, FieldsLaid (ps.map propertyField)
  | [] => trivial
  | (k, v) :: ps => ⟨⟨k, rfl, .inr (.text v)⟩, trivial, fieldsLaid_properties ps⟩

/-- Properties are laid out unless there are none. -/
theorem Pairs.toData_laid {ps : Pairs} (h : ps.keys.Nodup) (hne : ps.isEmpty = false) :
    Laid (Pairs.toData ps) := by
  refine ⟨fun hnil => ?_, nodup_properties h, Pairs.fieldsLaid_properties ps⟩
  rw [List.map_eq_nil_iff.mp hnil] at hne
  exact nomatch hne

open Data in
mutual

/-- The data of a step is laid out. -/
theorem Step.toData_laid : ∀ s : Step, (∀ t ∈ s.preorder, t.Proper) → Laid s.toData
  | .mk i n d k e c cs ps ss, h => by
      rw [Step.forall_mem_preorder_mk] at h
      have hconditions : Laid (.list (cs.map Condition.toData)) :=
        itemsLaid_map (fun _ => ⟨_, rfl⟩) Condition.toData_laid cs
      have hchildren : Laid (.list (stepsToData ss)) := stepsToData_laid ss h.2
      rw [Step.toData]
      refine ⟨List.cons_ne_nil _ _, ?_, ?_⟩
      · refine nodup_of_names ["id", "name", "description", "type", "enabled", "continueOnError",
          "conditions", "properties", "childSteps"] (by decide) ?_
        simp only [List.map_append]
        exact (((((List.Sublist.refl _).append (keys_nonEmpty _ _ _)).append (.refl _)).append
          (keys_nonEmpty _ _ _)).append (keys_nonEmpty _ _ _)).append (keys_nonEmpty _ _ _)
      · simp only [fieldsLaid_append]
        exact ⟨⟨⟨⟨⟨fieldsLaid_field (by decide) (laid_text _)
            (fieldsLaid_field (by decide) (laid_text _) fieldsLaid_nil),
          fieldsLaid_nonEmpty (by decide) fun _ => laid_text _⟩,
          fieldsLaid_field (by decide) (laid_text _) (fieldsLaid_field (by decide) (laid_bool _)
            (fieldsLaid_field (by decide) (laid_bool _) fieldsLaid_nil))⟩,
          fieldsLaid_nonEmpty (by decide) fun _ => hconditions⟩,
          fieldsLaid_nonEmpty (by decide) (Pairs.toData_laid h.1)⟩,
          fieldsLaid_nonEmpty (by decide) fun _ => hchildren⟩

/-- The data of steps is laid out. -/
theorem stepsToData_laid : ∀ ss : List Step, (∀ t ∈ Step.preorderAll ss, t.Proper) →
    ItemsLaid (stepsToData ss)
  | [], _ => trivial
  | .mk i n d k e c cs ps cc :: ss, h => by
      rw [Step.forall_mem_preorderAll_cons] at h
      exact ⟨⟨_, rfl⟩, Step.toData_laid _ h.1, stepsToData_laid ss h.2⟩

end

open Data in
/-- The data of a sequence is laid out. -/
theorem Sequence.toData_laid {s : Sequence} (h : s.Proper) : Laid s.toData := by
  have hvariables : Laid (.list (s.declarations.map Variable.toData)) :=
    itemsLaid_map (fun _ => ⟨_, rfl⟩) Variable.toData_laid _
  have hsteps : Laid (.list (stepsToData s.steps)) := stepsToData_laid _ h.steps
  rw [toData]
  refine ⟨List.cons_ne_nil _ _, nodup_of_names ["id", "name", "description", "version",
    "createdDate", "modifiedDate", "variables", "steps"] (by decide) (.refl _), ?_⟩
  exact fieldsLaid_field (by decide) (laid_text _) (fieldsLaid_field (by decide) (laid_text _)
    (fieldsLaid_field (by decide) (laid_text _) (fieldsLaid_field (by decide) (laid_text _)
    (fieldsLaid_field (by decide) (laid_text _) (fieldsLaid_field (by decide) (laid_text _)
    (fieldsLaid_field (by decide) hvariables
    (fieldsLaid_field (by decide) hsteps fieldsLaid_nil)))))))

end Runbook
