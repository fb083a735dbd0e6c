import Runbook.Document.Fields

/-!
# What the data of a sequence is made of

The data that a sequence is written as has no nulls, no numbers and no tags, and the keys of its
records are texts.  Such data is *plain*.  `Sequence.toData_plain` says so; the readings of the two
notations are followed on plain data alone.

`Data.nesting` is how deep lists and records are put into each other.
-/

namespace Runbook

mutual

/-- Made of truth values, texts, lists, and records with texts for keys. -/
def Data.Plain : Data → Prop
  | .bool _ => True
  | .text _ => True
  | .list ds => Data.AllPlain ds
  | .record fs => Data.FieldsPlain fs
  | _ => False
termination_by structural d => d

/-- All values are plain. -/
def Data.AllPlain : List Data → Prop
  | [] => True
  | d :: ds => Data.Plain d ∧ Data.AllPlain ds
termination_by structural ds => ds

/-- All keys are texts, and all values are plain. -/
def Data.FieldsPlain : List (Data × Data) → Prop
  | [] => True
  | (k, v) :: fs => (∃ s, k = .text s) ∧ Data.Plain v ∧ Data.FieldsPlain fs
termination_by structural fs => fs

end

mutual

/-- How deep lists and records are nested. -/
def Data.nesting : Data → Nat
  | .list ds => Data.nestingAll ds + 1
  | .record fs => Data.nestingFields fs + 1
  | .tagged _ d => Data.nesting d
  | _ => 0
termination_by structural d => d

/-- How deep the deepest of several values is nested. -/
def Data.nestingAll : List Data → Nat
  | [] => 0
  | d :: ds => max (Data.nesting d) (Data.nestingAll ds)
termination_by structural ds => ds

/-- How deep the deepest key or value is nested. -/
def Data.nestingFields : List (Data × Data) → Nat
  | [] => 0
  | (k, v) :: fs => max (max (Data.nesting k) (Data.nesting v)) (Data.nestingFields fs)
termination_by structural fs => fs

end

namespace Data

theorem plain_bool (b : Bool) : (bool b).Plain := trivial

theorem plain_text (s : String) : (text s).Plain := trivial

theorem plain_list {ds : List Data} : (list ds).Plain ↔ AllPlain ds := Iff.rfl

theorem plain_record {fs : List (Data × Data)} : (record fs).Plain ↔ FieldsPlain fs := Iff.rfl

theorem allPlain_nil : AllPlain [] := trivial

theorem allPlain_cons {d : Data} {ds : List Data} : AllPlain (d :: ds) ↔ d.Plain ∧ AllPlain ds :=
  Iff.rfl

theorem fieldsPlain_nil : FieldsPlain [] := trivial

theorem fieldsPlain_cons {k v : Data} {fs : List (Data × Data)} :
    FieldsPlain ((k, v) :: fs) ↔ (∃ s, k = .text s) ∧ v.Plain ∧ FieldsPlain fs := Iff.rfl

theorem fieldsPlain_append : ∀ {fs gs : List (Data × Data)},
    FieldsPlain (fs ++ gs) ↔ FieldsPlain fs ∧ FieldsPlain gs
  | [], gs => by rw [List.nil_append, and_iff_right fieldsPlain_nil]
  | (k, v) :: fs, gs => by
      rw [List.cons_append, fieldsPlain_cons, fieldsPlain_cons, fieldsPlain_append, and_assoc,
        and_assoc]

theorem fieldsPlain_field {key : String} {d : Data} (h : d.Plain) {fs : List (Data × Data)}
    (hfs : FieldsPlain fs) : FieldsPlain (field key d :: fs) :=
  fieldsPlain_cons.mpr ⟨⟨key, rfl⟩, h, hfs⟩

theorem fieldsPlain_nonEmpty {empty : Bool} {key : String} {d : Data} (h : d.Plain) :
    FieldsPlain (nonEmpty empty (field key d)) := by
  rw [nonEmpty]
  split
  · exact fieldsPlain_nil
  · exact fieldsPlain_field h fieldsPlain_nil

theorem allPlain_map {α : Type} {f : α → Data} (h : ∀ a, (f a).Plain) :
    ∀ as : List α, AllPlain (as.map f)
  | [] => allPlain_nil
  | a :: as => allPlain_cons.mpr ⟨h a, allPlain_map h as⟩

end Data

/-! ## Sequences -/

open Data in
theorem Variable.toData_plain (v : Variable) : v.toData.Plain := by
  rw [toData, plain_record]
  exact fieldsPlain_field (plain_text _) (fieldsPlain_field (plain_text _)
    (fieldsPlain_field (plain_bool _) (fieldsPlain_field (plain_bool _) fieldsPlain_nil)))

open Data in
theorem Condition.toData_plain (c : Condition) : c.toData.Plain := by
  rw [toData, plain_record]
  exact fieldsPlain_field (plain_text _) (fieldsPlain_field (plain_text _)
    (fieldsPlain_field (plain_text _) fieldsPlain_nil))

open Data in
theorem Pairs.toData_plain (ps : Pairs) : (Pairs.toData ps).Plain := by
  rw [Pairs.toData, plain_record]
  induction ps with
  | nil => exact fieldsPlain_nil
  | cons p ps ih => exact fieldsPlain_field (plain_text p.2) ih

open Data in
mutual

theorem Step.toData_plain : ∀ s : Step, s.toData.Plain
  | .mk i n d k e c cs ps ss => by
      have hconditions : (list (cs.map Condition.toData)).Plain :=
        plain_list.mpr (allPlain_map Condition.toData_plain cs)
      have hchildren : (list (stepsToData ss)).Plain := plain_list.mpr (stepsToData_plain ss)
      rw [Step.toData, plain_record]
      simp only [fieldsPlain_append]
      exact ⟨⟨⟨⟨⟨fieldsPlain_field (plain_text _)
          (fieldsPlain_field (plain_text _) fieldsPlain_nil),
        fieldsPlain_nonEmpty (plain_text _)⟩,
        fieldsPlain_field (plain_text _) (fieldsPlain_field (plain_bool _)
          (fieldsPlain_field (plain_bool _) fieldsPlain_nil))⟩,
        fieldsPlain_nonEmpty hconditions⟩, fieldsPlain_nonEmpty (Pairs.toData_plain ps)⟩,
        fieldsPlain_nonEmpty hchildren⟩

theorem stepsToData_plain : ∀ ss : List Step, AllPlain (stepsToData ss)
  | [] => allPlain_nil
  | s :: ss => by
      rw [stepsToData, allPlain_cons]
      exact ⟨Step.toData_plain s, stepsToData_plain ss⟩

end

open Data in
/-- The data of a sequence is plain. -/
theorem Sequence.toData_plain (s : Sequence) : s.toData.Plain := by
  have hvariables : (list (s.declarations.map Variable.toData)).Plain :=
    plain_list.mpr (allPlain_map Variable.toData_plain _)
  have hsteps : (list (stepsToData s.steps)).Plain := plain_list.mpr (stepsToData_plain _)
  rw [toData, plain_record]
  exact fieldsPlain_field (plain_text _) (fieldsPlain_field (plain_text _)
    (fieldsPlain_field (plain_text _) (fieldsPlain_field (plain_text _)
    (fieldsPlain_field (plain_text _) (fieldsPlain_field (plain_text _)
    (fieldsPlain_field hvariables (fieldsPlain_field hsteps fieldsPlain_nil)))))))

end Runbook
