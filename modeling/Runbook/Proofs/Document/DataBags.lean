import Mathlib.Data.List.Forall2
import Runbook.Proofs.Document.Parsed

/-!
# Properties of steps in data

The properties of a step that is read from data are its loose fields overlaid with its declared
properties, and so for the steps in it: `Step.FromData` says so of a whole tree.

A step is read field by field, so what is kept is a statement about the draft of a step and the
fields taken so far, `StepDraft.Takes`.  The readings are followed by the recursion of the data.
-/

namespace Runbook

/-! ## Fields by their names -/

/-- The fields of a record with their names, tags of names aside. -/
def Data.named (fs : List (Data × Data)) : List (String × Data) :=
  fs.filterMap fun f =>
    match f.1.untagged with
    | .text n => some (n, f.2)
    | _ => none

/-- The value of the last field that has one of several names. -/
def Data.lastNamed? (names : List String) (fs : List (Data × Data)) : Option Data :=
  ((Data.named fs).reverse.find? fun f => names.contains f.1).map (·.2)

/-- The names of the fields of a step that have a meaning. -/
def Step.fieldNames : List String :=
  ["id", "name", "description", "type", "kind", "enabled", "continueOnError", "conditions",
    "properties", "childSteps", "children", "steps"]

/-- The names of the field with the steps in a step. -/
def Step.childrenNames : List String := ["childSteps", "children", "steps"]

/-- The fields of a step without a meaning, with their texts if they are scalars. -/
def Data.looseFields (fs : List (Data × Data)) : List (String × Option String) :=
  ((Data.named fs).filter fun f => !Step.fieldNames.contains f.1).map fun f =>
    (f.1, f.2.scalarText?)

/-- The fields of a record with their texts, empty for what is no scalar. -/
def Data.textFields (fs : List (Data × Data)) : List (String × String) :=
  (Data.named fs).map fun f => (f.1, f.2.scalarText?.getD "")

/-- The fields of a record that may be missing. -/
def Dialect.fieldsIn (dl : Dialect) : Option Data → Except ShapeFault (List (Data × Data))
  | some d => dl.fields d "a map"
  | none => .ok []

/-- The items of a list that may be missing. -/
def Dialect.itemsIn (dl : Dialect) : Option Data → Except ShapeFault (List Data)
  | some d => dl.items d
  | none => .ok []

/-- A step has the properties that data gives it, and so have the steps in it. -/
inductive Step.FromData (dl : Dialect) : Data → Step → Prop where
  /-- The properties are the loose fields overlaid with the declared properties. -/
  | step {d : Data} {fs gs : List (Data × Data)} {items : List Data} {s : Step} :
      dl.fields d Step.shapeName = .ok fs →
      dl.fieldsIn (Data.lastNamed? ["properties"] fs) = .ok gs →
      s.properties.Overlays (Data.looseFields fs) (Data.textFields gs) →
      dl.itemsIn (Data.lastNamed? Step.childrenNames fs) = .ok items →
      List.Forall₂ (Step.FromData dl) items s.children → Step.FromData dl d s

/-! ## One more field -/

section

variable {k : Data} {n : String} (hk : k.untagged = .text n) (fs : List (Data × Data)) (d : Data)

include hk

theorem Data.named_concat : named (fs ++ [(k, d)]) = named fs ++ [(n, d)] := by
  rw [named, List.filterMap_append, named]
  simp [hk]

theorem Data.lastNamed?_concat (names : List String) :
    lastNamed? names (fs ++ [(k, d)]) =
      if n ∈ names then some d else lastNamed? names fs := by
  rw [lastNamed?, named_concat hk, List.reverse_append]
  by_cases h : n ∈ names
  · simp [h]
  · simp [h, lastNamed?]

theorem Data.looseFields_concat :
    looseFields (fs ++ [(k, d)]) =
      if n ∈ Step.fieldNames then looseFields fs
      else looseFields fs ++ [(n, d.scalarText?)] := by
  rw [looseFields, named_concat hk, List.filter_append, List.map_append, looseFields]
  by_cases h : n ∈ Step.fieldNames <;> simp [h]

end

/-- The names that have a meaning are those in the list. -/
theorem StepField.ofName?_eq_none_iff {n : String} : ofName? n = none ↔ n ∉ Step.fieldNames := by
  rw [← Option.not_isSome_iff_eq_none, ofName?, Pairs.isSome_lookup_iff]
  exact Iff.rfl

/-- What a name means is told by its place in the list. -/
theorem StepField.mem_of_ofName? {n : String} {f : StepField} (h : ofName? n = some f) :
    n ∈ Step.fieldNames ∧ (n ∈ ["properties"] ↔ f = .properties) ∧
      (n ∈ Step.childrenNames ↔ f = .children) := by
  obtain ⟨l, r, hsplit, -⟩ := List.lookup_eq_some_iff.mp h
  have hmem : (n, f) ∈ l ++ (n, f) :: r := List.mem_append_right l List.mem_cons_self
  rw [← hsplit] at hmem
  simp only [List.mem_cons, Prod.mk.injEq, List.not_mem_nil, or_false] at hmem
  obtain ⟨rfl, rfl⟩ | ⟨rfl, rfl⟩ | ⟨rfl, rfl⟩ | ⟨rfl, rfl⟩ | ⟨rfl, rfl⟩ | ⟨rfl, rfl⟩ | ⟨rfl, rfl⟩ |
    ⟨rfl, rfl⟩ | ⟨rfl, rfl⟩ | ⟨rfl, rfl⟩ | ⟨rfl, rfl⟩ | ⟨rfl, rfl⟩ := hmem <;> decide

/-! ## Readings of parts -/

section

variable {dl : Dialect}

theorem Dialect.exists_of_text {d : Data} {t : String} (h : dl.text d = .ok t) :
    d.untagged = .text t := by
  rw [Dialect.text] at h
  split at h
  · next hd =>
    cases h
    exact hd
  · cases h

theorem Dialect.exists_of_fieldName {d : Data} {n : String} (h : dl.fieldName d = .ok n) :
    d.untagged = .text n := by
  rw [Dialect.fieldName] at h
  split at h
  · next hd =>
    cases h
    exact hd
  · cases h

theorem Dialect.eq_textFields : ∀ {gs : List (Data × Data)} {ps : Pairs},
    (gs.mapM fun g => do
      let key ← dl.text g.1
      Except.ok (key, g.2.scalarText?.getD "")) = .ok ps → ps = Data.textFields gs
  | [], _, h => by
      cases h
      rfl
  | g :: gs, _, h => by
      rw [List.mapM_cons] at h
      obtain ⟨q, hq, h⟩ := exists_of_bind_eq_ok h
      obtain ⟨qs, hqs, h⟩ := exists_of_bind_eq_ok h
      obtain ⟨t, ht, hq⟩ := exists_of_bind_eq_ok hq
      cases h
      cases hq
      have hcons : Data.textFields (g :: gs) =
          (t, g.2.scalarText?.getD "") :: Data.textFields gs := by
        simp [Data.textFields, Data.named, exists_of_text ht]
      rw [eq_textFields hqs, hcons]

/-- Declared properties are the texts of a record. -/
theorem Dialect.exists_of_texts {d : Data} {ps : Pairs} (h : dl.texts d = .ok ps) :
    ∃ gs, dl.fields d "a map" = .ok gs ∧ ps = Data.textFields gs := by
  rw [Dialect.texts] at h
  obtain ⟨gs, hgs, h⟩ := exists_of_bind_eq_ok h
  exact ⟨gs, hgs, eq_textFields h⟩

/-- A tag in front of a record makes no difference. -/
theorem Dialect.fields_tagged (tag : String) (d : Data) (expected : String) :
    dl.fields (.tagged tag d) expected = dl.fields d expected := rfl

theorem Dialect.items_tagged (tag : String) (d : Data) :
    dl.items (.tagged tag d) = dl.items d := rfl

end

/-! ## Drafts -/

/-- What is in the draft of a step after some fields. -/
structure StepDraft.Takes (dl : Dialect) (fs : List (Data × Data)) (s : StepDraft) : Prop where
  /-- The loose fields. -/
  loose : s.loose = Pairs.insertEach [] (Data.looseFields fs)
  /-- The declared properties. -/
  declared : ∃ gs, dl.fieldsIn (Data.lastNamed? ["properties"] fs) = .ok gs ∧
    s.properties.getD [] = Data.textFields gs
  /-- The steps in it. -/
  children : ∃ items, dl.itemsIn (Data.lastNamed? Step.childrenNames fs) = .ok items ∧
    List.Forall₂ (Step.FromData dl) items (s.children.getD [])

namespace StepDraft

variable {dl : Dialect} {fs : List (Data × Data)} {s t : StepDraft} {k d : Data} {n : String}

theorem takes_nil : Takes dl [] {} := ⟨rfl, ⟨[], rfl, rfl⟩, ⟨[], rfl, .nil⟩⟩

/-- A field with a meaning is taken. -/
theorem Takes.take (h : s.Takes dl fs) (hk : k.untagged = .text n) {f : StepField}
    (hf : StepField.ofName? n = some f) {kids : Except ShapeFault (List Step)}
    (hkids : ∀ ss, kids = .ok ss → ∃ items, dl.items d = .ok items ∧
      List.Forall₂ (Step.FromData dl) items ss)
    (htake : s.take dl d kids f = .ok t) : t.Takes dl (fs ++ [(k, d)]) := by
  obtain ⟨hmeaning, hproperties, hchildren⟩ := StepField.mem_of_ofName? hf
  have hloose : Data.looseFields (fs ++ [(k, d)]) = Data.looseFields fs := by
    rw [Data.looseFields_concat hk, if_pos hmeaning]
  have hdeclared := Data.lastNamed?_concat hk fs d ["properties"]
  have hsteps := Data.lastNamed?_concat hk fs d Step.childrenNames
  cases f with
  | properties =>
    rw [if_pos (hproperties.mpr rfl)] at hdeclared
    rw [if_neg (mt hchildren.mp (by decide))] at hsteps
    obtain ⟨x, hx, rfl⟩ := exists_of_map_eq_ok htake
    obtain ⟨ps, hps, rfl⟩ := exists_of_once hx
    obtain ⟨gs, hgs, rfl⟩ := Dialect.exists_of_texts hps
    exact ⟨h.loose.trans (by rw [hloose]), ⟨gs, by rw [hdeclared]; exact hgs, rfl⟩,
      hsteps ▸ h.children⟩
  | children =>
    rw [if_neg (mt hproperties.mp (by decide))] at hdeclared
    rw [if_pos (hchildren.mpr rfl)] at hsteps
    obtain ⟨x, hx, rfl⟩ := exists_of_map_eq_ok htake
    obtain ⟨ss, hss, rfl⟩ := exists_of_once hx
    obtain ⟨items, hitems, hfrom⟩ := hkids ss hss
    exact ⟨h.loose.trans (by rw [hloose]), hdeclared ▸ h.declared,
      ⟨items, by rw [hsteps]; exact hitems, hfrom⟩⟩
  | _ =>
    rw [if_neg (mt hproperties.mp (by decide))] at hdeclared
    rw [if_neg (mt hchildren.mp (by decide))] at hsteps
    obtain ⟨x, -, rfl⟩ := exists_of_map_eq_ok htake
    exact ⟨h.loose.trans (by rw [hloose]), hdeclared ▸ h.declared, hsteps ▸ h.children⟩

/-- A field without a meaning is taken. -/
theorem Takes.takeLoose (h : s.Takes dl fs) (hk : k.untagged = .text n)
    (hn : StepField.ofName? n = none) (htake : s.takeLoose n d = .ok t) :
    t.Takes dl (fs ++ [(k, d)]) := by
  have hloose : n ∉ Step.fieldNames := StepField.ofName?_eq_none_iff.mp hn
  have hproperties : n ∉ ["properties"] := fun hmem => hloose (by
    rw [List.mem_singleton.mp hmem]
    decide)
  have hchildren : n ∉ Step.childrenNames := fun hmem => hloose
    ((show Step.childrenNames ⊆ Step.fieldNames by decide) hmem)
  rw [StepDraft.takeLoose] at htake
  split at htake
  · cases htake
  · cases htake
    refine ⟨?_, ?_, ?_⟩
    · rw [Data.looseFields_concat hk, if_neg hloose, Pairs.insertEach, List.foldl_append, h.loose]
      rfl
    · rw [Data.lastNamed?_concat hk, if_neg hproperties]
      exact h.declared
    · rw [Data.lastNamed?_concat hk, if_neg hchildren]
      exact h.children

/-- A draft is made into a step with the properties of the fields that it took. -/
theorem Takes.finish (h : s.Takes dl fs) (hd : dl.fields d Step.shapeName = .ok fs) (fresh : Fresh)
    (place : Place) : Step.FromData dl d (s.finish fresh place) := by
  obtain ⟨hloose, ⟨gs, hgs, hdeclared⟩, ⟨items, hitems, hchildren⟩⟩ := h
  refine .step hd hgs ?_ hitems hchildren
  have hbag : (s.finish fresh place).properties = s.allProperties := rfl
  rw [hbag, allProperties, hloose, hdeclared]
  exact Pairs.overlays_insertAll _ _

end StepDraft

/-! ## Steps -/

section

variable (dl : Dialect) (fresh : Fresh)

mutual

theorem Step.fromData : ∀ (d : Data) (place : Place) {s : Step},
    Step.ofData dl fresh place d = .ok s → Step.FromData dl d s
  | .record fs, place, s, h => by
      rw [Step.ofData] at h
      obtain ⟨draft, hdraft, rfl⟩ := exists_of_map_eq_ok h
      exact (draftOf_takes fs place StepDraft.takes_nil hdraft).finish rfl fresh place
  | .null, place, s, h => by
      rw [Step.ofData] at h
      split at h
      · next hempty =>
        cases h
        refine StepDraft.takes_nil.finish ?_ fresh place
        simp [Dialect.fields, Data.untagged, hempty]
      · cases h
  | .tagged tag d, place, s, h => by
      have hfrom := Step.fromData d place (by rwa [Step.ofData] at h)
      cases hfrom with
      | step hfs hgs hbag hitems hchildren =>
        exact .step ((dl.fields_tagged tag d _).trans hfs) hgs hbag hitems hchildren
  | .bool _, _, _, h => nomatch h
  | .int _, _, _, h => nomatch h
  | .real _, _, _, h => nomatch h
  | .text _, _, _, h => nomatch h
  | .list _, _, _, h => nomatch h

theorem draftOf_takes : ∀ (fs : List (Data × Data)) (place : Place)
    {before : List (Data × Data)} {s t : StepDraft}, s.Takes dl before →
      draftOf dl fresh place s fs = .ok t → t.Takes dl (before ++ fs)
  | [], _, before, _, _, hs, h => by
      rw [draftOf] at h
      cases h
      rwa [List.append_nil]
  | (k, d) :: fs, place, before, s, t, hs, h => by
      rw [draftOf] at h
      split at h
      · cases h
      next name hname =>
      have hk := Dialect.exists_of_fieldName hname
      dsimp only at h
      split at h
      · cases h
      next u htaken =>
      have hu : u.Takes dl (before ++ [(k, d)]) := by
        split at htaken
        · next f hf => exact hs.take hk hf (fun ss hss => stepsOfData_from d place hss) htaken
        · next hnone => exact hs.takeLoose hk hnone htaken
      have hrest := draftOf_takes fs place hu h
      rwa [List.append_assoc] at hrest

theorem stepsOfData_from : ∀ (d : Data) (place : Place) {ss : List Step},
    stepsOfData dl fresh place d = .ok ss →
      ∃ items, dl.items d = .ok items ∧ List.Forall₂ (Step.FromData dl) items ss
  | .list ds, place, ss, h => ⟨ds, rfl, stepsOfItems_from ds place 0 (by rwa [stepsOfData] at h)⟩
  | .null, place, ss, h => by
      rw [stepsOfData] at h
      split at h
      · next hempty =>
        cases h
        exact ⟨[], by simp [Dialect.items, Data.untagged, hempty], .nil⟩
      · cases h
  | .tagged tag d, place, ss, h => by
      obtain ⟨items, hitems, hfrom⟩ := stepsOfData_from d place (by rwa [stepsOfData] at h)
      exact ⟨items, (dl.items_tagged tag d).trans hitems, hfrom⟩
  | .bool _, _, _, h => nomatch h
  | .int _, _, _, h => nomatch h
  | .real _, _, _, h => nomatch h
  | .text _, _, _, h => nomatch h
  | .record _, _, _, h => nomatch h

theorem stepsOfItems_from : ∀ (ds : List Data) (place : Place) (position : Nat)
    {ss : List Step}, stepsOfItems dl fresh place position ds = .ok ss →
      List.Forall₂ (Step.FromData dl) ds ss
  | [], _, _, _, h => by
      rw [stepsOfItems] at h
      cases h
      exact .nil
  | d :: ds, place, position, ss, h => by
      rw [stepsOfItems] at h
      split at h
      · cases h
      next s hs =>
      obtain ⟨rest, hrest, rfl⟩ := exists_of_map_eq_ok h
      exact .cons (Step.fromData d _ hs) (stepsOfItems_from ds place _ hrest)

end

end

/-! ## Sequences -/

/-- Steps have the properties that the data of a task sequence gives them. -/
def Sequence.StepsFromData (dl : Dialect) (d : Data) (ss : List Step) : Prop :=
  ∃ fs items, dl.fields d "struct TaskSequence" = .ok fs ∧
    dl.itemsIn (Data.lastNamed? ["steps"] fs) = .ok items ∧
    List.Forall₂ (Step.FromData dl) items ss

theorem SequenceField.ofName?_eq_steps_iff {n : String} :
    ofName? n = some .steps ↔ n ∈ ["steps"] := by
  rw [List.mem_singleton]
  constructor
  · intro h
    obtain ⟨l, r, hsplit, -⟩ := List.lookup_eq_some_iff.mp h
    have hmem : (n, steps) ∈ l ++ (n, steps) :: r := List.mem_append_right l List.mem_cons_self
    rw [← hsplit] at hmem
    simpa using hmem
  · rintro rfl
    decide

namespace SequenceDraft

/-- The steps in the draft of a task sequence after some fields. -/
def Takes (dl : Dialect) (fs : List (Data × Data)) (s : SequenceDraft) : Prop :=
  ∃ items, dl.itemsIn (Data.lastNamed? ["steps"] fs) = .ok items ∧
    List.Forall₂ (Step.FromData dl) items (s.steps.getD [])

variable {dl : Dialect} {fresh : Fresh} {k d : Data} {n : String}

theorem Takes.take {fs : List (Data × Data)} {s t : SequenceDraft} (h : s.Takes dl fs)
    (hk : k.untagged = .text n) {f : SequenceField} (hf : SequenceField.ofName? n = some f)
    (htake : s.take dl fresh d f = .ok t) : t.Takes dl (fs ++ [(k, d)]) := by
  rw [Takes, Data.lastNamed?_concat hk]
  cases f with
  | steps =>
    rw [if_pos (SequenceField.ofName?_eq_steps_iff.mp hf)]
    obtain ⟨x, hx, rfl⟩ := exists_of_map_eq_ok htake
    obtain ⟨ss, hss, rfl⟩ := exists_of_once hx
    exact stepsOfData_from dl fresh d [] hss
  | _ =>
    have hother : n ∉ ["steps"] := by
      rw [← SequenceField.ofName?_eq_steps_iff, hf]
      decide
    rw [if_neg hother]
    obtain ⟨x, -, rfl⟩ := exists_of_map_eq_ok htake
    exact h

theorem Takes.takeAll : ∀ {fs before : List (Data × Data)} {s t : SequenceDraft},
    s.Takes dl before → s.takeAll dl fresh fs = .ok t → t.Takes dl (before ++ fs)
  | [], before, _, _, hs, h => by
      rw [SequenceDraft.takeAll] at h
      cases h
      rwa [List.append_nil]
  | (k, d) :: fs, before, s, t, hs, h => by
      rw [SequenceDraft.takeAll] at h
      obtain ⟨name, hname, h⟩ := exists_of_bind_eq_ok h
      have hk := Dialect.exists_of_fieldName hname
      rw [List.append_cons]
      split at h
      · next f hf =>
        obtain ⟨u, hu, h⟩ := exists_of_bind_eq_ok h
        exact (hs.take hk hf hu).takeAll h
      · next hnone =>
        have hother : name ∉ ["steps"] := by
          rw [← SequenceField.ofName?_eq_steps_iff, hnone]
          decide
        refine Takes.takeAll ?_ h
        rw [Takes, Data.lastNamed?_concat hk, if_neg hother]
        exact hs

end SequenceDraft

theorem Sequence.stepsFromData {dl : Dialect} {fresh : Fresh} {d : Data} {s : Sequence}
    (h : Sequence.ofData dl fresh d = .ok s) : StepsFromData dl d s.steps := by
  rw [Sequence.ofData] at h
  obtain ⟨fs, hfs, h⟩ := exists_of_bind_eq_ok h
  obtain ⟨draft, hdraft, h⟩ := exists_of_bind_eq_ok h
  cases h
  have hempty : SequenceDraft.Takes dl [] {} := ⟨[], rfl, .nil⟩
  obtain ⟨items, hitems, hfrom⟩ := hempty.takeAll hdraft
  exact ⟨fs, items, hfs, hitems, hfrom⟩

end Runbook
