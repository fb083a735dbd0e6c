import Runbook.Document.Codec
import Runbook.Proofs.Document.Overlay
import Runbook.Proofs.Document.Proper
import Runbook.Proofs.Timestamp.Readings

/-!
# What a document is read as can be held

A sequence that is read from a text is `Proper`, whatever the format and the text: its dates come
from a reading or from the supply, and the properties of its steps are inserted one by one.  The
main statement is `Format.parse_proper`.

The two readings of a tree, `Step.ofData` and `Step.ofElement`, are followed by the recursion of the
tree.  On the way the draft of a step is `Sound`: its loose fields are a map and the steps in it are
proper.
-/

namespace Runbook

open Runbook.Xml

/-! ## Drafts -/

/-- A field is taken once, with what its reading gives. -/
theorem exists_of_once {α : Type} {before : Option α} {field : String}
    {reading : Except ShapeFault α} {x : Option α} (h : once before field reading = .ok x) :
    ∃ a, reading = .ok a ∧ x = some a := by
  rw [once] at h
  split at h
  · cases h
  · cases hreading : reading with
    | error e => rw [hreading] at h; cases h
    | ok a => rw [hreading] at h; cases h; exact ⟨a, rfl, rfl⟩

/-- What is made of a result that is there. -/
theorem exists_of_map_eq_ok {ε α β : Type} {x : Except ε α} {f : α → β} {b : β}
    (h : x.map f = .ok b) : ∃ a, x = .ok a ∧ f a = b := by
  cases x with
  | error e => cases h
  | ok a => exact ⟨a, rfl, Except.ok.inj h⟩

theorem Dialect.time_proper (dl : Dialect) {d : Data} {t : Timestamp} (h : dl.time d = .ok t) :
    t.Proper := by
  rw [Dialect.time] at h
  split at h
  · split at h
    · rename_i hread
      cases h
      exact Timestamp.readRelaxed_proper hread
    · cases h
  · cases h

/-- The steps of several trees are proper. -/
abbrev Step.AllProper (ss : List Step) : Prop := ∀ t ∈ Step.preorderAll ss, t.Proper

theorem Step.allProper_nil : AllProper [] := by
  intro t ht
  rw [preorderAll] at ht
  exact absurd ht List.not_mem_nil

namespace StepDraft

/-- The loose fields are a map, and the steps in it are proper. -/
structure Sound (s : StepDraft) : Prop where
  /-- The loose fields. -/
  loose : (s.loose.map (·.1)).Nodup
  /-- The steps in it. -/
  children : Step.AllProper (s.children.getD [])

theorem sound_empty : Sound {} := ⟨List.nodup_nil, Step.allProper_nil⟩

theorem Sound.take {s t : StepDraft} (h : s.Sound) {dl : Dialect} {d : Data}
    {kids : Except ShapeFault (List Step)} (hkids : ∀ ss, kids = .ok ss → Step.AllProper ss)
    {f : StepField} (htake : s.take dl d kids f = .ok t) : t.Sound := by
  cases f with
  | children =>
      obtain ⟨x, hx, rfl⟩ := exists_of_map_eq_ok htake
      obtain ⟨ss, hss, rfl⟩ := exists_of_once hx
      exact ⟨h.loose, hkids ss hss⟩
  | _ =>
      obtain ⟨x, -, rfl⟩ := exists_of_map_eq_ok htake
      exact ⟨h.loose, h.children⟩

theorem Sound.takeLoose {s t : StepDraft} (h : s.Sound) {name : String} {d : Data}
    (htake : s.takeLoose name d = .ok t) : t.Sound := by
  rw [StepDraft.takeLoose] at htake
  split at htake
  · cases htake
  · cases htake
    exact ⟨Pairs.nodup_insert _ _ h.loose, h.children⟩

theorem Sound.finish {s : StepDraft} (h : s.Sound) (fresh : Fresh) (place : Place) :
    ∀ t ∈ (s.finish fresh place).preorder, t.Proper := by
  rw [StepDraft.finish, Step.forall_mem_preorder_mk]
  refine ⟨?_, h.children⟩
  exact Pairs.nodup_insertAll ((Pairs.keys_filterMap_sublist s.loose).nodup h.loose)

end StepDraft

/-! ## Steps of data -/

section

variable (dl : Dialect) (fresh : Fresh)

mutual

theorem Step.ofData_proper : ∀ (d : Data) (place : Place) {s : Step},
    Step.ofData dl fresh place d = .ok s → ∀ t ∈ s.preorder, t.Proper
  | .record fs, place, s, h => by
      rw [Step.ofData] at h
      obtain ⟨draft, hdraft, rfl⟩ := exists_of_map_eq_ok h
      exact (draftOf_sound fs place StepDraft.sound_empty hdraft).finish fresh place
  | .null, place, s, h => by
      rw [Step.ofData] at h
      split at h
      · cases h
        exact StepDraft.sound_empty.finish fresh place
      · cases h
  | .tagged _ d, place, s, h => Step.ofData_proper d place (by rwa [Step.ofData] at h)
  | .bool _, _, _, h => nomatch h
  | .int _, _, _, h => nomatch h
  | .real _, _, _, h => nomatch h
  | .text _, _, _, h => nomatch h
  | .list _, _, _, h => nomatch h

theorem draftOf_sound : ∀ (fs : List (Data × Data)) (place : Place) {s t : StepDraft},
    s.Sound → draftOf dl fresh place s fs = .ok t → t.Sound
  | [], _, _, _, hs, h => by
      rw [draftOf] at h
      cases h
      exact hs
  | (k, d) :: fs, place, s, t, hs, h => by
      rw [draftOf] at h
      split at h
      · cases h
      dsimp only at h
      split at h
      · cases h
      rename_i u htaken
      refine draftOf_sound fs place (s := u) ?_ h
      split at htaken
      · exact hs.take (fun ss hss => stepsOfData_proper d place hss) htaken
      · exact hs.takeLoose htaken

theorem stepsOfData_proper : ∀ (d : Data) (place : Place) {ss : List Step},
    stepsOfData dl fresh place d = .ok ss → Step.AllProper ss
  | .list ds, place, ss, h => stepsOfItems_proper ds place 0 (by rwa [stepsOfData] at h)
  | .null, place, ss, h => by
      rw [stepsOfData] at h
      split at h
      · cases h
        exact Step.allProper_nil
      · cases h
  | .tagged _ d, place, ss, h => stepsOfData_proper d place (by rwa [stepsOfData] at h)
  | .bool _, _, _, h => nomatch h
  | .int _, _, _, h => nomatch h
  | .real _, _, _, h => nomatch h
  | .text _, _, _, h => nomatch h
  | .record _, _, _, h => nomatch h

theorem stepsOfItems_proper : ∀ (ds : List Data) (place : Place) (position : Nat)
    {ss : List Step}, stepsOfItems dl fresh place position ds = .ok ss → Step.AllProper ss
  | [], _, _, _, h => by
      rw [stepsOfItems] at h
      cases h
      exact Step.allProper_nil
  | d :: ds, place, position, ss, h => by
      rw [stepsOfItems] at h
      split at h
      · cases h
      rename_i s hs
      obtain ⟨rest, hrest, rfl⟩ := exists_of_map_eq_ok h
      exact Step.forall_mem_preorderAll_cons.mpr
        ⟨Step.ofData_proper d _ hs, stepsOfItems_proper ds place _ hrest⟩

end

end

/-! ## Sequences of data -/

namespace SequenceDraft

/-- The dates can be held and the steps are proper. -/
structure Sound (s : SequenceDraft) : Prop where
  /-- The date of creation. -/
  created : ∀ t, s.created = some t → t.Proper
  /-- The date of the last change. -/
  modified : ∀ t, s.modified = some t → t.Proper
  /-- The steps. -/
  steps : Step.AllProper (s.steps.getD [])

theorem sound_empty : Sound {} where
  created := fun _ h => nomatch h
  modified := fun _ h => nomatch h
  steps := Step.allProper_nil

variable {dl : Dialect} {fresh : Fresh}

theorem Sound.take {s t : SequenceDraft} (h : s.Sound) {d : Data} {f : SequenceField}
    (htake : s.take dl fresh d f = .ok t) : t.Sound := by
  cases f with
  | created =>
      obtain ⟨x, hx, rfl⟩ := exists_of_map_eq_ok htake
      obtain ⟨time, htime, rfl⟩ := exists_of_once hx
      exact ⟨fun _ he => Option.some.inj he ▸ dl.time_proper htime, h.modified, h.steps⟩
  | modified =>
      obtain ⟨x, hx, rfl⟩ := exists_of_map_eq_ok htake
      obtain ⟨time, htime, rfl⟩ := exists_of_once hx
      exact ⟨h.created, fun _ he => Option.some.inj he ▸ dl.time_proper htime, h.steps⟩
  | steps =>
      obtain ⟨x, hx, rfl⟩ := exists_of_map_eq_ok htake
      obtain ⟨ss, hss, rfl⟩ := exists_of_once hx
      exact ⟨h.created, h.modified, stepsOfData_proper dl fresh d [] hss⟩
  | _ =>
      obtain ⟨x, -, rfl⟩ := exists_of_map_eq_ok htake
      exact ⟨h.created, h.modified, h.steps⟩

theorem Sound.takeAll : ∀ {fs : List (Data × Data)} {s t : SequenceDraft}, s.Sound →
    s.takeAll dl fresh fs = .ok t → t.Sound
  | [], _, _, hs, h => by
      rw [SequenceDraft.takeAll] at h
      cases h
      exact hs
  | (k, d) :: fs, s, t, hs, h => by
      rw [SequenceDraft.takeAll] at h
      obtain ⟨name, -, h⟩ := exists_of_bind_eq_ok h
      split at h
      · obtain ⟨u, hu, h⟩ := exists_of_bind_eq_ok h
        exact Sound.takeAll (hs.take hu) h
      · exact Sound.takeAll hs h

theorem Sound.finish {s : SequenceDraft} (h : s.Sound) (hfresh : fresh.now.Proper) :
    (s.finish fresh).Proper where
  created := by
    rw [SequenceDraft.finish]
    cases hcreated : s.created with
    | none => exact hfresh
    | some t => exact h.created t hcreated
  modified := by
    rw [SequenceDraft.finish]
    cases hmodified : s.modified with
    | none => exact hfresh
    | some t => exact h.modified t hmodified
  steps := h.steps

end SequenceDraft

theorem Sequence.ofData_proper (dl : Dialect) {fresh : Fresh} (hfresh : fresh.now.Proper)
    {d : Data} {s : Sequence} (h : Sequence.ofData dl fresh d = .ok s) : s.Proper := by
  rw [Sequence.ofData] at h
  obtain ⟨fs, -, h⟩ := exists_of_bind_eq_ok h
  obtain ⟨draft, hdraft, h⟩ := exists_of_bind_eq_ok h
  cases h
  exact (SequenceDraft.sound_empty.takeAll hdraft).finish hfresh

theorem Sequence.ofRoot_proper {format : Format} {dl : Dialect} {rootFault : String} {fresh : Fresh}
    (hfresh : fresh.now.Proper) {d : Data} {s : Sequence}
    (h : Sequence.ofRoot format dl rootFault fresh d = .ok s) : s.Proper := by
  rw [Sequence.ofRoot] at h
  split at h
  · split at h
    · rename_i hread
      cases h
      exact Sequence.ofData_proper dl hfresh hread
    · cases h
  · cases h

/-! ## Steps of elements -/

theorem propertiesOf_nodup (e : Element) : (propertiesOf e).keys.Nodup :=
  Pairs.nodup_insertAll (Pairs.nodup_ofList _)

theorem stepOf_proper {fresh : Fresh} {place : Place} {e : Element}
    {children : Except DocumentError (List Step)}
    (hchildren : ∀ ss, children = .ok ss → Step.AllProper ss) {s : Step}
    (h : stepOf fresh place e children = .ok s) : ∀ t ∈ s.preorder, t.Proper := by
  rw [stepOf] at h
  obtain ⟨conditions, -, h⟩ := exists_of_bind_eq_ok h
  obtain ⟨ss, hss, h⟩ := exists_of_bind_eq_ok h
  obtain ⟨enabled, -, h⟩ := exists_of_bind_eq_ok h
  obtain ⟨continueOnError, -, h⟩ := exists_of_bind_eq_ok h
  cases h
  exact Step.forall_mem_preorder_mk.mpr ⟨propertiesOf_nodup e, hchildren ss hss⟩

section

variable (fresh : Fresh)

mutual

theorem Step.ofElement_proper : ∀ (e : Element) (place : Place) {s : Step},
    Step.ofElement fresh place e = .ok s → ∀ t ∈ s.preorder, t.Proper
  | .mk name attributes children text, place, s, h => by
      rw [Step.ofElement] at h
      refine stepOf_proper (fun ss hss => ?_) h
      split at hss
      · rename_i hblock
        exact blockSteps?_proper children place hblock ss hss
      · exact looseSteps_proper children place 0 hss

theorem blockSteps?_proper : ∀ (es : List Element) (place : Place)
    {x : Except DocumentError (List Step)}, blockSteps? fresh place es = some x →
      ∀ ss, x = .ok ss → Step.AllProper ss
  | [], _, _, h, _, _ => by
      rw [blockSteps?] at h
      cases h
  | e :: es, place, x, h, ss, hx => by
      rw [blockSteps?] at h
      split at h
      · exact contentSteps_proper e place ((Option.some.inj h).trans hx)
      · exact blockSteps?_proper es place h ss hx

theorem contentSteps_proper : ∀ (e : Element) (place : Place) {ss : List Step},
    contentSteps fresh place e = .ok ss → Step.AllProper ss
  | .mk _ _ children _, place, ss, h => stepsOfElements_proper children place 0 (by
      rwa [contentSteps] at h)

theorem stepsOfElements_proper : ∀ (es : List Element) (place : Place) (position : Nat)
    {ss : List Step}, stepsOfElements fresh place position es = .ok ss → Step.AllProper ss
  | [], _, _, _, h => by
      rw [stepsOfElements] at h
      cases h
      exact Step.allProper_nil
  | e :: es, place, position, ss, h => by
      rw [stepsOfElements] at h
      split at h
      · cases h
      rename_i s hs
      obtain ⟨rest, hrest, rfl⟩ := exists_of_map_eq_ok h
      exact Step.forall_mem_preorderAll_cons.mpr
        ⟨Step.ofElement_proper e _ hs, stepsOfElements_proper es place _ hrest⟩

theorem looseSteps_proper : ∀ (es : List Element) (place : Place) (position : Nat)
    {ss : List Step}, looseSteps fresh place position es = .ok ss → Step.AllProper ss
  | [], _, _, _, h => by
      rw [looseSteps] at h
      cases h
      exact Step.allProper_nil
  | e :: es, place, position, ss, h => by
      rw [looseSteps] at h
      split at h
      · split at h
        · cases h
        rename_i s hs
        obtain ⟨rest, hrest, rfl⟩ := exists_of_map_eq_ok h
        exact Step.forall_mem_preorderAll_cons.mpr
          ⟨Step.ofElement_proper e _ hs, looseSteps_proper es place _ hrest⟩
      · exact looseSteps_proper es place position h

end

end

/-! ## Sequences of elements -/

theorem readTime_proper {field : String} {raw : Option String} {ifAbsent t : Timestamp}
    (habsent : ifAbsent.Proper) (h : readTime field raw ifAbsent = .ok t) : t.Proper := by
  rw [readTime.eq_def] at h
  split at h
  · cases h
    exact habsent
  · split at h
    · rename_i hread
      cases h
      exact Timestamp.readStrict_proper hread
    · cases h

theorem Sequence.ofElement_proper {fresh : Fresh} (hfresh : fresh.now.Proper) {e : Element}
    {s : Sequence} (h : Sequence.ofElement fresh e = .ok s) : s.Proper := by
  rw [Sequence.ofElement] at h
  split at h
  · cases h
  · obtain ⟨declarations, -, h⟩ := exists_of_bind_eq_ok h
    obtain ⟨steps, hsteps, h⟩ := exists_of_bind_eq_ok h
    obtain ⟨created, hcreated, h⟩ := exists_of_bind_eq_ok h
    obtain ⟨modified, hmodified, h⟩ := exists_of_bind_eq_ok h
    cases h
    refine ⟨readTime_proper hfresh hcreated, readTime_proper hfresh hmodified, ?_⟩
    cases hblock : blockSteps? fresh [] e.children with
    | none =>
        rw [hblock] at hsteps
        exact looseSteps_proper fresh e.children [] 0 hsteps
    | some x =>
        rw [hblock] at hsteps
        exact blockSteps?_proper fresh e.children [] hblock steps hsteps

/-! ## Texts -/

/-- Whatever a text is read as is proper. -/
theorem Format.parse_proper {fresh : Fresh} (hfresh : fresh.now.Proper) {f : Format} {text : String}
    {s : Sequence} (h : f.parse fresh text = .ok s) : s.Proper := by
  cases f with
  | xml =>
      obtain ⟨e, -, h⟩ := exists_of_bind_eq_ok h
      exact Sequence.ofElement_proper hfresh h
  | json =>
      obtain ⟨d, -, h⟩ := exists_of_bind_eq_ok h
      exact Sequence.ofRoot_proper hfresh h
  | yaml =>
      obtain ⟨d, -, h⟩ := exists_of_bind_eq_ok h
      exact Sequence.ofRoot_proper hfresh h

end Runbook
