import Runbook.Document.Codec

/-!
# Probes and readings agree

A probe looks at the root of a text and no further.  It refuses exactly the texts on which a reading
fails because of the text as a whole: there is no tree, or its root is not that of a task sequence.
Once a probe has claimed a text, a reading can fail because of what is in the tree, and that only.
So a list of codecs reads a text with the first codec that claims it, and if there is none no codec
could have read the text: `Codecs.probesDecide`.

`OnlyFails` bounds the errors of a reading from above, and the readings of elements are followed by
the recursion of the tree.
-/

namespace Runbook

open Runbook.Xml

/-! ## Errors -/

/-- An error about the text as a whole: it is no text of the format, or its root is not that of a
task sequence. -/
inductive DocumentError.OfWhole : Format → DocumentError → Prop where
  /-- The text is not well-formed. -/
  | malformed {f : Format} : OfWhole f (.malformed f)
  /-- The text is several texts. -/
  | severalDocuments : OfWhole .yaml .severalDocuments
  /-- The root is another one. -/
  | wrongRoot {f : Format} {reason : String} : OfWhole f (.wrongRoot reason)

/-- An error about something in the tree of a text. -/
inductive DocumentError.OfContent : Format → DocumentError → Prop where
  /-- A truth value or a date is none. -/
  | invalidValue {field value : String} : OfContent .xml (.invalidValue field value)
  /-- An operator does not exist. -/
  | unknownOperator {text : String} : OfContent .xml (.unknownOperator text)
  /-- An attribute is not there. -/
  | missingAttribute {element name : String} : OfContent .xml (.missingAttribute element name)
  /-- A value of JSON has another shape than is wanted. -/
  | misshapenJson {fault : ShapeFault} : OfContent .json (.misshapen .json fault)
  /-- A value of YAML has another shape than is wanted. -/
  | misshapenYaml {fault : ShapeFault} : OfContent .yaml (.misshapen .yaml fault)

/-- No error is about both. -/
theorem DocumentError.OfContent.not_ofWhole {f g : Format} {e : DocumentError}
    (h : e.OfContent f) : ¬ e.OfWhole g := by
  cases h <;> exact nofun

/-! ## Readings that fail in certain ways only -/

section

variable {ε α β : Type}

/-- If a reading fails its error satisfies a property. -/
def OnlyFails (P : ε → Prop) (x : Except ε α) : Prop := ∀ e, x = .error e → P e

variable {P : ε → Prop}

theorem OnlyFails.ok (a : α) : OnlyFails P (.ok a) := nofun

theorem OnlyFails.error {e : ε} (h : P e) : OnlyFails P (.error e : Except ε α) := by
  rintro _ ⟨⟩
  exact h

theorem OnlyFails.bind {x : Except ε α} {f : α → Except ε β} (hx : OnlyFails P x)
    (hf : ∀ a, OnlyFails P (f a)) : OnlyFails P (x.bind f) := by
  cases x with
  | error e => exact .error (hx e rfl)
  | ok a => exact hf a

theorem OnlyFails.map {x : Except ε α} {f : α → β} (hx : OnlyFails P x) :
    OnlyFails P (x.map f) := by
  cases x with
  | error e => exact .error (hx e rfl)
  | ok a => exact .ok (f a)

theorem OnlyFails.mapM {f : α → Except ε β} (hf : ∀ a, OnlyFails P (f a)) :
    ∀ as : List α, OnlyFails P (as.mapM f)
  | [] => .ok []
  | a :: as => by
      rw [List.mapM_cons]
      exact (hf a).bind fun b => (mapM hf as).bind fun bs => .ok (b :: bs)

end

/-! ## Readings of elements -/

theorem readFlag_onlyFails (field : String) (raw : Option String) (ifAbsent : Bool) :
    OnlyFails (DocumentError.OfContent .xml) (readFlag field raw ifAbsent) := by
  rw [readFlag.eq_def]
  split
  · exact .ok _
  split
  · exact .ok _
  split
  · exact .ok _
  · exact .error .invalidValue

theorem readTime_onlyFails (field : String) (raw : Option String) (ifAbsent : Timestamp) :
    OnlyFails (DocumentError.OfContent .xml) (readTime field raw ifAbsent) := by
  rw [readTime.eq_def]
  split
  · exact .ok _
  · split
    · exact .ok _
    · exact .error .invalidValue

theorem Variable.ofElement_onlyFails (e : Element) :
    OnlyFails (DocumentError.OfContent .xml) (Variable.ofElement e) := by
  rw [Variable.ofElement]
  split
  · exact .error .missingAttribute
  · exact (readFlag_onlyFails _ _ _).bind fun _ => (readFlag_onlyFails _ _ _).bind fun _ => .ok _

theorem variablesOf_onlyFails (e : Element) :
    OnlyFails (DocumentError.OfContent .xml) (variablesOf e) := by
  rw [variablesOf]
  split
  · exact .mapM Variable.ofElement_onlyFails _
  · exact .ok []

theorem Condition.ofElement_onlyFails (e : Element) :
    OnlyFails (DocumentError.OfContent .xml) (Condition.ofElement e) := by
  rw [Condition.ofElement]
  split
  · exact .error .missingAttribute
  · dsimp only
    split
    · exact .ok _
    · split
      · exact .ok _
      · exact .error .unknownOperator

theorem conditionsOf_onlyFails (e : Element) :
    OnlyFails (DocumentError.OfContent .xml) (conditionsOf e) := by
  rw [conditionsOf]
  split
  · exact .mapM Condition.ofElement_onlyFails _
  · exact .ok []

theorem stepOf_onlyFails (fresh : Fresh) (place : Place) (e : Element)
    {children : Except DocumentError (List Step)}
    (h : OnlyFails (DocumentError.OfContent .xml) children) :
    OnlyFails (DocumentError.OfContent .xml) (stepOf fresh place e children) := by
  rw [stepOf]
  exact (conditionsOf_onlyFails e).bind fun _ => h.bind fun _ =>
    (readFlag_onlyFails _ _ _).bind fun _ => (readFlag_onlyFails _ _ _).bind fun _ => .ok _

section

variable (fresh : Fresh)

mutual

theorem Step.ofElement_onlyFails : ∀ (e : Element) (place : Place),
    OnlyFails (DocumentError.OfContent .xml) (Step.ofElement fresh place e)
  | .mk name attributes children text, place => by
      rw [Step.ofElement]
      refine stepOf_onlyFails fresh place _ ?_
      split
      · next hblock => exact blockSteps?_onlyFails children place hblock
      · exact looseSteps_onlyFails children place 0

theorem blockSteps?_onlyFails : ∀ (es : List Element) (place : Place)
    {x : Except DocumentError (List Step)}, blockSteps? fresh place es = some x →
      OnlyFails (DocumentError.OfContent .xml) x
  | [], _, _, h => by
      rw [blockSteps?] at h
      cases h
  | e :: es, place, x, h => by
      rw [blockSteps?] at h
      split at h
      · cases h
        exact contentSteps_onlyFails e place
      · exact blockSteps?_onlyFails es place h

theorem contentSteps_onlyFails : ∀ (e : Element) (place : Place),
    OnlyFails (DocumentError.OfContent .xml) (contentSteps fresh place e)
  | .mk _ _ children _, place => by
      rw [contentSteps]
      exact stepsOfElements_onlyFails children place 0

theorem stepsOfElements_onlyFails : ∀ (es : List Element) (place : Place) (position : Nat),
    OnlyFails (DocumentError.OfContent .xml) (stepsOfElements fresh place position es)
  | [], _, _ => by
      rw [stepsOfElements]
      exact .ok []
  | e :: es, place, position => by
      rw [stepsOfElements]
      split
      · next hx => exact .error (Step.ofElement_onlyFails e _ _ hx)
      · exact (stepsOfElements_onlyFails es place _).map

theorem looseSteps_onlyFails : ∀ (es : List Element) (place : Place) (position : Nat),
    OnlyFails (DocumentError.OfContent .xml) (looseSteps fresh place position es)
  | [], _, _ => by
      rw [looseSteps]
      exact .ok []
  | e :: es, place, position => by
      rw [looseSteps]
      split
      · split
        · next hx => exact .error (Step.ofElement_onlyFails e _ _ hx)
        · exact (looseSteps_onlyFails es place _).map
      · exact looseSteps_onlyFails es place position

end

end

/-- A sequence is read from an element with the name of a root, unless something in it is wrong. -/
theorem Sequence.ofElement_onlyFails (fresh : Fresh) {e : Element} (h : isSequenceRoot e = true) :
    OnlyFails (DocumentError.OfContent .xml) (Sequence.ofElement fresh e) := by
  rw [Sequence.ofElement, h]
  refine (variablesOf_onlyFails e).bind fun _ => .bind ?_ fun _ =>
    (readTime_onlyFails _ _ _).bind fun _ => (readTime_onlyFails _ _ _).bind fun _ => .ok _
  cases hblock : blockSteps? fresh [] e.children with
  | none => exact looseSteps_onlyFails fresh e.children [] 0
  | some x => exact blockSteps?_onlyFails fresh e.children [] hblock

/-! ## Trees of texts -/

theorem xmlRoot_onlyFails (text : String) :
    OnlyFails (DocumentError.OfWhole .xml) (xmlRoot text) := by
  rw [xmlRoot]
  split
  · exact .ok _
  · exact .error .malformed
  · exact .error .wrongRoot

theorem jsonData_onlyFails (text : String) :
    OnlyFails (DocumentError.OfWhole .json) (jsonData text) := by
  rw [jsonData]
  split
  · exact .ok _
  · exact .error .malformed

theorem yamlData_onlyFails (text : String) :
    OnlyFails (DocumentError.OfWhole .yaml) (yamlData text) := by
  rw [yamlData]
  split
  · exact .ok _
  · exact .error .malformed
  · exact .error .severalDocuments

/-! ## Probes -/

/-- What the probe of a format foretells about its reading of a text. -/
structure Format.ProbeDecides (f : Format) (fresh : Fresh) (text : String) : Prop where
  /-- The texts that are refused are those that cannot be read as a whole. -/
  refused : f.claims text = false ↔ ∃ e, f.parse fresh text = .error e ∧ e.OfWhole f
  /-- A text that is claimed is read, or something in it is wrong. -/
  claimed : f.claims text = true → ∀ e, f.parse fresh text = .error e → e.OfContent f

/-- A probe decides if it refuses a text that cannot be read as a whole, or claims one whose reading
fails by its content only. -/
theorem Format.probeDecides_iff {f : Format} {fresh : Fresh} {text : String} :
    f.ProbeDecides fresh text ↔
      (f.claims text = false ∧ ∃ e, f.parse fresh text = .error e ∧ e.OfWhole f) ∨
      (f.claims text = true ∧ OnlyFails (DocumentError.OfContent f) (f.parse fresh text)) := by
  constructor
  · intro h
    cases hclaims : f.claims text with
    | false => exact .inl ⟨rfl, h.refused.mp hclaims⟩
    | true => exact .inr ⟨rfl, h.claimed hclaims⟩
  · rintro (⟨hclaims, hfails⟩ | ⟨hclaims, hfails⟩)
    · exact ⟨iff_of_true hclaims hfails, fun h => nomatch hclaims.symm.trans h⟩
    · refine ⟨iff_of_false (fun h => nomatch hclaims.symm.trans h) ?_, fun _ => hfails⟩
      rintro ⟨e, he, hwhole⟩
      exact (hfails e he).not_ofWhole hwhole

/-- A format whose reading makes a tree of the text first, and whose probe looks at the root of this
tree, decides with its probe. -/
theorem Format.probeDecides_of_tree {α : Type} {f : Format} {fresh : Fresh} {text : String}
    (tree : Except DocumentError α) (isRoot : α → Bool) {read : α → Except DocumentError Sequence}
    (hclaims : f.claims text = tree.toOption.any isRoot)
    (htree : OnlyFails (DocumentError.OfWhole f) tree)
    (hparse : f.parse fresh text = tree.bind read)
    (hrefused : ∀ a, isRoot a = false → ∃ reason, read a = .error (.wrongRoot reason))
    (hclaimed : ∀ a, isRoot a = true → OnlyFails (DocumentError.OfContent f) (read a)) :
    f.ProbeDecides fresh text := by
  rw [Format.probeDecides_iff, hclaims, hparse]
  cases tree with
  | error e => exact .inl ⟨rfl, e, rfl, htree e rfl⟩
  | ok a =>
    cases ha : isRoot a with
    | false =>
      obtain ⟨reason, hread⟩ := hrefused a ha
      exact .inl ⟨ha, .wrongRoot reason, hread, .wrongRoot⟩
    | true => exact .inr ⟨ha, hclaimed a ha⟩

theorem Sequence.ofElement_of_isSequenceRoot (fresh : Fresh) {e : Element}
    (h : isSequenceRoot e = false) :
    ∃ reason, Sequence.ofElement fresh e = .error (.wrongRoot reason) := by
  rw [ofElement, h]
  exact ⟨_, rfl⟩

section

variable (format : Format) (dl : Dialect) (rootFault : String) (fresh : Fresh) {d : Data}

theorem Sequence.ofRoot_of_isRoot (h : isRoot d = false) :
    ∃ reason, ofRoot format dl rootFault fresh d = .error (.wrongRoot reason) := by
  rw [ofRoot, h]
  exact ⟨_, rfl⟩

theorem Sequence.ofRoot_onlyFails (h : isRoot d = true) {P : DocumentError → Prop}
    (hP : ∀ fault, P (.misshapen format fault)) :
    OnlyFails P (ofRoot format dl rootFault fresh d) := by
  rw [ofRoot, if_pos h]
  split
  · exact .ok _
  · exact .error (hP _)

end

/-- Every probe decides, whatever the text. -/
theorem Format.probeDecides (fresh : Fresh) (text : String) :
    ∀ f : Format, f.ProbeDecides fresh text
  | .xml => by
      have hclaims : xml.claims text = (xmlRoot text).toOption.any isSequenceRoot := by
        rw [claims]
        cases xmlRoot text <;> rfl
      exact probeDecides_of_tree (xmlRoot text) isSequenceRoot hclaims (xmlRoot_onlyFails text) rfl
        (fun _ => Sequence.ofElement_of_isSequenceRoot fresh)
        (fun _ => Sequence.ofElement_onlyFails fresh)
  | .json => by
      have hclaims : json.claims text = (jsonData text).toOption.any Sequence.isRoot := by
        rw [claims]
        cases jsonData text <;> rfl
      exact probeDecides_of_tree (jsonData text) Sequence.isRoot hclaims
        (jsonData_onlyFails text) rfl
        (fun _ => Sequence.ofRoot_of_isRoot _ _ _ fresh)
        (fun _ h => Sequence.ofRoot_onlyFails _ _ _ fresh h fun _ => .misshapenJson)
  | .yaml => by
      have hclaims : yaml.claims text = (yamlData text).toOption.any Sequence.isRoot := by
        rw [claims]
        cases yamlData text <;> rfl
      exact probeDecides_of_tree (yamlData text) Sequence.isRoot hclaims
        (yamlData_onlyFails text) rfl
        (fun _ => Sequence.ofRoot_of_isRoot _ _ _ fresh)
        (fun _ h => Sequence.ofRoot_onlyFails _ _ _ fresh h fun _ => .misshapenYaml)

/-! ## Several formats -/

namespace Codecs

variable {cs : Codecs} {fresh : Fresh} {text : String}

theorem detect_eq_none_iff : cs.detect text = none ↔ ∀ f ∈ cs, f.claims text = false := by
  rw [detect, List.find?_eq_none]
  simp

/-- The first codec that claims a text is the one that no claiming codec comes before. -/
theorem detect_append_cons {before after : Codecs} {f : Format}
    (hbefore : ∀ g ∈ before, g.claims text = false) (hf : f.claims text = true) :
    detect (before ++ f :: after) text = some f := by
  have hnone : List.find? (·.claims text) before = none := detect_eq_none_iff.mpr hbefore
  rw [detect, List.find?_append, hnone, Option.none_or, List.find?_cons, hf]

/-- Reading with a list of codecs fails without a codec only if none claims the text. -/
theorem parse_eq_unrecognized_iff :
    cs.parse fresh text = .error .unrecognized ↔ ∀ f ∈ cs, f.claims text = false := by
  rw [← detect_eq_none_iff, parse]
  split
  · next f hf =>
    rw [hf]
    refine iff_of_false (fun h => ?_) nofun
    have hclaims : f.claims text = true :=
      @List.find?_some _ (fun g => Format.claims g text) f cs hf
    exact nomatch (f.probeDecides fresh text).claimed hclaims _ h
  · next hnone => exact iff_of_true rfl hnone

/-- What the probes of a list of codecs foretell about its reading of a text. -/
structure ProbesDecide (cs : Codecs) (fresh : Fresh) (text : String) : Prop where
  /-- Each probe foretells the reading of its own format. -/
  each : ∀ f : Format, f.ProbeDecides fresh text
  /-- The text is read with the first codec whose probe claims it, and with no other. -/
  first : ∀ before f after, cs = before ++ f :: after → (∀ g ∈ before, g.claims text = false) →
    f.claims text = true → cs.parse fresh text = f.parse fresh text
  /-- It is recognised unless no probe claims it. -/
  unrecognized : cs.parse fresh text = .error .unrecognized ↔ ∀ f ∈ cs, f.claims text = false
  /-- Then no codec of the list could have read it. -/
  unreadable : cs.parse fresh text = .error .unrecognized → ∀ f ∈ cs,
    ∃ e, f.parse fresh text = .error e ∧ e.OfWhole f

/-- The probes of a list of codecs decide how it reads a text, whatever their order and the text. -/
theorem probesDecide (cs : Codecs) (fresh : Fresh) (text : String) :
    cs.ProbesDecide fresh text where
  each := Format.probeDecides fresh text
  first before f after hcs hbefore hf := by
    rw [parse, hcs, detect_append_cons hbefore hf]
  unrecognized := parse_eq_unrecognized_iff
  unreadable h f hf :=
    (f.probeDecides fresh text).refused.mp (parse_eq_unrecognized_iff.mp h f hf)

end Codecs
end Runbook
