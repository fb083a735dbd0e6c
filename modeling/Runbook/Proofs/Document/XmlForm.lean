import Runbook.Document.Codec
import Runbook.Proofs.Document.Proper
import Runbook.Proofs.Xml.Tree

/-!
# The XML form is read back

The layout of a sequence has clean names, so its written form is read as the tree that was meant.
From that tree each part is read back: attributes by their names, and the parts of a step that are
left out when empty by what their absence stands for.  `Sequence.ofElement_toLayout` puts the parts
together.
-/

namespace Runbook

open Runbook.Text Runbook.Xml

/-! ## The names of the layout are clean -/

theorem isCleanName_of_isElementName {k : String} (h : isElementName k = true) :
    isCleanName k = true ∧ k ≠ "xmlns" ∧ k ≠ "property" := by
  have hx : k ≠ "xmlns" := by
    rintro rfl
    revert h
    decide
  unfold isElementName at h
  unfold isCleanName
  cases hk : k.toList with
  | nil =>
      rw [hk] at h
      exact nomatch h
  | cons c cs =>
      rw [hk] at h
      simp only [Bool.and_eq_true, bne_iff_ne, ne_eq] at h ⊢
      exact ⟨⟨h.1.1.1, h.1.1.2⟩, hx, h.2⟩

/-- Attributes are clean if their names are. -/
theorem cleanAttributes_of_names {as : List (String × String)} (names : List String)
    (h : as.map (·.1) = names) (hclean : ∀ n ∈ names, isCleanName n = true ∧ n ≠ "xmlns")
    (hdup : names.Nodup) : CleanAttributes as :=
  ⟨fun a ha => hclean a.1 (h ▸ List.mem_map_of_mem ha), h ▸ hdup⟩

theorem propertyLayout_clean (p : String × String) : (propertyLayout p).Clean := by
  rw [propertyLayout]
  split
  · rename_i h
    rw [Layout.Clean]
    exact ⟨(isCleanName_of_isElementName h).1, by simp [CleanAttributes]⟩
  · rw [Layout.Clean]
    exact ⟨by decide, by simp [CleanAttributes]; decide⟩

theorem allClean_map {α : Type} {f : α → Layout} (h : ∀ a, (f a).Clean) :
    ∀ as : List α, Layout.AllClean (as.map f)
  | [] => by rw [List.map_nil, Layout.AllClean]; trivial
  | a :: as => by
      rw [List.map_cons, Layout.AllClean]
      exact ⟨h a, allClean_map h as⟩

theorem Condition.toLayout_clean (c : Condition) : c.toLayout.Clean := by
  rw [toLayout, Layout.Clean]
  exact ⟨by decide, cleanAttributes_of_names ["variable", "operator", "value"] rfl (by decide)
    (by decide)⟩

theorem Variable.toLayout_clean (v : Variable) : v.toLayout.Clean := by
  rw [toLayout, Layout.Clean]
  exact ⟨by decide, cleanAttributes_of_names ["name", "value", "readonly", "secret"] rfl
    (by decide) (by decide)⟩

theorem descriptionLayout_clean (d : String) : Layout.AllClean (descriptionLayout d) := by
  rw [descriptionLayout]
  split
  · rw [Layout.AllClean]; trivial
  · rw [Layout.AllClean, Layout.AllClean, Layout.Clean]
    exact ⟨⟨by decide, by simp [CleanAttributes]⟩, trivial⟩

theorem blockIfAny_clean {name : String} (hn : isCleanName name = true) {content : List Layout}
    (h : Layout.AllClean content) : Layout.AllClean (blockIfAny name content) := by
  rw [blockIfAny]
  split
  · rw [Layout.AllClean]; trivial
  · rw [Layout.AllClean, Layout.AllClean, Layout.Clean]
    exact ⟨⟨hn, by simp [CleanAttributes], h⟩, trivial⟩

mutual

theorem Step.toLayout_clean : ∀ s : Step, s.toLayout.Clean
  | .mk i n d k e c cs ps ss => by
      rw [Step.toLayout, Layout.Clean]
      refine ⟨by decide, cleanAttributes_of_names ["id", "name", "type", "enabled",
        "continueOnError"] rfl (by decide) (by decide), ?_⟩
      rw [Layout.allClean_append, Layout.allClean_append, Layout.allClean_append]
      exact ⟨⟨⟨descriptionLayout_clean d,
        blockIfAny_clean (by decide) (allClean_map propertyLayout_clean ps)⟩,
        blockIfAny_clean (by decide) (allClean_map Condition.toLayout_clean cs)⟩,
        blockIfAny_clean (by decide) (stepsToLayout_clean ss)⟩

theorem stepsToLayout_clean : ∀ ss : List Step, Layout.AllClean (stepsToLayout ss)
  | [] => by rw [stepsToLayout, Layout.AllClean]; trivial
  | s :: ss => by
      rw [stepsToLayout, Layout.AllClean]
      exact ⟨Step.toLayout_clean s, stepsToLayout_clean ss⟩

end

/-- The layout of a sequence has clean names only. -/
theorem Sequence.toLayout_clean (s : Sequence) : s.toLayout.Clean := by
  rw [toLayout, Layout.Clean]
  refine ⟨by decide, cleanAttributes_of_names ["id", "name", "version", "created", "modified"] rfl
    (by decide) (by decide), ?_⟩
  rw [Layout.allClean_append]
  refine ⟨descriptionLayout_clean _, ?_⟩
  simp only [Layout.AllClean, Layout.Clean]
  exact ⟨⟨by decide, by simp [CleanAttributes], allClean_map Variable.toLayout_clean _⟩,
    ⟨by decide, by simp [CleanAttributes], stepsToLayout_clean _⟩, trivial⟩

/-! ## Attributes and flags are read back -/

namespace Xml.Element

theorem attribute?_mk (name : String) (as : List (String × String)) (cs : List Element)
    (t key : String) :
    (Element.mk name as cs t).attribute? key =
      (as.find? fun a => sameLetters a.1 key).map (·.2) := rfl

theorem child?_mk (name : String) (as : List (String × String)) (cs : List Element)
    (t key : String) :
    (Element.mk name as cs t).child? key = cs.find? fun c => sameLetters c.name key := rfl

end Xml.Element

theorem find?_attribute_of_same {n key : String} (v : String) (as : List (String × String))
    (h : sameLetters n key = true) :
    ((n, v) :: as).find? (fun a => sameLetters a.1 key) = some (n, v) :=
  List.find?_cons_of_pos h

theorem find?_attribute_of_other {n key : String} (v : String) (as : List (String × String))
    (h : sameLetters n key = false) :
    ((n, v) :: as).find? (fun a => sameLetters a.1 key) =
      as.find? fun a => sameLetters a.1 key :=
  List.find?_cons_of_neg (by simp [h])

/-- A truth value is read back, whatever it would be if it were absent. -/
theorem readFlag_toString (field : String) (b ifAbsent : Bool) :
    readFlag field (some (toString b)) ifAbsent = .ok b := by
  cases b with
  | true =>
      have h : sameLetters (trim (toString true)) "true" = true := by decide
      simp only [readFlag, h, if_true]
  | false =>
      have h : sameLetters (trim (toString false)) "true" = false := by decide
      have h' : sameLetters (trim (toString false)) "false" = true := by decide
      simp only [readFlag, h, h', Bool.false_eq_true, if_false, if_true]

theorem Condition.ofElement_toLayout (depth : Nat) (c : Condition) :
    Condition.ofElement (c.toLayout.toElement depth) = .ok c := by
  rw [toLayout, Layout.toElement]
  simp (disch := decide) only [ofElement, Element.attribute?_mk, find?_attribute_of_same,
    find?_attribute_of_other, Option.map, Option.or, Option.getD, Operator.ofText?_name]

theorem Variable.ofElement_toLayout (depth : Nat) (v : Variable) :
    Variable.ofElement (v.toLayout.toElement depth) = .ok v := by
  rw [toLayout, Layout.toElement]
  simp (disch := decide) only [ofElement, Element.attribute?_mk, find?_attribute_of_same,
    find?_attribute_of_other, Option.map, Option.getD, readFlag_toString]
  rfl

/-! ## The parts of an element -/

theorem toElements_append (depth : Nat) : ∀ ls ms : List Layout,
    Layout.toElements depth (ls ++ ms) = Layout.toElements depth ls ++ Layout.toElements depth ms
  | [], ms => by rw [Layout.toElements]; rfl
  | l :: ls, ms => by
      rw [List.cons_append, Layout.toElements, Layout.toElements, toElements_append depth ls ms,
        List.cons_append]

theorem toElements_map {α : Type} (depth : Nat) (f : α → Layout) : ∀ as : List α,
    Layout.toElements depth (as.map f) = as.map fun a => (f a).toElement depth
  | [] => by rw [List.map_nil, Layout.toElements]; rfl
  | a :: as => by
      rw [List.map_cons, Layout.toElements, toElements_map depth f as, List.map_cons]

theorem toElements_descriptionLayout (depth : Nat) (d : String) :
    Layout.toElements depth (descriptionLayout d) =
      if d.isEmpty then [] else [.mk "description" [] [] d] := by
  rw [descriptionLayout]
  split <;> simp only [Layout.toElements, Layout.toElement]

theorem toElements_blockIfAny (depth : Nat) (name : String) (content : List Layout) :
    Layout.toElements depth (blockIfAny name content) =
      if content.isEmpty then [] else [(Layout.block name [] content).toElement depth] := by
  rw [blockIfAny]
  split <;> simp only [Layout.toElements]

theorem name_toElement_block (depth : Nat) (name : String) (as : List (String × String))
    (content : List Layout) : ((Layout.block name as content).toElement depth).name = name := by
  rw [Layout.toElement]
  rfl

/-- A description is all that a description is written as. -/
theorem find?_description_of_other {key : String} (depth : Nat) (d : String)
    (h : sameLetters "description" key = false) :
    (Layout.toElements depth (descriptionLayout d)).find? (fun c => sameLetters c.name key) =
      none := by
  rw [toElements_descriptionLayout]
  split
  · rfl
  · rw [List.find?_cons_of_neg (by simp [Element.name, h])]
    rfl

theorem find?_blockIfAny_of_other {name key : String} (depth : Nat) (content : List Layout)
    (h : sameLetters name key = false) :
    (Layout.toElements depth (blockIfAny name content)).find?
      (fun c => sameLetters c.name key) = none := by
  rw [toElements_blockIfAny]
  split
  · rfl
  · rw [List.find?_cons_of_neg (by simp [name_toElement_block, h])]
    rfl

theorem find?_blockIfAny_of_same {name key : String} (depth : Nat) (content : List Layout)
    (h : sameLetters name key = true) :
    (Layout.toElements depth (blockIfAny name content)).find? (fun c => sameLetters c.name key) =
      if content.isEmpty then none else some ((Layout.block name [] content).toElement depth) := by
  rw [toElements_blockIfAny]
  split
  · rfl
  · exact List.find?_cons_of_pos (by simp [name_toElement_block, h])

/-- The description of an element that starts with its written description. -/
theorem descriptionOf_mk {name : String} {as : List (String × String)} (depth : Nat) (d : String)
    {es : List Element} {t : String}
    (has : (as.find? fun a => sameLetters a.1 "description") = none)
    (hes : (es.find? fun c => sameLetters c.name "description") = none) :
    descriptionOf (.mk name as (Layout.toElements depth (descriptionLayout d) ++ es) t) = d := by
  rw [descriptionOf, Element.child?_mk, Element.attribute?_mk, List.find?_append, hes, has,
    toElements_descriptionLayout]
  by_cases hd : d.isEmpty = true
  · rw [if_pos hd]
    exact (String.isEmpty_iff.mp hd).symm
  · have hname : sameLetters (Element.mk "description" [] [] d).name "description" = true :=
      sameLetters_self _
    simp only [if_neg hd, List.find?_cons, hname, Option.some_or]
    rfl

/-! ## The parts of a step are read back -/

/-- The element that a step is written as. -/
def stepElement (depth : Nat) (i n d : String) (k : Kind) (e c : Bool) (cs : List Condition)
    (ps : Pairs) (ss : List Step) : Element :=
  .mk "step" [("id", i), ("name", n), ("type", k.name), ("enabled", toString e),
      ("continueOnError", toString c)]
    (Layout.toElements (depth + 1) (descriptionLayout d) ++
      (Layout.toElements (depth + 1) (blockIfAny "properties" (ps.map propertyLayout)) ++
      (Layout.toElements (depth + 1) (blockIfAny "conditions" (cs.map Condition.toLayout)) ++
      Layout.toElements (depth + 1) (blockIfAny "steps" (stepsToLayout ss)))))
    (Step.toLayout (.mk i n d k e c cs ps ss) |>.toElement depth).text

theorem toElement_step (depth : Nat) (i n d : String) (k : Kind) (e c : Bool)
    (cs : List Condition) (ps : Pairs) (ss : List Step) :
    (Step.toLayout (.mk i n d k e c cs ps ss)).toElement depth =
      stepElement depth i n d k e c cs ps ss := by
  rw [stepElement, Step.toLayout, Layout.toElement, toElements_append, toElements_append,
    toElements_append, List.append_assoc, List.append_assoc]
  rfl

variable (depth : Nat) (i n d : String) (k : Kind) (e c : Bool) (cs : List Condition) (ps : Pairs)
  (ss : List Step)

theorem descriptionOf_stepElement :
    descriptionOf (stepElement depth i n d k e c cs ps ss) = d :=
  descriptionOf_mk (depth + 1) d
    (by simp (disch := decide) only [find?_attribute_of_other, List.find?_nil])
    (by simp (disch := decide) only [List.find?_append, find?_blockIfAny_of_other, Option.or])

theorem mapM_conditions (depth : Nat) : ∀ cs : List Condition,
    (((cs.map fun c => c.toLayout.toElement depth).filter
      fun e => sameLetters e.name "condition").mapM Condition.ofElement) = .ok cs
  | [] => rfl
  | c :: cs => by
      have hname : sameLetters (c.toLayout.toElement depth).name "condition" = true := by
        rw [Condition.toLayout, Layout.toElement]
        exact sameLetters_self _
      simp only [List.map_cons, List.filter_cons, hname, if_true, List.mapM_cons,
        Condition.ofElement_toLayout, mapM_conditions depth cs]
      rfl

theorem conditionsOf_stepElement :
    conditionsOf (stepElement depth i n d k e c cs ps ss) = .ok cs := by
  rw [conditionsOf, stepElement, Element.child?_mk]
  simp (disch := decide) only [List.find?_append, find?_description_of_other,
    find?_blockIfAny_of_other, find?_blockIfAny_of_same, Option.none_or, Option.or_none]
  cases cs with
  | nil => rfl
  | cons c cs =>
      rw [List.map_cons, List.isEmpty_cons, if_neg (by decide)]
      rw [Layout.toElement, ← List.map_cons, toElements_map]
      exact mapM_conditions _ _

theorem filter_stepAttributes (as : List (String × String)) (names : List String)
    (h : as.map (·.1) = names)
    (hknown : ∀ m ∈ names, (stepAttributes.any fun known => sameLetters known m) = true) :
    (as.filter fun a => !stepAttributes.any fun known => sameLetters known a.1) = [] := by
  rw [List.filter_eq_nil_iff]
  intro a ha
  rw [hknown a.1 (h ▸ List.mem_map_of_mem ha)]
  decide

theorem propertyKey_propertyLayout (p : String × String) :
    propertyKey ((propertyLayout p).toElement depth) = p.1 := by
  rw [propertyLayout]
  split
  · rename_i h
    rw [Layout.toElement, propertyKey]
    exact if_neg (isCleanName_of_isElementName h).2.2
  · rw [Layout.toElement, propertyKey]
    simp (disch := decide) only [Element.name, if_true, Element.attribute?_mk,
      find?_attribute_of_same, Option.map, Option.getD]

theorem leafText_propertyLayout (p : String × String) :
    ((propertyLayout p).toElement depth).leafText = p.2 := by
  rw [propertyLayout]
  split <;> (rw [Layout.toElement]; rfl)

/-- What is read of written properties. -/
theorem map_declared (depth : Nat) : ∀ qs : Pairs,
    ((qs.map fun q => (propertyLayout q).toElement depth).map
      fun r => (propertyKey r, r.leafText)) = qs
  | [] => rfl
  | q :: qs => by
      rw [List.map_cons, List.map_cons, propertyKey_propertyLayout, leafText_propertyLayout,
        map_declared depth qs]

theorem propertiesOf_stepElement (h : ps.keys.Nodup) :
    propertiesOf (stepElement depth i n d k e c cs ps ss) = ps := by
  have hloose := filter_stepAttributes [("id", i), ("name", n), ("type", k.name),
    ("enabled", toString e), ("continueOnError", toString c)]
    ["id", "name", "type", "enabled", "continueOnError"] rfl (by decide)
  rw [propertiesOf, stepElement, Element.child?_mk, Element.attributes, hloose]
  simp (disch := decide) only [List.find?_append, find?_description_of_other,
    find?_blockIfAny_of_other, find?_blockIfAny_of_same, Option.none_or, Option.or_none]
  cases ps with
  | nil => rfl
  | cons p ps =>
      rw [List.map_cons, List.isEmpty_cons, if_neg (by decide)]
      rw [Layout.toElement, ← List.map_cons, toElements_map]
      simp only [Element.children, map_declared]
      exact Pairs.insertAll_nil h

/-! ## Steps are read back -/

section

variable (fresh : Fresh) (place : Place)

theorem blockSteps?_append_of_other : ∀ {es fs : List Element},
    (∀ x ∈ es, sameLetters x.name "steps" = false) →
      blockSteps? fresh place (es ++ fs) = blockSteps? fresh place fs
  | [], _, _ => rfl
  | x :: es, fs, h => by
      rw [List.cons_append, blockSteps?, h x List.mem_cons_self, if_neg (by decide)]
      exact blockSteps?_append_of_other fun y hy => h y (List.mem_cons_of_mem x hy)

theorem looseSteps_of_other (position : Nat) : ∀ {es : List Element},
    (∀ x ∈ es, sameLetters x.name "step" = false ∧ sameLetters x.name "group" = false) →
      looseSteps fresh place position es = .ok []
  | [], _ => by rw [looseSteps]
  | x :: es, h => by
      have hx := h x List.mem_cons_self
      rw [looseSteps, hx.1, hx.2, if_neg (by decide)]
      exact looseSteps_of_other position fun y hy => h y (List.mem_cons_of_mem x hy)

end

theorem name_of_mem_description {depth : Nat} {d : String} {x : Element}
    (h : x ∈ Layout.toElements depth (descriptionLayout d)) : x.name = "description" := by
  rw [toElements_descriptionLayout] at h
  split at h
  · cases h
  · rw [List.mem_singleton.mp h]
    rfl

theorem name_of_mem_blockIfAny {depth : Nat} {name : String} {content : List Layout} {x : Element}
    (h : x ∈ Layout.toElements depth (blockIfAny name content)) : x.name = name := by
  rw [toElements_blockIfAny] at h
  split at h
  · cases h
  · rw [List.mem_singleton.mp h, name_toElement_block]

/-- The steps in a written step are those of its last part, or there are none. -/
theorem children_stepElement (fresh : Fresh) (place : Place)
    (h : stepsOfElements fresh place 0 (Layout.toElements (depth + 1 + 1) (stepsToLayout ss)) =
      .ok ss) :
    (match blockSteps? fresh place (stepElement depth i n d k e c cs ps ss).children with
      | some steps => steps
      | none => looseSteps fresh place 0 (stepElement depth i n d k e c cs ps ss).children) =
      .ok ss := by
  have hskip : ∀ x ∈ Layout.toElements (depth + 1) (descriptionLayout d) ++
      (Layout.toElements (depth + 1) (blockIfAny "properties" (ps.map propertyLayout)) ++
        Layout.toElements (depth + 1) (blockIfAny "conditions" (cs.map Condition.toLayout))),
      sameLetters x.name "steps" = false ∧ sameLetters x.name "step" = false ∧
        sameLetters x.name "group" = false := by
    intro x hx
    simp only [List.mem_append] at hx
    rcases hx with hx | hx | hx
    · rw [name_of_mem_description hx]
      decide
    · rw [name_of_mem_blockIfAny hx]
      decide
    · rw [name_of_mem_blockIfAny hx]
      decide
  rw [stepElement, Element.children, ← List.append_assoc (Layout.toElements _ (blockIfAny _ _)),
    ← List.append_assoc, blockSteps?_append_of_other fresh place fun x hx => (hskip x hx).1]
  cases ss with
  | nil =>
      have hnone : Layout.toElements (depth + 1) (blockIfAny "steps" (stepsToLayout [])) = [] := by
        rw [stepsToLayout, toElements_blockIfAny]
        rfl
      rw [hnone, blockSteps?, List.append_nil]
      exact looseSteps_of_other fresh place 0 fun x hx => (hskip x hx).2
  | cons s ss =>
      have hname : sameLetters ((Layout.block "steps" [] (stepsToLayout (s :: ss))).toElement
          (depth + 1)).name "steps" = true := by
        rw [name_toElement_block]
        exact sameLetters_self _
      rw [toElements_blockIfAny, stepsToLayout, List.isEmpty_cons, if_neg (by decide),
        ← stepsToLayout, blockSteps?, if_pos hname, Layout.toElement, contentSteps]
      exact h

theorem Step.ofElement_eq (fresh : Fresh) (place : Place) (x : Element) :
    Step.ofElement fresh place x = stepOf fresh place x
      (match blockSteps? fresh place x.children with
        | some steps => steps
        | none => looseSteps fresh place 0 x.children) := by
  cases x with
  | mk name as es t => rw [Step.ofElement]; rfl

theorem stepOf_stepElement (fresh : Fresh) (place : Place) (h : ps.keys.Nodup) :
    stepOf fresh place (stepElement depth i n d k e c cs ps ss) (.ok ss) =
      .ok (.mk i n d k e c cs ps ss) := by
  rw [stepOf, conditionsOf_stepElement, descriptionOf_stepElement,
    propertiesOf_stepElement depth i n d k e c cs ps ss h, stepElement]
  simp (disch := decide) only [Element.attribute?_mk, find?_attribute_of_same,
    find?_attribute_of_other, Option.map, Option.getD, readFlag_toString, Kind.ofName_name]
  rfl

mutual

/-- A written step is read back. -/
theorem Step.ofElement_toLayout (fresh : Fresh) : ∀ (place : Place) (depth : Nat) (s : Step),
    (∀ t ∈ s.preorder, t.Proper) → Step.ofElement fresh place (s.toLayout.toElement depth) = .ok s
  | place, depth, .mk i n d k e c cs ps ss, h => by
      rw [Step.forall_mem_preorder_mk] at h
      have hsteps := stepsOfElements_toLayout fresh place 0 (depth + 1 + 1) ss h.2
      rw [toElement_step, Step.ofElement_eq,
        children_stepElement depth i n d k e c cs ps ss fresh place hsteps,
        stepOf_stepElement depth i n d k e c cs ps ss fresh place h.1]

/-- Written steps are read back. -/
theorem stepsOfElements_toLayout (fresh : Fresh) : ∀ (place : Place) (position depth : Nat)
    (ss : List Step), (∀ t ∈ Step.preorderAll ss, t.Proper) →
      stepsOfElements fresh place position (Layout.toElements depth (stepsToLayout ss)) = .ok ss
  | place, position, depth, [], _ => by
      rw [stepsToLayout, Layout.toElements, stepsOfElements]
  | place, position, depth, s :: ss, h => by
      rw [Step.forall_mem_preorderAll_cons] at h
      rw [stepsToLayout, Layout.toElements, stepsOfElements,
        Step.ofElement_toLayout fresh (place ++ [position]) depth s h.1]
      simp only [stepsOfElements_toLayout fresh place (position + 1) depth ss h.2]
      rfl

end

/-! ## Sequences are read back -/

theorem readTime_text (field : String) (t ifAbsent : Timestamp) (h : t.Proper) (h0 : 0 ≤ t.year)
    (h1 : t.year ≤ 9999) : readTime field (some t.text) ifAbsent = .ok t := by
  simp only [readTime, Timestamp.trimmed_text, Timestamp.readStrict_text h h0 h1]

/-- A date in another year is refused. -/
theorem readTime_text_eq_error (field : String) {t : Timestamp} (ifAbsent : Timestamp)
    (h : ¬ (0 ≤ t.year ∧ t.year ≤ 9999)) :
    readTime field (some t.text) ifAbsent = .error (.invalidValue field t.text) := by
  obtain ⟨flaw, hflaw⟩ := Timestamp.readStrict_text_eq_error h
  simp only [readTime, Timestamp.trimmed_text, hflaw]

theorem mapM_variables (depth : Nat) : ∀ vs : List Variable,
    (((vs.map fun v => v.toLayout.toElement depth).filter fun x =>
      sameLetters x.name "variable" || sameLetters x.name "property").mapM Variable.ofElement) =
      .ok vs
  | [] => rfl
  | v :: vs => by
      have hname : sameLetters (v.toLayout.toElement depth).name "variable" = true := by
        rw [Variable.toLayout, Layout.toElement]
        exact sameLetters_self _
      simp only [List.map_cons, List.filter_cons, hname, Bool.true_or, if_true, List.mapM_cons,
        Variable.ofElement_toLayout, mapM_variables depth vs]
      rfl

/-- The element that a sequence is written as. -/
def sequenceElement (s : Sequence) : Element :=
  .mk "TaskSequence" [("id", s.id), ("name", s.name), ("version", s.version),
      ("created", s.created.text), ("modified", s.modified.text)]
    (Layout.toElements 1 (descriptionLayout s.description) ++
      [(Layout.block "variables" [] (s.declarations.map Variable.toLayout)).toElement 1,
        (Layout.block "steps" [] (stepsToLayout s.steps)).toElement 1])
    (s.toLayout.toElement 0).text

theorem toElement_sequence (s : Sequence) : s.toLayout.toElement 0 = sequenceElement s := by
  rw [sequenceElement, Sequence.toLayout, Layout.toElement, toElements_append]
  simp only [Layout.toElements]
  rfl

theorem variablesOf_sequenceElement (s : Sequence) :
    variablesOf (sequenceElement s) = .ok s.declarations := by
  have hname : sameLetters ((Layout.block "variables" []
      (s.declarations.map Variable.toLayout)).toElement 1).name "variables" = true := by
    rw [name_toElement_block]
    exact sameLetters_self _
  simp (disch := decide) only [variablesOf, sequenceElement, Element.child?_mk, List.find?_append,
    find?_description_of_other, List.find?_cons, hname, Option.none_or, Option.some_or]
  rw [Layout.toElement, toElements_map]
  exact mapM_variables 2 s.declarations

theorem descriptionOf_sequenceElement (s : Sequence) :
    descriptionOf (sequenceElement s) = s.description := by
  have hvariables : sameLetters ((Layout.block "variables" []
      (s.declarations.map Variable.toLayout)).toElement 1).name "description" = false := by
    rw [name_toElement_block]
    decide
  have hsteps : sameLetters ((Layout.block "steps" [] (stepsToLayout s.steps)).toElement 1).name
      "description" = false := by
    rw [name_toElement_block]
    decide
  exact descriptionOf_mk 1 s.description
    (by simp (disch := decide) only [find?_attribute_of_other, List.find?_nil])
    (by simp only [List.find?_cons, hvariables, hsteps, List.find?_nil])

theorem blockSteps?_sequenceElement (fresh : Fresh) (s : Sequence)
    (h : ∀ t ∈ s.allSteps, t.Proper) :
    blockSteps? fresh [] (sequenceElement s).children = some (.ok s.steps) := by
  have hskip : ∀ x ∈ Layout.toElements 1 (descriptionLayout s.description),
      sameLetters x.name "steps" = false := by
    intro x hx
    rw [name_of_mem_description hx]
    decide
  have hvariables : sameLetters ((Layout.block "variables" []
      (s.declarations.map Variable.toLayout)).toElement 1).name "steps" = false := by
    rw [name_toElement_block]
    decide
  have hsteps : sameLetters ((Layout.block "steps" [] (stepsToLayout s.steps)).toElement 1).name
      "steps" = true := by
    rw [name_toElement_block]
    exact sameLetters_self _
  rw [sequenceElement, Element.children, blockSteps?_append_of_other fresh [] hskip, blockSteps?,
    hvariables, if_neg (by decide), blockSteps?, hsteps, if_pos rfl, Layout.toElement,
    contentSteps, stepsOfElements_toLayout fresh [] 0 2 s.steps h]

/-- All of the tree that a sequence is written as is read back to it, apart from its dates. -/
theorem Sequence.ofElement_sequenceElement (fresh : Fresh) {s : Sequence}
    (h : ∀ t ∈ s.allSteps, t.Proper) :
    Sequence.ofElement fresh (sequenceElement s) =
      (readTime "created" (some s.created.text) fresh.now).bind fun created =>
        (readTime "modified" (some s.modified.text) fresh.now).bind fun modified =>
          .ok { s with created := created, modified := modified } := by
  have hroot : isSequenceRoot (sequenceElement s) = true := by
    rw [sequenceElement, isSequenceRoot]
    exact List.any_eq_true.mpr ⟨"TaskSequence", by decide, sameLetters_self _⟩
  rw [Sequence.ofElement, hroot, if_neg (by decide), variablesOf_sequenceElement,
    descriptionOf_sequenceElement, blockSteps?_sequenceElement fresh s h]
  simp (disch := decide) only [sequenceElement, Element.attribute?_mk, find?_attribute_of_same,
    find?_attribute_of_other, Option.map, Option.getD]
  generalize readTime "created" (some s.created.text) fresh.now = created
  generalize readTime "modified" (some s.modified.text) fresh.now = modified
  rfl

/-- The tree that a sequence is written as is read back to it. -/
theorem Sequence.ofElement_toLayout (fresh : Fresh) {s : Sequence} (h : s.Proper)
    (hy : s.FourDigitYears) : Sequence.ofElement fresh (s.toLayout.toElement 0) = .ok s := by
  obtain ⟨hc0, hc1⟩ := hy.created
  obtain ⟨hm0, hm1⟩ := hy.modified
  rw [toElement_sequence, Sequence.ofElement_sequenceElement fresh h.steps,
    readTime_text _ _ _ h.created hc0 hc1, readTime_text _ _ _ h.modified hm0 hm1]
  rfl

/-- A sequence with a date outside the years of four digits is not read back. -/
theorem Sequence.ofElement_toLayout_eq_error (fresh : Fresh) {s : Sequence} (h : s.Proper)
    (hy : ¬ s.FourDigitYears) :
    ∃ fault, Sequence.ofElement fresh (s.toLayout.toElement 0) = .error fault := by
  rw [toElement_sequence, Sequence.ofElement_sequenceElement fresh h.steps]
  by_cases hc : 0 ≤ s.created.year ∧ s.created.year ≤ 9999
  · have hm : ¬ (0 ≤ s.modified.year ∧ s.modified.year ≤ 9999) := fun hm => hy ⟨hc, hm⟩
    rw [readTime_text _ _ _ h.created hc.1 hc.2, readTime_text_eq_error _ _ hm]
    exact ⟨_, rfl⟩
  · rw [readTime_text_eq_error _ _ hc]
    exact ⟨_, rfl⟩

/-- A sequence written as XML is read as the tree that was meant. -/
theorem xmlRoot_document (s : Sequence) :
    xmlRoot (Layout.document s.toLayout) = .ok (s.toLayout.toElement 0) := by
  rw [xmlRoot, Layout.ofText_document s.toLayout_clean]

end Runbook
