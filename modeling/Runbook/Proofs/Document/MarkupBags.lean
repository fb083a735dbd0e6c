import Runbook.Proofs.Document.Parsed
import Runbook.Proofs.Document.Relaid

/-!
# Properties of steps in XML

The properties of a step that is read from XML are the attributes of its tag without a meaning,
overlaid with the elements in its element `properties`, and so for the steps in it:
`Step.FromMarkup` says so of a whole tree.  It speaks of the text as it is marked up, so attributes
are what is written in a tag.
-/

namespace Runbook

open Runbook.Text Runbook.Xml

/-! ## What is written in markup -/

namespace Xml.Markup

/-- What is in the tag of an element. -/
def tag : Markup → List Char
  | piece _ => []
  | single tag => tag
  | pair tag _ _ => tag

/-- What is between the tags of an element. -/
def content : Markup → List Markup
  | piece _ => []
  | single _ => []
  | pair _ content _ => content

/-- The local name of an element. -/
def name (m : Markup) : String := String.ofList (localName (tagName m.tag))

/-- The elements directly in an element. -/
def elements (m : Markup) : List Markup := m.content.filter isElement

/-- The attributes of an element with their local names and their values, declarations of namespaces
aside. -/
def attributes (m : Markup) : List (String × Option String) :=
  (((attributes? (tagRest m.tag)).getD []).filter fun a => !declaresNamespace a.1).map fun a =>
    (String.ofList (localName a.1), (unescape? a.2).map String.ofList)

/-- The value of the first attribute of a name, the case of ASCII letters aside. -/
def attribute? (m : Markup) (key : String) : Option String :=
  (m.attributes.find? fun a => sameLetters a.1 key).bind (·.2)

/-- The character data of a piece of content. -/
def data : Markup → List Char
  | piece p => p.data?.getD []
  | single _ => []
  | pair _ _ _ => []

/-- The text of an element, which is empty if there are elements in it. -/
def leafText (m : Markup) : String :=
  if m.elements.isEmpty then String.ofList (m.content.flatMap data) else ""

/-- The first element directly in an element that has a name, the case of ASCII letters aside. -/
def child? (m : Markup) (name : String) : Option Markup :=
  m.elements.find? fun c => sameLetters c.name name

/-- The elements that are the steps in an element: those in its element `steps`, or else its
elements `step` and `group`. -/
def steps (m : Markup) : List Markup :=
  match m.child? "steps" with
  | some block => block.elements
  | none => m.elements.filter fun c => sameLetters c.name "step" || sameLetters c.name "group"

/-- The attributes of a step without a meaning. -/
def looseAttributes (m : Markup) : List (String × Option String) :=
  m.attributes.filter fun a => !stepAttributes.any fun known => sameLetters known a.1

/-- The key of a declared property: the attribute `name` of an element `property`, or else the name
of the element. -/
def propertyKey (m : Markup) : String :=
  if m.name = "property" then (m.attribute? "name").getD m.name else m.name

/-- The declared properties of a step: the elements in its first element `properties`. -/
def declared (m : Markup) : List (String × String) :=
  match m.child? "properties" with
  | some block => block.elements.map fun p => (p.propertyKey, p.leafText)
  | none => []

end Xml.Markup

/-- A step has the properties that markup gives it, and so have the steps in it. -/
inductive Step.FromMarkup : Markup → Step → Prop where
  /-- The properties are the loose attributes overlaid with the declared properties. -/
  | step {m : Markup} {s : Step} :
      s.properties.Overlays m.looseAttributes m.declared →
      List.Forall₂ Step.FromMarkup m.steps s.children → Step.FromMarkup m s

/-! ## Elements and their markup -/

namespace Xml.Markup

/-- The markup is that of an element. -/
def Writes (m : Markup) (e : Element) : Prop := Content [m] [e] []

/-- Content is made of its elements and its character data. -/
theorem Content.forall₂_elements {ms : List Markup} {es : List Element} {t : List Char}
    (h : Content ms es t) :
    List.Forall₂ Writes (ms.filter isElement) es ∧ ms.flatMap data = t := by
  induction h with
  | nil => exact ⟨.nil, rfl⟩
  | @piece p t u ms es hp ht _ ih =>
    refine ⟨ih.1, ?_⟩
    rw [List.flatMap_cons, data, ht, ih.2]
    rfl
  | single htag he _ ih => exact ⟨.cons (.single htag he .nil) ih.1, ih.2⟩
  | pair htag hslash hstop hcontent he _ _ ih =>
    exact ⟨.cons (.pair htag hslash hstop hcontent he .nil) ih.1, ih.2⟩

/-- Attributes that are read have values. -/
theorem attributes_eq_of_mapM : ∀ {raws : List RawAttribute} {as : List (String × String)},
    (raws.mapM fun a =>
      (unescape? a.2).map fun v => (String.ofList (localName a.1), String.ofList v)) = some as →
    (raws.map fun a => (String.ofList (localName a.1), (unescape? a.2).map String.ofList)) =
      as.map (Prod.map id some)
  | [], _, h => by
      cases h
      rfl
  | a :: raws, _, h => by
      rw [List.mapM_cons] at h
      obtain ⟨b, hb, h⟩ := Option.bind_eq_some_iff.mp h
      obtain ⟨bs, hbs, h⟩ := Option.bind_eq_some_iff.mp h
      obtain ⟨v, hv, rfl⟩ := Option.map_eq_some_iff.mp hb
      cases h
      rw [List.map_cons, hv, attributes_eq_of_mapM hbs, List.map_cons]
      rfl

/-- What an element has is what is written. -/
structure Describes (m : Markup) (e : Element) : Prop where
  /-- The name. -/
  name : e.name = m.name
  /-- The attributes. -/
  attributes : m.attributes = e.attributes.map (Prod.map id some)
  /-- The elements in it. -/
  children : List.Forall₂ Writes m.elements e.children
  /-- The text. -/
  leafText : e.leafText = m.leafText

theorem Describes.of_ofTag? {m : Markup} {children : List Element} {t : List Char} {e : Element}
    (he : Element.ofTag? m.tag children t = some e)
    (hcontent : Content m.content children t) : m.Describes e := by
  obtain ⟨as, has, rfl⟩ := Option.map_eq_some_iff.mp he
  obtain ⟨raws, hraws, has⟩ := Option.bind_eq_some_iff.mp has
  obtain ⟨hchildren, ht⟩ := hcontent.forall₂_elements
  have hempty : m.elements.isEmpty = children.isEmpty := by
    rw [Bool.eq_iff_iff, List.isEmpty_iff_length_eq_zero, List.isEmpty_iff_length_eq_zero,
      Markup.elements, hchildren.length_eq]
  refine ⟨rfl, ?_, hchildren, ?_⟩
  · rw [Markup.attributes, hraws]
    exact attributes_eq_of_mapM has
  · rw [Markup.leafText, hempty, ht]
    rfl

theorem Content.describes {m : Markup} {e : Element} {t : List Char} (h : Content [m] [e] t) :
    m.Describes e := by
  cases h with
  | piece _ _ hnone => cases hnone
  | @single tag _ _ _ _ _ he _ => exact @Describes.of_ofTag? (Markup.single tag) [] [] e he .nil
  | @pair tag gap _ _ content _ _ _ _ _ _ _ hcontent he _ =>
    exact @Describes.of_ofTag? (Markup.pair tag content gap) _ _ e he hcontent

/-! ## Looking for an element -/

/-- What is found in two lists that go together. -/
theorem forall₂_find? {α β : Type} {R : α → β → Prop} {p : α → Bool} {q : β → Bool} {as : List α}
    {bs : List β} (h : List.Forall₂ R as bs) (hpq : ∀ a b, R a b → p a = q b) :
    Option.Rel R (as.find? p) (bs.find? q) := by
  induction h with
  | nil => exact .none
  | @cons a b as bs hab _ ih =>
    rw [List.find?_cons, List.find?_cons, hpq a b hab]
    cases q b with
    | true => exact .some hab
    | false => exact ih

/-- What two lists that go together are mapped to. -/
theorem map_eq_of_forall₂ {α β γ : Type} {R : α → β → Prop} {f : α → γ} {g : β → γ} {as : List α}
    {bs : List β} (h : List.Forall₂ R as bs) (hfg : ∀ a b, R a b → f a = g b) :
    as.map f = bs.map g := by
  induction h with
  | nil => rfl
  | cons hab _ ih => rw [List.map_cons, List.map_cons, hfg _ _ hab, ih]

namespace Describes

variable {m : Markup} {e : Element} (h : m.Describes e)

include h

theorem attribute? (key : String) : m.attribute? key = e.attribute? key := by
  rw [Markup.attribute?, h.attributes, List.find?_map, Element.attribute?]
  simp only [Function.comp_def, Prod.map_fst, id_eq]
  cases e.attributes.find? fun a => sameLetters a.1 key <;> rfl

theorem child? (name : String) : Option.Rel Writes (m.child? name) (e.child? name) :=
  forall₂_find? h.children fun _ _ hc => by rw [hc.describes.name]

theorem propertyKey : Markup.propertyKey m = Runbook.propertyKey e := by
  rw [Markup.propertyKey, Runbook.propertyKey, h.name, h.attribute?]

/-- The properties of the element are those that are written. -/
theorem properties : (propertiesOf e).Overlays m.looseAttributes m.declared := by
  have hloose : Pairs.present (Pairs.insertEach [] m.looseAttributes) =
      Pairs.ofList (e.attributes.filter fun a =>
        !stepAttributes.any fun known => sameLetters known a.1) := by
    rw [looseAttributes, h.attributes, List.filter_map]
    exact (congrArg Pairs.present (Pairs.insertEach_map some _ [])).trans
      (Pairs.present_map_some _)
  have hdeclared : propertiesOf e =
      Pairs.insertAll (Pairs.present (Pairs.insertEach [] m.looseAttributes)) m.declared := by
    have hblock := h.child? "properties"
    rw [hloose, propertiesOf, Markup.declared]
    generalize m.child? "properties" = b, e.child? "properties" = block at hblock ⊢
    cases hblock with
    | none => rfl
    | some hblock =>
      refine congrArg (Pairs.insertAll _) (map_eq_of_forall₂ hblock.describes.children ?_).symm
      intro p q hpq
      rw [hpq.describes.propertyKey, hpq.describes.leafText]
  rw [hdeclared]
  exact Pairs.overlays_insertAll _ _

end Describes

end Xml.Markup

/-! ## Steps -/

/-- A step has the properties of its element, and the steps in it are those that are read. -/
theorem stepOf_eq_ok {fresh : Fresh} {place : Place} {e : Element}
    {children : Except DocumentError (List Step)} {s : Step}
    (h : stepOf fresh place e children = .ok s) :
    s.properties = propertiesOf e ∧ children = .ok s.children := by
  rw [stepOf] at h
  obtain ⟨conditions, -, h⟩ := exists_of_bind_eq_ok h
  obtain ⟨ss, hss, h⟩ := exists_of_bind_eq_ok h
  obtain ⟨enabled, -, h⟩ := exists_of_bind_eq_ok h
  obtain ⟨continueOnError, -, h⟩ := exists_of_bind_eq_ok h
  cases h
  exact ⟨rfl, hss⟩

section

variable (fresh : Fresh)

/-- The element with the steps is found in the markup. -/
theorem blockSteps?_eq_none {place : Place} : ∀ {ms : List Markup} {es : List Element},
    List.Forall₂ Markup.Writes ms es → blockSteps? fresh place es = none →
      (ms.find? fun c => sameLetters c.name "steps") = none
  | _, _, .nil, _ => rfl
  | m :: ms, e :: es, .cons hm hms, h => by
      rw [blockSteps?, hm.describes.name] at h
      split at h
      · cases h
      · next hname =>
        rw [List.find?_cons, Bool.eq_false_iff.mpr hname]
        exact blockSteps?_eq_none hms h

mutual

theorem Step.fromMarkup : ∀ (e : Element) (place : Place) {m : Markup} {s : Step},
    m.Writes e → Step.ofElement fresh place e = .ok s → Step.FromMarkup m s
  | .mk name attributes children text, place, m, s, hm, h => by
      rw [Step.ofElement] at h
      obtain ⟨hproperties, hchildren⟩ := stepOf_eq_ok h
      have hdescribes := hm.describes
      refine .step (hproperties ▸ hdescribes.properties) ?_
      rw [Markup.steps, Markup.child?]
      split at hchildren
      · next x hblock =>
        obtain ⟨b, hb, hfrom⟩ := blockSteps?_fromMarkup children place hdescribes.children hblock
        rw [hb]
        exact hfrom hchildren
      · next hblock =>
        rw [blockSteps?_eq_none fresh hdescribes.children hblock]
        exact looseSteps_fromMarkup children place 0 hdescribes.children hchildren

theorem blockSteps?_fromMarkup : ∀ (es : List Element) (place : Place) {ms : List Markup}
    {x : Except DocumentError (List Step)}, List.Forall₂ Markup.Writes ms es →
      blockSteps? fresh place es = some x →
        ∃ b, (ms.find? fun c => sameLetters c.name "steps") = some b ∧
          ∀ {ss}, x = .ok ss → List.Forall₂ Step.FromMarkup b.elements ss
  | [], _, _, _, _, h => by
      rw [blockSteps?] at h
      cases h
  | e :: es, place, m :: ms, x, .cons hm hms, h => by
      rw [blockSteps?, hm.describes.name] at h
      rw [List.find?_cons]
      split at h
      · next hname =>
        refine ⟨m, by rw [hname], fun hx => ?_⟩
        exact contentSteps_fromMarkup e place hm ((Option.some.inj h).trans hx)
      · next hname =>
        rw [Bool.eq_false_iff.mpr hname]
        exact blockSteps?_fromMarkup es place hms h

theorem contentSteps_fromMarkup : ∀ (e : Element) (place : Place) {m : Markup} {ss : List Step},
    m.Writes e → contentSteps fresh place e = .ok ss →
      List.Forall₂ Step.FromMarkup m.elements ss
  | .mk _ _ children _, place, m, ss, hm, h =>
      stepsOfElements_fromMarkup children place 0 hm.describes.children (by
        rwa [contentSteps] at h)

theorem stepsOfElements_fromMarkup : ∀ (es : List Element) (place : Place) (position : Nat)
    {ms : List Markup} {ss : List Step}, List.Forall₂ Markup.Writes ms es →
      stepsOfElements fresh place position es = .ok ss → List.Forall₂ Step.FromMarkup ms ss
  | [], _, _, _, _, .nil, h => by
      rw [stepsOfElements] at h
      cases h
      exact .nil
  | e :: es, place, position, m :: ms, ss, .cons hm hms, h => by
      rw [stepsOfElements] at h
      split at h
      · cases h
      next s hs =>
      obtain ⟨rest, hrest, rfl⟩ := exists_of_map_eq_ok h
      exact .cons (Step.fromMarkup e _ hm hs) (stepsOfElements_fromMarkup es place _ hms hrest)

theorem looseSteps_fromMarkup : ∀ (es : List Element) (place : Place) (position : Nat)
    {ms : List Markup} {ss : List Step}, List.Forall₂ Markup.Writes ms es →
      looseSteps fresh place position es = .ok ss →
        List.Forall₂ Step.FromMarkup
          (ms.filter fun c => sameLetters c.name "step" || sameLetters c.name "group") ss
  | [], _, _, _, _, .nil, h => by
      rw [looseSteps] at h
      cases h
      exact .nil
  | e :: es, place, position, m :: ms, ss, .cons hm hms, h => by
      rw [looseSteps, hm.describes.name] at h
      rw [List.filter_cons]
      split at h
      · next hname =>
        rw [if_pos hname]
        split at h
        · cases h
        next s hs =>
        obtain ⟨rest, hrest, rfl⟩ := exists_of_map_eq_ok h
        exact .cons (Step.fromMarkup e _ hm hs) (looseSteps_fromMarkup es place _ hms hrest)
      · next hname =>
        rw [if_neg hname]
        exact looseSteps_fromMarkup es place position hms h

end

/-- The steps of a task sequence come from the markup of its root. -/
theorem Sequence.stepsFromMarkup {m : Markup} {e : Element} (hm : m.Writes e) {s : Sequence}
    (h : Sequence.ofElement fresh e = .ok s) : List.Forall₂ Step.FromMarkup m.steps s.steps := by
  rw [Sequence.ofElement] at h
  split at h
  · cases h
  · obtain ⟨declarations, -, h⟩ := exists_of_bind_eq_ok h
    obtain ⟨ss, hss, h⟩ := exists_of_bind_eq_ok h
    obtain ⟨created, -, h⟩ := exists_of_bind_eq_ok h
    obtain ⟨modified, -, h⟩ := exists_of_bind_eq_ok h
    cases h
    have hchildren := hm.describes.children
    rw [Markup.steps, Markup.child?]
    cases hblock : blockSteps? fresh [] e.children with
    | none =>
      rw [hblock] at hss
      rw [blockSteps?_eq_none fresh hchildren hblock]
      exact looseSteps_fromMarkup fresh e.children [] 0 hchildren hss
    | some x =>
      rw [hblock] at hss
      obtain ⟨b, hb, hfrom⟩ := blockSteps?_fromMarkup fresh e.children [] hchildren hblock
      rw [hb]
      exact hfrom hss

end

end Runbook
