import Mathlib.Logic.Relation
import Runbook.Proofs.Document.RoundTrip
import Runbook.Proofs.Xml.Documents

/-!
# The layout of an XML text

A task sequence does not depend on how its XML text is laid out: on comments and processing
instructions, on blanks around elements, on the sections and pieces that character data is written
in, and on whether an element without content is written with one tag or with two.

`Markup.Edit` is one such change, anywhere in a document.  It keeps the element that a document is
read as up to `Element.stripped`, which leaves out the character data around elements.  No reading
of an element looks at that, so `Format.parse_xml_of_relaid`: all layouts of a document are read as
the same task sequence.
-/

namespace Runbook

open Runbook.Text Runbook.Xml

namespace Xml

/-! ## Changes of layout -/

/-- A piece that says something to a reader of the text only. -/
def Piece.IsRemark : Piece → Prop
  | comment _ => True
  | instruction _ => True
  | _ => False

/-- Character data in pieces: text with whole references and CDATA sections. -/
inductive Spells : List Piece → List Char → Prop where
  /-- Nothing. -/
  | nil : Spells [] []
  /-- Text comes first. -/
  | text {raw t u : List Char} {ps : List Piece} :
      (Piece.text raw).Formed → unescape? raw = some t → Spells ps u →
      Spells (.text raw :: ps) (t ++ u)
  /-- A section comes first. -/
  | cdata {keyword content u : List Char} {ps : List Piece} :
      (Piece.cdata keyword content).Formed → Spells ps u →
      Spells (.cdata keyword content :: ps) (content ++ u)

namespace Markup

/-- One change of layout in a list of markup. -/
inductive Edit : List Markup → List Markup → Prop where
  /-- A comment or a processing instruction is put in. -/
  | remark {ls rs : List Markup} {p : Piece} : p.IsRemark → p.Formed →
      Edit (ls ++ rs) (ls ++ .piece p :: rs)
  /-- Blanks are put in beside an element. -/
  | blank {ls rs : List Markup} {blanks : List Char} : (∀ c ∈ blanks, isBlank c = true) →
      (∃ m ∈ ls ++ rs, m.isElement = true) → Edit (ls ++ rs) (ls ++ .piece (.text blanks) :: rs)
  /-- Character data is written in other pieces. -/
  | run {ls rs : List Markup} {ps qs : List Piece} {t : List Char} : Spells ps t → Spells qs t →
      Edit (ls ++ (ps.map .piece ++ rs)) (ls ++ (qs.map .piece ++ rs))
  /-- An element without content is written with two tags, if its name can be that of a pair. -/
  | pair {ls rs : List Markup} {tag : List Char} : tag.getLast? ≠ some '/' → '>' ∉ tagName tag →
      Edit (ls ++ .single tag :: rs) (ls ++ .pair tag [] [] :: rs)
  /-- A change is made in the content of an element. -/
  | within {ls rs content content' : List Markup} {tag gap : List Char} : Edit content content' →
      Edit (ls ++ .pair tag content gap :: rs) (ls ++ .pair tag content' gap :: rs)

/-- Any number of changes of layout. -/
def Relaid : List Markup → List Markup → Prop := Relation.ReflTransGen Edit

end Markup

/-- A document in another layout.  Outside of the root there may be any pieces. -/
structure Document.Relaid (d d' : Document) : Prop where
  /-- The pieces before the root are formed. -/
  before : ∀ p ∈ d'.before, p.Formed
  /-- The root has another layout. -/
  root : Markup.Relaid [d.root] [d'.root]
  /-- The pieces after the root are formed. -/
  after : ∀ p ∈ d'.after, p.Formed

/-! ## Elements without their layout -/

namespace Element

mutual

/-- The element without the character data around elements. -/
def stripped : Element → Element
  | mk name attributes children text =>
      mk name attributes (strippedAll children) (if children.isEmpty then text else "")
termination_by structural e => e

/-- The elements without the character data around elements. -/
def strippedAll : List Element → List Element
  | [] => []
  | e :: es => stripped e :: strippedAll es
termination_by structural es => es

end

theorem strippedAll_eq_map : ∀ es : List Element, strippedAll es = es.map stripped
  | [] => rfl
  | e :: es => by rw [strippedAll, strippedAll_eq_map es, List.map_cons]

section

variable (e : Element)

@[simp] theorem name_stripped : e.stripped.name = e.name := by cases e; rfl

@[simp] theorem attributes_stripped : e.stripped.attributes = e.attributes := by cases e; rfl

@[simp] theorem children_stripped : e.stripped.children = e.children.map stripped := by
  cases e
  exact strippedAll_eq_map _

@[simp] theorem leafText_stripped : e.stripped.leafText = e.leafText := by
  cases e with
  | mk name attributes children text => cases children <;> rfl

@[simp] theorem attribute?_stripped (key : String) :
    e.stripped.attribute? key = e.attribute? key := by
  rw [attribute?, attributes_stripped, attribute?]

@[simp] theorem child?_stripped (name : String) :
    e.stripped.child? name = (e.child? name).map stripped := by
  rw [child?, children_stripped, List.find?_map, child?]
  simp only [Function.comp_def, name_stripped]

@[simp] theorem childrenNamed_stripped (name : String) :
    e.stripped.childrenNamed name = (e.childrenNamed name).map stripped := by
  rw [childrenNamed, children_stripped, List.filter_map, childrenNamed]
  simp [Function.comp_def]

end

end Element

/-! ## What a change of layout keeps -/

namespace Markup

/-- Content in two parts. -/
theorem Content.exists_of_append {ls rs : List Markup} {es : List Element} {t : List Char}
    (h : Content (ls ++ rs) es t) :
    ∃ es₁ t₁ es₂ t₂, Content ls es₁ t₁ ∧ Content rs es₂ t₂ ∧ es = es₁ ++ es₂ ∧ t = t₁ ++ t₂ := by
  induction ls generalizing es t with
  | nil => exact ⟨[], [], es, t, .nil, h, rfl, rfl⟩
  | cons m ls ih =>
    cases h with
    | @piece p v u _ _ hp ht hrest =>
      obtain ⟨es₁, t₁, es₂, t₂, hls, hrs, rfl, rfl⟩ := ih hrest
      exact ⟨es₁, v ++ t₁, es₂, t₂, .piece hp ht hls, hrs, rfl, (List.append_assoc v t₁ t₂).symm⟩
    | single htag he hrest =>
      obtain ⟨es₁, t₁, es₂, t₂, hls, hrs, rfl, rfl⟩ := ih hrest
      exact ⟨_ :: es₁, t₁, es₂, t₂, .single htag he hls, hrs, rfl, rfl⟩
    | pair htag hslash hstop hcontent he hrest =>
      obtain ⟨es₁, t₁, es₂, t₂, hls, hrs, rfl, rfl⟩ := ih hrest
      exact ⟨_ :: es₁, t₁, es₂, t₂, .pair htag hslash hstop hcontent he hls, hrs, rfl, rfl⟩

/-- Content with an element in it holds one. -/
theorem Content.ne_nil {ms : List Markup} {es : List Element} {t : List Char}
    (h : Content ms es t) (hm : ∃ m ∈ ms, m.isElement = true) : es ≠ [] := by
  induction h with
  | nil => exact absurd hm (by simp)
  | piece _ _ _ ih =>
    refine ih ?_
    obtain ⟨m, hm, helement⟩ := hm
    cases hm with
    | head => cases helement
    | tail _ hm => exact ⟨m, hm, helement⟩
  | single _ _ _ _ => exact List.cons_ne_nil _ _
  | pair _ _ _ _ _ _ _ _ => exact List.cons_ne_nil _ _

/-- Pieces of character data hold that and nothing else. -/
theorem content_of_spells {ps : List Piece} {t : List Char} (h : Spells ps t) :
    Content (ps.map .piece) [] t := by
  induction h with
  | nil => exact .nil
  | text hraw ht _ ih => exact .piece hraw ht ih
  | cdata hc _ ih => exact .piece hc rfl ih

theorem Content.eq_of_spells {ps : List Piece} {t u : List Char} {es : List Element}
    (h : Spells ps t) (hc : Content (ps.map .piece) es u) : es = [] ∧ u = t := by
  induction h generalizing es u with
  | nil =>
    cases hc
    exact ⟨rfl, rfl⟩
  | text _ ht _ ih =>
    cases hc with
    | piece _ ht' hrest =>
      obtain ⟨rfl, rfl⟩ := ih hrest
      cases ht.symm.trans ht'
      exact ⟨rfl, rfl⟩
  | cdata _ _ ih =>
    cases hc with
    | piece _ ht' hrest =>
      obtain ⟨rfl, rfl⟩ := ih hrest
      cases ht'
      exact ⟨rfl, rfl⟩

end Markup

/-- Blanks stand for themselves. -/
theorem spells_blanks {blanks : List Char} (h : ∀ c ∈ blanks, isBlank c = true) :
    Spells [.text blanks] blanks := by
  have hmark : '<' ∉ blanks := fun hc => absurd (h '<' hc) (by decide)
  have hamp : '&' ∉ blanks := fun hc => absurd (h '&' hc) (by decide)
  have hraw : unescape? blanks = some blanks := Element.Reading.unescape?_of_notMem hamp
  have hspells : Spells [.text blanks] (blanks ++ []) := .text hmark hraw .nil
  rwa [List.append_nil] at hspells

theorem StartTag.of_slash {tag : List Char} (h : StartTag (tag ++ ['/'])) : StartTag tag where
  ends := Token.tagEnd_of_slash nofun (by simpa using h.ends)
  lead := by
    intro c hc
    refine h.lead c ?_
    cases tag with
    | nil => cases hc
    | cons d tag => exact hc

theorem endTag_tagName {tag : List Char} (h : '>' ∉ tagName tag) : EndTag (tagName tag) [] where
  ends := by rwa [List.append_nil]
  names := by
    rw [List.append_nil]
    exact Token.ofStop_of_isGap fun c hc => isGap_of_mem_tagName hc

/-- The elements of a tag are the same without their layout, if their children are and if their
character data is unless they have children. -/
theorem Element.ofTag?_stripped {tag t u : List Char} {es fs : List Element} {e : Element}
    (h : Element.ofTag? tag es t = some e) (hes : fs.map stripped = es.map stripped)
    (ht : es = [] → u = t) :
    ∃ f, Element.ofTag? tag fs u = some f ∧ f.stripped = e.stripped := by
  obtain ⟨as, has, rfl⟩ := Option.map_eq_some_iff.mp h
  refine ⟨_, by rw [Element.ofTag?, has]; rfl, ?_⟩
  rw [stripped, stripped, strippedAll_eq_map, strippedAll_eq_map, hes]
  cases es with
  | nil =>
    rw [List.map_nil, List.map_eq_nil_iff] at hes
    rw [hes, ht rfl]
  | cons e es =>
    cases fs with
    | nil => cases hes
    | cons f fs => rfl

/-- What is held by content in another layout. -/
def Markup.KeepsContent (ms ns : List Markup) : Prop :=
  ∀ (es : List Element) (t : List Char), Content ms es t → ∃ fs u, Content ns fs u ∧
    fs.map Element.stripped = es.map Element.stripped ∧ (es = [] → u = t)

namespace Markup

/-- A change of one part keeps what the whole holds. -/
theorem KeepsContent.between {ms ns : List Markup} (h : KeepsContent ms ns) (ls rs : List Markup) :
    KeepsContent (ls ++ (ms ++ rs)) (ls ++ (ns ++ rs)) := by
  intro _ _ hc
  obtain ⟨es₁, t₁, es', t', hls, hc', rfl, rfl⟩ := hc.exists_of_append
  obtain ⟨es₂, t₂, es₃, t₃, hms, hrs, rfl, rfl⟩ := hc'.exists_of_append
  obtain ⟨fs, u, hns, hfs, hu⟩ := h _ _ hms
  refine ⟨_, _, hls.append (hns.append hrs), by simp [hfs], fun hnil => ?_⟩
  rw [hu (List.append_eq_nil_iff.mp (List.append_eq_nil_iff.mp hnil).2).1]

/-- A change of layout keeps the elements, and the character data unless there are elements. -/
theorem Edit.keepsContent {ms ns : List Markup} (h : Edit ms ns) : KeepsContent ms ns := by
  induction h with
  | @remark ls rs p hremark hp =>
    have hdata : p.data? = some [] := by
      cases p <;> first | rfl | cases hremark
    have hkeeps : KeepsContent [] [.piece p] := fun _ _ hnil => by
      cases hnil
      exact ⟨[], [] ++ [], .piece hp hdata .nil, rfl, fun _ => rfl⟩
    exact hkeeps.between ls rs
  | @blank ls rs blanks hblanks helement =>
    intro _ _ hc
    obtain ⟨es₁, t₁, es₂, t₂, hls, hrs, rfl, rfl⟩ := hc.exists_of_append
    exact ⟨_, _, hls.append ((content_of_spells (spells_blanks hblanks)).append hrs), rfl,
      fun hnil => absurd hnil (hc.ne_nil helement)⟩
  | @run ls rs ps qs t hps hqs =>
    have hkeeps : KeepsContent (ps.map .piece) (qs.map .piece) := fun _ _ hc => by
      obtain ⟨rfl, rfl⟩ := hc.eq_of_spells hps
      exact ⟨[], _, content_of_spells hqs, rfl, fun _ => rfl⟩
    exact hkeeps.between ls rs
  | @pair ls rs tag hslash hname =>
    have hkeeps : KeepsContent [.single tag] [.pair tag [] []] := fun _ _ hc => by
      cases hc with
      | single htag he hnil =>
        cases hnil
        exact ⟨_, [], .pair htag.of_slash hslash (endTag_tagName hname) .nil he .nil, rfl,
          fun _ => rfl⟩
    exact hkeeps.between ls rs
  | @within ls rs content content' tag gap _ ih =>
    have hkeeps : KeepsContent [.pair tag content gap] [.pair tag content' gap] := fun _ _ hc => by
      cases hc with
      | pair htag hslash hstop hcontent he hnil =>
        cases hnil
        obtain ⟨children, u, hcontent', hchildren, hu⟩ := ih _ _ hcontent
        obtain ⟨f, hf, hsame⟩ := Element.ofTag?_stripped he hchildren hu
        exact ⟨[f], [], .pair htag hslash hstop hcontent' hf .nil, by simp [hsame], fun _ => rfl⟩
    exact hkeeps.between ls rs

/-- Changes are made in the content of an element. -/
theorem Relaid.within {content content' : List Markup} (h : Relaid content content')
    (ls rs : List Markup) {tag gap : List Char} :
    Relaid (ls ++ .pair tag content gap :: rs) (ls ++ .pair tag content' gap :: rs) :=
  Relation.ReflTransGen.lift (fun c => ls ++ .pair tag c gap :: rs)
    (fun _ _ hedit => Edit.within hedit) _ _ h

/-- So do any number of changes. -/
theorem Relaid.keepsContent {ms ns : List Markup} (h : Relaid ms ns) : KeepsContent ms ns := by
  intro es t hc
  induction h with
  | refl => exact ⟨es, t, hc, rfl, fun _ => rfl⟩
  | tail _ hedit ih =>
    obtain ⟨fs, u, hfs, hsame, hu⟩ := ih
    obtain ⟨gs, v, hgs, hsame', hv⟩ := hedit.keepsContent _ _ hfs
    refine ⟨gs, v, hgs, hsame'.trans hsame, fun hnil => ?_⟩
    subst hnil
    rw [hv (List.map_eq_nil_iff.mp hsame), hu rfl]

end Markup

/-- An element alone holds no character data beside itself. -/
theorem Markup.Content.singleton {m : Markup} {e : Element} {t : List Char}
    (h : Content [m] [e] t) : t = [] := by
  cases h with
  | piece _ _ hnone => cases hnone
  | single _ _ hnil =>
    cases hnil
    rfl
  | pair _ _ _ _ _ hnil =>
    cases hnil
    rfl

/-- In another layout a document is read as the same element, layout aside. -/
theorem Document.Writes.relaid {d d' : Document} {e : Element} (h : d.Writes e)
    (hd : d.Relaid d') : ∃ e', d'.Writes e' ∧ e'.stripped = e.stripped := by
  obtain ⟨fs, u, hroot, hsame, -⟩ := hd.root.keepsContent _ _ h.root
  obtain ⟨e', hfs⟩ := List.length_eq_one_iff.mp (by simpa using congrArg List.length hsame)
  subst hfs
  cases hroot.singleton
  exact ⟨e', ⟨hd.before, hroot, hd.after⟩, (List.cons.inj hsame).1⟩

end Xml

/-! ## Readings of an element without its layout -/

open Element

section

variable (fresh : Fresh) (e : Element)

theorem descriptionOf_stripped : descriptionOf e.stripped = descriptionOf e := by
  rw [descriptionOf, child?_stripped, attribute?_stripped, descriptionOf]
  cases e.child? "description" with
  | none => rfl
  | some d => exact leafText_stripped d

theorem Variable.ofElement_stripped : Variable.ofElement e.stripped = Variable.ofElement e := by
  simp only [Variable.ofElement, attribute?_stripped, name_stripped, leafText_stripped]

theorem Condition.ofElement_stripped : Condition.ofElement e.stripped = Condition.ofElement e := by
  simp only [Condition.ofElement, attribute?_stripped, name_stripped]

/-- Elements without their layout, each of which is read as before. -/
theorem mapM_stripped {α : Type} {f : Element → Except DocumentError α}
    (h : ∀ e : Element, f e.stripped = f e) (es : List Element) :
    (es.map stripped).mapM f = es.mapM f := by
  rw [List.mapM_map]
  exact congrArg (fun g => es.mapM g) (funext h)

theorem conditionsOf_stripped : conditionsOf e.stripped = conditionsOf e := by
  rw [conditionsOf, child?_stripped, conditionsOf]
  cases e.child? "conditions" with
  | none => rfl
  | some block =>
    rw [Option.map_some]
    dsimp only
    rw [childrenNamed_stripped, mapM_stripped Condition.ofElement_stripped]

theorem propertyKey_stripped : propertyKey e.stripped = propertyKey e := by
  simp only [propertyKey, attribute?_stripped, name_stripped]

theorem propertiesOf_stripped : propertiesOf e.stripped = propertiesOf e := by
  rw [propertiesOf, child?_stripped, attributes_stripped, propertiesOf]
  cases e.child? "properties" with
  | none => rfl
  | some block =>
    simp only [Option.map_some, children_stripped, List.map_map, Function.comp_def,
      propertyKey_stripped, leafText_stripped]

theorem variablesOf_stripped : variablesOf e.stripped = variablesOf e := by
  rw [variablesOf, child?_stripped, child?_stripped, ← Option.map_or, variablesOf]
  cases (e.child? "variables").or (e.child? "globalVarList") with
  | none => rfl
  | some block =>
    rw [Option.map_some]
    dsimp only
    rw [children_stripped, List.filter_map, mapM_stripped Variable.ofElement_stripped]
    simp only [Function.comp_def, name_stripped]

theorem stepOf_stripped (place : Place) (children : Except DocumentError (List Step)) :
    stepOf fresh place e.stripped children = stepOf fresh place e children := by
  simp only [stepOf, conditionsOf_stripped, attribute?_stripped, name_stripped,
    descriptionOf_stripped, propertiesOf_stripped]

mutual

theorem Step.ofElement_stripped : ∀ (e : Element) (place : Place),
    Step.ofElement fresh place e.stripped = Step.ofElement fresh place e
  | .mk name attributes children text, place => by
      have hstep := stepOf_stripped fresh (.mk name attributes children text) place
      rw [stripped] at hstep ⊢
      rw [Step.ofElement, Step.ofElement, hstep, blockSteps?_stripped children place,
        looseSteps_stripped children place 0]

theorem blockSteps?_stripped : ∀ (es : List Element) (place : Place),
    blockSteps? fresh place (strippedAll es) = blockSteps? fresh place es
  | [], _ => rfl
  | e :: es, place => by
      rw [strippedAll, blockSteps?, blockSteps?, name_stripped, contentSteps_stripped e place,
        blockSteps?_stripped es place]

theorem contentSteps_stripped : ∀ (e : Element) (place : Place),
    contentSteps fresh place e.stripped = contentSteps fresh place e
  | .mk _ _ children _, place => by
      rw [stripped, contentSteps, contentSteps, stepsOfElements_stripped children place 0]

theorem stepsOfElements_stripped : ∀ (es : List Element) (place : Place) (position : Nat),
    stepsOfElements fresh place position (strippedAll es) =
      stepsOfElements fresh place position es
  | [], _, _ => rfl
  | e :: es, place, position => by
      rw [strippedAll, stepsOfElements, stepsOfElements,
        Step.ofElement_stripped e (place ++ [position]),
        stepsOfElements_stripped es place (position + 1)]

theorem looseSteps_stripped : ∀ (es : List Element) (place : Place) (position : Nat),
    looseSteps fresh place position (strippedAll es) = looseSteps fresh place position es
  | [], _, _ => rfl
  | e :: es, place, position => by
      rw [strippedAll, looseSteps, looseSteps, name_stripped,
        Step.ofElement_stripped e (place ++ [position]),
        looseSteps_stripped es place (position + 1), looseSteps_stripped es place position]

end

/-- A task sequence does not depend on the layout of its element. -/
theorem Sequence.ofElement_stripped :
    Sequence.ofElement fresh e.stripped = Sequence.ofElement fresh e := by
  have hroot : isSequenceRoot e.stripped = isSequenceRoot e := by
    rw [isSequenceRoot, name_stripped, isSequenceRoot]
  simp only [Sequence.ofElement, hroot, name_stripped, variablesOf_stripped, children_stripped,
    ← strippedAll_eq_map, blockSteps?_stripped, looseSteps_stripped, attribute?_stripped,
    descriptionOf_stripped]

end

/-! ## Texts -/

namespace Format

/-- A text that a document is written as is read as the task sequence of its root. -/
theorem parse_xml_of_writes (fresh : Fresh) {d : Document} {e : Element} (h : d.Writes e)
    {text : String} (htext : SameEnd text.toList d.chars) :
    xml.parse fresh text = Sequence.ofElement fresh e := by
  rw [parse, xmlRoot, htext.ofText_eq, h.ofText]
  rfl

/-- A text that is read is written as a document. -/
theorem exists_document_of_parse {fresh : Fresh} {text : String} {s : Sequence}
    (h : xml.parse fresh text = .ok s) :
    ∃ d : Document, ∃ e, d.Writes e ∧ SameEnd text.toList d.chars := by
  cases hroot : Element.ofText text.toList with
  | ok e =>
    obtain ⟨d, hd, hsame⟩ := exists_document hroot
    exact ⟨d, e, hd, hsame⟩
  | error flaw =>
    rw [parse, xmlRoot, hroot] at h
    cases flaw <;> cases h

/-- A text that is read is written as a document.  In every other layout of this document it is
read as the same task sequence, up to what is filled in, which is the same here. -/
theorem parse_xml_of_relaid {fresh : Fresh} {text : String} {s : Sequence}
    (hread : xml.parse fresh text = .ok s) :
    (∃ d : Document, ∃ e, d.Writes e ∧ SameEnd text.toList d.chars) ∧
    ∀ (d d' : Document) (e : Element), d.Writes e → SameEnd text.toList d.chars → d.Relaid d' →
      ∀ text' : String, SameEnd text'.toList d'.chars →
        ∀ fresh' : Fresh, xml.parse fresh' text' = xml.parse fresh' text := by
  refine ⟨exists_document_of_parse hread, ?_⟩
  intro d d' e hd htext hrelaid text' htext' fresh'
  obtain ⟨e', hd', hsame⟩ := hd.relaid hrelaid
  rw [parse_xml_of_writes fresh' hd' htext', parse_xml_of_writes fresh' hd htext,
    ← Sequence.ofElement_stripped, hsame, Sequence.ofElement_stripped]

/-- A sequence without steps, and the same with remarks, a blank, and two tags for one. -/
theorem parse_xml_of_relaid_sequence :
    xml.parse Fresh.constant "<!--a--><sequence> <?b?><steps></steps></sequence>" =
      xml.parse Fresh.constant "<sequence><steps/></sequence>" := by
  let d : Document := ⟨[], .pair "sequence".toList [.single "steps".toList] [], []⟩
  let content : List Markup :=
    [.piece (.text [' ']), .piece (.instruction ['b']), .pair "steps".toList [] []]
  let d' : Document := ⟨[.comment ['a']], .pair "sequence".toList content [], []⟩
  have hsteps : StartTag ("steps".toList ++ ['/']) := ⟨by decide, by simp⟩
  have hsequence : StartTag "sequence".toList := ⟨by decide, by simp⟩
  have hstop : EndTag (tagName "sequence".toList) [] := ⟨by decide, by decide⟩
  have hd : d.Writes (.mk "sequence" [] [.mk "steps" [] [] ""] "") :=
    ⟨nofun, .pair hsequence (by decide) hstop (.single hsteps rfl .nil) rfl .nil, nofun⟩
  have hblank : Markup.Edit ([] ++ [.single "steps".toList])
      ([] ++ .piece (.text [' ']) :: [.single "steps".toList]) :=
    .blank (List.forall_mem_singleton.mpr rfl) ⟨_, List.mem_cons_self, rfl⟩
  have hremark : Markup.Edit ([.piece (.text [' '])] ++ [.single "steps".toList])
      ([.piece (.text [' '])] ++ .piece (.instruction ['b']) :: [.single "steps".toList]) :=
    .remark trivial ⟨by decide, by decide⟩
  have hpair : Markup.Edit
      ([.piece (.text [' ']), .piece (.instruction ['b'])] ++ .single "steps".toList :: [])
      ([.piece (.text [' ']), .piece (.instruction ['b'])] ++ .pair "steps".toList [] [] :: []) :=
    .pair (by decide) (by decide)
  have hcontent : Markup.Relaid [.single "steps".toList] content :=
    .tail (.tail (.single hblank) hremark) hpair
  have hbefore : ∀ p ∈ d'.before, p.Formed :=
    List.forall_mem_singleton.mpr (Piece.formed_comment (by decide))
  have hrelaid : d.Relaid d' := ⟨hbefore, hcontent.within [] [], nofun⟩
  have hread : ∃ s, xml.parse Fresh.constant "<sequence><steps/></sequence>" = .ok s :=
    ⟨_, parse_xml_of_writes Fresh.constant hd (.refl _)⟩
  obtain ⟨s, hs⟩ := hread
  exact (parse_xml_of_relaid hs).2 d d' _ hd (.refl _) hrelaid _ (.refl _) Fresh.constant

end Format

end Runbook
