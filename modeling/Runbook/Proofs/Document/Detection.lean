import Runbook.Proofs.Document.RoundTrip

/-!
# Documents are recognised

Each format claims what it writes itself, and JSON does not claim what YAML writes, since no JSON
value starts with a letter like the first key of a document.

XML comes first, and its probe passes over all text outside of tags.  So a text of another format
in which no tag starts is not claimed by it, but one that quotes a document is.  This is all that
stands between a document and its recognition: `Format.recognized_iff`.
-/

namespace Runbook

open Runbook.Xml

/-! ## Every format claims its own documents -/

theorem Format.claims_serialize_xml (s : Sequence) :
    Format.xml.claims (Format.xml.serialize s) = true := by
  rw [claims, serialize, xmlRoot_document, toElement_sequence]
  refine List.any_eq_true.mpr ⟨"TaskSequence", by decide, ?_⟩
  rw [sequenceElement, Element.name]
  decide

theorem Format.claims_serialize_json {s : Sequence} (hn : s.toData.nesting ≤ Json.maxDepth) :
    Format.json.claims (Format.json.serialize s) = true := by
  rw [claims, serialize, jsonData_pretty hn]
  exact s.isRoot_sorted

/-! ## What JSON does not claim -/

/-- No JSON value starts with the letter `i`. -/
theorem Json.read?_letter (cs : List Char) : Json.read? ('i' :: cs) = none := by
  have hgap : ('i' :: cs).dropWhile Json.isGap = 'i' :: cs :=
    List.dropWhile_cons_of_neg (by decide)
  have hvalue : Json.readValue (2 * ('i' :: cs).length + 2) ('i' :: cs) = (.broken, 'i' :: cs) := by
    rw [Json.readValue, hgap]
    rfl
  rw [Json.read?, Json.Tree.ofText, hvalue]
  dsimp only
  split
  · rename_i h
    injection h with ht
    rw [← ht, Json.Tree.data?]
  · rfl

/-- A document in YAML starts with the key of its identity. -/
theorem Yaml.print_toData (s : Sequence) : ∃ cs, (Yaml.print s.toData).toList = 'i' :: cs := by
  have hkey : Yaml.scalarWritten 2 (.text "id") = (['i', 'd'], true) := by decide
  have hsimple : Yaml.isSimpleKey (.text "id") = true := by decide
  have hdocument : ∃ fs, Yaml.documentWritten s.toData =
      Yaml.fieldsWritten 0 [] true ((.text "id", .text s.id) :: fs) := ⟨_, rfl⟩
  obtain ⟨fs, hfs⟩ := hdocument
  rw [Yaml.print, String.toList_ofList, hfs, Yaml.fieldsWritten, Yaml.fieldWritten, if_pos hsimple,
    hkey]
  exact ⟨_, rfl⟩

/-- JSON does not claim a document in YAML. -/
theorem Format.claims_json_yaml (s : Sequence) :
    Format.json.claims (Format.yaml.serialize s) = false := by
  obtain ⟨cs, hcs⟩ := Yaml.print_toData s
  rw [claims, serialize, jsonData, hcs, Json.read?_letter]

/-! ## What XML does not claim -/

namespace Xml

namespace Element

/-- Text outside of the root is passed over. -/
theorem Reading.takeAll_outside {cs : List Char} (hmark : '<' ∉ cs) (root : Option Element) :
    (Reading.mk [] root).takeAll (Token.scan cs) = .ok ⟨[], root⟩ := by
  cases Token.scan_of_notMem hmark with
  | inl hnone => rw [hnone]; rfl
  | inr htext => rw [htext]; rfl

/-- Text in front of a tag is passed over, a byte order mark too. -/
theorem Reading.takeAll_before {pre : List Char} (hmark : '<' ∉ pre) (cs : List Char) :
    (Reading.mk [] none).takeAll (Token.ofText (pre ++ '<' :: cs)) =
      (Reading.mk [] none).takeAll (Token.scan ('<' :: cs)) := by
  have hscan : ∀ t : List Char, '<' ∉ t →
      (Reading.mk [] none).takeAll (Token.scan (t ++ '<' :: cs)) =
        (Reading.mk [] none).takeAll (Token.scan ('<' :: cs)) := by
    intro t ht
    cases t with
    | nil => rfl
    | cons c t =>
        rw [Token.scan_text (List.cons_ne_nil c t) ht cs]
        exact takeAll_cons_of_take rfl _
  unfold Token.ofText
  split
  · rename_i r hr
    cases pre with
    | nil => exact absurd (List.cons.inj hr).1 (by decide)
    | cons c t =>
        rw [← (List.cons.inj hr).2]
        exact hscan t fun h => hmark (List.mem_cons_of_mem c h)
  · exact hscan pre hmark

/-- A text without an opening mark has no root. -/
theorem ofText_of_notMem {cs : List Char} (hmark : '<' ∉ cs) : ofText cs = .error .noRoot := by
  have hread : (Reading.mk [] none).takeAll (Token.ofText cs) = .ok ⟨[], none⟩ := by
    unfold Token.ofText
    split
    · exact Reading.takeAll_outside (fun h => hmark (List.mem_cons_of_mem _ h)) none
    · exact Reading.takeAll_outside hmark none
  rw [ofText, hread]
  rfl

/-- A document that is quoted in a text without other marks is read as if it stood alone. -/
theorem ofText_quoted {root : Layout} (h : root.Clean) (depth : Nat) {pre post : List Char}
    (hpre : '<' ∉ pre) (hpost : '<' ∉ post) :
    ofText (pre ++ (root.chars depth ++ post)) = .ok (root.toElement depth) := by
  have hread : (Reading.mk [] none).takeAll (Token.ofText (pre ++ (root.chars depth ++ post))) =
      .ok ⟨[], some (root.toElement depth)⟩ := by
    obtain ⟨cs, hcs⟩ := Layout.chars_eq_cons depth root
    rw [hcs, List.cons_append, Reading.takeAll_before hpre, ← List.cons_append, ← hcs,
      Layout.scan_chars depth root h, Reading.takeAll_append,
      Layout.takeAll_tokens depth root h [] none]
    exact Reading.takeAll_outside hpost _
  rw [ofText, hread]
  rfl

end Element
end Xml

/-- XML does not claim a text without an opening mark. -/
theorem Format.claims_xml_of_notMem {text : String} (hmark : '<' ∉ text.toList) :
    Format.xml.claims text = false := by
  rw [claims, xmlRoot, Element.ofText_of_notMem hmark]

/-- XML claims a text that quotes an empty document. -/
theorem Format.claims_xml_quoted {pre post : List Char} (hpre : '<' ∉ pre) (hpost : '<' ∉ post) :
    Format.xml.claims (String.ofList (pre ++ ("<TaskSequence/>".toList ++ post))) = true := by
  have hclean : (Layout.leaf "TaskSequence" [] "").Clean := by
    rw [Layout.Clean]
    exact ⟨by decide, by simp [CleanAttributes]⟩
  have hchars : (Layout.leaf "TaskSequence" [] "").chars 0 = "<TaskSequence/>".toList := by decide
  rw [claims, xmlRoot, String.toList_ofList, ← hchars, Element.ofText_quoted hclean 0 hpre hpost]
  decide

/-! ## Likeness -/

mutual

/-- A step whose properties are a map is like itself. -/
theorem Step.alike_self : ∀ s : Step, (∀ t ∈ s.preorder, t.Proper) → s.alike s = true
  | .mk i n d k e c cs ps ss, h => by
      rw [Step.forall_mem_preorder_mk] at h
      have hps : ps.keys.Nodup := h.1
      simp [Step.alike, Step.allAlike_self ss h.2, Pairs.sameMap_of_perm (.refl ps) hps]

theorem Step.allAlike_self : ∀ ss : List Step, (∀ t ∈ Step.preorderAll ss, t.Proper) →
    Step.allAlike ss ss = true
  | [], _ => rfl
  | s :: ss, h => by
      rw [Step.forall_mem_preorderAll_cons] at h
      rw [Step.allAlike, Step.alike_self s h.1, Step.allAlike_self ss h.2]
      rfl

end

theorem Sequence.alike_self {s : Sequence} (h : s.Proper) : s.alike s = true := by
  simp [alike, Step.allAlike_self s.steps h.steps]

/-! ## A sequence with a name alone -/

/-- A sequence without steps, given its name. -/
def Sequence.titled (name : String) : Sequence where
  id := "1"
  name := name
  description := ""
  version := "1"
  created := ⟨0, 0⟩
  modified := ⟨0, 0⟩
  declarations := []
  steps := []

theorem Sequence.titled_proper (name : String) : (titled name).Proper :=
  have hepoch : (Timestamp.mk 0 0).Proper := ⟨by decide, by decide, by decide⟩
  ⟨hepoch, hepoch, fun _ h => nomatch h⟩

theorem Sequence.titled_fourDigitYears (name : String) : (titled name).FourDigitYears :=
  have hepoch : 0 ≤ (Timestamp.mk 0 0).year ∧ (Timestamp.mk 0 0).year ≤ 9999 := by decide
  ⟨hepoch, hepoch⟩

theorem Sequence.titled_nesting (name : String) :
    (titled name).toData.nesting ≤ Json.maxDepth := by
  have hnesting : (titled name).toData.nesting = 2 := rfl
  rw [hnesting]
  decide

/-- What is written around the text of the second field. -/
theorem Json.prettyChars_second (f g : Data × Data) (fs : List (Data × Data)) (key text : String) :
    prettyChars 0 (.record (f :: field key (.text text) :: g :: fs)) =
      ('\x7b' :: (joined [','] (prettyFields 1 [f]) ++
        ',' :: (newLine 1 ++ quoted key ++ [':', ' ', '"']))) ++
      (text.toList.flatMap stringChar ++
        ('"' :: ',' :: (joined [','] (prettyFields 1 (g :: fs)) ++ newLine 0 ++ ['\x7d']))) := by
  simp [prettyChars, prettyFields, joined, field, keyChars, scalarChars, quoted]

/-- In JSON no mark of XML stands around the name. -/
theorem Json.prettyChars_titled (name : String) : ∃ pre post, '<' ∉ pre ∧ '<' ∉ post ∧
    prettyChars 0 (Sequence.titled name).toData =
      pre ++ (name.toList.flatMap stringChar ++ post) := by
  have hepoch : Timestamp.text ⟨0, 0⟩ = "1970-01-01T00:00:00Z" := by decide
  rw [Sequence.toData]
  simp only [Sequence.titled, hepoch]
  rw [prettyChars_second]
  exact ⟨_, _, by decide, by decide +kernel, rfl⟩

/-! ## Recognition -/

/-- What a format writes is claimed by this format first, and is read back to a sequence alike. -/
def Format.Recognized (fresh : Fresh) (f : Format) (s : Sequence) : Prop :=
  Codecs.default.detect (f.serialize s) = some f ∧
    ∃ t, Codecs.default.parse fresh (f.serialize s) = .ok t ∧ s.alike t = true

theorem Format.claims_serialize {s : Sequence} (h : s.Proper)
    (hn : s.toData.nesting ≤ Json.maxDepth) : ∀ f : Format, f.claims (f.serialize s) = true
  | .xml => claims_serialize_xml s
  | .json => claims_serialize_json hn
  | .yaml => by
      rw [claims, serialize, yamlData_print h (Nat.le_trans hn (by decide))]
      exact s.isRoot_toData

/-- The sequence is within the limits of what a format reads. -/
def Format.Holds : Format → Sequence → Prop
  | xml, s => s.FourDigitYears
  | json, s => s.toData.nesting ≤ Json.maxDepth
  | yaml, s => s.toData.nesting ≤ Yaml.maxDepth

theorem Format.holds_of_limits {s : Sequence} (hy : s.FourDigitYears)
    (hn : s.toData.nesting ≤ Json.maxDepth) : ∀ f : Format, f.Holds s
  | .xml => hy
  | .json => hn
  | .yaml => Nat.le_trans hn (by decide)

/-- What a format holds it reads back. -/
theorem Format.parse_serialize (fresh : Fresh) {s : Sequence} (h : s.Proper) :
    ∀ {f : Format}, f.Holds s → ∃ t, f.parse fresh (f.serialize s) = .ok t ∧ s.alike t = true
  | .xml, hs => by
      refine ⟨s, ?_, Sequence.alike_self h⟩
      rw [parse, serialize, xmlRoot_document]
      exact Sequence.ofElement_toLayout fresh h hs
  | .json, hs => by
      obtain ⟨t, hread, halike⟩ := Sequence.ofData_sorted Dialect.json fresh h
      refine ⟨t, ?_, halike⟩
      rw [parse, serialize, jsonData_pretty hs]
      simp only [Except.bind, Sequence.ofRoot, s.isRoot_sorted, if_true, hread]
  | .yaml, hs => by
      refine ⟨s, ?_, Sequence.alike_self h⟩
      rw [parse, serialize, yamlData_print h hs]
      simp only [Except.bind, Sequence.ofRoot, s.isRoot_toData, if_true,
        Sequence.ofData_toData Dialect.yaml fresh h]

theorem Codecs.detect_of_claims_xml {text : String} (h : Format.xml.claims text = true) :
    default.detect text = some .xml := by
  rw [detect, default, Format.all, List.find?_cons, h]

/-- A format is detected unless XML comes before it and claims its text. -/
theorem Codecs.detect_serialize {s : Sequence} (h : s.Proper)
    (hn : s.toData.nesting ≤ Json.maxDepth) (f : Format) :
    default.detect (f.serialize s) = some f ↔
      f = .xml ∨ Format.xml.claims (f.serialize s) = false := by
  have hown := Format.claims_serialize h hn f
  cases hxml : Format.xml.claims (f.serialize s) with
  | true =>
      rw [detect_of_claims_xml hxml]
      cases f <;> simp
  | false =>
      refine iff_of_true ?_ (.inr rfl)
      rw [detect, default, Format.all, List.find?_cons, hxml]
      cases f with
      | xml => rw [hown] at hxml; exact nomatch hxml
      | json => rw [List.find?_cons, hown]
      | yaml => rw [List.find?_cons, Format.claims_json_yaml, List.find?_cons, hown]

theorem Codecs.parse_of_detect {cs : Codecs} {text : String} {f : Format}
    (h : cs.detect text = some f) (fresh : Fresh) : cs.parse fresh text = f.parse fresh text := by
  rw [parse, h]

/-- XML claims exactly the texts that are one element with the name of a root. -/
theorem Format.claims_xml_iff (text : String) : Format.xml.claims text = true ↔
    ∃ e, Element.ofText text.toList = .ok e ∧ isSequenceRoot e = true := by
  rw [claims, xmlRoot]
  cases Element.ofText text.toList with
  | ok e => simp
  | error flaw => cases flaw <;> simp

/-- The text of a format is recognised unless it is one of another format and reads as an XML
document: its texts may quote one. -/
theorem Format.recognized_iff (fresh : Fresh) (f : Format) {s : Sequence} (h : s.Proper)
    (hy : s.FourDigitYears) (hn : s.toData.nesting ≤ Json.maxDepth) :
    f.Recognized fresh s ↔
      f = .xml ∨
        ¬ ∃ e, Element.ofText (f.serialize s).toList = .ok e ∧ isSequenceRoot e = true := by
  rw [← claims_xml_iff, Bool.not_eq_true, ← Codecs.detect_serialize h hn]
  refine ⟨And.left, fun hdetect => ⟨hdetect, ?_⟩⟩
  rw [Codecs.parse_of_detect hdetect]
  exact parse_serialize fresh h (holds_of_limits hy hn f)

theorem Format.recognized_iff_titled : (Sequence.titled "nightly").Proper ∧
    (Sequence.titled "nightly").FourDigitYears ∧
    (Sequence.titled "nightly").toData.nesting ≤ Json.maxDepth ∧
    Format.json.Recognized .constant (.titled "nightly") := by
  obtain ⟨pre, post, hpre, hpost, htext⟩ := Json.prettyChars_titled "nightly"
  have hname : '<' ∉ "nightly".toList.flatMap Json.stringChar := by decide
  have hmark : '<' ∉ (Format.json.serialize (.titled "nightly")).toList := by
    rw [serialize, Json.pretty, String.toList_ofList, htext, List.mem_append, List.mem_append]
    exact not_or.mpr ⟨hpre, not_or.mpr ⟨hname, hpost⟩⟩
  refine ⟨Sequence.titled_proper _, Sequence.titled_fourDigitYears _, Sequence.titled_nesting _, ?_⟩
  refine (recognized_iff .constant .json (Sequence.titled_proper "nightly")
    (Sequence.titled_fourDigitYears "nightly") (Sequence.titled_nesting "nightly")).mpr (.inr ?_)
  rw [← claims_xml_iff, claims_xml_of_notMem hmark]
  exact Bool.false_ne_true

/-- Not every document is recognised: one in JSON whose name quotes an XML document is taken for
that. -/
theorem Format.not_recognized_quoting : ¬ ∀ (fresh : Fresh) (f : Format) (s : Sequence), s.Proper →
    s.FourDigitYears → s.toData.nesting ≤ Json.maxDepth → f.Recognized fresh s := by
  intro h
  have hdetect := (h .constant .json (.titled "<TaskSequence/>") (Sequence.titled_proper _)
    (Sequence.titled_fourDigitYears _) (Sequence.titled_nesting _)).1
  obtain ⟨pre, post, hpre, hpost, htext⟩ := Json.prettyChars_titled "<TaskSequence/>"
  have hname : "<TaskSequence/>".toList.flatMap Json.stringChar = "<TaskSequence/>".toList := by
    simp [Json.stringChar]
  have hquoted : Format.xml.claims (Format.json.serialize (.titled "<TaskSequence/>")) = true := by
    rw [serialize, Json.pretty, htext, hname]
    exact claims_xml_quoted hpre hpost
  rw [Codecs.detect_of_claims_xml hquoted] at hdetect
  cases hdetect

end Runbook
