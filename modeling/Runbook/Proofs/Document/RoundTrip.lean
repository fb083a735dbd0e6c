import Runbook.Proofs.Document.Plain
import Runbook.Proofs.Document.XmlForm
import Runbook.Proofs.Document.YamlForm

/-!
# Documents are read back

What a format writes it also reads.  XML gives back the very same sequence, as long as the years of
its dates have four digits.  JSON gives back one that is alike: records come back sorted, so the
properties of a step may change their order.
-/

namespace Runbook

/-- A sequence whose keys are names of fields, and whose texts look like marks, numbers and
nothing.  It was last changed within a leap second. -/
def Sequence.specimen : Sequence where
  id := "id: 1"
  name := " Build & \"check\" 'all' "
  description := "first line\n\n  second line\n"
  version := "1.0"
  created := ⟨0, 0⟩
  modified := ⟨78796799, 1500000000⟩
  declarations := [⟨"TOKEN", "null", false, true⟩, ⟨"a b", "", true, false⟩]
  steps :=
    [.mk "1" "outer" "" .group true false [⟨"TOKEN", .present, "~"⟩] []
      [.mk "2" "inner" "- item" .runCommandLine false true [] [("steps", "true"), ("name", " ")]
        [.mk "3" "" "" .custom true false [] [("type", "]]>"), ("property", "0x1F")] []]]]

theorem Sequence.specimen_proper : specimen.Proper where
  created := ⟨by decide, by decide, by decide⟩
  modified := ⟨by decide, by decide, by decide⟩
  steps := by decide

theorem Sequence.specimen_fourDigitYears : specimen.FourDigitYears where
  created := by decide
  modified := by decide

theorem Sequence.specimen_nesting : specimen.toData.nesting = 8 := rfl

/-- A supply that gives the same identity at every place. -/
def Fresh.constant : Fresh := ⟨fun _ => "0", ⟨0, 0⟩⟩

/-- A sequence written as XML is read back to it. -/
theorem Format.parse_serialize_xml (fresh : Fresh) {s : Sequence} (h : s.Proper)
    (hy : s.FourDigitYears) : Format.xml.parse fresh (Format.xml.serialize s) = .ok s := by
  rw [parse, serialize, xmlRoot_document]
  exact Sequence.ofElement_toLayout fresh h hy

theorem Format.parse_serialize_xml_specimen : Sequence.specimen.Proper ∧
    Sequence.specimen.FourDigitYears ∧
    Format.xml.parse .constant (Format.xml.serialize .specimen) = .ok .specimen :=
  ⟨Sequence.specimen_proper, Sequence.specimen_fourDigitYears,
    parse_serialize_xml .constant Sequence.specimen_proper Sequence.specimen_fourDigitYears⟩

/-- The data of a sequence written as JSON comes back sorted. -/
theorem jsonData_pretty {s : Sequence} (hn : s.toData.nesting ≤ Json.maxDepth) :
    jsonData (Json.pretty s.toData) = .ok (Json.sorted s.toData) := by
  rw [jsonData, Json.read?_pretty s.toData_plain hn]

/-- A sequence written as JSON is read back to one that is alike. -/
theorem Format.parse_serialize_json (fresh : Fresh) {s : Sequence} (h : s.Proper)
    (hn : s.toData.nesting ≤ Json.maxDepth) :
    ∃ t, Format.json.parse fresh (Format.json.serialize s) = .ok t ∧ s.alike t = true := by
  obtain ⟨t, hread, halike⟩ := Sequence.ofData_sorted Dialect.json fresh h
  refine ⟨t, ?_, halike⟩
  rw [parse, serialize, jsonData_pretty hn]
  simp only [Except.bind, Sequence.ofRoot, s.isRoot_sorted, if_true, hread]

theorem Format.parse_serialize_json_specimen : Sequence.specimen.Proper ∧
    Sequence.specimen.toData.nesting ≤ Json.maxDepth ∧
    ∃ t, Format.json.parse .constant (Format.json.serialize .specimen) = .ok t ∧
      Sequence.specimen.alike t = true :=
  ⟨Sequence.specimen_proper, by rw [Sequence.specimen_nesting]; decide,
    parse_serialize_json .constant Sequence.specimen_proper
      (by rw [Sequence.specimen_nesting]; decide)⟩

/-- The data of a sequence written as YAML comes back. -/
theorem yamlData_print {s : Sequence} (h : s.Proper) (hn : s.toData.nesting ≤ Yaml.maxDepth) :
    yamlData (Yaml.print s.toData) = .ok s.toData := by
  have hread : Yaml.read (Yaml.print s.toData).toList = .ok s.toData :=
    Yaml.read_print (Sequence.toData_laid h) hn
  rw [yamlData, hread]

/-- A sequence written as YAML is read back to it. -/
theorem Format.parse_serialize_yaml (fresh : Fresh) {s : Sequence} (h : s.Proper)
    (hn : s.toData.nesting ≤ Yaml.maxDepth) :
    Format.yaml.parse fresh (Format.yaml.serialize s) = .ok s := by
  rw [parse, serialize, yamlData_print h hn]
  simp only [Except.bind, Sequence.ofRoot, s.isRoot_toData, if_true,
    Sequence.ofData_toData Dialect.yaml fresh h]

theorem Format.parse_serialize_yaml_specimen : Sequence.specimen.Proper ∧
    Sequence.specimen.toData.nesting ≤ Yaml.maxDepth ∧
    Format.yaml.parse .constant (Format.yaml.serialize .specimen) = .ok .specimen :=
  ⟨Sequence.specimen_proper, by rw [Sequence.specimen_nesting]; decide,
    parse_serialize_yaml .constant Sequence.specimen_proper
      (by rw [Sequence.specimen_nesting]; decide)⟩

end Runbook
