import Runbook.Proofs.Document.Detection
import Runbook.Proofs.Document.Parsed

/-!
# Documents are converted

A document that was read in one format is written in another one, and the text is read again.  The
three readers do not take the same documents: dates of XML have years of four digits, and JSON and
YAML are not nested without bound.  What a format takes of what it writes itself is what it `Holds`;
a conversion is read back exactly if the target holds the sequence: `Codecs.readsBack_iff`.
-/

namespace Runbook

/-- The sequence is written in a format, and the text is read in this format as one alike. -/
def Codecs.ReadsBack (cs : Codecs) (fresh : Fresh) (f : Format) (s : Sequence) : Prop :=
  ∃ text t, cs.serialize s f = .ok text ∧ cs.parseAs fresh f text = .ok t ∧ s.alike t = true

/-! ## Beyond the limits -/

/-- What a format does not hold it does not read back. -/
theorem Format.parse_serialize_eq_error (fresh : Fresh) {s : Sequence} (h : s.Proper) :
    ∀ {f : Format}, ¬ f.Holds s → ∃ fault, f.parse fresh (f.serialize s) = .error fault
  | .xml, hs => by
      rw [parse, serialize, xmlRoot_document]
      exact Sequence.ofElement_toLayout_eq_error fresh h hs
  | .json, hs => by
      refine ⟨.malformed .json, ?_⟩
      rw [parse, serialize, jsonData, Json.read?_pretty_eq_none s.toData_plain (Nat.lt_of_not_le hs)]
      rfl
  | .yaml, hs => by
      refine ⟨.malformed .yaml, ?_⟩
      have hread : Yaml.read (Yaml.print s.toData).toList = .error .malformed :=
        Yaml.read_print_eq_error (Sequence.toData_laid h) (Nat.lt_of_not_le hs)
      rw [parse, serialize, yamlData, hread]
      rfl

theorem Codecs.serialize_default (s : Sequence) (f : Format) :
    default.serialize s f = .ok (f.serialize s) := by
  cases f <;> rfl

theorem Codecs.parseAs_default (fresh : Fresh) (f : Format) (text : String) :
    default.parseAs fresh f text = f.parse fresh text := by
  cases f <;> rfl

theorem Codecs.readsBack_iff_holds (fresh : Fresh) {s : Sequence} (h : s.Proper) (f : Format) :
    default.ReadsBack fresh f s ↔ f.Holds s := by
  constructor
  · rintro ⟨text, t, htext, hread, -⟩
    rw [serialize_default] at htext
    cases htext
    rw [parseAs_default] at hread
    by_contra hbeyond
    obtain ⟨fault, hfault⟩ := Format.parse_serialize_eq_error fresh h hbeyond
    rw [hread] at hfault
    cases hfault
  · intro hholds
    obtain ⟨t, hread, halike⟩ := Format.parse_serialize fresh h hholds
    exact ⟨f.serialize s, t, serialize_default s f, by rw [parseAs_default, hread], halike⟩

/-! ## Conversion -/

/-- A document that was read, in whatever format, is written in a format and read back alike exactly
if that format holds it. -/
theorem Codecs.readsBack_iff {fresh : Fresh} (hnow : fresh.now.Proper) {f g : Format} {text : String}
    {s : Sequence} (hread : default.parseAs fresh f text = .ok s) :
    default.ReadsBack fresh g s ↔ g.Holds s := by
  rw [parseAs_default] at hread
  exact readsBack_iff_holds fresh (Format.parse_proper hnow hread) g

theorem Codecs.readsBack_iff_specimen : Fresh.constant.now.Proper ∧
    default.parseAs .constant .xml (Format.xml.serialize .specimen) = .ok .specimen ∧
    default.ReadsBack .constant .json .specimen := by
  have hnow : Fresh.constant.now.Proper := ⟨by decide, by decide, by decide⟩
  have hread : default.parseAs .constant .xml (Format.xml.serialize .specimen) = .ok .specimen := by
    rw [parseAs_default, Format.parse, Format.serialize, xmlRoot_document]
    exact Sequence.ofElement_toLayout _ Sequence.specimen_proper Sequence.specimen_fourDigitYears
  have hholds : Format.json.Holds .specimen := by
    rw [Format.Holds, Sequence.specimen_nesting]
    decide
  exact ⟨hnow, hread, (readsBack_iff hnow hread).mpr hholds⟩

/-! ## A document that XML does not hold -/

/-- A sequence made at the start of the year 10000. -/
def Sequence.farOff : Sequence := { titled "far off" with created := ⟨253402300800, 0⟩ }

theorem Sequence.farOff_proper : farOff.Proper where
  created := ⟨by decide, by decide, by decide⟩
  modified := (titled_proper "far off").modified
  steps := (titled_proper "far off").steps

theorem Sequence.farOff_nesting : farOff.toData.nesting ≤ Json.maxDepth := by
  have hnesting : farOff.toData.nesting = 2 := rfl
  rw [hnesting]
  decide

theorem Sequence.created_of_alike {s t : Sequence} (h : s.alike t = true) :
    s.created = t.created := by
  rw [alike, Bool.and_eq_true, beq_iff_eq] at h
  injection h.1

/-- Not every conversion is read back: JSON takes the year 10000, and XML writes it but does not
read it. -/
theorem Codecs.not_readsBack_farOff : ¬ ∀ (fresh : Fresh) (f g : Format) (text : String)
    (s : Sequence), fresh.now.Proper → default.parseAs fresh f text = .ok s →
      default.ReadsBack fresh g s := by
  intro h
  have hnow : Fresh.constant.now.Proper := ⟨by decide, by decide, by decide⟩
  obtain ⟨t, hread, halike⟩ :=
    Format.parse_serialize .constant Sequence.farOff_proper (f := .json) Sequence.farOff_nesting
  have hproper : t.Proper := Format.parse_proper hnow hread
  have hback := h .constant .json .xml _ t hnow (by rw [parseAs_default, hread])
  have hyears : t.FourDigitYears := (readsBack_iff_holds _ hproper .xml).mp hback
  have hyear := hyears.created.2
  rw [← Sequence.created_of_alike halike] at hyear
  exact absurd hyear (by decide)

end Runbook
