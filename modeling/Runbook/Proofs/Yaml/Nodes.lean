import Runbook.Proofs.Yaml.Scan
import Runbook.Yaml.Node.OfTokens

/-!
# Tokens are read as nodes

The tokens of written data have no names and no tags, so reading them leaves its state as it is.
Fuel beyond the number of tokens is enough.
-/

namespace Runbook.Yaml

open Node

/-- No name and no tag. -/
abbrev noLabel : Label := ⟨none, none⟩

/-- The node of a truth value or a text. -/
def scalarNode : Data → Node
  | .bool v => .scalar noLabel (toString v).toList true
  | .text s => .scalar noLabel s.toList (Style.ofText s.toList == .plain)
  | _ => missing

mutual

/-- The node of a value. -/
def valueNode : Data → Node
  | .list items => .list noLabel (itemNodes items)
  | .record fields => .record noLabel (fieldNodes fields)
  | d => scalarNode d
termination_by structural d => d

/-- The nodes of the items of a list. -/
def itemNodes : List Data → List Node
  | [] => []
  | d :: ds => valueNode d :: itemNodes ds
termination_by structural ds => ds

/-- The nodes of the fields of a record. -/
def fieldNodes : List (Data × Data) → List (Node × Node)
  | [] => []
  | (k, v) :: fs => (scalarNode k, valueNode v) :: fieldNodes fs
termination_by structural fs => fs

end

section

variable (fuel : Nat) (s : Naming) (ts : List Token)

theorem read_scalarToken (ctx : Node.Context) {d : Data} (h : IsScalar d) :
    read ctx (fuel + 1) s (scalarToken d :: ts) = some (scalarNode d, s, ts) := by
  cases h <;> rfl

theorem read_emptyList (ctx : Node.Context) :
    read ctx (fuel + 2) s (.listStart :: .listEnd :: ts) = some (.list noLabel [], s, ts) := rfl

theorem read_items {ctx : Node.Context} (h : ctx.bareItems = true) :
    read ctx (fuel + 1) s (.item :: ts) =
      (readBareItems fuel s (.item :: ts)).map fun p => (.list noLabel p.1, p.2) := by
  obtain ⟨block, bareItems⟩ := ctx
  cases h
  rfl

theorem read_record {ctx : Node.Context} (h : ctx.block = true) :
    read ctx (fuel + 1) s (.blockRecord :: ts) =
      (readFields fuel s ts).map fun p => (.record noLabel p.1, p.2) := by
  obtain ⟨block, bareItems⟩ := ctx
  cases h
  rfl

/-- The mark of an item and a record behind it. -/
theorem readBareItems_record {fs : List (Node × Node)} {us : List Token}
    (h : read ⟨true, false⟩ fuel s (.blockRecord :: ts) = some (.record noLabel fs, s, us)) :
    readBareItems (fuel + 1) s (.item :: .blockRecord :: ts) =
      (readBareItems fuel s us).map fun p => (.record noLabel fs :: p.1, p.2) := by
  rw [readBareItems]
  simp only [endsItem, endsField, Bool.or_self, Bool.false_eq_true, if_false, h]

/-- The mark of a key, the key, and a value behind its mark. -/
theorem readFields_field {k : Data} (hk : IsScalar k) {v : Node} {us : List Token}
    (hstart : endsField ts = false)
    (h : read ⟨true, true⟩ fuel s ts = some (v, s, us)) :
    readFields (fuel + 2) s (.key :: scalarToken k :: .value :: ts) =
      (readFields (fuel + 1) s us).map fun p => ((scalarNode k, v) :: p.1, p.2) := by
  have hkey : endsField (scalarToken k :: .value :: ts) = false := by cases hk <;> rfl
  have hvalue : readFieldValue (fuel + 1) s (.value :: ts) = some (v, s, us) := by
    rw [readFieldValue]
    simp only [hstart, Bool.false_eq_true, if_false, h]
  rw [readFields]
  simp only [hkey, Bool.false_eq_true, if_false, read_scalarToken fuel s _ ⟨true, true⟩ hk, hvalue]

end

/-! ## Reading written data -/

/-- A list without brackets goes on before a mark of an item only. -/
def EndsItems (ts : List Token) : Prop := ts.head? ≠ some .item

/-- A value starts neither with a mark of a field nor with the end of a block. -/
theorem endsField_valueTokens {d : Data} (h : Laid d) (ts : List Token) :
    endsField (valueTokens d ++ ts) = false := by
  match d, h with
  | .bool _, _ => rfl
  | .text _, _ => rfl
  | .list [], _ => rfl
  | .list (_ :: _), _ => rfl
  | .record _, _ => rfl

theorem isScalar_of_text {k : Data} {s : String} (h : k = .text s) : IsScalar k := h ▸ .text s

theorem endsItems_fieldTokens (fs : List (Data × Data)) (ts : List Token) :
    EndsItems (fieldTokens fs ++ .blockEnd :: ts) := by
  cases fs with
  | nil => exact fun h => by cases h
  | cons f fs => exact fun h => by cases h

mutual

/-- The tokens of a value are read as its node. -/
theorem read_valueTokens : ∀ (d : Data), Laid d → ∀ (fuel : Nat) (s : Naming) (ts : List Token),
    2 * (valueTokens d).length + 2 ≤ fuel → EndsItems ts →
      read ⟨true, true⟩ fuel s (valueTokens d ++ ts) = some (valueNode d, s, ts)
  | .bool v, _, fuel + 1, s, ts, _, _ => read_scalarToken fuel s ts _ (.bool v)
  | .text t, _, fuel + 1, s, ts, _, _ => read_scalarToken fuel s ts _ (.text t)
  | .list [], _, fuel + 2, s, ts, _, _ => read_emptyList fuel s ts _
  | .list (d :: ds), h, fuel + 1, s, ts, hf, hts => by
      have htokens : valueTokens (.list (d :: ds)) = itemTokens (d :: ds) := rfl
      rw [htokens] at hf ⊢
      have hread := readBareItems_itemTokens (d :: ds) h fuel s ts (by omega) hts
      rw [itemTokens, List.cons_append] at hread ⊢
      rw [read_items fuel s _ rfl, hread]
      rfl
  | .record fs, h, fuel + 1, s, ts, hf, _ => by
      rw [valueTokens] at hf ⊢
      simp only [List.length_cons, List.length_append, List.length_nil] at hf
      have hread := readFields_fieldTokens fs h.2.2 fuel s ts (by omega)
      rw [List.cons_append, List.append_assoc, List.singleton_append, read_record fuel s _ rfl,
        hread]
      rfl

/-- The tokens of items are read as their nodes. -/
theorem readBareItems_itemTokens : ∀ (ds : List Data), ItemsLaid ds → ∀ (fuel : Nat) (s : Naming)
    (ts : List Token), 2 * (itemTokens ds).length + 1 ≤ fuel → EndsItems ts →
      readBareItems fuel s (itemTokens ds ++ ts) = some (itemNodes ds, s, ts)
  | [], _, fuel + 1, s, ts, _, hts => by
      rw [itemTokens, List.nil_append, readBareItems]
      · rfl
      · intro us hus
        exact hts (by rw [hus]; rfl)
  | .record fs :: ds, h, fuel + 1, s, ts, hf, hts => by
      rw [itemTokens, valueTokens] at hf ⊢
      simp only [List.length_cons, List.length_append, List.length_nil] at hf
      obtain ⟨f, rfl⟩ : ∃ f, fuel = f + 1 := ⟨fuel - 1, by omega⟩
      have hfields := readFields_fieldTokens fs h.2.1.2.2 f s (itemTokens ds ++ ts) (by omega)
      have hrest := readBareItems_itemTokens ds h.2.2 (f + 1) s ts (by omega) hts
      have hrecord : read ⟨true, false⟩ (f + 1) s (.blockRecord :: (fieldTokens fs ++
          .blockEnd :: (itemTokens ds ++ ts))) =
          some (.record noLabel (fieldNodes fs), s, itemTokens ds ++ ts) := by
        rw [read_record f s _ rfl, hfields]
        rfl
      have hitem := readBareItems_record (f + 1) s _ hrecord
      rw [hrest] at hitem
      rw [itemNodes, valueNode]
      simpa using hitem

/-- The tokens of fields are read as their nodes. -/
theorem readFields_fieldTokens : ∀ (fs : List (Data × Data)), FieldsLaid fs → ∀ (fuel : Nat)
    (s : Naming) (ts : List Token), 2 * (fieldTokens fs).length + 1 ≤ fuel →
      readFields fuel s (fieldTokens fs ++ .blockEnd :: ts) = some (fieldNodes fs, s, ts)
  | [], _, fuel + 1, s, ts, _ => rfl
  | (k, v) :: fs, h, fuel + 1, s, ts, hf => by
      obtain ⟨⟨t, hk, -⟩, hv, hfs⟩ := h
      rw [fieldTokens] at hf ⊢
      simp only [List.length_cons, List.length_append, List.length_nil] at hf
      obtain ⟨f, rfl⟩ : ∃ f, fuel = f + 1 := ⟨fuel - 1, by omega⟩
      have hvalue := read_valueTokens v hv f s (fieldTokens fs ++ .blockEnd :: ts) (by omega)
        (endsItems_fieldTokens fs ts)
      have hrest := readFields_fieldTokens fs hfs (f + 1) s ts (by omega)
      have hfield := readFields_field f s _ (isScalar_of_text hk)
        (endsField_valueTokens hv (fieldTokens fs ++ .blockEnd :: ts)) hvalue
      rw [hrest] at hfield
      rw [fieldNodes]
      simpa using hfield

end

end Runbook.Yaml
