import Runbook.Proofs.Yaml.Nodes
import Runbook.Proofs.Yaml.Tokens
import Runbook.Proofs.Document.Plain
import Runbook.Yaml.Load

/-!
# Written data is read back

A plain text stands for itself, since it is written plainly only then, and any other text is one by
its quotes.  Nodes without names are followed nowhere, so the data of a document comes back as it
was, as long as it is not nested too deeply: `read_print`.
-/

namespace Runbook.Yaml

open Node

/-- The value of a truth value or a text. -/
theorem scalarValue?_scalar {d : Data} (h : IsScalar d) :
    ∃ text plain, scalarNode d = .scalar noLabel text plain ∧
      scalarValue? none text plain = some d := by
  cases h with
  | bool v =>
      refine ⟨_, true, rfl, ?_⟩
      cases v <;> rfl
  | text s =>
      refine ⟨s.toList, _, rfl, ?_⟩
      have hstyle := styleFor_ofText s.toList
      generalize Style.ofText s.toList = style at hstyle ⊢
      have hquoted : ∀ p, p = false → scalarValue? none s.toList p = some (.text s) := by
        rintro p rfl
        rw [scalarValue?, if_neg (by decide), String.ofList_toList]
      cases hstyle with
      | plain _ hvalue => exact hvalue.trans (by rw [String.ofList_toList])
      | singleQuoted => exact hquoted _ rfl
      | doubleQuoted => exact hquoted _ rfl
      | block => exact hquoted _ rfl

section

variable (links : Links)

theorem dataOf_scalar {d : Data} (h : IsScalar d) (room seen : Nat) :
    dataOf links room (scalarNode d) seen = some (d, seen) := by
  obtain ⟨text, plain, hnode, hvalue⟩ := scalarValue?_scalar h
  rw [hnode, dataOf]
  simp only [follow, keptTag?, noLabel, hvalue, Option.map_some]

mutual

/-- The data of the node of a value. -/
theorem dataOf_valueNode : ∀ (d : Data), Laid d → ∀ (room : Nat), d.nesting ≤ room →
    ∀ seen, dataOf links room (valueNode d) seen = some (d, seen)
  | .bool v, _, room, _, seen => dataOf_scalar links (.bool v) room seen
  | .text s, _, room, _, seen => dataOf_scalar links (.text s) room seen
  | .list ds, h, 0, hn, _ => absurd hn (by rw [Data.nesting]; omega)
  | .list ds, h, room + 1, hn, seen => by
      rw [Data.nesting] at hn
      have hitems := countedAll_itemNodes ds h room (by omega) seen
      rw [valueNode, dataOf]
      simp only [follow, noLabel, hitems, Option.map_some]
      rfl
  | .record fs, h, 0, hn, _ => absurd hn (by rw [Data.nesting]; omega)
  | .record fs, h, room + 1, hn, seen => by
      rw [Data.nesting] at hn
      have hfields := countedFields_fieldNodes fs h.2.2 room (by omega) [] seen h.2.1
        (fun _ hf => nomatch hf)
      rw [List.reverse_nil, List.nil_append] at hfields
      rw [valueNode, dataOf]
      simp only [follow, noLabel, hfields, Option.map_some]
      rfl

theorem countedAll_itemNodes : ∀ (ds : List Data), ItemsLaid ds → ∀ (room : Nat),
    Data.nestingAll ds ≤ room → ∀ seen,
      countedAll (dataOf links room) (itemNodes ds) seen = some (ds, seen)
  | [], _, _, _, _ => rfl
  | d :: ds, h, room, hn, seen => by
      rw [Data.nestingAll] at hn
      rw [itemNodes, countedAll, dataOf_valueNode d h.2.1 room (by omega) seen]
      simp only [countedAll_itemNodes ds h.2.2 room (by omega) seen, Option.map_some]

theorem countedFields_fieldNodes : ∀ (fs : List (Data × Data)), FieldsLaid fs → ∀ (room : Nat),
    Data.nestingFields fs ≤ room → ∀ (before : List (Data × Data)) (seen : Nat),
      ((before.reverse ++ fs).map (·.1)).Nodup →
      (∀ f ∈ before, ∃ s, f.1 = .text s) →
      countedFields (dataOf links room) before (fieldNodes fs) seen =
        some (before.reverse ++ fs, seen)
  | [], _, _, _, before, _, _, _ => by rw [List.append_nil]; rfl
  | (k, v) :: fs, h, room, hn, before, seen, hdup, htexts => by
      obtain ⟨⟨s, rfl, -⟩, hv, hfs⟩ := h
      rw [Data.nestingFields] at hn
      have hnew : (before.any fun b => b.1.same (.text s)) = false := by
        rw [List.any_eq_false]
        intro f hf hsame
        obtain ⟨t, ht⟩ := htexts f hf
        rw [ht, Data.same, beq_iff_eq] at hsame
        rw [List.map_append, List.map_cons, List.nodup_append] at hdup
        refine hdup.2.2 f.1 (List.mem_map_of_mem (List.mem_reverse.mpr hf)) (.text s)
          List.mem_cons_self ?_
        rw [ht, hsame]
      have hrest := countedFields_fieldNodes fs hfs room (by omega) ((.text s, v) :: before) seen
        (by rwa [List.reverse_cons, List.append_assoc, List.singleton_append])
        (by
          intro f hf
          cases List.mem_cons.mp hf with
          | inl he => exact ⟨s, by rw [he]⟩
          | inr hf => exact htexts f hf)
      rw [List.reverse_cons, List.append_assoc, List.singleton_append] at hrest
      rw [fieldNodes, countedFields, dataOf_scalar links (.text s) room seen]
      simp only [hnew, Bool.false_eq_true, if_false, dataOf_valueNode v hv room (by omega) seen,
        hrest]

end

mutual

/-- The node of a value that is nested too deeply has no data. -/
theorem dataOf_valueNode_eq_none : ∀ (d : Data), Laid d → ∀ (room : Nat), room < d.nesting →
    ∀ seen, dataOf links room (valueNode d) seen = none
  | .bool _, _, _, hn, _ => absurd hn (Nat.not_lt_zero _)
  | .text _, _, _, hn, _ => absurd hn (Nat.not_lt_zero _)
  | .list ds, h, 0, _, _ => by
      rw [valueNode, dataOf]
      rfl
  | .list ds, h, room + 1, hn, seen => by
      rw [Data.nesting] at hn
      have hitems := countedAll_itemNodes_eq_none ds h room (by omega) seen
      rw [valueNode, dataOf]
      simp only [follow, hitems, Option.map_none]
  | .record fs, h, 0, _, _ => by
      rw [valueNode, dataOf]
      rfl
  | .record fs, h, room + 1, hn, seen => by
      rw [Data.nesting] at hn
      have hfields := countedFields_fieldNodes_eq_none fs h.2.2 room (by omega) [] seen
      rw [valueNode, dataOf]
      simp only [follow, hfields, Option.map_none]

theorem countedAll_itemNodes_eq_none : ∀ (ds : List Data), ItemsLaid ds → ∀ (room : Nat),
    room < Data.nestingAll ds → ∀ seen,
      countedAll (dataOf links room) (itemNodes ds) seen = none
  | [], _, _, hn, _ => absurd hn (Nat.not_lt_zero _)
  | d :: ds, h, room, hn, seen => by
      rw [Data.nestingAll] at hn
      rw [itemNodes, countedAll]
      by_cases hd : room < d.nesting
      · rw [dataOf_valueNode_eq_none d h.2.1 room hd seen]
      · rw [dataOf_valueNode links d h.2.1 room (by omega) seen]
        simp only [countedAll_itemNodes_eq_none ds h.2.2 room (by omega) seen, Option.map_none]

theorem countedFields_fieldNodes_eq_none : ∀ (fs : List (Data × Data)), FieldsLaid fs →
    ∀ (room : Nat), room < Data.nestingFields fs → ∀ (before : List (Data × Data)) (seen : Nat),
      countedFields (dataOf links room) before (fieldNodes fs) seen = none
  | [], _, _, hn, _, _ => absurd hn (Nat.not_lt_zero _)
  | (k, v) :: fs, h, room, hn, before, seen => by
      obtain ⟨⟨s, rfl, -⟩, hv, hfs⟩ := h
      rw [Data.nestingFields, show (Data.text s).nesting = 0 from rfl] at hn
      rw [fieldNodes, countedFields, dataOf_scalar links (.text s) room seen]
      dsimp only
      split
      · rfl
      by_cases hd : room < v.nesting
      · rw [dataOf_valueNode_eq_none v hv room hd seen]
      · rw [dataOf_valueNode links v hv room (by omega) seen]
        exact countedFields_fieldNodes_eq_none fs hfs room (by omega) _ seen

end

end

/-- The nodes of a written record. -/
theorem ofTokens_print {fs : List (Data × Data)} (h : Laid (.record fs)) :
    Stream.ofTokens (Token.ofChars (print (.record fs)).toList) =
      .single (valueNode (.record fs)) := by
  have hcontent : readContent [] (.blockRecord :: (fieldTokens fs ++ [.blockEnd, .streamEnd])) =
      some (valueNode (.record fs), ⟨[], commonHandles⟩, [.streamEnd]) := by
    rw [readContent, read_record _ _ _ rfl,
      readFields_fieldTokens fs h.2.2 _ _ [.streamEnd] (by simp; omega)]
    rfl
  rw [ofChars_print h, Stream.ofTokens, if_neg (by simp), if_neg (by simp [startsExplicitly]),
    hcontent]
  rfl

/-- Written data is read back. -/
theorem read_print {fs : List (Data × Data)} (h : Laid (.record fs))
    (hn : (Data.record fs).nesting ≤ maxDepth) :
    read (print (.record fs)).toList = .ok (.record fs) := by
  rw [read, ofTokens_print h, ofStream, documentData?,
    dataOf_valueNode _ (.record fs) h maxDepth hn 0]
  rfl

/-- Written data that is nested too deeply is not read. -/
theorem read_print_eq_error {fs : List (Data × Data)} (h : Laid (.record fs))
    (hn : maxDepth < (Data.record fs).nesting) :
    read (print (.record fs)).toList = .error .malformed := by
  rw [read, ofTokens_print h, ofStream, documentData?,
    dataOf_valueNode_eq_none _ (.record fs) h maxDepth hn 0]
  rfl

end Runbook.Yaml
