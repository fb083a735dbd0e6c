import Runbook.Proofs.Json.Values

/-!
# Records come back sorted

A record that is read has its fields in the order of their keys, whatever the order they were
written in, and so at every depth: `read?_pretty` says that a written value is read as its `sorted`
form.

Which list of fields that is, is settled by two facts: it has the same fields, and it is ordered.
A list that has both is the one: `sortFields_eq`.
-/

namespace Runbook.Json

/-! ## The sorted form -/

/-- Fields put one by one into those that are sorted. -/
def sortFields (before : List (Data × Data)) : List (Data × Data) → List (Data × Data)
  | [] => before
  | (.text k, v) :: fs => sortFields (insertField k v before) fs
  | (_, _) :: fs => sortFields before fs

mutual

/-- The value with the fields of all records sorted. -/
def sorted : Data → Data
  | .list ds => .list (sortedItems ds)
  | .record fs => .record (sortFields [] (sortedValues fs))
  | d => d
termination_by structural d => d

/-- The values with the fields of all records sorted. -/
def sortedItems : List Data → List Data
  | [] => []
  | d :: ds => sorted d :: sortedItems ds
termination_by structural ds => ds

/-- Fields in the order they have, with the records within them sorted. -/
def sortedValues : List (Data × Data) → List (Data × Data)
  | [] => []
  | (k, v) :: fs => (k, sorted v) :: sortedValues fs
termination_by structural fs => fs

end

mutual

/-- The tree of a plain value stands for its sorted form. -/
theorem data?_treeOf : ∀ (d : Data), d.Plain → ∀ room : Nat, d.nesting ≤ room →
    (treeOf d).data? room = some (sorted d)
  | .bool _, _, _, _ => rfl
  | .text _, _, _, _ => rfl
  | .list ds, h, room, hroom => by
      rw [Data.nesting] at hroom
      have hitems := itemsData?_treesOf ds h (room - 1) (by omega)
      rw [treeOf, Tree.data?, if_pos ⟨rfl, by omega⟩, hitems]
      rfl
  | .record fs, h, room, hroom => by
      rw [Data.nesting] at hroom
      have hfields := fieldsData?_fieldTreesOf fs h (room - 1) [] (by omega)
      rw [treeOf, Tree.data?, if_pos ⟨rfl, by omega⟩, hfields]
      rfl

theorem itemsData?_treesOf : ∀ (ds : List Data), Data.AllPlain ds → ∀ room : Nat,
    Data.nestingAll ds ≤ room → itemsData? room (treesOf ds) = some (sortedItems ds)
  | [], _, _, _ => rfl
  | d :: ds, h, room, hroom => by
      rw [Data.nestingAll] at hroom
      rw [treesOf, itemsData?, data?_treeOf d h.1 room (by omega),
        itemsData?_treesOf ds h.2 room (by omega)]
      rfl

theorem fieldsData?_fieldTreesOf : ∀ (fs : List (Data × Data)), Data.FieldsPlain fs →
    ∀ (room : Nat) (before : List (Data × Data)), Data.nestingFields fs ≤ room →
      fieldsData? room before (fieldTreesOf fs) = some (sortFields before (sortedValues fs))
  | [], _, _, _, _ => rfl
  | (_, v) :: fs, ⟨⟨k, rfl⟩, hv, hfs⟩, room, before, hroom => by
      rw [Data.nestingFields] at hroom
      rw [fieldTreesOf, fieldsData?, data?_treeOf v hv room (by omega)]
      simp only [fieldsData?_fieldTreesOf fs hfs room _ (by omega : Data.nestingFields fs ≤ room)]
      rfl

end

/-- A written value is read as its sorted form, if it is not nested too deeply. -/
theorem read?_pretty {d : Data} (h : d.Plain) (hdepth : d.nesting ≤ maxDepth) :
    read? (pretty d).toList = some (sorted d) := by
  rw [read?, ofText_pretty h]
  exact data?_treeOf d h maxDepth hdepth

mutual

/-- The tree of a value that is nested too deeply stands for nothing. -/
theorem data?_treeOf_eq_none : ∀ (d : Data), d.Plain → ∀ room : Nat, room < d.nesting →
    (treeOf d).data? room = none
  | .bool _, _, _, hroom => absurd hroom (Nat.not_lt_zero _)
  | .text _, _, _, hroom => absurd hroom (Nat.not_lt_zero _)
  | .list ds, h, room, hroom => by
      rw [Data.nesting] at hroom
      rw [treeOf, Tree.data?]
      split
      · rw [itemsData?_treesOf_eq_none ds h (room - 1) (by omega)]
        rfl
      · rfl
  | .record fs, h, room, hroom => by
      rw [Data.nesting] at hroom
      rw [treeOf, Tree.data?]
      split
      · rw [fieldsData?_fieldTreesOf_eq_none fs h (room - 1) [] (by omega)]
        rfl
      · rfl

theorem itemsData?_treesOf_eq_none : ∀ (ds : List Data), Data.AllPlain ds → ∀ room : Nat,
    room < Data.nestingAll ds → itemsData? room (treesOf ds) = none
  | [], _, _, hroom => absurd hroom (Nat.not_lt_zero _)
  | d :: ds, h, room, hroom => by
      rw [Data.nestingAll] at hroom
      rw [treesOf, itemsData?]
      by_cases hd : room < d.nesting
      · rw [data?_treeOf_eq_none d h.1 room hd]
      · rw [itemsData?_treesOf_eq_none ds h.2 room (by omega)]
        split
        · rename_i hnone
          cases hnone
        · rfl

theorem fieldsData?_fieldTreesOf_eq_none : ∀ (fs : List (Data × Data)), Data.FieldsPlain fs →
    ∀ (room : Nat) (before : List (Data × Data)), room < Data.nestingFields fs →
      fieldsData? room before (fieldTreesOf fs) = none
  | [], _, _, _, hroom => absurd hroom (Nat.not_lt_zero _)
  | (_, v) :: fs, ⟨⟨k, rfl⟩, hv, hfs⟩, room, before, hroom => by
      rw [Data.nestingFields, show (Data.text k).nesting = 0 from rfl] at hroom
      rw [fieldTreesOf, fieldsData?]
      by_cases hd : room < v.nesting
      · rw [data?_treeOf_eq_none v hv room hd]
      · rw [data?_treeOf v hv room (by omega)]
        exact fieldsData?_fieldTreesOf_eq_none fs hfs room _ (by omega)

end

/-- A written value that is nested too deeply is not read. -/
theorem read?_pretty_eq_none {d : Data} (h : d.Plain) (hdepth : maxDepth < d.nesting) :
    read? (pretty d).toList = none := by
  rw [read?, ofText_pretty h]
  exact data?_treeOf_eq_none d h maxDepth hdepth

/-! ## Which list of fields that is -/

/-- A key is a text, and less than another one. -/
def KeyBefore (a b : Data) : Prop := ∃ j k, a = .text j ∧ b = .text k ∧ j < k

/-- Fields with texts for keys, in the order of their keys. -/
structure Ordered (fs : List (Data × Data)) : Prop where
  /-- Every key is a text. -/
  texts : ∀ f ∈ fs, ∃ k, f.1 = .text k
  /-- Every field is before those after it. -/
  before : fs.Pairwise fun f g => KeyBefore f.1 g.1

theorem KeyBefore.ne {a b : Data} (h : KeyBefore a b) : a ≠ b := by
  obtain ⟨j, k, rfl, rfl, hlt⟩ := h
  intro he
  injection he with he
  exact String.ne_of_lt hlt he

theorem KeyBefore.asymm {a b : Data} (h : KeyBefore a b) : ¬ KeyBefore b a := by
  obtain ⟨j, k, rfl, rfl, hlt⟩ := h
  rintro ⟨j', k', hj, hk, hlt'⟩
  injection hj with hj
  injection hk with hk
  subst hj hk
  exact String.lt_asymm hlt hlt'

theorem Ordered.nodup {fs : List (Data × Data)} (h : Ordered fs) : (fs.map (·.1)).Nodup :=
  List.pairwise_map.mpr (h.before.imp fun hb => hb.ne)

/-- A new field is put among those that are there. -/
theorem insertField_perm {k : String} (v : Data) : ∀ {fs : List (Data × Data)},
    (∀ f ∈ fs, ∃ j, f.1 = .text j) → .text k ∉ fs.map (·.1) →
      (insertField k v fs).Perm ((.text k, v) :: fs)
  | [], _, _ => .refl _
  | (_, w) :: fs, ht, hk => by
      obtain ⟨j, rfl⟩ := ht _ List.mem_cons_self
      rw [List.map_cons, List.mem_cons, not_or] at hk
      have hne : k ≠ j := fun he => hk.1 (by rw [he])
      rw [insertField, if_neg hne]
      split
      · exact .refl _
      · have ih := insertField_perm v (fun f hf => ht f (List.mem_cons_of_mem _ hf)) hk.2
        exact (ih.cons _).trans (.swap _ _ _)

/-- Only the field that is put among others is new. -/
theorem mem_insertField {k : String} {v : Data} {g : Data × Data} : ∀ {fs : List (Data × Data)},
    g ∈ insertField k v fs → g = (.text k, v) ∨ g ∈ fs := by
  intro fs
  fun_induction insertField k v fs with
  | case1 => exact fun h => .inl (List.mem_singleton.mp h)
  | case2 => grind
  | case3 => grind
  | case4 _ _ _ _ _ ih => grind
  | case5 _ _ _ ih => grind

/-- Putting a field among ordered ones leaves them ordered. -/
theorem Ordered.insertField {k : String} (v : Data) : ∀ {fs : List (Data × Data)}, Ordered fs →
    Ordered (insertField k v fs)
  | [], _ => ⟨fun f hf => ⟨k, by rw [List.mem_singleton.mp hf]⟩, List.pairwise_singleton _ _⟩
  | (_, w) :: fs, ⟨ht, hb⟩ => by
      obtain ⟨j, rfl⟩ := ht _ List.mem_cons_self
      rw [List.pairwise_cons] at hb
      have htail : ∀ f ∈ fs, ∃ k, f.1 = .text k := fun f hf => ht f (List.mem_cons_of_mem _ hf)
      rw [Json.insertField]
      split
      · next heq =>
        subst heq
        exact ⟨List.forall_mem_cons.mpr ⟨⟨_, rfl⟩, htail⟩, List.pairwise_cons.mpr hb⟩
      · next hne =>
        split
        · next hlt =>
          refine ⟨List.forall_mem_cons.mpr ⟨⟨k, rfl⟩, ht⟩, List.pairwise_cons.mpr
            ⟨List.forall_mem_cons.mpr ⟨⟨k, j, rfl, rfl, hlt⟩, fun g hg => ?_⟩,
              List.pairwise_cons.mpr hb⟩⟩
          obtain ⟨j', k', hj, hk', hlt'⟩ := hb.1 g hg
          injection hj with hj
          subst hj
          exact ⟨k, k', rfl, hk', String.lt_trans hlt hlt'⟩
        · next hle =>
          have hlt : j < k := by
            rcases String.le_total j k with hjk | hkj
            · exact Std.lt_of_le_of_ne hjk (Ne.symm hne)
            · exact absurd (Std.lt_of_le_of_ne hkj hne) hle
          have ih : Ordered (Json.insertField k v fs) := insertField v ⟨htail, hb.2⟩
          refine ⟨List.forall_mem_cons.mpr ⟨⟨j, rfl⟩, ih.texts⟩,
            List.pairwise_cons.mpr ⟨fun g hg => ?_, ih.before⟩⟩
          cases mem_insertField hg with
          | inl he => exact ⟨j, k, rfl, by rw [he], hlt⟩
          | inr hg => exact hb.1 g hg

/-- The fields that are put among others are there in the end, and all are ordered. -/
theorem sortFields_spec : ∀ {fs before : List (Data × Data)}, Ordered before →
    (∀ f ∈ fs, ∃ k, f.1 = .text k) → ((before ++ fs).map (·.1)).Nodup →
      (sortFields before fs).Perm (before ++ fs) ∧ Ordered (sortFields before fs)
  | [], before, hb, _, _ => ⟨by rw [List.append_nil]; exact .refl _, hb⟩
  | (_, v) :: fs, before, hb, ht, hdup => by
      obtain ⟨k, rfl⟩ := ht _ List.mem_cons_self
      have hnew : .text k ∉ before.map (·.1) := by
        rw [List.map_append, List.map_cons] at hdup
        exact fun hk => (List.nodup_append.mp hdup).2.2 _ hk _ List.mem_cons_self rfl
      have hperm := insertField_perm v hb.texts hnew
      have hmove : (Json.insertField k v before ++ fs).Perm (before ++ (.text k, v) :: fs) :=
        (hperm.append_right fs).trans List.perm_middle.symm
      obtain ⟨hp, ho⟩ := sortFields_spec (hb.insertField v)
        (fun f hf => ht f (List.mem_cons_of_mem _ hf)) ((hmove.map _).nodup_iff.mpr hdup)
      exact ⟨hp.trans hmove, ho⟩

/-- Ordered fields are what any list of the same fields is sorted to. -/
theorem sortFields_eq {fs gs : List (Data × Data)} (hg : Ordered gs) (hp : gs.Perm fs) :
    sortFields [] fs = gs := by
  have ht : ∀ f ∈ fs, ∃ k, f.1 = .text k := fun f hf => hg.texts f (hp.mem_iff.mpr hf)
  obtain ⟨hp', ho⟩ := sortFields_spec ⟨by simp, List.Pairwise.nil⟩ ht
    ((hp.map _).nodup_iff.mp hg.nodup)
  exact List.Perm.eq_of_pairwise (fun f g _ _ hfg hgf => absurd hgf hfg.asymm) ho.before hg.before
    (hp'.trans hp.symm)

/-- Fields are ordered if their keys are among names in order. -/
theorem ordered_of_names {fs : List (Data × Data)} (names : List String)
    (h : (fs.map (·.1)).Sublist (names.map Data.text)) (hn : names.Pairwise (· < ·)) :
    Ordered fs := by
  refine ⟨fun f hf => ?_, List.pairwise_map.mp (List.Pairwise.sublist h ?_)⟩
  · obtain ⟨k, -, hk⟩ := List.mem_map.mp (h.subset (List.mem_map_of_mem hf))
    exact ⟨k, hk.symm⟩
  · exact List.pairwise_map.mpr (hn.imp fun hjk => ⟨_, _, rfl, rfl, hjk⟩)

end Runbook.Json
