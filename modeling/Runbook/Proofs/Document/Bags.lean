import Runbook.Proofs.Document.DataBags
import Runbook.Proofs.Document.MarkupBags
import Runbook.Proofs.Json.Sorted

/-!
# Properties of steps in every format

Whatever the format, the properties of a step that is read are its loose fields overlaid with its
declared properties: `Format.bags_of_parse`.

What the fields of a step are depends on the format.  In XML they are what is marked up in the text,
and in YAML they are the fields of data, which has no field twice.  A JSON record may have a field
twice, and the last one counts.  `Json.Tree.Stands` says this of the tree of a text, in which all
fields are still there, and of the data it stands for.
-/

namespace Runbook

open Runbook.Xml

/-! ## Trees of JSON and their data -/

namespace Json

/-- A tree stands for a value.  In the value fields are in the order of their keys, and the last one
of several with the same key counts. -/
inductive Tree.Stands : Tree → Data → Prop where
  | null : Tree.Stands .null .null
  | bool (b : Bool) : Tree.Stands (.bool b) (.bool b)
  | int (n : Int) : Tree.Stands (.int n) (.int n)
  | real (x : Binary64) : Tree.Stands (.real x) (.real x)
  | text (s : String) : Tree.Stands (.text s) (.text s)
  | list {items : List Tree} {ds : List Data} :
      List.Forall₂ Tree.Stands items ds → Tree.Stands (.list items true) (.list ds)
  | record {fs : List (String × Tree)} {gs : List (Data × Data)} :
      Ordered gs →
      (∀ k, Option.Rel Tree.Stands (Pairs.last? fs k) (Pairs.last? (Data.named gs) k)) →
      Tree.Stands (.record fs true) (.record gs)

/-- Ordered fields have different names. -/
theorem Ordered.nodup_named {fs : List (Data × Data)} (h : Ordered fs) :
    ((Data.named fs).map (·.1)).Nodup := by
  refine List.pairwise_map.mpr (h.before.filterMap _ ?_)
  rintro ⟨_, v⟩ ⟨_, w⟩ ⟨j, k, rfl, rfl, hlt⟩ a ha b hb
  cases ha
  cases hb
  exact String.ne_of_lt hlt

/-- A field put among others is the one of its name, and the others stay. -/
theorem lookup_named_insertField (k : String) (v : Data) (j : String) :
    ∀ {fs : List (Data × Data)}, (∀ f ∈ fs, ∃ i, f.1 = .text i) →
      (Data.named (insertField k v fs)).lookup j =
        if j = k then some v else (Data.named fs).lookup j
  | [], _ => Pairs.lookup_cons_eq (k, v) [] j
  | (_, w) :: fs, h => by
      obtain ⟨i, rfl⟩ := h _ List.mem_cons_self
      have hcons (n : String) (x : Data) (gs : List (Data × Data)) :
          (Data.named ((.text n, x) :: gs)).lookup j =
            if j = n then some x else (Data.named gs).lookup j := Pairs.lookup_cons_eq (n, x) _ j
      have ih := lookup_named_insertField k v j fun f hf => h f (List.mem_cons_of_mem _ hf)
      rw [insertField]
      split
      · next heq =>
        subst heq
        rw [hcons, hcons]
        split <;> rfl
      · next hne =>
        split
        · exact hcons k v _
        · rw [hcons, hcons, ih]
          split
          · next hj => rw [if_neg (hj ▸ Ne.symm hne)]
          · rfl

/-- The last of several fields with the same name is in the data. -/
structure FieldsStand (fs : List (String × Tree)) (gs : List (Data × Data)) : Prop where
  /-- The fields are in the order of their names. -/
  ordered : Ordered gs
  /-- The value of a name is that of its last field. -/
  last : ∀ k, Option.Rel Tree.Stands (Pairs.last? fs k) (Pairs.last? (Data.named gs) k)

theorem fieldsStand_nil : FieldsStand [] [] := ⟨⟨nofun, .nil⟩, fun _ => .none⟩

/-- One more field counts, and no other one with its name. -/
theorem FieldsStand.concat {fs : List (String × Tree)} {gs : List (Data × Data)}
    (h : FieldsStand fs gs) (k : String) {t : Tree} {d : Data} (ht : t.Stands d) :
    FieldsStand (fs ++ [(k, t)]) (insertField k d gs) where
  ordered := h.ordered.insertField d
  last j := by
    rw [Pairs.last?_concat, Pairs.last?_eq_lookup j (h.ordered.insertField d).nodup_named,
      lookup_named_insertField k d j h.ordered.texts]
    split
    · exact .some ht
    · rw [← Pairs.last?_eq_lookup j h.ordered.nodup_named]
      exact h.last j

mutual

/-- The value of a tree is one that it stands for. -/
theorem Tree.stands : ∀ (t : Tree) {room : Nat} {d : Data}, t.data? room = some d → t.Stands d
  | .null, _, _, h => by
      cases h
      exact .null
  | .bool b, _, _, h => by
      cases h
      exact .bool b
  | .int n, _, _, h => by
      cases h
      exact .int n
  | .real x, _, _, h => by
      cases h
      exact .real x
  | .text s, _, _, h => by
      cases h
      exact .text s
  | .list items closed, room, d, h => by
      rw [Tree.data?] at h
      split at h
      · next hclosed =>
        obtain ⟨ds, hds, rfl⟩ := Option.map_eq_some_iff.mp h
        obtain ⟨rfl, -⟩ := hclosed
        exact .list (items_stand items hds)
      · cases h
  | .record fs closed, room, d, h => by
      rw [Tree.data?] at h
      split at h
      · next hclosed =>
        obtain ⟨gs, hgs, rfl⟩ := Option.map_eq_some_iff.mp h
        obtain ⟨rfl, -⟩ := hclosed
        have hfields : FieldsStand fs gs := fields_stand fs fieldsStand_nil hgs
        exact .record hfields.ordered hfields.last
      · cases h
  | .unreadable, _, _, h => nomatch h
  | .broken, _, _, h => nomatch h

theorem items_stand : ∀ (ts : List Tree) {room : Nat} {ds : List Data},
    itemsData? room ts = some ds → List.Forall₂ Tree.Stands ts ds
  | [], _, _, h => by
      cases h
      exact .nil
  | t :: ts, room, _, h => by
      rw [itemsData?] at h
      split at h
      · next d ds hd hds =>
        cases h
        exact .cons (Tree.stands t hd) (items_stand ts hds)
      · cases h

theorem fields_stand : ∀ (fs : List (String × Tree)) {room : Nat}
    {done : List (String × Tree)} {before gs : List (Data × Data)}, FieldsStand done before →
      fieldsData? room before fs = some gs → FieldsStand (done ++ fs) gs
  | [], _, done, _, _, hdone, h => by
      cases h
      rwa [List.append_nil]
  | (k, t) :: fs, room, done, before, gs, hdone, h => by
      rw [fieldsData?] at h
      split at h
      · next d hd =>
        rw [List.append_cons]
        exact fields_stand fs (hdone.concat k (Tree.stands t hd)) h
      · cases h

end

end Json

/-! ## Documents -/

namespace Format

/-- Steps have the properties that a text of a format gives them.  In XML this is so however the
text is taken apart into markup. -/
def GivesBags : Format → String → List Step → Prop
  | xml, text, ss =>
      (∃ d : Xml.Document, ∃ e, d.Writes e ∧ SameEnd text.toList d.chars) ∧
      ∀ (d : Xml.Document) (e : Element), d.Writes e → SameEnd text.toList d.chars →
        List.Forall₂ Step.FromMarkup d.root.steps ss
  | json, text, ss =>
      ∃ t d, Json.Tree.ofText text.toList = (t, true) ∧ t.Stands d ∧
        Sequence.StepsFromData Dialect.json d ss
  | yaml, text, ss => ∃ d, yamlData text = .ok d ∧ Sequence.StepsFromData Dialect.yaml d ss

end Format

theorem Sequence.stepsFromRoot {format : Format} {dl : Dialect} {rootFault : String}
    {fresh : Fresh} {d : Data} {s : Sequence}
    (h : Sequence.ofRoot format dl rootFault fresh d = .ok s) : StepsFromData dl d s.steps := by
  rw [Sequence.ofRoot] at h
  split at h
  · split at h
    · next hread =>
      cases h
      exact stepsFromData hread
    · cases h
  · cases h

theorem exists_of_jsonData {text : String} {d : Data} (h : jsonData text = .ok d) :
    ∃ t, Json.Tree.ofText text.toList = (t, true) ∧ t.Stands d := by
  rw [jsonData, Json.read?] at h
  split at h
  · next hd =>
    cases h
    split at hd
    · next t ht => exact ⟨t, ht, t.stands hd⟩
    · cases hd
  · cases h

namespace Format

/-- The properties of the steps of a text are their loose fields overlaid with their declared
properties. -/
theorem bags_of_parse {f : Format} {fresh : Fresh} {text : String} {s : Sequence}
    (h : f.parse fresh text = .ok s) : f.GivesBags text s.steps := by
  cases f with
  | xml =>
    refine ⟨exists_document_of_parse h, fun d e hd htext => ?_⟩
    rw [parse_xml_of_writes fresh hd htext] at h
    exact Sequence.stepsFromMarkup fresh hd.root h
  | json =>
    obtain ⟨d, hd, h⟩ := exists_of_bind_eq_ok h
    obtain ⟨t, ht, hstands⟩ := exists_of_jsonData hd
    exact ⟨t, d, ht, hstands, Sequence.stepsFromRoot h⟩
  | yaml =>
    obtain ⟨d, hd, h⟩ := exists_of_bind_eq_ok h
    exact ⟨d, hd, Sequence.stepsFromRoot h⟩

/-- A text with one step, a loose field of it, and two declared properties. -/
def overlaidText : String :=
  "\x7b\"steps\":[\x7b\"A\":\"x\",\"properties\":\x7b\"a\":true,\"A\":null\x7d\x7d]\x7d"

/-- A declared property takes the place of a loose field, and one whose name differs in case comes
behind. -/
theorem bags_of_parse_overlaidText : ∃ s, json.parse Fresh.constant overlaidText = .ok s ∧
    s.steps.map (·.properties) = [[("A", ""), ("a", "true")]] ∧
    json.GivesBags overlaidText s.steps := by
  have hread : ((json.parse Fresh.constant overlaidText).toOption.map fun s =>
      s.steps.map (·.properties)) = some [[("A", ""), ("a", "true")]] := by decide +kernel
  cases hs : json.parse Fresh.constant overlaidText with
  | error fault =>
    rw [hs] at hread
    cases hread
  | ok s =>
    rw [hs] at hread
    exact ⟨s, rfl, Option.some.inj hread, bags_of_parse hs⟩

end Format

end Runbook
