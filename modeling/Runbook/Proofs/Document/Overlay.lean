import Mathlib.Data.List.Nodup
import Runbook.Pairs

/-!
# Maps overlaid with maps

Insertion keeps the keys of a map apart, and insertions one after the other make a map of any list
of pairs.  Of several pairs with a key the last one counts.

The properties of a step are a map of loose fields overlaid with a map of declared ones.
`Pairs.Overlays` says this of the lists of fields as they stand in a document, in which a key may
come twice and a loose field may have no text: the last declared field of a key counts, or else the
last loose one, and the keys of the loose fields come first.

Both maps are made by inserting fields one after the other, which `insertEach` is for values of any
type.
-/

namespace Runbook
namespace Pairs

variable {α β : Type}

/-! ## Keys -/

theorem isSome_lookup_iff {k : String} {ps : List (String × α)} :
    (ps.lookup k).isSome = true ↔ k ∈ ps.map (·.1) := by
  induction ps with
  | nil => simp
  | cons p ps ih =>
    rw [lookup_cons_eq, List.map_cons, List.mem_cons, ← ih]
    split
    · next hk => simp [hk]
    · next hk => simp [hk]

theorem lookup_eq_none_of_notMem {k : String} {ps : List (String × α)} (h : k ∉ ps.map (·.1)) :
    ps.lookup k = none := by
  rw [← Option.not_isSome_iff_eq_none, isSome_lookup_iff]
  exact h

/-! ## Insertion keeps maps -/

theorem mem_keys_insert (k : String) (v : α) (j : String) (ps : List (String × α)) :
    j ∈ (Pairs.insert ps k v).map (·.1) ↔ j = k ∨ j ∈ ps.map (·.1) := by
  rw [keys_insert_eq]
  split
  · next hk => exact (or_iff_right_of_imp fun hj => hj ▸ hk).symm
  · rw [List.mem_append, List.mem_singleton, or_comm]

theorem nodup_insert (k : String) (v : α) {ps : List (String × α)} (h : (ps.map (·.1)).Nodup) :
    ((Pairs.insert ps k v).map (·.1)).Nodup := by
  rw [keys_insert_eq]
  split
  · exact h
  · next hk => exact List.nodup_append_comm.mp (List.nodup_cons.mpr ⟨hk, h⟩)

/-! ## Pairs inserted one after the other -/

/-- The value of the last pair with a key. -/
def last? (qs : List (String × α)) (k : String) : Option α := qs.reverse.lookup k

/-- Inserts pairs one after the other. -/
def insertEach (ps qs : List (String × α)) : List (String × α) :=
  qs.foldl (fun acc q => insert acc q.1 q.2) ps

theorem last?_cons (q : String × α) (qs : List (String × α)) (k : String) :
    last? (q :: qs) k = (last? qs k).or (if k = q.1 then some q.2 else none) := by
  rw [last?, List.reverse_cons, List.lookup_append, last?, lookup_cons_eq]
  rfl

theorem last?_concat (qs : List (String × α)) (q : String × α) (k : String) :
    last? (qs ++ [q]) k = if k = q.1 then some q.2 else last? qs k := by
  rw [last?, List.reverse_append, List.reverse_singleton, List.singleton_append, lookup_cons_eq]
  rfl

/-- If no key comes twice, the last pair with a key is the first one. -/
theorem last?_eq_lookup (k : String) : ∀ {qs : List (String × α)}, (qs.map (·.1)).Nodup →
    last? qs k = qs.lookup k
  | [], _ => rfl
  | q :: qs, h => by
      rw [List.map_cons, List.nodup_cons] at h
      rw [last?_cons, lookup_cons_eq, last?_eq_lookup k h.2]
      split
      · next hk =>
        subst hk
        rw [lookup_eq_none_of_notMem h.1]
        rfl
      · rw [Option.or_none]

theorem lookup_insertEach (k : String) : ∀ qs ps : List (String × α),
    (insertEach ps qs).lookup k = (last? qs k).or (ps.lookup k)
  | [], _ => rfl
  | q :: qs, ps => by
      have hstep : insertEach ps (q :: qs) = insertEach (insert ps q.1 q.2) qs := rfl
      rw [hstep, lookup_insertEach k qs, lookup_insert_eq, last?_cons, Option.or_assoc]
      split <;> rfl

theorem nodup_insertEach : ∀ {qs ps : List (String × α)}, (ps.map (·.1)).Nodup →
    ((insertEach ps qs).map (·.1)).Nodup
  | [], _, h => h
  | q :: qs, ps, h => @nodup_insertEach qs (insert ps q.1 q.2) (nodup_insert q.1 q.2 h)

theorem nodup_insertAll {ps qs : Pairs} (h : ps.keys.Nodup) : (insertAll ps qs).keys.Nodup :=
  nodup_insertEach h

theorem nodup_ofList (qs : List (String × String)) : (ofList qs).keys.Nodup :=
  nodup_insertAll List.nodup_nil

/-- New keys come behind, in the order in which they are first inserted. -/
theorem exists_keys_insertEach : ∀ qs ps : List (String × α),
    ∃ ks, (insertEach ps qs).map (·.1) = ps.map (·.1) ++ ks ∧ ks.Sublist (qs.map (·.1))
  | [], ps => ⟨[], (List.append_nil _).symm, .slnil⟩
  | q :: qs, ps => by
      obtain ⟨ks, hks, hsub⟩ := exists_keys_insertEach qs (insert ps q.1 q.2)
      have hstep : insertEach ps (q :: qs) = insertEach (insert ps q.1 q.2) qs := rfl
      rw [hstep, hks, keys_insert_eq]
      split
      · exact ⟨ks, rfl, hsub.cons q.1⟩
      · exact ⟨q.1 :: ks, by rw [List.append_assoc]; rfl, hsub.cons_cons q.1⟩

/-- Insertion does not look at values. -/
theorem insert_map (f : α → β) (k : String) (v : α) : ∀ ps : List (String × α),
    insert (ps.map (Prod.map id f)) k (f v) = (insert ps k v).map (Prod.map id f)
  | [] => rfl
  | (i, w) :: ps => by
      by_cases hi : i = k
      · simp [insert, hi]
      · simp [insert, hi, insert_map f k v ps]

theorem insertEach_map (f : α → β) : ∀ qs ps : List (String × α),
    insertEach (ps.map (Prod.map id f)) (qs.map (Prod.map id f)) =
      (insertEach ps qs).map (Prod.map id f)
  | [], _ => rfl
  | q :: qs, ps => by
      have hstep : insertEach (ps.map (Prod.map id f)) ((q :: qs).map (Prod.map id f)) =
          insertEach (insert (ps.map (Prod.map id f)) q.1 (f q.2)) (qs.map (Prod.map id f)) := rfl
      rw [hstep, insert_map, insertEach_map f qs]
      rfl

/-! ## Values that are there -/

/-- The pairs with a value. -/
def present (ps : List (String × Option String)) : Pairs :=
  ps.filterMap fun p => p.2.map (p.1, ·)

/-- The keys of the values that are there. -/
theorem keys_filterMap_sublist : ∀ ps : List (String × Option String),
    (keys (ps.filterMap fun p => p.2.map (p.1, ·))).Sublist (ps.map (·.1))
  | [] => .slnil
  | (k, none) :: ps => (keys_filterMap_sublist ps).cons k
  | (k, some _) :: ps => (keys_filterMap_sublist ps).cons_cons k

theorem lookup_present (k : String) : ∀ {ps : List (String × Option String)},
    (ps.map (·.1)).Nodup → (present ps).get? k = (ps.lookup k).join
  | [], _ => rfl
  | (i, none) :: ps, h => by
      rw [List.map_cons, List.nodup_cons] at h
      have ih : (present ((i, none) :: ps)).get? k = (ps.lookup k).join := lookup_present k h.2
      rw [ih, lookup_cons_eq]
      split
      · next hk =>
        subst hk
        rw [lookup_eq_none_of_notMem h.1]
        rfl
      · rfl
  | (i, some t) :: ps, h => by
      rw [List.map_cons, List.nodup_cons] at h
      have hcons : present ((i, some t) :: ps) = (i, t) :: present ps := rfl
      rw [hcons, get?_cons, lookup_cons_eq, lookup_present k h.2]
      split <;> rfl

theorem present_map_some (ps : Pairs) : present (ps.map (Prod.map id some)) = ps := by
  induction ps with
  | nil => rfl
  | cons p ps ih => exact congrArg (p :: ·) ih

/-! ## Overlays -/

/-- A map is made of loose fields, of which some have no text, overlaid with declared ones. -/
structure Overlays (ps : Pairs) (loose : List (String × Option String))
    (declared : List (String × String)) : Prop where
  /-- The last declared field of a key counts, or else the last loose one. -/
  value : ∀ k, ps.get? k = (last? declared k).or (last? loose k).join
  /-- No key comes twice. -/
  nodup : ps.keys.Nodup
  /-- The keys of loose fields come first, also if they are declared, and all in their order. -/
  order : ∃ ks js, ps.keys = ks ++ js ∧ (∀ k, k ∈ ks ↔ ((last? loose k).join).isSome = true) ∧
    ks.Sublist (loose.map (·.1)) ∧ js.Sublist (declared.map (·.1))

/-- Insertion overlays. -/
theorem overlays_insertAll (loose : List (String × Option String))
    (declared : List (String × String)) :
    (insertAll (present (insertEach [] loose)) declared).Overlays loose declared := by
  have hloose : ((insertEach [] loose).map (·.1)).Nodup := nodup_insertEach List.nodup_nil
  have hget (k : String) : (present (insertEach [] loose)).get? k = (last? loose k).join := by
    rw [lookup_present k hloose, lookup_insertEach]
    cases last? loose k <;> rfl
  have hkeys : (present (insertEach [] loose)).keys.Sublist (loose.map (·.1)) := by
    obtain ⟨ks, hks, hsub⟩ := exists_keys_insertEach loose []
    have heach : (insertEach [] loose).map (·.1) = ks := hks
    exact (keys_filterMap_sublist _).trans (heach ▸ hsub)
  obtain ⟨js, hjs, hsub⟩ := exists_keys_insertEach declared (present (insertEach [] loose))
  refine ⟨fun k => ?_, nodup_insertAll ((keys_filterMap_sublist _).nodup hloose), _, js, hjs,
    fun k => ?_, hkeys, hsub⟩
  · rw [← hget]
    exact lookup_insertEach k declared _
  · rw [← hget]
    exact isSome_lookup_iff.symm

end Pairs
end Runbook
