import Mathlib.Data.List.Induction
import Runbook.Proofs.Document.Overlay
import Runbook.Proofs.Store.Overriding

/-!
# Spellings of variables

A map tells the spellings of a variable apart, and a store does not.  Pairs that are put into a map
one after the other therefore come to what a store makes of them only where each variable is spelled
in one way: then the map has the value that was given last (`Pairs.lastValue?_insertAll`), and lists
the variables in the same order (`Pairs.ofList_eq_map`).
-/

namespace Runbook

open Store (firstSpellings keyOf lastValue?)

namespace Pairs

variable {key : String} {ps qs : Pairs}

/-- No two of the names are spellings of the same variable. -/
def OneSpelling (ns : List String) : Prop := ∀ m ∈ ns, ∀ n ∈ ns, keyOf m = keyOf n → m = n

theorem isSome_lastValue?_iff_keys :
    (lastValue? ps key).isSome = true ↔ ∃ n ∈ ps.keys, keyOf n = key := by
  simp [Store.isSome_lastValue?, keys]

theorem mem_keys_insertAll {n : String} : ∀ {qs ps : Pairs},
    n ∈ (insertAll ps qs).keys ↔ n ∈ ps.keys ∨ n ∈ qs.keys
  | [], ps => by simp [insertAll, keys]
  | q :: qs, ps => by
      have hstep : insertAll ps (q :: qs) = insertAll (Pairs.insert ps q.1 q.2) qs := rfl
      have hkeys : n ∈ keys (Pairs.insert ps q.1 q.2) ↔ n = q.1 ∨ n ∈ ps.keys :=
        mem_keys_insert q.1 q.2 n ps
      have hcons : n ∈ keys (q :: qs) ↔ n = q.1 ∨ n ∈ keys qs := List.mem_cons
      rw [hstep, mem_keys_insertAll, hkeys, hcons]
      tauto

/-- A variable has a value after insertions if it had one, or got one. -/
theorem isSome_lastValue?_insertAll :
    (lastValue? (insertAll ps qs) key).isSome = true ↔
      (lastValue? ps key).isSome = true ∨ (lastValue? qs key).isSome = true := by
  simp only [isSome_lastValue?_iff_keys, mem_keys_insertAll, or_and_right, exists_or]

/-- An insertion leaves other variables alone. -/
theorem lastValue?_insert_of_ne {k v : String} (h : keyOf k ≠ key) : ∀ ps : Pairs,
    lastValue? (Pairs.insert ps k v) key = lastValue? ps key
  | [] => by simp [Pairs.insert, lastValue?, h]
  | (i, w) :: ps => by
      rw [Pairs.insert]
      split
      · next hi =>
        subst hi
        rw [Store.lastValue?_cons, Store.lastValue?_cons, if_neg h, if_neg h]
      · rw [Store.lastValue?_cons, Store.lastValue?_cons, lastValue?_insert_of_ne h ps]

/-- An insertion gives its value to a variable that is spelled in one way. -/
theorem lastValue?_insert_self {k v : String} : ∀ {ps : Pairs}, ps.keys.Nodup →
    (∀ n ∈ ps.keys, keyOf n = keyOf k → n = k) →
      lastValue? (Pairs.insert ps k v) (keyOf k) = some v
  | [], _, _ => by simp [Pairs.insert, lastValue?]
  | (i, w) :: ps, hnodup, hone => by
      obtain ⟨hi, hnodup⟩ := List.nodup_cons.mp hnodup
      obtain ⟨hone', hones⟩ := List.forall_mem_cons.mp hone
      rw [Pairs.insert]
      split
      · next heq =>
        subst heq
        have hlater : lastValue? ps (keyOf i) = none :=
          Store.lastValue?_eq_none fun u hu hkey =>
            have hmem : u.1 ∈ keys ps := List.mem_map_of_mem hu
            hi (hones u.1 hmem hkey ▸ hmem)
        rw [Store.lastValue?_cons, hlater, if_pos rfl, Option.none_or]
      · rw [Store.lastValue?_cons, lastValue?_insert_self hnodup hones, Option.some_or]

/-- Insertions leave other variables alone. -/
theorem lastValue?_insertAll_of_none : ∀ {qs ps : Pairs}, lastValue? qs key = none →
    lastValue? (insertAll ps qs) key = lastValue? ps key
  | [], _, _ => rfl
  | q :: qs, ps, h => by
      have hstep : insertAll ps (q :: qs) = insertAll (Pairs.insert ps q.1 q.2) qs := rfl
      rw [Store.lastValue?_cons, Option.or_eq_none_iff] at h
      have hq : keyOf q.1 ≠ key := fun hkey => by simp [hkey] at h
      rw [hstep, lastValue?_insertAll_of_none h.1, lastValue?_insert_of_ne hq]

/-- Where each variable is spelled in one way, the last insertion counts. -/
theorem lastValue?_insertAll : ∀ {qs ps : Pairs}, ps.keys.Nodup → OneSpelling (ps ++ qs).keys →
    lastValue? (insertAll ps qs) key = (lastValue? qs key).or (lastValue? ps key)
  | [], _, _, _ => rfl
  | q :: qs, ps, hnodup, hone => by
      have hstep : insertAll ps (q :: qs) = insertAll (Pairs.insert ps q.1 q.2) qs := rfl
      have hkeys : ∀ n ∈ keys (Pairs.insert ps q.1 q.2 ++ qs), n ∈ keys (ps ++ q :: qs) := by
        intro n hn
        rw [keys, List.map_append, List.mem_append, mem_keys_insert] at hn
        rw [keys, List.map_append, List.map_cons, List.mem_append, List.mem_cons]
        tauto
      rw [hstep, lastValue?_insertAll (nodup_insert q.1 q.2 hnodup)
        fun m hm n hn => hone m (hkeys m hm) n (hkeys n hn), Store.lastValue?_cons, Option.or_assoc]
      by_cases hq : keyOf q.1 = key
      · have hself : q.1 ∈ (ps ++ q :: qs).keys := by simp [keys]
        rw [← hq, lastValue?_insert_self hnodup, if_pos rfl, Option.some_or]
        intro n hn hkey
        exact hone n (by rw [keys, List.map_append]; exact List.mem_append_left _ hn) _ hself hkey
      · rw [lastValue?_insert_of_ne hq, if_neg hq, Option.none_or]

/-! ## Maps of lists -/

/-- Keys that are spelled in one way are those of different variables. -/
theorem OneSpelling.pairwise (hone : OneSpelling ps.keys) (hnodup : ps.keys.Nodup) :
    ps.Pairwise fun p q => keyOf p.1 ≠ keyOf q.1 := by
  refine (List.pairwise_map.mp hnodup).imp_of_mem fun hp hq hne hkey => hne ?_
  exact hone _ (List.mem_map_of_mem hp) _ (List.mem_map_of_mem hq) hkey

theorem ofList_concat (ws : Pairs) (w : String × String) :
    ofList (ws ++ [w]) = Pairs.insert (ofList ws) w.1 w.2 := by
  rw [ofList, insertAll, List.foldl_append]
  rfl

theorem mem_keys_ofList {n : String} {ws : Pairs} : n ∈ (ofList ws).keys ↔ n ∈ ws.keys :=
  mem_keys_insertAll.trans (or_iff_right List.not_mem_nil)

/-- A map lists variables that are spelled in one way in order of their first spellings. -/
theorem keys_ofList {ws : Pairs} (hone : OneSpelling ws.keys) :
    (ofList ws).keys = firstSpellings ws.keys := by
  induction ws using List.reverseRecOn with
  | nil => rfl
  | append_singleton ws w ih =>
    have hkeys : keys (ws ++ [w]) = keys ws ++ [w.1] := List.map_append
    have hones : OneSpelling (keys ws) := fun m hm n hn =>
      hone m (hkeys ▸ List.mem_append_left _ hm) n (hkeys ▸ List.mem_append_left _ hn)
    have hself : w.1 ∈ keys (ws ++ [w]) :=
      hkeys ▸ List.mem_append_right _ List.mem_cons_self
    rw [ofList_concat, keys_insert, hkeys, Store.firstSpellings_concat, ih hones]
    -- The name is a key already if its variable is one, because both are spelled in the same way.
    refine if_congr ⟨fun hmem => ⟨w.1, hmem, rfl⟩, fun ⟨m, hm, hkey⟩ => ?_⟩ rfl rfl
    have hearlier : m ∈ keys (ws ++ [w]) :=
      hkeys ▸ List.mem_append_left _ (Store.mem_of_mem_firstSpellings hm)
    exact hone m hearlier w.1 hself hkey ▸ hm

/-- A map of pairs in which variables are spelled in one way has for each of them the value that was
given last. -/
theorem ofList_eq_map {ws : Pairs} (hone : OneSpelling ws.keys) :
    ofList ws = (firstSpellings ws.keys).map fun n => (n, (lastValue? ws (keyOf n)).getD "") := by
  have hnodup := nodup_ofList ws
  have hones : OneSpelling (ofList ws).keys := fun m hm n hn =>
    hone m (mem_keys_ofList.mp hm) n (mem_keys_ofList.mp hn)
  have hvalue : ∀ p ∈ ofList ws, (p.1, (lastValue? ws (keyOf p.1)).getD "") = p := by
    intro p hp
    have hlast : lastValue? (ofList ws) (keyOf p.1) = lastValue? ws (keyOf p.1) :=
      have hinserted : lastValue? (insertAll [] ws) (keyOf p.1) =
          (lastValue? ws (keyOf p.1)).or none := lastValue?_insertAll List.nodup_nil hone
      hinserted.trans Option.or_none
    rw [← hlast, Store.lastValue?_of_mem (hones.pairwise hnodup) hp]
    rfl
  rw [← keys_ofList hone, keys, List.map_map]
  exact ((List.map_congr_left hvalue).trans (List.map_id' _)).symm

end Pairs
end Runbook
