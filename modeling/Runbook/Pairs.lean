/-!
# Ordered maps

Properties, output variables and snapshots are lists of pairs without a repeated key.  A key keeps
the position at which it was first inserted; inserting it again replaces its value.

`lookup_insert` says what a look-up finds after an insertion, and `keys_insert` which keys there
are and in which order.
-/

namespace Runbook

/-- A list of keys with their values, in order of first insertion. -/
abbrev Pairs := List (String × String)

namespace Pairs

/-- The value of a key. -/
def get? (ps : Pairs) (k : String) : Option String := List.lookup k ps

/-- The list with the key bound to the value, whatever the type of values. -/
def insert {α : Type} : List (String × α) → String → α → List (String × α)
  | [], k, v => [(k, v)]
  | (k', v') :: ps, k, v => if k' = k then (k', v) :: ps else (k', v') :: insert ps k v

/-- Inserts pairs one after the other. -/
def insertAll (ps qs : Pairs) : Pairs := qs.foldl (fun acc q => insert acc q.1 q.2) ps

/-- The map of a list of pairs, later values replacing earlier ones. -/
def ofList (qs : List (String × String)) : Pairs := insertAll [] qs

/-- The key is bound. -/
def contains (ps : Pairs) (k : String) : Bool := (ps.get? k).isSome

/-- The keys, in order. -/
def keys (ps : Pairs) : List String := ps.map (·.1)

theorem lookup_cons_eq {α : Type} (p : String × α) (ps : List (String × α)) (k : String) :
    (p :: ps).lookup k = if k = p.1 then some p.2 else ps.lookup k := by
  rw [List.lookup_cons]
  by_cases h : k = p.1
  · simp [h]
  · have hk : (k == p.1) = false := by simpa using h
    rw [hk, if_neg h]

theorem get?_cons (p : String × String) (ps : Pairs) (k : String) :
    get? (p :: ps) k = if k = p.1 then some p.2 else get? ps k :=
  lookup_cons_eq p ps k

/-- What a look-up finds after an insertion, whatever the type of values. -/
theorem lookup_insert_eq {α : Type} (k : String) (v : α) (j : String) :
    ∀ ps : List (String × α),
      (insert ps k v).lookup j = if j = k then some v else ps.lookup j
  | [] => by rw [insert, lookup_cons_eq]
  | (i, w) :: ps => by
      rw [insert]
      by_cases hi : i = k
      · subst hi
        rw [if_pos rfl, lookup_cons_eq, lookup_cons_eq]
        by_cases hj : j = i
        · rw [if_pos hj, if_pos hj]
        · rw [if_neg hj, if_neg hj, if_neg hj]
      · rw [if_neg hi, lookup_cons_eq, lookup_cons_eq, lookup_insert_eq k v j ps]
        by_cases hj : j = k
        · subst hj
          rw [if_pos rfl, if_pos rfl, if_neg (Ne.symm hi)]
        · rw [if_neg hj, if_neg hj]

theorem lookup_insert (ps : Pairs) (k v j : String) :
    get? (Pairs.insert ps k v) j = if j = k then some v else ps.get? j :=
  lookup_insert_eq k v j ps

/-- The keys after an insertion, whatever the type of values. -/
theorem keys_insert_eq {α : Type} (k : String) (v : α) : ∀ ps : List (String × α),
    (insert ps k v).map (·.1) =
      if k ∈ ps.map (·.1) then ps.map (·.1) else ps.map (·.1) ++ [k]
  | [] => by simp [insert]
  | (i, w) :: ps => by
      by_cases hi : i = k
      · simp [insert, hi]
      · by_cases hk : k ∈ ps.map (·.1)
        · simp [insert, hi, keys_insert_eq k v ps, hk]
        · simp [insert, hi, keys_insert_eq k v ps, hk, Ne.symm hi]

theorem keys_insert (ps : Pairs) (k v : String) :
    keys (Pairs.insert ps k v) = if k ∈ ps.keys then ps.keys else ps.keys ++ [k] :=
  keys_insert_eq k v ps

end Pairs
end Runbook
