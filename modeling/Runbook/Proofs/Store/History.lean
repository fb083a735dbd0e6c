import Mathlib.Data.List.Basic
import Runbook.Proofs.Document.Proper
import Runbook.Store

/-!
# Histories of a store

A store that was changed by actions in a row holds what these actions say, and nothing else.  Only
the actions since the last clearing count.  A locking write is always *accepted*, a plain one if its
variable was not locked before.  `accepted` are the writes that were, in order, and from them
everything can be read off: a variable is there if it was written, its value is the one written
last, and it is listed at the place and under the spelling of its first write.

`holds_after` gives the entries of the store that a history leads to and the keys that are locked in
it, and `reflects_after` what its operations answer.
-/

namespace Runbook.Store

/-- What is done to a store. -/
inductive Action where
  /-- Sets a variable, unless it is locked. -/
  | set (name value : String)
  /-- Sets a variable and locks it. -/
  | setLocked (name value : String)
  /-- Drops all variables. -/
  | clear
  deriving DecidableEq, Repr

/-- Actions in a row, the last one first. -/
abbrev History := List Action

/-- The store after an action. -/
def perform (s : Store) : Action → Store
  | .set n v =>
      match s.set n v with
      | .ok t => t
      | .error _ => s
  | .setLocked n v => s.setLocked n v
  | .clear => empty

/-- The store that a history leads to from one without variables. -/
def after : History → Store
  | [] => empty
  | a :: h => (after h).perform a

/-! ## What a history says -/

/-- The actions since the last clearing. -/
def sinceClear (h : History) : History := h.takeWhile (· ≠ .clear)

/-- The variable of a key was locked since the last clearing. -/
def locks (key : String) : History → Bool
  | [] => false
  | .clear :: _ => false
  | .setLocked n _ :: h => keyOf n = key || locks key h
  | .set _ _ :: h => locks key h

/-- The writes that were accepted since the last clearing, the first one first. -/
def accepted : History → List (String × String)
  | [] => []
  | .clear :: _ => []
  | .setLocked n v :: h => accepted h ++ [(n, v)]
  | .set n v :: h => if locks (keyOf n) h then accepted h else accepted h ++ [(n, v)]

/-- The value that was written last to the variable of a key. -/
def lastValue? (ws : List (String × String)) (key : String) : Option String :=
  (ws.filter fun w => keyOf w.1 = key).getLast?.map (·.2)

/-- Each variable under the first of its spellings. -/
def firstSpellings : List String → List String
  | [] => []
  | n :: ns => n :: (firstSpellings ns).filter fun m => keyOf m ≠ keyOf n

/-- The names under which the variables of a history are listed. -/
def spelled (h : History) : List String := firstSpellings ((accepted h).map (·.1))

/-- The entry of a name after a history. -/
def entryOf (h : History) (n : String) : Entry :=
  ⟨keyOf n, n, (lastValue? (accepted h) (keyOf n)).getD ""⟩

theorem locks_iff {key : String} : ∀ {h : History},
    locks key h = true ↔ ∃ n v, Action.setLocked n v ∈ sinceClear h ∧ keyOf n = key
  | [] => by simp [locks, sinceClear]
  | .clear :: _ => by simp [locks, sinceClear]
  | .set n v :: h => by
      rw [locks, locks_iff (h := h)]
      simp [sinceClear]
  | .setLocked n v :: h => by
      rw [locks, Bool.or_eq_true, decide_eq_true_eq, locks_iff (h := h)]
      constructor
      · rintro (hn | ⟨m, u, hm, hkey⟩)
        · exact ⟨n, v, by simp [sinceClear], hn⟩
        · exact ⟨m, u, List.mem_cons_of_mem _ hm, hkey⟩
      · rintro ⟨m, u, hm, hkey⟩
        obtain heq | hm := List.mem_cons.mp hm
        · cases heq
          exact .inl hkey
        · exact .inr ⟨m, u, hm, hkey⟩

/-! ## Spellings -/

theorem mem_of_mem_firstSpellings {n : String} :
    ∀ {ns : List String}, n ∈ firstSpellings ns → n ∈ ns
  | m :: ns, h => by
      obtain rfl | h := List.mem_cons.mp h
      · exact List.mem_cons_self
      · exact List.mem_cons_of_mem _ (mem_of_mem_firstSpellings (List.mem_filter.mp h).1)

/-- No variable has two spellings among the first ones. -/
theorem pairwise_firstSpellings : ∀ ns : List String,
    (firstSpellings ns).Pairwise fun m n => keyOf m ≠ keyOf n
  | [] => .nil
  | n :: ns => by
      refine List.pairwise_cons.mpr ⟨fun m hm => ?_, (pairwise_firstSpellings ns).filter _⟩
      have hne := of_decide_eq_true (List.mem_filter.mp hm).2
      exact fun heq => hne heq.symm

/-- Every variable has a first spelling. -/
theorem exists_firstSpelling {key : String} : ∀ {ns : List String},
    (∃ n ∈ ns, keyOf n = key) ↔ ∃ n ∈ firstSpellings ns, keyOf n = key
  | [] => Iff.rfl
  | n :: ns => by
      have hrest := @exists_firstSpelling key ns
      rw [List.exists_mem_cons_iff, firstSpellings, List.exists_mem_cons_iff, hrest]
      by_cases hn : keyOf n = key
      · simp only [hn, true_or]
      · simp only [hn, false_or, List.mem_filter, decide_eq_true_eq]
        exact ⟨fun ⟨m, hm, heq⟩ => ⟨m, ⟨hm, fun h => hn (h.symm.trans heq)⟩, heq⟩,
          fun ⟨m, hm, heq⟩ => ⟨m, hm.1, heq⟩⟩

/-- A further name is listed at the end, unless its variable is listed already. -/
theorem firstSpellings_concat (ns : List String) (n : String) :
    firstSpellings (ns ++ [n]) =
      if ∃ m ∈ firstSpellings ns, keyOf m = keyOf n then firstSpellings ns
      else firstSpellings ns ++ [n] := by
  rw [← if_congr exists_firstSpelling rfl rfl]
  induction ns with
  | nil => simp [firstSpellings]
  | cons k ns ih =>
    rw [List.cons_append, firstSpellings, ih, firstSpellings]
    by_cases hrest : ∃ m ∈ ns, keyOf m = keyOf n
    · rw [if_pos hrest, if_pos]
      exact (List.exists_mem_cons_iff ..).mpr (.inr hrest)
    · rw [if_neg hrest, List.filter_append]
      by_cases hk : keyOf k = keyOf n
      · simp [hk]
      · simp [hk, hrest, Ne.symm hk]

/-! ## Entries -/

/-- A write among entries of different variables replaces the value of its own, or adds one. -/
theorem writeEntries_map {f : String → Entry} (hf : ∀ m, (f m).key = keyOf m)
    (n value : String) : ∀ {ns : List String}, ns.Pairwise (fun m n => keyOf m ≠ keyOf n) →
      writeEntries (keyOf n) n value (ns.map f) =
        if ∃ m ∈ ns, keyOf m = keyOf n then
          ns.map fun m => if keyOf m = keyOf n then { f m with value := value } else f m
        else ns.map f ++ [⟨keyOf n, n, value⟩]
  | [], _ => by simp [writeEntries]
  | k :: ns, h => by
      obtain ⟨hk, hns⟩ := List.pairwise_cons.mp h
      rw [List.map_cons, writeEntries]
      by_cases heq : keyOf k = keyOf n
      · have hrest : ns.map (fun m => if keyOf m = keyOf n then
            { f m with value := value } else f m) = ns.map f := by
          refine List.map_congr_left fun m hm => if_neg fun hmn => ?_
          exact hk m hm (heq.trans hmn.symm)
        rw [if_pos ((hf k).trans heq), if_pos ⟨k, List.mem_cons_self, heq⟩, List.map_cons,
          if_pos heq, hrest]
      · rw [if_neg (hf k ▸ heq), writeEntries_map hf n value hns]
        by_cases hrest : ∃ m ∈ ns, keyOf m = keyOf n
        · rw [if_pos hrest, if_pos ((List.exists_mem_cons_iff ..).mpr (.inr hrest)), List.map_cons,
            if_neg heq]
        · rw [if_neg hrest, if_neg, List.cons_append]
          rw [List.exists_mem_cons_iff]
          exact not_or_intro heq hrest

theorem find?_map {f : String → Entry} (hf : ∀ m, (f m).key = keyOf m) (key : String) :
    ∀ ns : List String,
      (ns.map f).find? (·.key = key) = (ns.find? fun m => keyOf m = key).map f
  | [] => rfl
  | n :: ns => by
      rw [List.map_cons, List.find?_cons, List.find?_cons, hf]
      by_cases h : keyOf n = key
      · simp [h]
      · simp only [h, decide_false]
        exact find?_map hf key ns

theorem lastValue?_concat (ws : List (String × String)) (n v key : String) :
    lastValue? (ws ++ [(n, v)]) key = if keyOf n = key then some v else lastValue? ws key := by
  rw [lastValue?, List.filter_append]
  by_cases h : keyOf n = key
  · simp [h]
  · simp [h, lastValue?]

/-- A variable that was written has a value. -/
theorem isSome_lastValue? {ws : List (String × String)} {key : String} :
    (lastValue? ws key).isSome = true ↔ ∃ w ∈ ws, keyOf w.1 = key := by
  rw [lastValue?, Option.isSome_map, Option.isSome_iff_ne_none, ne_eq, List.getLast?_eq_none_iff,
    List.filter_eq_nil_iff]
  simp

/-- A variable that was locked was written. -/
theorem exists_accepted_of_locks {key : String} : ∀ {h : History}, locks key h = true →
    ∃ w ∈ accepted h, keyOf w.1 = key
  | .setLocked n v :: h, hlocks => by
      rw [locks, Bool.or_eq_true, decide_eq_true_eq] at hlocks
      rw [accepted]
      obtain hn | hlocks := hlocks
      · exact ⟨(n, v), List.mem_append_right _ List.mem_cons_self, hn⟩
      · obtain ⟨w, hw, hkey⟩ := exists_accepted_of_locks hlocks
        exact ⟨w, List.mem_append_left _ hw, hkey⟩
  | .set n v :: h, hlocks => by
      obtain ⟨w, hw, hkey⟩ := exists_accepted_of_locks (h := h) hlocks
      rw [accepted]
      split
      · exact ⟨w, hw, hkey⟩
      · exact ⟨w, List.mem_append_left _ hw, hkey⟩

theorem exists_spelled {h : History} {key : String} :
    (∃ n ∈ spelled h, keyOf n = key) ↔ ∃ w ∈ accepted h, keyOf w.1 = key := by
  rw [spelled, ← exists_firstSpelling]
  simp

/-- An accepted write leaves the entries that the longer history says. -/
theorem writeEntries_entryOf {h h' : History} {n v : String}
    (haccepted : accepted h' = accepted h ++ [(n, v)]) :
    writeEntries (keyOf n) n v ((spelled h).map (entryOf h)) = (spelled h').map (entryOf h') := by
  have hwritten := @writeEntries_map (entryOf h) (fun _ => rfl) n v (spelled h)
    (pairwise_firstSpellings _)
  have hspelled : spelled h' = if ∃ m ∈ spelled h, keyOf m = keyOf n then spelled h
      else spelled h ++ [n] := by
    rw [spelled, haccepted, List.map_append, List.map_singleton, firstSpellings_concat]
    rfl
  have hentry : ∀ m, entryOf h' m =
      if keyOf m = keyOf n then { entryOf h m with value := v } else entryOf h m := by
    intro m
    rw [entryOf, haccepted, lastValue?_concat]
    by_cases hm : keyOf m = keyOf n
    · simp [hm, entryOf]
    · simp [hm, Ne.symm hm, entryOf]
  rw [hwritten, hspelled]
  split
  · exact List.map_congr_left fun m _ => (hentry m).symm
  · next hnew =>
    rw [List.map_append, List.map_singleton]
    refine congrArg₂ (· ++ ·) (List.map_congr_left fun m hm => ?_) ?_
    · rw [hentry, if_neg fun heq => hnew ⟨m, hm, heq⟩]
    · rw [hentry, if_pos rfl]
      rfl

/-! ## Stores -/

/-- A store holds what a history says. -/
structure Holds (s : Store) (h : History) : Prop where
  /-- One entry for each variable that was written. -/
  entries : s.entries = (spelled h).map (entryOf h)
  /-- The keys of those that were locked. -/
  readOnly : ∀ key, key ∈ s.readOnly ↔ locks key h = true

theorem keyOf_of_find? {key m : String} {ns : List String}
    (h : (ns.find? fun m => keyOf m = key) = some m) : keyOf m = key :=
  of_decide_eq_true (List.find?_eq_some_iff_append.mp h).1

theorem Holds.find? {s : Store} {h : History} (hs : s.Holds h) (key : String) :
    s.find? key = ((spelled h).find? fun m => keyOf m = key).map (entryOf h) := by
  rw [Store.find?, hs.entries]
  exact find?_map (fun _ => rfl) key _

theorem Holds.isLocked {s : Store} {h : History} (hs : s.Holds h) (n : String) :
    s.isLocked n = locks (keyOf n) h := by
  rw [Store.isLocked, Bool.eq_iff_iff, decide_eq_true_eq, hs.readOnly]

/-- The store that a history leads to holds what it says. -/
theorem holds_after : ∀ h : History, (after h).Holds h
  | [] => ⟨rfl, fun _ => by simp [after, empty, locks]⟩
  | .clear :: _ => ⟨rfl, fun _ => by simp [after, perform, empty, locks]⟩
  | .setLocked n v :: h => by
      have ih := holds_after h
      refine ⟨?_, fun key => ?_⟩
      · rw [after, perform, setLocked, write, ih.entries]
        exact writeEntries_entryOf (by rw [accepted])
      · rw [after, perform, setLocked, List.mem_insert_iff, ih.readOnly, locks, Bool.or_eq_true,
          decide_eq_true_eq, eq_comm]
  | .set n v :: h => by
      have ih := holds_after h
      rw [after, perform, set, ih.isLocked]
      by_cases hlocked : locks (keyOf n) h = true
      · have hsame : accepted (.set n v :: h) = accepted h := by rw [accepted, if_pos hlocked]
        rw [if_pos hlocked]
        refine ⟨ih.entries.trans ?_, ih.readOnly⟩
        rw [spelled, spelled, hsame]
        exact List.map_congr_left fun m _ => by rw [entryOf, entryOf, hsame]
      · rw [if_neg hlocked]
        refine ⟨?_, ih.readOnly⟩
        dsimp only
        rw [write, ih.entries]
        exact writeEntries_entryOf (by rw [accepted, if_neg hlocked])

/-! ## Answers -/

/-- Two names answer alike in every store that a history leads to. -/
def SameVariable (m n : String) : Prop :=
  ∀ h, (after h).get m = (after h).get n ∧ (after h).contains m = (after h).contains n ∧
    (after h).isLocked m = (after h).isLocked n

/-- The operations of a store answer what a history says. -/
structure Reflects (h : History) (s : Store) : Prop where
  /-- The value is the one that was written last, empty if none was. -/
  get : ∀ n, s.get n = (lastValue? (accepted h) (keyOf n)).getD ""
  /-- A variable is there if it was written. -/
  contains : ∀ n, s.contains n = true ↔ ∃ w ∈ accepted h, keyOf w.1 = keyOf n
  /-- It is locked if a write has locked it since the last clearing. -/
  locked : ∀ n, s.isLocked n = true ↔
    ∃ m v, Action.setLocked m v ∈ sinceClear h ∧ keyOf m = keyOf n
  /-- It is there then. -/
  lockedContains : ∀ n, s.isLocked n = true → s.contains n = true
  /-- Exactly the locked variables refuse to be set. -/
  refuses : ∀ n v, s.set n v = .error ⟨n⟩ ↔ s.isLocked n = true
  /-- All others are set. -/
  accepts : ∀ n v, (∃ t, s.set n v = .ok t) ↔ s.isLocked n = false
  /-- A refused write changes nothing. -/
  unchanged : ∀ n v, s.isLocked n = true → s.perform (.set n v) = s
  /-- Variables are listed in order of their first writes, under the spellings of these. -/
  snapshot : s.snapshot = (spelled h).map fun n => (n, s.get n)
  /-- No variable is listed twice. -/
  once : s.snapshot.Pairwise fun p q => keyOf p.1 ≠ keyOf q.1
  /-- Every variable is listed, and nothing else. -/
  listed : ∀ n, s.contains n = true ↔ ∃ p ∈ s.snapshot, keyOf p.1 = keyOf n
  /-- As many are listed as there are. -/
  size : s.snapshot.length = s.size

section

variable {s : Store} {h : History} (hs : s.Holds h)

include hs

theorem Holds.get (n : String) : s.get n = (lastValue? (accepted h) (keyOf n)).getD "" := by
  rw [Store.get, hs.find?]
  cases hfind : (spelled h).find? fun m => keyOf m = keyOf n with
  | none =>
    have hnone : lastValue? (accepted h) (keyOf n) = none := by
      rw [← Option.not_isSome_iff_eq_none, isSome_lastValue?, ← exists_spelled]
      rintro ⟨m, hm, hkey⟩
      exact List.find?_eq_none.mp hfind m hm (decide_eq_true hkey)
    rw [hnone]
    rfl
  | some m =>
    have hkey := keyOf_of_find? hfind
    rw [← hkey]
    rfl

theorem Holds.contains (n : String) :
    s.contains n = true ↔ ∃ m ∈ spelled h, keyOf m = keyOf n := by
  rw [Store.contains, hs.find?, Option.isSome_map, List.find?_isSome]
  simp only [decide_eq_true_eq]

theorem Holds.snapshot : s.snapshot = (spelled h).map fun n => (n, s.get n) := by
  have hpairs : (s.entries.map fun e => (e.name, e.value)) =
      (spelled h).map fun n => (n, s.get n) := by
    rw [hs.entries, List.map_map]
    exact List.map_congr_left fun n _ => Prod.ext rfl (hs.get n).symm
  rw [Store.snapshot, hpairs, Pairs.ofList, Pairs.insertAll_nil]
  rw [Pairs.keys, List.map_map]
  -- Names of different variables differ.
  exact List.pairwise_map.mpr
    ((pairwise_firstSpellings _).imp fun hne heq => hne (congrArg keyOf heq))

/-- A store that holds what a history says answers what the history says. -/
theorem Holds.reflects : Reflects h s where
  get := hs.get
  contains n := (hs.contains n).trans exists_spelled
  locked n := by rw [hs.isLocked, locks_iff]
  lockedContains n hn := by
    rw [hs.isLocked] at hn
    exact (hs.contains n).mpr (exists_spelled.mpr (exists_accepted_of_locks hn))
  refuses n v := by
    rw [Store.set]
    split <;> simp_all
  accepts n v := by
    rw [Store.set]
    split <;> simp_all
  unchanged n v hn := by rw [perform, Store.set, if_pos hn]
  snapshot := hs.snapshot
  once := by
    rw [hs.snapshot]
    exact List.pairwise_map.mpr (pairwise_firstSpellings _)
  listed n := by
    rw [hs.contains, hs.snapshot]
    simp
  size := by rw [hs.snapshot, Store.size, hs.entries, List.length_map, List.length_map]

end

/-- Two names denote the same variable exactly if their capital forms agree, and every store that a
history leads to answers what the history says. -/
theorem reflects_after :
    (∀ m n, SameVariable m n ↔ Text.upper m = Text.upper n) ∧ ∀ h, Reflects h (after h) := by
  refine ⟨fun m n => ⟨fun hsame => ?_, fun hkey h => ?_⟩,
    fun h => (holds_after h).reflects⟩
  · -- A variable that is set under the one name is there under the other.
    have hwritten := (holds_after [.set m ""]).reflects.contains
    have hm := (hwritten m).mpr ⟨(m, ""), by simp [accepted, locks], rfl⟩
    obtain ⟨w, hw, hkey⟩ := (hwritten n).mp ((hsame _).2.1 ▸ hm)
    obtain rfl : w = (m, "") := by simpa [accepted, locks] using hw
    exact hkey
  · have hkey : keyOf m = keyOf n := hkey
    rw [Store.get, Store.get, Store.contains, Store.contains, isLocked, isLocked, hkey]
    exact ⟨rfl, rfl, rfl⟩

/-- A later spelling changes the value and not the place, and a locked variable stays. -/
example :
    let h : History := [.set "B" "4", .set "A" "3", .setLocked "b" "2", .set "a" "1", .clear]
    (after h).snapshot = [("a", "3"), ("b", "2")] := by
  decide +kernel

end Runbook.Store
