import Runbook.Proofs.Store.History
import Runbook.Run.Published

/-!
# Publishing variables

A run publishes its variables into a store of its own: four built-in ones, which are locked, and
then the declared ones.  Publishing goes through unless a declared variable has the name of a
built-in one, in whatever spelling (`Sequence.refused_publish_iff`).  The store then lists the
built-in variables first and then each declared one once (`Sequence.entries_publish`).  The declared
ones are also taken down in a map (`Sequence.declared_publish`).

A store *guards* the built-in variables of a sequence if they have their values and are locked, and
no others are.  Every store that publishing leaves does so, and it goes on to do so whatever is set
in it afterwards.
-/

namespace Runbook

namespace Store

/-! ## Setting a variable -/

variable {s t : Store} {m n v : String}

theorem set_eq_ok_iff : s.set n v = .ok t ↔ s.isLocked n = false ∧ s.write n v = t := by
  rw [set]
  cases s.isLocked n <;> simp

/-- A variable that is set has its value, and the others keep theirs. -/
theorem get_of_set (h : s.set n v = .ok t) (m : String) :
    t.get m = if keyOf m = keyOf n then v else s.get m := by
  obtain ⟨-, rfl⟩ := set_eq_ok_iff.mp h
  rw [get, find?_write]
  split
  · cases s.find? (keyOf n) <;> rfl
  · rfl

/-- Setting a variable locks none. -/
theorem readOnly_of_set (h : s.set n v = .ok t) : t.readOnly = s.readOnly := by
  obtain ⟨-, rfl⟩ := set_eq_ok_iff.mp h
  exact s.readOnly_write n v

theorem isLocked_of_set (h : s.set n v = .ok t) (m : String) : t.isLocked m = s.isLocked m := by
  rw [isLocked, isLocked, readOnly_of_set h]

/-- No variable goes away when one is set. -/
theorem contains_of_set (h : s.set n v = .ok t) (hm : s.contains m = true) :
    t.contains m = true := by
  obtain ⟨-, rfl⟩ := set_eq_ok_iff.mp h
  rw [contains, find?_write]
  split
  · rfl
  · exact hm

/-! ## Histories that set and lock -/

/-- Actions in a row lead to the store of their history. -/
theorem after_reverse (as : List Action) : after as.reverse = as.foldl perform empty := by
  rw [← List.foldr_reverse]
  generalize as.reverse = h
  induction h with
  | nil => rfl
  | cons a h ih => rw [after, List.foldr_cons, ih]

theorem lastValue?_eq_none {ws : List (String × String)} {key : String}
    (h : ∀ w ∈ ws, keyOf w.1 ≠ key) : lastValue? ws key = none := by
  rw [← Option.not_isSome_iff_eq_none, isSome_lastValue?]
  exact fun ⟨w, hw, hkey⟩ => h w hw hkey

/-- Later writes count for more than earlier ones. -/
theorem lastValue?_append (ws us : List (String × String)) (key : String) :
    lastValue? (ws ++ us) key = (lastValue? us key).or (lastValue? ws key) := by
  rw [lastValue?, List.filter_append, List.getLast?_append, Option.map_or]
  rfl

theorem lastValue?_append_left {ws us : List (String × String)} {key : String}
    (h : ∀ u ∈ us, keyOf u.1 ≠ key) : lastValue? (ws ++ us) key = lastValue? ws key := by
  rw [lastValue?_append, lastValue?_eq_none h, Option.none_or]

theorem lastValue?_append_right {ws us : List (String × String)} {key : String}
    (h : ∀ w ∈ ws, keyOf w.1 ≠ key) : lastValue? (ws ++ us) key = lastValue? us key := by
  rw [lastValue?_append, lastValue?_eq_none h, Option.or_none]

/-- A variable that was written once has the value that was written. -/
theorem lastValue?_of_mem {w : String × String} : ∀ {ws : List (String × String)},
    (ws.Pairwise fun p q => keyOf p.1 ≠ keyOf q.1) → w ∈ ws → lastValue? ws (keyOf w.1) = some w.2
  | p :: ws, hws, hw => by
      obtain ⟨hp, hws⟩ := List.pairwise_cons.mp hws
      rw [← List.singleton_append]
      obtain rfl | hw := List.mem_cons.mp hw
      · rw [lastValue?_append_left fun q hq => (hp q hq).symm]
        simp [lastValue?]
      · rw [lastValue?_append_right fun q hq => List.mem_singleton.mp hq ▸ hp w hw]
        exact lastValue?_of_mem hws hw

theorem locks_map_set (key : String) (h : History) : ∀ ws : List (String × String),
    locks key (ws.map (fun w => .set w.1 w.2) ++ h) = locks key h
  | [] => rfl
  | _ :: ws => locks_map_set key h ws

/-- Writes to variables that are not locked are accepted. -/
theorem accepted_map_set {h : History} : ∀ {ws : List (String × String)},
    (∀ w ∈ ws, locks (keyOf w.1) h = false) →
      accepted (ws.map (fun w => .set w.1 w.2) ++ h) = accepted h ++ ws.reverse
  | [], _ => (List.append_nil _).symm
  | w :: ws, hws => by
      obtain ⟨hw, hws⟩ := List.forall_mem_cons.mp hws
      rw [List.map_cons, List.cons_append, accepted, locks_map_set, hw, accepted_map_set hws,
        List.reverse_cons, List.append_assoc]
      rfl

/-- Names of different variables are listed before further ones of others. -/
theorem firstSpellings_append {ns : List String} : ∀ {ms : List String},
    (ms.Pairwise fun m n => keyOf m ≠ keyOf n) → (∀ m ∈ ms, ∀ n ∈ ns, keyOf m ≠ keyOf n) →
      firstSpellings (ms ++ ns) = ms ++ firstSpellings ns
  | [], _, _ => rfl
  | m :: ms, hms, hns => by
      obtain ⟨hm, hms⟩ := List.pairwise_cons.mp hms
      obtain ⟨hmn, hns⟩ := List.forall_mem_cons.mp hns
      rw [List.cons_append, firstSpellings, firstSpellings_append hms hns, List.cons_append]
      refine congrArg _ (List.filter_eq_self.mpr fun k hk => decide_eq_true ?_)
      obtain hk | hk := List.mem_append.mp hk
      · exact (hm k hk).symm
      · exact (hmn k (mem_of_mem_firstSpellings hk)).symm

end Store

namespace Sequence

open Store (History keyOf)

variable (s : Sequence) (machine : String)

/-! ## Built-in variables -/

/-- No two built-in variables are the same. -/
theorem builtins_pairwise :
    (s.builtins machine).Pairwise fun p q => keyOf p.1 ≠ keyOf q.1 := by
  have hkeys : [sequenceIdVariable, sequenceNameVariable, sequenceVersionVariable,
      machineVariable].Pairwise fun m n => keyOf m ≠ keyOf n := by
    decide +kernel
  exact List.Pairwise.of_map (fun p => p.1) (fun _ _ h => h) hkeys

/-- The history of a store with nothing but the built-in variables. -/
def lockings : History :=
  ((s.builtins machine).map fun p => .setLocked p.1 p.2).reverse

theorem after_lockings : Store.after (s.lockings machine) = s.builtinStore machine := rfl

theorem accepted_lockings : Store.accepted (s.lockings machine) = s.builtins machine := rfl

theorem locks_lockings (key : String) :
    Store.locks key (s.lockings machine) = true ↔ ∃ p ∈ s.builtins machine, keyOf p.1 = key := by
  simp only [lockings, builtins, List.map, List.reverse_cons, List.reverse_nil, List.nil_append,
    List.cons_append, Store.locks, List.mem_cons]
  grind

/-! ## Guarded stores -/

/-- The built-in variables have their values and are locked, and no others are. -/
structure Guards (store : Store) : Prop where
  /-- Their values, in whatever spelling they are asked for. -/
  reads : ∀ p ∈ s.builtins machine, ∀ n, keyOf n = keyOf p.1 → store.get n = p.2
  /-- Exactly they are locked. -/
  locked : ∀ n, store.isLocked n = true ↔ ∃ p ∈ s.builtins machine, keyOf p.1 = keyOf n

theorem guards_builtinStore : s.Guards machine (s.builtinStore machine) where
  reads p hp n hn := by
    rw [← after_lockings, (Store.holds_after _).get, accepted_lockings, hn,
      Store.lastValue?_of_mem (s.builtins_pairwise machine) hp]
    rfl
  locked n := by
    rw [← after_lockings, (Store.holds_after _).isLocked, locks_lockings]

variable {s machine}

/-- What is set is not guarded. -/
theorem Guards.set {store store' : Store} {n v : String} (h : s.Guards machine store)
    (hset : store.set n v = .ok store') : s.Guards machine store' where
  reads p hp m hm := by
    have hlocked : store.isLocked m = true := (h.locked m).mpr ⟨p, hp, hm.symm⟩
    rw [Store.get_of_set hset, if_neg, h.reads p hp m hm]
    intro heq
    have hunlocked := (Store.set_eq_ok_iff.mp hset).1
    rw [Store.isLocked, ← heq, ← Store.isLocked, hlocked] at hunlocked
    cases hunlocked
  locked m := by rw [Store.isLocked_of_set hset, h.locked]

theorem Guards.publishAll : ∀ (vs : List Variable) {store : Store} (declared : Pairs),
    s.Guards machine store → s.Guards machine (publishAll vs store declared).store
  | [], _, _, h => h
  | v :: vs, store, _, h => by
      rw [Sequence.publishAll]
      split
      · next hset => exact Guards.publishAll vs _ (h.set hset)
      · exact h

variable (s machine)

/-- Whatever is declared, the built-in variables are guarded. -/
theorem guards_publish : s.Guards machine (s.publish machine).store :=
  (s.guards_builtinStore machine).publishAll _ _

/-! ## Declared variables -/

/-- The declared variables with their values. -/
def declared : List (String × String) := s.declarations.map fun v => (v.name, v.value)

theorem keys_declared : Pairs.keys s.declared = s.declarations.map (·.name) := by
  rw [Pairs.keys, declared, List.map_map]
  rfl

/-- Publishing goes through if no declared variable is locked. -/
theorem refused_publishAll : ∀ (vs : List Variable) (store : Store) (declared : Pairs),
    (publishAll vs store declared).refused = none ↔ ∀ v ∈ vs, store.isLocked v.name = false
  | [], _, _ => by simp [publishAll]
  | v :: vs, store, declared => by
      rw [publishAll, List.forall_mem_cons]
      cases hset : store.set v.name v.value with
      | ok store' =>
        dsimp only
        rw [refused_publishAll vs]
        simp only [Store.isLocked_of_set hset]
        exact ⟨fun h => ⟨(Store.set_eq_ok_iff.mp hset).1, h⟩, fun h => h.2⟩
      | error e =>
        have hlocked : store.isLocked v.name ≠ false := by
          intro hunlocked
          rw [Store.set_eq_ok_iff.mpr ⟨hunlocked, rfl⟩] at hset
          cases hset
        simp [hlocked]

/-- Then every declared variable is set. -/
theorem store_publishAll : ∀ (vs : List Variable) (store : Store) (declared : Pairs),
    (∀ v ∈ vs, store.isLocked v.name = false) →
      (publishAll vs store declared).store =
        vs.foldl (fun store v => store.perform (.set v.name v.value)) store
  | [], _, _, _ => rfl
  | v :: vs, store, declared, h => by
      obtain ⟨hv, hvs⟩ := List.forall_mem_cons.mp h
      have hset := Store.set_eq_ok_iff.mpr ⟨hv, Eq.refl (store.write v.name v.value)⟩
      rw [publishAll, List.foldl_cons, Store.perform, hset]
      dsimp only
      exact store_publishAll vs _ _ fun u hu => (Store.isLocked_of_set hset _).trans (hvs u hu)

/-- Some declared variable is a built-in one, in whatever spelling. -/
def Clashes : Prop := ∃ v ∈ s.declarations, ∃ p ∈ s.builtins machine, keyOf v.name = keyOf p.1

/-- Publishing is refused exactly if a declared variable is a built-in one. -/
theorem refused_publish_iff : (s.publish machine).refused ≠ none ↔ s.Clashes machine := by
  have hlocked := (s.guards_builtinStore machine).locked
  rw [publish, ne_eq, refused_publishAll, Clashes]
  constructor
  · intro h
    obtain ⟨v, hv⟩ := not_forall.mp h
    obtain ⟨hv, hne⟩ := Classical.not_imp.mp hv
    obtain ⟨p, hp, hkey⟩ := (hlocked v.name).mp (Bool.not_eq_false _ ▸ hne)
    exact ⟨v, hv, p, hp, hkey.symm⟩
  · rintro ⟨v, hv, p, hp, hkey⟩ h
    have hv := h v hv
    rw [(hlocked v.name).mpr ⟨p, hp, hkey.symm⟩] at hv
    cases hv

/-- It goes through exactly if none of them is. -/
theorem refused_publish_eq_none_iff : (s.publish machine).refused = none ↔ ¬ s.Clashes machine := by
  rw [← s.refused_publish_iff, ne_eq, not_not]

/-- The history of a store in which all variables were published. -/
def publications : History := s.declared.reverse.map (fun w => .set w.1 w.2) ++ s.lockings machine

theorem store_publish (h : (s.publish machine).refused = none) :
    (s.publish machine).store = Store.after (s.publications machine) := by
  rw [publish, refused_publishAll] at h
  rw [publish, store_publishAll _ _ _ h, publications, lockings, List.map_reverse,
    ← List.reverse_append, Store.after_reverse, List.foldl_append, declared, List.map_map,
    List.foldl_map, List.foldl_map]
  rfl

/-- No declared variable is a built-in one then. -/
theorem builtins_apart (h : (s.publish machine).refused = none) :
    ∀ p ∈ s.builtins machine, ∀ w ∈ s.declared, keyOf p.1 ≠ keyOf w.1 := by
  intro p hp w hw heq
  obtain ⟨v, hv, rfl⟩ := List.mem_map.mp hw
  exact (s.refused_publish_iff machine).mpr ⟨v, hv, p, hp, heq.symm⟩ h

theorem locks_lockings_eq_false {key : String} (h : ∀ p ∈ s.builtins machine, keyOf p.1 ≠ key) :
    Store.locks key (s.lockings machine) = false := by
  rw [← Bool.not_eq_true, locks_lockings]
  exact fun ⟨p, hp, heq⟩ => h p hp heq

/-- All writes are accepted, those of the built-in variables first. -/
theorem accepted_publications (h : (s.publish machine).refused = none) :
    Store.accepted (s.publications machine) = s.builtins machine ++ s.declared := by
  rw [publications, Store.accepted_map_set, accepted_lockings, List.reverse_reverse]
  exact fun w hw => s.locks_lockings_eq_false machine fun p hp =>
    s.builtins_apart machine h p hp w (List.mem_reverse.mp hw)

/-- The variables are listed under the spellings of the built-in ones, and then under the first
spellings of the declared ones. -/
theorem spelled_publications (h : (s.publish machine).refused = none) :
    Store.spelled (s.publications machine) =
      (s.builtins machine).map (·.1) ++ Store.firstSpellings (s.declarations.map (·.name)) := by
  have hnames : s.declared.map (·.1) = s.declarations.map (·.name) := s.keys_declared
  rw [Store.spelled, s.accepted_publications machine h, List.map_append,
    Store.firstSpellings_append, hnames]
  · exact List.pairwise_map.mpr (s.builtins_pairwise machine)
  · intro m hm n hn
    obtain ⟨p, hp, rfl⟩ := List.mem_map.mp hm
    obtain ⟨w, hw, rfl⟩ := List.mem_map.mp hn
    exact s.builtins_apart machine h p hp w hw

/-- The store that publishing leaves lists the built-in variables first, and then each declared one
once, in order of the first declarations and under the spellings of these, with the value that was
declared last. -/
theorem entries_publish (h : (s.publish machine).refused = none) :
    (s.publish machine).store.entries =
      (s.builtins machine).map (fun p => ⟨keyOf p.1, p.1, p.2⟩) ++
        (Store.firstSpellings (s.declarations.map (·.name))).map fun n =>
          ⟨keyOf n, n, (Store.lastValue? s.declared (keyOf n)).getD ""⟩ := by
  have hapart := s.builtins_apart machine h
  have haccepted := s.accepted_publications machine h
  rw [s.store_publish machine h, (Store.holds_after _).entries, s.spelled_publications machine h,
    List.map_append, List.map_map]
  refine congrArg₂ (· ++ ·) (List.map_congr_left fun p hp => ?_)
    (List.map_congr_left fun n hn => ?_)
  · have hvalue : Store.lastValue? (s.builtins machine ++ s.declared) (keyOf p.1) = some p.2 := by
      rw [Store.lastValue?_append_left fun w hw => (hapart p hp w hw).symm,
        Store.lastValue?_of_mem (s.builtins_pairwise machine) hp]
    rw [Function.comp_apply, Store.entryOf, haccepted, hvalue]
    rfl
  · have hne : ∀ p ∈ s.builtins machine, keyOf p.1 ≠ keyOf n := by
      obtain ⟨v, hv, rfl⟩ := List.mem_map.mp (Store.mem_of_mem_firstSpellings hn)
      exact fun p hp => hapart p hp (v.name, v.value) (List.mem_map.mpr ⟨v, hv, rfl⟩)
    rw [Store.entryOf, haccepted, Store.lastValue?_append_right hne]

/-- It has the built-in variables locked, and no others. -/
theorem mem_readOnly_publish (h : (s.publish machine).refused = none) (key : String) :
    key ∈ (s.publish machine).store.readOnly ↔ ∃ p ∈ s.builtins machine, keyOf p.1 = key := by
  rw [s.store_publish machine h, (Store.holds_after _).readOnly, publications, Store.locks_map_set,
    locks_lockings]

/-- Its snapshot has the built-in variables first, and then each declared one once. -/
theorem snapshot_publish (h : (s.publish machine).refused = none) :
    (s.publish machine).store.snapshot = s.builtins machine ++
      (Store.firstSpellings (s.declarations.map (·.name))).map fun n =>
        (n, (s.publish machine).store.get n) := by
  have hguards := s.guards_publish machine
  have hholds := Store.holds_after (s.publications machine)
  rw [← s.store_publish machine h] at hholds
  rw [hholds.snapshot, s.spelled_publications machine h, List.map_append,
    List.map_map]
  refine congrArg (· ++ _) ((List.map_congr_left fun p hp => ?_).trans (List.map_id _))
  exact Prod.ext rfl (hguards.reads p hp p.1 rfl)

/-! ## What is taken down -/

theorem declared_publishAll : ∀ (vs : List Variable) (store : Store) (set : Pairs),
    (publishAll vs store set).refused = none →
      (publishAll vs store set).declared = Pairs.insertAll set (vs.map fun v => (v.name, v.value))
  | [], _, _, _ => rfl
  | v :: vs, store, set, h => by
      rw [publishAll] at h ⊢
      cases hset : store.set v.name v.value with
      | ok store' =>
        rw [hset] at h
        exact declared_publishAll vs store' _ h
      | error e =>
        rw [hset] at h
        cases h

/-- The declared variables are taken down in a map. -/
theorem declared_publish (h : (s.publish machine).refused = none) :
    (s.publish machine).declared = Pairs.ofList s.declared :=
  declared_publishAll s.declarations (s.builtinStore machine) [] h

end Sequence
end Runbook
