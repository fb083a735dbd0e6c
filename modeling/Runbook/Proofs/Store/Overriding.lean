import Runbook.Overrides
import Runbook.Proofs.Store.Publishing

/-!
# Overriding declared variables

An override replaces the value of the first declared variable with its name, or declares a new
variable at the end.  Publishing goes by the last declaration of a variable.  So a variable that is
declared at most once gets the value of its last override, and a variable that is declared more than
once keeps the value that it was declared with last (`Variable.lastValue?_overrideAll`).

A run reads what was declared last (`Sequence.get_publish`), and `Sequence.takeEffect_iff` says when
overrides take effect.  In any case they leave the other variables alone (`Sequence.get_of_others`).
-/

namespace Runbook

open Store (keyOf lastValue?)

theorem Store.lastValue?_cons (w : String × String) (ws : List (String × String)) (key : String) :
    lastValue? (w :: ws) key =
      (lastValue? ws key).or (if keyOf w.1 = key then some w.2 else none) := by
  rw [← List.singleton_append, lastValue?_append]
  by_cases h : keyOf w.1 = key
  · simp [lastValue?, h]
  · simp [lastValue?, h]

namespace Variable

/-! ## Declarations -/

/-- The declared variables with their values. -/
def pairs (vs : List Variable) : List (String × String) := vs.map fun v => (v.name, v.value)

/-- How often the variable of a key is declared. -/
def count (vs : List Variable) (key : String) : Nat := vs.countP (keyOf ·.name = key)

/-- Declared variables with others overridden in turn. -/
def overrideAll (vs : List Variable) (ps : Pairs) : List Variable :=
  ps.foldl (fun vs p => override p.1 p.2 vs) vs

variable {key : String}

theorem pairs_cons (v : Variable) (vs : List Variable) :
    pairs (v :: vs) = (v.name, v.value) :: pairs vs := rfl

theorem count_cons (v : Variable) (vs : List Variable) :
    count (v :: vs) key = count vs key + if keyOf v.name = key then 1 else 0 := by
  simp [count, List.countP_cons]

/-- Where no two declarations are of the same variable, each variable is declared at most once. -/
theorem count_le_one : ∀ {vs : List Variable},
    (vs.Pairwise fun u v => keyOf u.name ≠ keyOf v.name) → count vs key ≤ 1
  | [], _ => Nat.zero_le 1
  | v :: vs, h => by
      obtain ⟨hv, hvs⟩ := List.pairwise_cons.mp h
      rw [count_cons]
      split
      · next hkey =>
        have hnone : count vs key = 0 := by
          rw [count, List.countP_eq_zero]
          exact fun u hu => by simpa [← hkey] using (hv u hu).symm
        omega
      · exact count_le_one hvs

/-- A variable that is declared has a last value. -/
theorem isSome_lastValue?_pairs {vs : List Variable} :
    (lastValue? (pairs vs) key).isSome = true ↔ 0 < count vs key := by
  rw [Store.isSome_lastValue?, count, List.countP_pos_iff]
  simp [pairs]

/-- An override declares a variable that was not declared, and none a second time. -/
theorem count_override (name value : String) : ∀ vs : List Variable,
    count (override name value vs) key =
      if keyOf name = key then max 1 (count vs key) else count vs key
  | [] => by simp [override, count]
  | v :: vs => by
      rw [override]
      split
      · next h =>
        rw [count_cons, count_cons, h]
        split <;> omega
      · next h =>
        rw [count_cons, count_cons, count_override name value vs]
        split
        · next hkey =>
          rw [if_neg fun hv => h (hv.trans hkey.symm)]
          rfl
        · rfl

/-- An override gives its value to a variable that is declared at most once. -/
theorem lastValue?_override (name value : String) : ∀ vs : List Variable,
    lastValue? (pairs (override name value vs)) key =
      if keyOf name = key ∧ count vs key ≤ 1 then some value else lastValue? (pairs vs) key
  | [] => by
      by_cases h : keyOf name = key <;> simp [override, pairs, count, lastValue?, h]
  | v :: vs => by
      rw [override]
      split
      · next h =>
        rw [pairs_cons, pairs_cons, Store.lastValue?_cons, Store.lastValue?_cons, count_cons, h]
        by_cases hkey : keyOf name = key
        · -- Declarations after the first one are not overridden, and the last of them counts.
          cases hlast : lastValue? (pairs vs) key with
          | none =>
            have hcount : ¬ 0 < count vs key := by
              rw [← isSome_lastValue?_pairs, hlast]
              exact Bool.false_ne_true
            have honce : count vs key + 1 ≤ 1 := by omega
            simp [hkey, honce]
          | some u =>
            have hcount : 0 < count vs key := isSome_lastValue?_pairs.mp (hlast ▸ rfl)
            have hmore : ¬ count vs key + 1 ≤ 1 := by omega
            simp [hkey, hmore]
        · simp [hkey]
      · next h =>
        rw [pairs_cons, pairs_cons, Store.lastValue?_cons, Store.lastValue?_cons, count_cons,
          lastValue?_override name value vs]
        by_cases hkey : keyOf name = key
        · have hother : keyOf v.name ≠ key := fun hv => h (hv.trans hkey.symm)
          simp [hkey, hother]
        · simp [hkey]

/-- Of several overrides the last one counts.  A variable that is declared more than once keeps the
value it was declared with last. -/
theorem lastValue?_overrideAll : ∀ (ps : Pairs) (vs : List Variable),
    lastValue? (pairs (overrideAll vs ps)) key =
      if count vs key ≤ 1 then (lastValue? ps key).or (lastValue? (pairs vs) key)
      else lastValue? (pairs vs) key
  | [], vs => by simp [overrideAll, lastValue?]
  | p :: ps, vs => by
      have hstep : overrideAll vs (p :: ps) = overrideAll (override p.1 p.2 vs) ps := rfl
      rw [hstep, lastValue?_overrideAll ps, lastValue?_override, count_override,
        Store.lastValue?_cons]
      by_cases hkey : keyOf p.1 = key
      · by_cases hcount : count vs key ≤ 1
        · simp [hkey, hcount]
        · have hmore : ¬ max 1 (count vs key) ≤ 1 := by omega
          simp [hkey, hcount, hmore]
      · simp [hkey]

end Variable

namespace Sequence

variable (s : Sequence) (machine : String) (ps : Pairs)

/-! ## Runs -/

theorem overrideAll_eq : ∀ (ps : Pairs) (s : Sequence),
    s.overrideAll ps = { s with declarations := Variable.overrideAll s.declarations ps }
  | [], _ => rfl
  | p :: ps, s => overrideAll_eq ps (s.override p.1 p.2)

theorem builtins_overrideAll : (s.overrideAll ps).builtins machine = s.builtins machine := by
  rw [overrideAll_eq]
  rfl

theorem lastValue?_declared_overrideAll (key : String) :
    lastValue? (s.overrideAll ps).declared key =
      if Variable.count s.declarations key ≤ 1 then
        (lastValue? ps key).or (lastValue? s.declared key)
      else lastValue? s.declared key := by
  rw [overrideAll_eq]
  exact Variable.lastValue?_overrideAll ps s.declarations

/-- Overrides take no declaration away. -/
theorem refused_of_overrideAll (h : ((s.overrideAll ps).publish machine).refused = none) :
    (s.publish machine).refused = none := by
  by_contra hrefused
  obtain ⟨v, hv, p, hp, hkey⟩ := (s.refused_publish_iff machine).mp hrefused
  have hlast : (lastValue? s.declared (keyOf p.1)).isSome = true :=
    Store.isSome_lastValue?.mpr ⟨_, List.mem_map.mpr ⟨v, hv, rfl⟩, hkey⟩
  have hstill : (lastValue? (s.overrideAll ps).declared (keyOf p.1)).isSome = true := by
    rw [lastValue?_declared_overrideAll]
    split
    · rw [Option.isSome_or, hlast, Bool.or_true]
    · exact hlast
  obtain ⟨w, hw, hw'⟩ := Store.isSome_lastValue?.mp hstill
  exact (s.overrideAll ps).builtins_apart machine h p (by rwa [builtins_overrideAll]) w hw hw'.symm

/-- What a run reads: the value that was declared last, or that of a built-in variable. -/
theorem get_publish (h : (s.publish machine).refused = none) (n : String) :
    (s.publish machine).store.get n =
      ((lastValue? s.declared (keyOf n)).or
        (lastValue? (s.builtins machine) (keyOf n))).getD "" := by
  rw [s.store_publish machine h, (Store.holds_after _).get,
    s.accepted_publications machine h, Store.lastValue?_append]

/-- A variable that is declared has a last value. -/
theorem exists_lastValue?_declared {key : String} (h : 0 < Variable.count s.declarations key) :
    ∃ value, lastValue? s.declared key = some value :=
  Option.isSome_iff_exists.mp (Variable.isSome_lastValue?_pairs.mpr h)

/-- Overrides take effect in a run. -/
structure TakeEffect : Prop where
  /-- What is overridden reads as the override says, in every spelling. -/
  overridden : ∀ p ∈ ps, ∀ n, keyOf n = keyOf p.1 →
    ((s.overrideAll ps).publish machine).store.get n = p.2
  /-- All else reads as it does without overrides. -/
  others : ∀ n, (∀ p ∈ ps, keyOf p.1 ≠ keyOf n) →
    ((s.overrideAll ps).publish machine).store.get n = (s.publish machine).store.get n

variable {s machine ps}

/-- What is not overridden reads as it does without overrides. -/
theorem get_of_others (h : ((s.overrideAll ps).publish machine).refused = none) {n : String}
    (hn : ∀ p ∈ ps, keyOf p.1 ≠ keyOf n) :
    ((s.overrideAll ps).publish machine).store.get n = (s.publish machine).store.get n := by
  rw [get_publish _ _ h, get_publish _ _ (s.refused_of_overrideAll machine ps h),
    builtins_overrideAll, lastValue?_declared_overrideAll, Store.lastValue?_eq_none hn,
    Option.none_or, ite_self]

/-- Overrides of different variables take effect exactly if each variable that is declared more than
once, and is overridden, is declared with the value of the override last. -/
theorem takeEffect_iff (hdistinct : ps.Pairwise fun p q => keyOf p.1 ≠ keyOf q.1)
    (hpublished : ((s.overrideAll ps).publish machine).refused = none) :
    s.TakeEffect machine ps ↔ ∀ p ∈ ps, 1 < Variable.count s.declarations (keyOf p.1) →
      lastValue? s.declared (keyOf p.1) = some p.2 := by
  have hread : ∀ p ∈ ps, ∀ n, keyOf n = keyOf p.1 →
      ((s.overrideAll ps).publish machine).store.get n =
        if Variable.count s.declarations (keyOf p.1) ≤ 1 then p.2
        else (lastValue? s.declared (keyOf p.1)).getD "" := by
    intro p hp n hn
    rw [get_publish _ _ hpublished, lastValue?_declared_overrideAll, hn,
      Store.lastValue?_of_mem hdistinct hp]
    split
    · rfl
    · next hcount =>
      have hpos : 0 < Variable.count s.declarations (keyOf p.1) := by omega
      obtain ⟨u, hu⟩ := s.exists_lastValue?_declared hpos
      rw [hu]
      rfl
  constructor
  · intro h p hp hcount
    obtain ⟨u, hu⟩ := s.exists_lastValue?_declared (Nat.zero_lt_of_lt hcount)
    have hvalue := h.overridden p hp p.1 rfl
    rw [hread p hp p.1 rfl, if_neg (by omega), hu] at hvalue
    rw [hu]
    exact congrArg some hvalue
  · intro h
    refine ⟨fun p hp n hn => ?_, fun n hn => get_of_others hpublished hn⟩
    rw [hread p hp n hn]
    split
    · rfl
    · next hcount =>
      rw [h p hp (by omega)]
      rfl

/-- A sequence that declares one variable once, and another one twice. -/
def twofold : Sequence where
  id := "1"
  name := "one"
  description := ""
  version := "1"
  created := ⟨0, 0⟩
  modified := ⟨0, 0⟩
  declarations := [⟨"W", "0", false, false⟩, ⟨"X", "1", false, false⟩, ⟨"x", "2", false, false⟩]
  steps := []

/-- What is declared once, or not at all, is overridden in whatever spelling, and so is what is
declared with the same value last. -/
theorem takeEffect_iff_twofold :
    let ps : Pairs := [("w", "9"), ("X", "2"), ("Y", "3")]
    (ps.Pairwise fun p q => keyOf p.1 ≠ keyOf q.1) ∧
      ((twofold.overrideAll ps).publish "host").refused = none ∧ twofold.TakeEffect "host" ps := by
  intro ps
  have hdistinct : ps.Pairwise fun p q => keyOf p.1 ≠ keyOf q.1 := by decide +kernel
  have hpublished : ((twofold.overrideAll ps).publish "host").refused = none := by decide +kernel
  have hlast : ∀ p ∈ ps, 1 < Variable.count twofold.declarations (keyOf p.1) →
      lastValue? twofold.declared (keyOf p.1) = some p.2 := by
    decide +kernel
  exact ⟨hdistinct, hpublished, (takeEffect_iff hdistinct hpublished).mpr hlast⟩

/-- Not every override takes effect: the second declaration of a variable undoes it. -/
theorem not_takeEffect_twofold :
    ¬ ∀ (s : Sequence) (machine : String) (ps : Pairs),
      (ps.Pairwise fun p q => keyOf p.1 ≠ keyOf q.1) →
      ((s.overrideAll ps).publish machine).refused = none → s.TakeEffect machine ps := by
  intro h
  have hpublished : ((twofold.overrideAll [("X", "9")]).publish "host").refused = none := by
    decide +kernel
  have heffect := h twofold "host" [("X", "9")] (List.pairwise_singleton _ _) hpublished
  have hread := heffect.overridden ("X", "9") List.mem_cons_self "X" rfl
  exact absurd hread (by decide +kernel)

end Sequence
end Runbook
