import Runbook.Console.Assignment
import Runbook.Console.Settings
import Runbook.Proofs.Document.Parsed
import Runbook.Proofs.Store.Spelling

/-!
# Precedence of variables

A variable may be declared in the document, configured in the settings and given in an assignment.
Assignments take precedence over settings, and both over the document, unless a variable is spelled
in more than one way: maps tell spellings apart, and in them a spelling keeps its place when it gets
a new value.  So a variable that was given last in a spelling that comes early in the map has the
value of a spelling that comes later.

`Settings.precedence_iff` says for which assignments the variables have their precedence.
-/

namespace Runbook

open Store (keyOf lastValue?)

namespace Console

/-! ## Assignments -/

namespace Assignment

/-- What assignments give, in order. -/
def given (words : List String) : List (String × String) :=
  words.filterMap fun s => (read s).toOption

theorem mapM_read : ∀ {words : List String} {qs : List (String × String)},
    words.mapM read = .ok qs → qs = given words
  | [], qs, h => by
      rw [List.mapM_nil] at h
      cases h
      rfl
  | s :: words, qs, h => by
      rw [List.mapM_cons] at h
      cases hread : read s with
      | error b =>
        rw [hread] at h
        cases h
      | ok q =>
        cases hrest : words.mapM read with
        | error b =>
          rw [hread, hrest] at h
          cases h
        | ok rs =>
          rw [hread, hrest] at h
          cases h
          rw [mapM_read hrest, given, given, List.filterMap_cons, hread]
          rfl

/-- Assignments are read as the map of what they give. -/
theorem readAll_eq_ok {words : List String} {ps : Pairs} (h : readAll words = .ok ps) :
    ps = Pairs.ofList (given words) := by
  rw [readAll] at h
  cases hread : words.mapM read with
  | error b =>
    rw [hread] at h
    cases h
  | ok qs =>
    rw [hread] at h
    cases h
    rw [mapM_read hread]

end Assignment

/-! ## Settings -/

namespace Settings

/-- Assignments take precedence over settings, and both over the document. -/
structure Precedence (settings : Settings) (words : List String) (document : Sequence)
    (store : Store) : Prop where
  /-- What is given reads as it was given last, in every spelling. -/
  given : ∀ n v, lastValue? (Assignment.given words) (keyOf n) = some v → store.get n = v
  /-- What is configured, and not given, reads as it was configured last. -/
  configured : ∀ n v, lastValue? (Assignment.given words) (keyOf n) = none →
    lastValue? settings.presets (keyOf n) = some v → store.get n = v
  /-- All else that is declared reads as it was declared. -/
  declared : ∀ u ∈ document.declarations,
    lastValue? (Assignment.given words) (keyOf u.name) = none →
      lastValue? settings.presets (keyOf u.name) = none →
        ∀ n, keyOf n = keyOf u.name → store.get n = u.value

section

variable {settings : Settings} {words : List String} {document : Sequence} {machine : String}
  {ps qs : Pairs}

/-- What a run reads: the preset value, and if there is none the declared one. -/
theorem get_preset
    (hdistinct : document.declarations.Pairwise fun u v => keyOf u.name ≠ keyOf v.name)
    (hpublished : ((document.overrideAll qs).publish machine).refused = none) (n : String) :
    ((document.overrideAll qs).publish machine).store.get n =
      (((lastValue? qs (keyOf n)).or (lastValue? document.declared (keyOf n))).or
        (lastValue? (document.builtins machine) (keyOf n))).getD "" := by
  rw [Sequence.get_publish _ _ hpublished, Sequence.builtins_overrideAll,
    Sequence.lastValue?_declared_overrideAll, if_pos (Variable.count_le_one hdistinct)]

/-- Assignments leave other presets alone. -/
theorem lastValue?_withVariables_of_none (hwords : Assignment.readAll words = .ok ps) {key : String}
    (h : lastValue? (Assignment.given words) key = none) :
    lastValue? (settings.withVariables ps).presets key = lastValue? settings.presets key := by
  rw [Assignment.readAll_eq_ok hwords, withVariables, Pairs.lastValue?_insertAll_of_none]
  rw [Pairs.ofList, Pairs.lastValue?_insertAll_of_none h]
  rfl

/-- Where each variable is spelled in one way, the last assignment to it counts. -/
theorem lastValue?_withVariables (hwords : Assignment.readAll words = .ok ps)
    (hpresets : settings.presets.keys.Nodup)
    (hone : Pairs.OneSpelling (Pairs.keys (settings.presets ++ Assignment.given words)))
    (key : String) :
    lastValue? (settings.withVariables ps).presets key =
      (lastValue? (Assignment.given words) key).or (lastValue? settings.presets key) := by
  have hgiven : ∀ n ∈ Pairs.keys (Assignment.given words),
      n ∈ Pairs.keys (settings.presets ++ Assignment.given words) := by
    intro n hn
    rw [Pairs.keys, List.map_append]
    exact List.mem_append_right _ hn
  have hmap : lastValue? (Pairs.ofList (Assignment.given words)) key =
      lastValue? (Assignment.given words) key := by
    have hones : Pairs.OneSpelling (Pairs.keys ([] ++ Assignment.given words)) :=
      fun m hm n hn => hone m (hgiven m hm) n (hgiven n hn)
    have hinserted : lastValue? (Pairs.insertAll [] (Assignment.given words)) key =
        (lastValue? (Assignment.given words) key).or none :=
      Pairs.lastValue?_insertAll List.nodup_nil hones
    exact hinserted.trans Option.or_none
  rw [Assignment.readAll_eq_ok hwords, withVariables, Pairs.lastValue?_insertAll hpresets, hmap]
  have hkeys : ∀ n ∈ Pairs.keys (settings.presets ++ Pairs.ofList (Assignment.given words)),
      n ∈ Pairs.keys (settings.presets ++ Assignment.given words) := by
    intro n hn
    rw [Pairs.keys, List.map_append, List.mem_append] at hn ⊢
    obtain hn | hn := hn
    · exact .inl hn
    · obtain hn | hn := Pairs.mem_keys_insertAll.mp hn
      · cases hn
      · exact .inr hn
  exact fun m hm n hn => hone m (hkeys m hm) n (hkeys n hn)

/-- Variables have their precedence exactly if each one that is given has the value that it was
given last at its last place among the presets, and so if each is spelled in one way. -/
theorem precedence_iff (hwords : Assignment.readAll words = .ok ps)
    (hpresets : settings.presets.keys.Nodup)
    (hdistinct : document.declarations.Pairwise fun u v => keyOf u.name ≠ keyOf v.name)
    (hpublished : ((document.overrideAll (settings.withVariables ps).presets).publish
      machine).refused = none) :
    let store := ((document.overrideAll (settings.withVariables ps).presets).publish machine).store
    (Precedence settings words document store ↔
      ∀ key v, lastValue? (Assignment.given words) key = some v →
        lastValue? (settings.withVariables ps).presets key = some v) ∧
    (Pairs.OneSpelling (Pairs.keys (settings.presets ++ Assignment.given words)) →
      Precedence settings words document store) := by
  have hread := get_preset hdistinct hpublished
  have hiff : Precedence settings words document
      ((document.overrideAll (settings.withVariables ps).presets).publish machine).store ↔
      ∀ key v, lastValue? (Assignment.given words) key = some v →
        lastValue? (settings.withVariables ps).presets key = some v := by
    constructor
    · intro h key v hv
      have hsome : (lastValue? (settings.withVariables ps).presets key).isSome = true := by
        have hgiven : (lastValue? (Pairs.ofList (Assignment.given words)) key).isSome = true :=
          Pairs.isSome_lastValue?_insertAll.mpr (.inr (Option.isSome_iff_exists.mpr ⟨v, hv⟩))
        rw [Assignment.readAll_eq_ok hwords]
        exact Pairs.isSome_lastValue?_insertAll.mpr (.inr hgiven)
      obtain ⟨n, -, rfl⟩ := Pairs.isSome_lastValue?_iff_keys.mp hsome
      obtain ⟨u, hu⟩ := Option.isSome_iff_exists.mp hsome
      have hvalue := h.given n v hv
      rw [hread, hu] at hvalue
      rw [hu]
      exact congrArg some hvalue
    · intro h
      refine ⟨fun n v hv => ?_, fun n v hnone hv => ?_, fun u hu hnone hnone' n hn => ?_⟩
      · rw [hread, h (keyOf n) v hv]
        rfl
      · rw [hread, lastValue?_withVariables_of_none hwords hnone, hv]
        rfl
      · have hdeclared : lastValue? document.declared (keyOf u.name) = some u.value :=
          Store.lastValue?_of_mem (w := (u.name, u.value)) (List.pairwise_map.mpr hdistinct)
            (List.mem_map.mpr ⟨u, hu, rfl⟩)
        rw [hread, hn, lastValue?_withVariables_of_none hwords hnone, hnone', hdeclared]
        rfl
  refine ⟨hiff, fun hone => hiff.mpr fun key v hv => ?_⟩
  rw [lastValue?_withVariables hwords hpresets hone, hv]
  rfl

end

/-- A document that declares two variables. -/
def twoVariables : Sequence where
  id := "1"
  name := "one"
  description := ""
  version := "1"
  created := ⟨0, 0⟩
  modified := ⟨0, 0⟩
  declarations := [⟨"a", "0", false, false⟩, ⟨"D", "7", false, false⟩]
  steps := []

/-- The last of two assignments counts, in whatever spelling the variable is declared. -/
theorem precedence_iff_twoVariables :
    let settings : Settings := { presets := [("A", "1"), ("B", "2")] }
    let words := ["A=3", " A =4", "C=5"]
    let ps : Pairs := [("A", "4"), ("C", "5")]
    let combined := twoVariables.overrideAll (settings.withVariables ps).presets
    Assignment.readAll words = .ok ps ∧ settings.presets.keys.Nodup ∧
      (twoVariables.declarations.Pairwise fun u v => keyOf u.name ≠ keyOf v.name) ∧
      (combined.publish "host").refused = none ∧
      Precedence settings words twoVariables (combined.publish "host").store := by
  intro settings words ps combined
  have hwords : Assignment.readAll words = .ok ps := rfl
  have hpresets : settings.presets.keys.Nodup := by decide
  have hdistinct : twoVariables.declarations.Pairwise fun u v => keyOf u.name ≠ keyOf v.name := by
    decide +kernel
  have hpublished : (combined.publish "host").refused = none := by decide +kernel
  have hone : Pairs.OneSpelling (Pairs.keys (settings.presets ++ Assignment.given words)) := by
    unfold Pairs.OneSpelling
    decide +kernel
  exact ⟨hwords, hpresets, hdistinct, hpublished,
    (precedence_iff hwords hpresets hdistinct hpublished).2 hone⟩

/-- An assignment to a variable that the settings spell in two ways may come to nothing. -/
theorem not_precedence_twoSpellings :
    ¬ ∀ (settings : Settings) (words : List String) (document : Sequence) (machine : String)
      (ps : Pairs), Assignment.readAll words = .ok ps → settings.presets.keys.Nodup →
      (document.declarations.Pairwise fun u v => keyOf u.name ≠ keyOf v.name) →
      ((document.overrideAll (settings.withVariables ps).presets).publish machine).refused = none →
      Precedence settings words document
        ((document.overrideAll (settings.withVariables ps).presets).publish machine).store := by
  intro h
  have hprecedence := h { presets := [("A", "1"), ("a", "2")] } ["A=3"] twoVariables "host"
    [("A", "3")] rfl (by decide) (by decide +kernel) (by decide +kernel)
  exact absurd (hprecedence.given "A" "3" (by decide +kernel)) (by decide +kernel)

end Settings
end Console
end Runbook
