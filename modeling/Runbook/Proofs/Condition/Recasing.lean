import Mathlib.Data.List.Forall2
import Runbook.Proofs.Condition.Coherence
import Runbook.Proofs.Store.History

/-!
# Conditions and the case of letters

The case of ASCII letters does not count in a condition: not in the name of its variable, not in the
text it compares with, and not in the store, neither in the names under which variables were written
nor in their values.  *Recased* conditions and stores differ in such letters only.  Actions on a
store that are recased lead to recased stores (`Store.recased_after`), and there recased conditions
hold alike (`holds_of_recased`), whichever of the operators they use and whether they compare
numbers or texts.
-/

namespace Runbook

open Runbook.Text

/-! ## Comparisons -/

namespace Condition

variable {a b a' b' : String}

theorem upperChars_of_sameLetters (h : sameLetters a b = true) :
    upperChars a.toList = upperChars b.toList :=
  upperChars_of_upper (upper_of_sameLetters h)

/-- Texts with the same letters compare alike. -/
theorem order_of_sameLetters (ha : sameLetters a a' = true) (hb : sameLetters b b' = true) :
    order a b = order a' b' := by
  have htext : compareText a b = compareText a' b' := by
    rw [compareText, compareText, upperChars_of_sameLetters ha, upperChars_of_sameLetters hb]
  rw [order, order, number?_of_sameLetters ha, number?_of_sameLetters hb, htext]

end Condition

/-! ## Stores -/

namespace Store

/-- Two entries of one variable, kept under the keys of their names and equal but for the case of
letters in names and values. -/
structure Entry.Recased (e f : Entry) : Prop where
  /-- The key of the first is that of its name. -/
  left : e.key = keyOf e.name
  /-- And so is the key of the second. -/
  right : f.key = keyOf f.name
  /-- The names have the same letters. -/
  name : sameLetters e.name f.name = true
  /-- The values have the same letters. -/
  value : sameLetters e.value f.value = true

/-- Two stores that are equal but for the case of letters in names and values. -/
structure Recased (s t : Store) : Prop where
  /-- Their entries are. -/
  entries : List.Forall₂ Entry.Recased s.entries t.entries
  /-- The same variables are locked. -/
  readOnly : s.readOnly = t.readOnly

/-- Two actions that are equal but for the case of letters. -/
inductive Action.Recased : Action → Action → Prop where
  /-- Both set a variable. -/
  | set {m n u v : String} : sameLetters m n = true → sameLetters u v = true →
      Recased (.set m u) (.set n v)
  /-- Both set a variable and lock it. -/
  | setLocked {m n u v : String} : sameLetters m n = true → sameLetters u v = true →
      Recased (.setLocked m u) (.setLocked n v)
  /-- Both drop all variables. -/
  | clear : Recased .clear .clear

theorem keyOf_of_sameLetters {m n : String} (h : sameLetters m n = true) : keyOf m = keyOf n :=
  upper_of_sameLetters h

theorem Entry.Recased.key {e f : Entry} (h : Entry.Recased e f) : e.key = f.key := by
  rw [h.left, h.right, keyOf_of_sameLetters h.name]

variable {s t : Store} {m n u v : String}

/-- A look-up finds recased entries, or none. -/
theorem find?_recased {es fs : List Entry} (h : List.Forall₂ Entry.Recased es fs) (key : String) :
    (es.find? (·.key = key) = none ∧ fs.find? (·.key = key) = none) ∨
      ∃ e f, es.find? (·.key = key) = some e ∧ fs.find? (·.key = key) = some f ∧
        Entry.Recased e f := by
  induction h with
  | nil => exact .inl ⟨rfl, rfl⟩
  | @cons e f es fs hef _ ih =>
    rw [List.find?_cons, List.find?_cons, hef.key]
    by_cases hkey : f.key = key
    · simp only [hkey, decide_true]
      exact .inr ⟨e, f, rfl, rfl, hef⟩
    · simp only [hkey, decide_false]
      exact ih

theorem Recased.find? (h : s.Recased t) (hmn : sameLetters m n = true) :
    (s.find? (keyOf m) = none ∧ t.find? (keyOf n) = none) ∨
      ∃ e f, s.find? (keyOf m) = some e ∧ t.find? (keyOf n) = some f ∧ Entry.Recased e f := by
  rw [keyOf_of_sameLetters hmn]
  exact find?_recased h.entries (keyOf n)

theorem Recased.contains (h : s.Recased t) (hmn : sameLetters m n = true) :
    s.contains m = t.contains n := by
  rw [Store.contains, Store.contains]
  obtain ⟨he, hf⟩ | ⟨e, f, he, hf, -⟩ := h.find? hmn
  · rw [he, hf]
  · rw [he, hf]
    rfl

theorem Recased.isLocked (h : s.Recased t) (hmn : sameLetters m n = true) :
    s.isLocked m = t.isLocked n := by
  rw [Store.isLocked, Store.isLocked, h.readOnly, keyOf_of_sameLetters hmn]

theorem Recased.get (h : s.Recased t) (hmn : sameLetters m n = true) :
    sameLetters (s.get m) (t.get n) = true := by
  rw [Store.get, Store.get]
  obtain ⟨he, hf⟩ | ⟨e, f, he, hf, hef⟩ := h.find? hmn
  · rw [he, hf]
    exact sameLetters_self ""
  · rw [he, hf]
    exact hef.value

theorem recased_writeEntries (hmn : sameLetters m n = true) (huv : sameLetters u v = true)
    {es fs : List Entry} (h : List.Forall₂ Entry.Recased es fs) :
    List.Forall₂ Entry.Recased (writeEntries (keyOf m) m u es) (writeEntries (keyOf n) n v fs) := by
  induction h with
  | nil => exact .cons ⟨rfl, rfl, hmn, huv⟩ .nil
  | @cons e f es fs hef hrest ih =>
    rw [writeEntries, writeEntries, hef.key, keyOf_of_sameLetters hmn]
    by_cases hkey : f.key = keyOf n
    · rw [if_pos hkey, if_pos hkey]
      exact .cons ⟨hef.key.symm.trans hef.left, hef.right, hef.name, huv⟩ hrest
    · rw [if_neg hkey, if_neg hkey]
      rw [keyOf_of_sameLetters hmn] at ih
      exact .cons hef ih

/-- A write keeps stores recased. -/
theorem Recased.write (h : s.Recased t) (hmn : sameLetters m n = true)
    (huv : sameLetters u v = true) : (s.write m u).Recased (t.write n v) :=
  ⟨recased_writeEntries hmn huv h.entries, h.readOnly⟩

theorem Recased.perform (h : s.Recased t) {a b : Action} (hab : a.Recased b) :
    (s.perform a).Recased (t.perform b) := by
  cases hab with
  | @set m n u v hmn huv =>
    rw [Store.perform, Store.perform, Store.set, Store.set, h.isLocked hmn]
    split_ifs
    · exact h
    · exact h.write hmn huv
  | setLocked hmn huv =>
    have hwrite := h.write hmn huv
    refine ⟨hwrite.entries, ?_⟩
    rw [Store.perform, Store.perform, Store.setLocked, Store.setLocked, h.readOnly,
      keyOf_of_sameLetters hmn]
  | clear => exact ⟨.nil, rfl⟩

/-- Actions that are recased lead to recased stores. -/
theorem recased_after {h h' : History} (hactions : List.Forall₂ Action.Recased h h') :
    (after h).Recased (after h') := by
  induction hactions with
  | nil => exact ⟨.nil, rfl⟩
  | cons hab _ ih => exact ih.perform hab

end Store

/-! ## Conditions -/

namespace Condition

/-- Two conditions that are equal but for the case of letters. -/
structure Recased (c d : Condition) : Prop where
  /-- The names of the variables have the same letters. -/
  name : sameLetters c.name d.name = true
  /-- The operators are the same. -/
  operator : c.operator = d.operator
  /-- The texts compared with have the same letters. -/
  value : sameLetters c.value d.value = true

variable {s t : Store}

/-- Recased conditions hold alike in recased stores. -/
theorem holds_of_recased (hstores : s.Recased t) {c d : Condition} (h : c.Recased d) :
    c.holds s = d.holds t := by
  have hactual : sameLetters (s.get c.name) (t.get d.name) = true := hstores.get h.name
  have hupper := upper_of_sameLetters hactual
  have horder := order_of_sameLetters hactual h.value
  rw [holds, holds, h.operator]
  cases d.operator with
  | equals =>
    dsimp only
    rw [hupper, upper_of_sameLetters h.value]
  | notEquals =>
    dsimp only
    rw [hupper, upper_of_sameLetters h.value]
  | greaterThan =>
    dsimp only
    rw [horder]
  | lessThan =>
    dsimp only
    rw [horder]
  | contains =>
    dsimp only
    rw [upperChars_of_sameLetters hactual, upperChars_of_sameLetters h.value]
  | present => exact hstores.contains h.name

/-- The case of ASCII letters does not count: recased actions lead to recased stores, and in
recased stores each of recased conditions holds as its partner does, and so all hold or not. -/
theorem ignores_case :
    (∀ h h' : Store.History, List.Forall₂ Store.Action.Recased h h' →
      (Store.after h).Recased (Store.after h')) ∧
    ∀ s t : Store, s.Recased t → ∀ cs ds : List Condition, List.Forall₂ Recased cs ds →
      List.Forall₂ (fun c d => c.holds s = d.holds t) cs ds ∧ allHold cs s = allHold ds t := by
  refine ⟨fun h h' => Store.recased_after, fun s t hstores cs ds hconditions => ?_⟩
  have heach : List.Forall₂ (fun c d => c.holds s = d.holds t) cs ds :=
    hconditions.imp fun c d h => holds_of_recased hstores h
  refine ⟨heach, ?_⟩
  have hmap : cs.map (·.holds s) = ds.map (·.holds t) := by
    rw [← List.forall₂_eq_eq_eq, List.forall₂_map_left_iff, List.forall₂_map_right_iff]
    exact heach
  have hall : ∀ (es : List Condition) (u : Store), allHold es u = (es.map (·.holds u)).all id := by
    intro es u
    rw [List.all_map]
    rfl
  rw [hall, hall, hmap]

/-- Two spellings of a store and of one condition with each operator, all of which hold. -/
theorem ignores_case_of_spellings :
    let s := Store.after [.set "Mem" "1E1", .setLocked "Disk" "Infinity"]
    let t := Store.after [.set "mEM" "1e1", .setLocked "dISK" "iNFINITY"]
    let cs : List Condition := [⟨"MEM", .equals, "1e1"⟩, ⟨"mem", .notEquals, "NAN"⟩,
      ⟨"Disk", .greaterThan, "1E308"⟩, ⟨"mem", .lessThan, "Inf"⟩, ⟨"disk", .contains, "INF"⟩,
      ⟨"mem", .present, "a"⟩]
    let ds : List Condition := [⟨"mem", .equals, "1E1"⟩, ⟨"Mem", .notEquals, "nan"⟩,
      ⟨"DISK", .greaterThan, "1e308"⟩, ⟨"MEM", .lessThan, "iNF"⟩, ⟨"DISK", .contains, "inf"⟩,
      ⟨"mEm", .present, "A"⟩]
    allHold cs s = true ∧ allHold ds t = true := by
  intro s t cs ds
  have hstores : s.Recased t := ignores_case.1 _ _
    (.cons (.set (by decide) (by decide)) (.cons (.setLocked (by decide) (by decide)) .nil))
  have hconditions : List.Forall₂ Recased cs ds :=
    .cons ⟨by decide, rfl, by decide⟩ (.cons ⟨by decide, rfl, by decide⟩
      (.cons ⟨by decide, rfl, by decide⟩ (.cons ⟨by decide, rfl, by decide⟩
      (.cons ⟨by decide, rfl, by decide⟩ (.cons ⟨by decide, rfl, by decide⟩ .nil)))))
  have hholds : allHold cs s = true := by decide +kernel
  exact ⟨hholds, (ignores_case.2 s t hstores cs ds hconditions).2 ▸ hholds⟩

end Condition
end Runbook
