import Mathlib.Data.List.Basic
import Runbook.Store.Expand

/-!
# How a text is expanded

A text is read once from left to right, by three rules (`Store.SinglePass`).  A text with one
percent sign at most stays as it is.  If the first two percent signs enclose a name, the value of
the variable comes in place of both, and reading goes on behind them: what the value holds is not
looked at again.  If they enclose anything else, the first one stays, and the second one may open a
reference itself.

Between them the rules say what becomes of every text, so expansion is the only function that
follows them: `Store.expand_iff`.
-/

namespace Runbook.Store

open Runbook.Text

/-- The text can be the name in a reference. -/
structure IsReferenceName (n : String) : Prop where
  /-- It holds no percent sign. -/
  percent : '%' ∉ n.toList
  /-- It is not empty. -/
  nonempty : n ≠ ""
  /-- It holds no carriage return. -/
  carriageReturn : '\r' ∉ n.toList
  /-- It holds no line feed. -/
  lineFeed : '\n' ∉ n.toList
  /-- It does not start with a blank. -/
  start : ∀ c, n.toList.head? = some c → isBlank c = false
  /-- It does not end with a blank. -/
  last : ∀ c, n.toList.getLast? = some c → isBlank c = false

/-- The function reads a text once from left to right and puts in the values of the store. -/
structure SinglePass (s : Store) (f : String → String) : Prop where
  /-- A single percent sign opens no reference. -/
  plain : ∀ t, t.toList.count '%' ≤ 1 → f t = t
  /-- Two percent signs around a name are a reference. -/
  reference : ∀ a n b, '%' ∉ a.toList → IsReferenceName n →
    f (a ++ "%" ++ n ++ "%" ++ b) = a ++ s.get n ++ f b
  /-- Of two percent signs around anything else, the first one stays. -/
  other : ∀ a n b, '%' ∉ a.toList → '%' ∉ n.toList → ¬ IsReferenceName n →
    f (a ++ "%" ++ n ++ "%" ++ b) = a ++ "%" ++ n ++ f ("%" ++ b)

/-! ## Names -/

theorem isBlank_map_getD {o : Option Char} (ho : o ≠ none) :
    (o.map isBlank).getD true = false ↔ ∀ c, o = some c → isBlank c = false := by
  cases o with
  | none => exact absurd rfl ho
  | some c => simp

/-- A text without percent signs is read as a name exactly if it can be one. -/
theorem isName_iff {n : String} (h : '%' ∉ n.toList) :
    isName n.toList = true ↔ IsReferenceName n := by
  rw [isName]
  by_cases hempty : n = ""
  · subst hempty
    exact ⟨fun hname => absurd hname (by decide), fun hname => absurd rfl hname.nonempty⟩
  have hne : n.toList ≠ [] := fun hnil => hempty (String.toList_eq_nil_iff.mp hnil)
  have hhead : n.toList.head? ≠ none := fun hnone => hne (List.head?_eq_none_iff.mp hnone)
  have hlast : n.toList.getLast? ≠ none := fun hnone => hne (List.getLast?_eq_none_iff.mp hnone)
  simp only [Bool.and_eq_true, Bool.not_eq_true', List.isEmpty_eq_false_iff, List.contains_eq_mem,
    decide_eq_false_iff_not, isBlank_map_getD hhead, isBlank_map_getD hlast]
  constructor
  · rintro ⟨⟨⟨⟨-, hreturn⟩, hfeed⟩, hstart⟩, hend⟩
    exact ⟨h, hempty, hreturn, hfeed, hstart, hend⟩
  · rintro ⟨-, -, hreturn, hfeed, hstart, hend⟩
    exact ⟨⟨⟨⟨hne, hreturn⟩, hfeed⟩, hstart⟩, hend⟩

/-! ## The first percent sign -/

theorem splitPercent_of_notMem : ∀ {cs : List Char}, '%' ∉ cs → splitPercent cs = (cs, none)
  | [], _ => rfl
  | c :: cs, h => by
      rw [splitPercent, if_neg (Ne.symm (List.ne_of_not_mem_cons h)),
        splitPercent_of_notMem (List.not_mem_of_not_mem_cons h)]

theorem splitPercent_append : ∀ {a : List Char}, '%' ∉ a → ∀ r : List Char,
    splitPercent (a ++ '%' :: r) = (a, some r)
  | [], _, _ => rfl
  | c :: a, h, r => by
      rw [List.cons_append, splitPercent, if_neg (Ne.symm (List.ne_of_not_mem_cons h)),
        splitPercent_append (List.not_mem_of_not_mem_cons h) r]

/-- A text with a percent sign is split at the first one. -/
theorem exists_split {cs : List Char} (h : '%' ∈ cs) :
    ∃ a r, cs = a ++ '%' :: r ∧ '%' ∉ a :=
  List.eq_append_cons_of_mem h

/-! ## Expanding characters -/

section

variable {lookup : List Char → List Char} {a n : List Char}

theorem expandChars_of_notMem (ha : '%' ∉ a) : expandChars lookup a = a := by
  rw [expandChars, splitPercent_of_notMem ha]

theorem expandChars_append (ha : '%' ∉ a) (r : List Char) :
    expandChars lookup (a ++ '%' :: r) = a ++ expandOpen lookup r := by
  rw [expandChars, splitPercent_append ha]

theorem expandOpen_of_notMem (ha : '%' ∉ a) : expandOpen lookup a = '%' :: a := by
  rw [expandOpen]
  split
  · next h =>
    rw [splitPercent_of_notMem ha] at h
    cases h
    rfl
  · next h =>
    rw [splitPercent_of_notMem ha] at h
    cases h

/-- Behind a reference reading starts again. -/
theorem expandOpen_name (hn : '%' ∉ n) (hname : isName n = true) (b : List Char) :
    expandOpen lookup (n ++ '%' :: b) = lookup n ++ expandChars lookup b := by
  rw [expandOpen]
  split
  · next h =>
    rw [splitPercent_append hn] at h
    cases h
  · next h =>
    rw [splitPercent_append hn] at h
    cases h
    rw [if_pos hname]
    split
    · next hb => simp only [expandChars, hb]
    · next hb => simp only [expandChars, hb, List.append_assoc]

/-- What is no name is no reference, and its second percent sign may open one. -/
theorem expandOpen_other (hn : '%' ∉ n) (hname : isName n = false) (b : List Char) :
    expandOpen lookup (n ++ '%' :: b) = '%' :: n ++ expandOpen lookup b := by
  rw [expandOpen]
  split
  · next h =>
    rw [splitPercent_append hn] at h
    cases h
  · next h =>
    rw [splitPercent_append hn] at h
    cases h
    rw [if_neg (by simp [hname])]

end

/-! ## The rules -/

theorem toList_enclosed (a n b : String) :
    (a ++ "%" ++ n ++ "%" ++ b).toList = a.toList ++ '%' :: (n.toList ++ '%' :: b.toList) := by
  simp

/-- A text with more than one percent sign is split at the first two. -/
theorem exists_enclosed {t : String} (h : 1 < t.toList.count '%') :
    ∃ a n b : String, t = a ++ "%" ++ n ++ "%" ++ b ∧ '%' ∉ a.toList ∧ '%' ∉ n.toList := by
  obtain ⟨a, r, ht, ha⟩ := exists_split (List.count_pos_iff.mp (Nat.lt_of_succ_lt h))
  have hcount : r.count '%' ≠ 0 := by
    rw [ht, List.count_append, List.count_eq_zero.mpr ha, List.count_cons_self] at h
    omega
  obtain ⟨n, b, rfl, hn⟩ := exists_split (List.count_pos_iff.mp (Nat.pos_of_ne_zero hcount))
  refine ⟨String.ofList a, String.ofList n, String.ofList b, ?_, by simpa using ha,
    by simpa using hn⟩
  rw [← String.toList_inj, toList_enclosed, ht]
  simp

theorem expand_plain (s : Store) {t : String} (h : t.toList.count '%' ≤ 1) : s.expand t = t := by
  rw [expand, ← String.toList_inj, String.toList_ofList]
  by_cases hmem : '%' ∈ t.toList
  · obtain ⟨a, r, ht, ha⟩ := exists_split hmem
    have hr : '%' ∉ r := by
      rw [ht, List.count_append, List.count_cons_self] at h
      exact List.count_eq_zero.mp (by omega)
    rw [ht, expandChars_append ha, expandOpen_of_notMem hr]
  · exact expandChars_of_notMem hmem

theorem singlePass_expand (s : Store) : s.SinglePass s.expand where
  plain _ h := s.expand_plain h
  reference a n b ha hn := by
    have hname := (isName_iff hn.percent).mpr hn
    rw [expand, ← String.toList_inj, toList_enclosed, expandChars_append ha,
      expandOpen_name hn.percent hname]
    simp [expand]
  other a n b ha hn hother := by
    have hname : isName n.toList = false := by
      rw [Bool.eq_false_iff, ne_eq, isName_iff hn]
      exact hother
    have hrest : expandChars (fun m => (s.get (String.ofList m)).toList) ("%" ++ b).toList =
        expandOpen (fun m => (s.get (String.ofList m)).toList) b.toList := by
      rw [String.toList_append]
      exact expandChars_append (a := []) List.not_mem_nil _
    rw [expand, ← String.toList_inj, toList_enclosed, expandChars_append ha,
      expandOpen_other hn hname, expand, hrest]
    simp

/-- Two functions that follow the rules agree on every text, by induction on its length: each rule
leaves a shorter text to read. -/
theorem SinglePass.eq {s : Store} {f g : String → String} (hf : s.SinglePass f)
    (hg : s.SinglePass g) (t : String) : f t = g t := by
  by_cases h : t.toList.count '%' ≤ 1
  · rw [hf.plain t h, hg.plain t h]
  obtain ⟨a, n, b, rfl, ha, hn⟩ := exists_enclosed (Nat.lt_of_not_le h)
  have hlength := congrArg List.length (toList_enclosed a n b)
  simp only [List.length_append, List.length_cons] at hlength
  by_cases hname : IsReferenceName n
  · have hshorter : b.toList.length < (a ++ "%" ++ n ++ "%" ++ b).toList.length := by omega
    rw [hf.reference a n b ha hname, hg.reference a n b ha hname, hf.eq hg b]
  · have hshorter : ("%" ++ b).toList.length < (a ++ "%" ++ n ++ "%" ++ b).toList.length := by
      have hpercent : ("%" ++ b).toList.length = b.toList.length + 1 := by simp
      omega
    rw [hf.other a n b ha hn hname, hg.other a n b ha hn hname, hf.eq hg ("%" ++ b)]
termination_by t.toList.length

/-- Expansion is the only function that follows the rules.  The value of a variable that is not
there is empty. -/
theorem expand_iff (s : Store) :
    (∀ f, s.SinglePass f ↔ f = s.expand) ∧ ∀ n, s.contains n = false → s.get n = "" := by
  refine ⟨fun f => ⟨fun hf => ?_, ?_⟩, fun n hn => ?_⟩
  · exact funext (hf.eq s.singlePass_expand)
  · rintro rfl
    exact s.singlePass_expand
  · rw [contains, Option.isSome_eq_false_iff, Option.isNone_iff_eq_none] at hn
    rw [get, hn]
    rfl

end Runbook.Store
