import Runbook.Condition.Holds
import Runbook.Proofs.Binary64.Spelling
import Runbook.Proofs.Binary64.Value

/-!
# Coherence of the comparisons

Equality of texts compares capital forms, but the order of texts that both stand for numbers is the
order of these numbers.  The two never contradict each other: texts with one capital form that stand
for numbers stand for the same one, since such texts are made of blanks and ASCII characters and so
have the same letters (`order_of_upper`).  The order itself is turned round with its sides
(`order_swap`), and between numbers it is that of their values (`order_compares`).

`coherent` says what follows for conditions.
-/

namespace Runbook

open Runbook.Text

/-! ## Texts that stand for numbers -/

namespace Text

theorem isBlank_or_mem_trimStart {cs : List Char} {c : Char} (h : c ∈ cs) :
    isBlank c = true ∨ c ∈ trimStart cs := by
  rw [← List.takeWhile_append_dropWhile (p := isBlank) (l := cs), List.mem_append] at h
  exact h.imp_left List.mem_takeWhile_imp

/-- Only blanks are taken off a text. -/
theorem isBlank_or_mem_trimmed {cs : List Char} {c : Char} (h : c ∈ cs) :
    isBlank c = true ∨ c ∈ trimmed cs := by
  obtain hblank | hstart := isBlank_or_mem_trimStart h
  · exact .inl hblank
  · refine (isBlank_or_mem_trimStart (List.mem_reverse.mpr hstart)).imp_right fun hend => ?_
    exact List.mem_reverse.mpr hend

end Text

namespace Condition

variable {a b : String} {x y : Binary64}

theorem number?_eq_some_iff :
    number? a = some x ↔ Binary64.read? (trimmed a.toList) = some x ∧ x ≠ .nan := by
  rw [number?, Option.filter_eq_some_iff, decide_eq_true_eq]

/-- A text that stands for a number is plain. -/
theorem isPlain_of_number? (h : number? a = some x) : IsPlain a.toList := by
  obtain ⟨hread, -⟩ := number?_eq_some_iff.mp h
  exact fun c hc => (isBlank_or_mem_trimmed hc).imp_right (Binary64.isAscii_of_read? hread c)

/-- Texts with the same letters stand for the same number. -/
theorem number?_of_sameLetters (h : sameLetters a b = true) : number? a = number? b := by
  have hread : ∀ s : String, Binary64.read? (trimmed s.toList) =
      Binary64.read? (trimmed (lowerAscii s.toList)) := by
    intro s
    rw [trimmed_lowerAscii, Binary64.read?_lowerAscii]
  rw [number?, number?, hread a, hread b, sameLetters_iff.mp h]

theorem upperChars_of_upper (h : upper a = upper b) : upperChars a.toList = upperChars b.toList :=
  String.ofList_injective h

/-- Numbers with one capital form are the same number. -/
theorem number?_of_upper (ha : number? a = some x) (hb : number? b = some y)
    (h : upper a = upper b) : x = y := by
  have hletters : sameLetters a b = true := sameLetters_iff.mpr
    (lowerAscii_eq_of_upperChars (isPlain_of_number? ha) (isPlain_of_number? hb)
      (upperChars_of_upper h))
  rw [number?_of_sameLetters hletters, hb, Option.some.injEq] at ha
  exact ha.symm

theorem exists_value?_of_number? (h : number? a = some x) : ∃ v, x.value? = some v := by
  cases x with
  | finite => exact ⟨_, rfl⟩
  | infinite => exact ⟨_, rfl⟩
  | nan => exact absurd rfl (number?_eq_some_iff.mp h).2

/-! ## The order of two texts -/

theorem compareChars_self (cs : List Char) : compareChars cs cs = .eq := by
  induction cs with
  | nil => rfl
  | cons c cs ih => rw [compareChars, ih, Nat.compare_eq_eq.mpr rfl]; rfl

theorem compareChars_swap : ∀ cs ds : List Char, compareChars ds cs = (compareChars cs ds).swap
  | [], [] => rfl
  | [], _ :: _ => rfl
  | _ :: _, [] => rfl
  | c :: cs, d :: ds => by
      rw [compareChars, compareChars, Ordering.swap_then, Nat.compare_swap, compareChars_swap cs ds]

/-- The order of two numbers, and that of two texts if it is undecided. -/
theorem order_eq_of_number? (ha : number? a = some x) (hb : number? b = some y) :
    order a b = (Binary64.compare? x y).getD (compareText a b) := by
  rw [order, ha, hb]

theorem order_eq_of_no_number (h : number? a = none ∨ number? b = none) :
    order a b = compareText a b := by
  rw [order]
  split
  · next ha hb =>
    rw [ha, hb] at h
    simp at h
  · rfl

/-- Between numbers the order is that of their values. -/
theorem order_compares (ha : number? a = some x) (hb : number? b = some y) {v w : EReal}
    (hv : x.value? = some v) (hw : y.value? = some w) : ∃ o, order a b = o ∧ o.Compares v w := by
  obtain ⟨o, ho, hcompares⟩ := Binary64.compares_value?
    (Binary64.isProper_of_read? (number?_eq_some_iff.mp ha).1)
    (Binary64.isProper_of_read? (number?_eq_some_iff.mp hb).1) hv hw
  exact ⟨o, by rw [order_eq_of_number? ha hb, ho, Option.getD_some], hcompares⟩

/-- The order is turned round with its sides. -/
theorem order_swap (a b : String) : order b a = (order a b).swap := by
  have htext : compareText b a = (compareText a b).swap := compareChars_swap _ _
  cases ha : number? a with
  | none =>
    rw [order_eq_of_no_number (.inl ha), order_eq_of_no_number (.inr ha), htext]
  | some x =>
    cases hb : number? b with
    | none =>
      rw [order_eq_of_no_number (.inl hb), order_eq_of_no_number (.inr hb), htext]
    | some y =>
      obtain ⟨v, hv⟩ := exists_value?_of_number? ha
      obtain ⟨w, hw⟩ := exists_value?_of_number? hb
      obtain ⟨o, ho, hvw⟩ := order_compares ha hb hv hw
      obtain ⟨o', ho', hwv⟩ := order_compares hb ha hw hv
      -- Two orders of one pair of values are the same.
      rw [ho, ho', hwv.inj hvw.swap]

/-- Texts with one capital form are not ordered. -/
theorem order_of_upper (h : upper a = upper b) : order a b = .eq := by
  have htext : compareText a b = .eq := by
    rw [compareText, upperChars_of_upper h, compareChars_self]
  cases ha : number? a with
  | none => rw [order_eq_of_no_number (.inl ha), htext]
  | some x =>
    cases hb : number? b with
    | none => rw [order_eq_of_no_number (.inr hb), htext]
    | some y =>
      obtain ⟨v, hv⟩ := exists_value?_of_number? ha
      obtain rfl := number?_of_upper ha hb h
      obtain ⟨o, ho, hcompares⟩ := order_compares ha hb hv hv
      exact ho.trans (hcompares.eq_eq.mpr rfl)

/-- A text occurs in itself. -/
theorem occursIn_self (cs : List Char) : occursIn cs cs = true := by
  cases cs with
  | nil => rfl
  | cons c cs =>
    rw [occursIn, Bool.or_eq_true]
    exact .inl (List.isPrefixOf_iff_prefix.mpr (List.prefix_refl _))

/-! ## Conditions -/

/-- What the operators say about one variable and one text to compare with. -/
structure Coherent (s : Store) (name value : String) : Prop where
  /-- The variable is equal, greater or less, or none of them. -/
  exclusive : [Operator.equals, .greaterThan, .lessThan].countP
    (fun o => holds ⟨name, o, value⟩ s) ≤ 1
  /-- It is equal or it is not. -/
  negated : holds ⟨name, .notEquals, value⟩ s = !holds ⟨name, .equals, value⟩ s
  /-- What is equal is contained. -/
  contained : holds ⟨name, .equals, value⟩ s = true → holds ⟨name, .contains, value⟩ s = true
  /-- It is greater if a variable with the text as its value is less than it. -/
  turned : ∀ (t : Store) (other : String), t.get other = value →
    holds ⟨name, .greaterThan, value⟩ s = holds ⟨other, .lessThan, s.get name⟩ t
  /-- Numbers are less, greater or equal as their values are. -/
  numeric : ∀ x y, number? (s.get name) = some x → number? value = some y →
    ∃ v w, x.value? = some v ∧ y.value? = some w ∧
      (holds ⟨name, .lessThan, value⟩ s = true ∧ holds ⟨name, .greaterThan, value⟩ s = false ∧
          v < w ∨
        holds ⟨name, .lessThan, value⟩ s = false ∧ holds ⟨name, .greaterThan, value⟩ s = true ∧
          w < v ∨
        holds ⟨name, .lessThan, value⟩ s = false ∧ holds ⟨name, .greaterThan, value⟩ s = false ∧
          v = w)

/-- The comparisons are coherent in every store, for every variable and every text. -/
theorem coherent (s : Store) (name value : String) : Coherent s name value where
  exclusive := by
    simp only [holds]
    by_cases h : upper (s.get name) = upper value
    · simp [h, order_of_upper h]
    · cases order (s.get name) value <;> simp [h]
  negated := rfl
  contained := by
    simp only [holds, beq_iff_eq]
    intro h
    rw [upperChars_of_upper h]
    exact occursIn_self _
  turned := by
    rintro t other rfl
    simp only [holds]
    rw [order_swap (s.get name)]
    cases order (s.get name) (t.get other) <;> rfl
  numeric := by
    intro x y hx hy
    obtain ⟨v, hv⟩ := exists_value?_of_number? hx
    obtain ⟨w, hw⟩ := exists_value?_of_number? hy
    obtain ⟨o, ho, hcompares⟩ := order_compares hx hy hv hw
    refine ⟨v, w, hv, hw, ?_⟩
    simp only [holds, ho]
    cases o with
    | lt => exact .inl ⟨rfl, rfl, hcompares⟩
    | gt => exact .inr (.inl ⟨rfl, rfl, hcompares⟩)
    | eq => exact .inr (.inr ⟨rfl, rfl, hcompares⟩)

/-- A text that is too great for a finite number is neither less nor greater than infinity. -/
example : order " 1e400" "INF" = .eq := by decide +kernel

end Condition
end Runbook
