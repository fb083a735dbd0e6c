import Mathlib.Data.Finset.Card
import Mathlib.Data.Finset.Dedup
import Mathlib.Data.List.Infix
import Runbook.Proofs.Step.Preorder
import Runbook.Validation

/-!
# The errors of a sequence

The check walks through the declarations and through the steps with the keys it has seen.  What it
has seen is what stood before, so that an error for a repeated key stands for a *latecomer*: an
element whose key an element before it has.

`latecomersAfter_cons` is the step of both walks, `length_latecomersAfter` counts the latecomers and
`mem_latecomers` says where they stand.  `Sequence.tells_validate` says what a report is worth: it
is valid exactly if the names and the identities are well given, and its errors for what is repeated
are as many as the keys that are missing.
-/

namespace Runbook

section Latecomers

variable {α β : Type} [DecidableEq β] (key : α → β)

/-- Those of a list whose key is among the keys seen or is that of one before them. -/
def latecomersAfter (seen : List β) (xs : List α) : List α :=
  ((xs.inits.zip xs).filter fun p => key p.2 ∈ seen ∨ key p.2 ∈ p.1.map key).map Prod.snd

/-- Those of a list that have the key of one before them. -/
def latecomers (xs : List α) : List α := latecomersAfter key [] xs

theorem latecomersAfter_cons (seen : List β) (x : α) (xs : List α) :
    latecomersAfter key seen (x :: xs) =
      (if key x ∈ seen then [x] else []) ++ latecomersAfter key (key x :: seen) xs := by
  have hmoved : ∀ p : List α × α,
      (key p.2 ∈ seen ∨ key p.2 ∈ (x :: p.1).map key) ↔
        (key p.2 ∈ key x :: seen ∨ key p.2 ∈ p.1.map key) := by
    intro p
    simp only [List.map_cons, List.mem_cons]
    tauto
  simp only [latecomersAfter, List.inits_cons, List.zip_cons_cons, List.filter_cons, List.map_nil,
    List.not_mem_nil, or_false, List.zip_map_left, List.filter_map,
    Function.comp_def, Prod.map_fst, Prod.map_snd, id_eq, hmoved, decide_eq_true_eq]
  split <;> simp

theorem mem_latecomersAfter {seen : List β} {x : α} {xs : List α} :
    x ∈ latecomersAfter key seen xs ↔
      ∃ before after, xs = before ++ x :: after ∧
        (key x ∈ seen ∨ ∃ y ∈ before, key y = key x) := by
  induction xs generalizing seen with
  | nil => simp [latecomersAfter]
  | cons y ys ih =>
    rw [latecomersAfter_cons, List.mem_append, ih]
    constructor
    · rintro (hx | ⟨before, after, rfl, hx⟩)
      · obtain ⟨hy, rfl⟩ : key y ∈ seen ∧ x = y := by simpa using hx
        exact ⟨[], ys, rfl, .inl hy⟩
      · refine ⟨y :: before, after, rfl, ?_⟩
        rcases hx with hx | ⟨z, hz, hzx⟩
        · rcases List.mem_cons.1 hx with hx | hx
          · exact .inr ⟨y, List.mem_cons_self, hx.symm⟩
          · exact .inl hx
        · exact .inr ⟨z, List.mem_cons_of_mem y hz, hzx⟩
    · rintro ⟨_ | ⟨z, before⟩, after, hys, hx⟩
      · obtain ⟨rfl, rfl⟩ : y = x ∧ ys = after := by simpa using hys
        exact .inl (by simpa using hx)
      · obtain ⟨rfl, rfl⟩ : y = z ∧ ys = before ++ x :: after := by simpa using hys
        refine .inr ⟨before, after, rfl, ?_⟩
        rcases hx with hx | ⟨u, hu, hux⟩
        · exact .inl (List.mem_cons_of_mem _ hx)
        · rcases List.mem_cons.1 hu with rfl | hu
          · exact .inl (hux ▸ List.mem_cons_self)
          · exact .inr ⟨u, hu, hux⟩

/-- A latecomer stands behind one with its key. -/
theorem mem_latecomers {x : α} {xs : List α} :
    x ∈ latecomers key xs ↔
      ∃ before after, xs = before ++ x :: after ∧ ∃ y ∈ before, key y = key x := by
  simp [latecomers, mem_latecomersAfter]

theorem length_latecomersAfter (seen : List β) (xs : List α) :
    (latecomersAfter key seen xs).length + ((xs.map key).toFinset \ seen.toFinset).card =
      xs.length := by
  induction xs generalizing seen with
  | nil => simp [latecomersAfter]
  | cons x xs ih =>
    have ih := ih (key x :: seen)
    rw [latecomersAfter_cons, List.length_append]
    by_cases hx : key x ∈ seen
    · have hkeys : ((x :: xs).map key).toFinset \ seen.toFinset =
          (xs.map key).toFinset \ (key x :: seen).toFinset := by
        ext k
        simp only [List.map_cons, List.toFinset_cons, Finset.mem_sdiff, Finset.mem_insert,
          List.mem_toFinset]
        grind
      rw [hkeys]
      simp only [hx, if_true, List.length_cons, List.length_nil]
      omega
    · have hkeys : ((x :: xs).map key).toFinset \ seen.toFinset =
          insert (key x) ((xs.map key).toFinset \ (key x :: seen).toFinset) := by
        ext k
        simp only [List.map_cons, List.toFinset_cons, Finset.mem_sdiff, Finset.mem_insert,
          List.mem_toFinset]
        grind
      rw [hkeys, Finset.card_insert_of_notMem (by simp)]
      simp only [hx, if_false, List.length_nil, List.length_cons]
      omega

/-- The latecomers are as many as the keys that are missing. -/
theorem length_latecomers (xs : List α) :
    (latecomers key xs).length + (xs.map key).toFinset.card = xs.length := by
  simpa [latecomers] using length_latecomersAfter key [] xs

theorem latecomers_eq_nil_iff {xs : List α} : latecomers key xs = [] ↔ (xs.map key).Nodup := by
  have hcount := length_latecomers key xs
  rw [← List.length_eq_zero_iff, ← Multiset.coe_nodup, ← Multiset.toFinset_card_eq_card_iff_nodup,
    List.toFinset_coe, Multiset.coe_card, List.length_map]
  omega

end Latecomers

/-! ## The two walks -/

/-- The error is for a name that two variables have. -/
def Finding.isDuplicateVariable : Finding → Bool
  | duplicateVariable _ => true
  | _ => false

/-- The error is for an identity that two steps have. -/
def Finding.isDuplicateStep : Finding → Bool
  | duplicateStep _ _ => true
  | _ => false

namespace Sequence

/-- The declarations that have a name. -/
def named (vs : List Variable) : List Variable := vs.filter fun v => !Text.isBlankText v.name

/-- The key of a variable among others. -/
def keyOf (v : Variable) : String := Text.upper v.name

theorem variableErrors_cons (seen : List String) (v : Variable) (vs : List Variable) :
    variableErrors seen (v :: vs) =
      if Text.isBlankText v.name then .unnamedVariable :: variableErrors seen vs
      else (if keyOf v ∈ seen then [.duplicateVariable v.name] else []) ++
        variableErrors (keyOf v :: seen) vs := rfl

theorem duplicates_variableErrors (seen : List String) (vs : List Variable) :
    (variableErrors seen vs).filter Finding.isDuplicateVariable =
      (latecomersAfter keyOf seen (named vs)).map fun v => .duplicateVariable v.name := by
  induction vs generalizing seen with
  | nil => simp [variableErrors, named, latecomersAfter]
  | cons v vs ih =>
    rw [variableErrors_cons]
    by_cases hv : Text.isBlankText v.name
    · have hnamed : named (v :: vs) = named vs := by simp [named, hv]
      rw [hnamed, ← ih]
      simp [hv, Finding.isDuplicateVariable]
    · have hnamed : named (v :: vs) = v :: named vs := by simp [named, hv]
      rw [hnamed, latecomersAfter_cons, List.map_append, ← ih, if_neg hv, List.filter_append]
      split <;> simp [List.filter_cons, Finding.isDuplicateVariable]

theorem duplicates_stepErrors (seen : List String) (ss : List Step) :
    (stepErrors seen ss).filter Finding.isDuplicateStep =
      (latecomersAfter Step.id seen ss).map fun t => .duplicateStep t.id t.name := by
  induction ss generalizing seen with
  | nil => simp [stepErrors, latecomersAfter]
  | cons s ss ih =>
    have hown : (errorsOfStep seen s).filter Finding.isDuplicateStep =
        if s.id ∈ seen then [.duplicateStep s.id s.name] else [] := by
      simp only [errorsOfStep, List.filter_append]
      split <;> split <;> split <;> simp [Finding.isDuplicateStep]
    rw [latecomersAfter_cons, List.map_append, ← ih, stepErrors, List.filter_append, hown]
    split <;> simp

/-- The walk through the declarations finds nothing about steps, and conversely. -/
theorem filter_variableErrors (seen : List String) (vs : List Variable) :
    (variableErrors seen vs).filter Finding.isDuplicateStep = [] := by
  induction vs generalizing seen with
  | nil => rfl
  | cons v vs ih =>
    rw [variableErrors_cons]
    split
    · simpa [Finding.isDuplicateStep] using ih seen
    · rw [List.filter_append, ih, List.append_nil]
      split <;> simp [Finding.isDuplicateStep]

theorem filter_stepErrors (seen : List String) (ss : List Step) :
    (stepErrors seen ss).filter Finding.isDuplicateVariable = [] := by
  induction ss generalizing seen with
  | nil => rfl
  | cons s ss ih =>
    rw [stepErrors, List.filter_append, ih, List.append_nil]
    simp only [errorsOfStep, List.filter_append]
    split <;> split <;> split <;> simp [Finding.isDuplicateVariable]

/-- An error about a name is found wherever it is looked for. -/
theorem mem_variableErrors {f : Finding} (hf : f.isDuplicateVariable = false) {seen : List String}
    {vs : List Variable} :
    f ∈ variableErrors seen vs ↔
      f = .unnamedVariable ∧ ∃ v ∈ vs, Text.isBlankText v.name = true := by
  induction vs generalizing seen with
  | nil => simp [variableErrors]
  | cons v vs ih =>
    rw [variableErrors_cons]
    by_cases hv : Text.isBlankText v.name
    · simp [hv, ih]
      tauto
    · have hown : f ∉ if keyOf v ∈ seen then [Finding.duplicateVariable v.name] else [] := by
        split
        · rintro hmem
          obtain rfl := List.mem_singleton.1 hmem
          exact absurd hf (by simp [Finding.isDuplicateVariable])
        · simp
      simp [hv, hown, ih]

theorem mem_stepErrors {f : Finding} (hf : f.isDuplicateStep = false) {seen : List String}
    {ss : List Step} : f ∈ stepErrors seen ss ↔ ∃ t ∈ ss, f ∈ errorsOfStep [] t := by
  induction ss generalizing seen with
  | nil => simp [stepErrors]
  | cons s ss ih =>
    have hown : f ∈ errorsOfStep seen s ↔ f ∈ errorsOfStep [] s := by
      simp only [errorsOfStep, List.mem_append]
      have hrepeated : f ∉ if s.id ∈ seen then [Finding.duplicateStep s.id s.name] else [] := by
        split
        · rintro hmem
          obtain rfl := List.mem_singleton.1 hmem
          exact absurd hf (by simp [Finding.isDuplicateStep])
        · simp
      simp [hrepeated]
    simp [stepErrors, ih, hown]

/-! ## What a report is worth -/

/-- The names and the identities of a sequence can be used and be told apart. -/
structure WellNamed (s : Sequence) : Prop where
  /-- Every variable has a name. -/
  declared : ∀ v ∈ s.declarations, Text.isBlankText v.name = false
  /-- No two variables have the same name, up to capital forms. -/
  apart : (s.declarations.map keyOf).Nodup
  /-- No two steps, at any depth, have the same identity. -/
  identified : (s.allSteps.map Step.id).Nodup
  /-- Every step has a name. -/
  titled : ∀ t ∈ s.allSteps, Text.isBlankText t.name = false
  /-- Every condition names its variable. -/
  guarded : ∀ t ∈ s.allSteps, ∀ c ∈ t.conditions, Text.isBlankText c.name = false

/-- What the errors of a report tell about a sequence. -/
structure Tells (s : Sequence) (r : Report) : Prop where
  /-- The report is valid if all is well named, and only then. -/
  valid : r.isValid = true ↔ s.WellNamed
  /-- The errors for identities are those of the steps that come late, in the order of the
  steps. -/
  duplicateSteps : r.errors.filter Finding.isDuplicateStep =
    (latecomers Step.id s.allSteps).map fun t => .duplicateStep t.id t.name
  /-- Each of them is for a step that stands behind one with its identity. -/
  behind : ∀ id name, .duplicateStep id name ∈ r.errors ↔
    ∃ before t after, s.allSteps = before ++ t :: after ∧ t.id = id ∧ t.name = name ∧
      ∃ u ∈ before, u.id = id
  /-- They are as many as the identities that are missing. -/
  identities : r.errors.countP Finding.isDuplicateStep + (s.allSteps.map Step.id).toFinset.card =
    s.stepCount
  /-- The errors for names of variables are those of the named variables that come late. -/
  duplicateVariables : r.errors.filter Finding.isDuplicateVariable =
    (latecomers keyOf (named s.declarations)).map fun v => .duplicateVariable v.name
  /-- They are as many as the names that are missing. -/
  names : r.errors.countP Finding.isDuplicateVariable +
    ((named s.declarations).map keyOf).toFinset.card = (named s.declarations).length
  /-- There is an error for variables without a name when there is such a variable. -/
  unnamedVariables : .unnamedVariable ∈ r.errors ↔
    ∃ v ∈ s.declarations, Text.isBlankText v.name = true
  /-- The steps without a name are those that an error says have none. -/
  unnamedSteps : ∀ id, .unnamedStep id ∈ r.errors ↔
    ∃ t ∈ s.allSteps, t.id = id ∧ Text.isBlankText t.name = true
  /-- The steps with a condition on no variable are those that an error says have one. -/
  unnamedConditions : ∀ name, .unnamedCondition name ∈ r.errors ↔
    ∃ t ∈ s.allSteps, t.name = name ∧ ∃ c ∈ t.conditions, Text.isBlankText c.name = true

section

variable (supports : Option (Step → Bool)) (s : Sequence)

/-- The errors for repeated identities, wherever the steps stand in the tree. -/
theorem duplicateSteps_validate :
    (s.validate supports).errors.filter Finding.isDuplicateStep =
      (latecomers Step.id s.allSteps).map fun t => .duplicateStep t.id t.name := by
  rw [validate, List.filter_append, filter_variableErrors, duplicates_stepErrors]
  rfl

theorem duplicateVariables_validate :
    (s.validate supports).errors.filter Finding.isDuplicateVariable =
      (latecomers keyOf (named s.declarations)).map fun v => .duplicateVariable v.name := by
  rw [validate, List.filter_append, filter_stepErrors, duplicates_variableErrors, List.append_nil]
  rfl

/-- An error about a missing name stems from the declarations or from one step alone. -/
theorem mem_errors_validate {f : Finding} (hvariable : f.isDuplicateVariable = false)
    (hstep : f.isDuplicateStep = false) :
    f ∈ (s.validate supports).errors ↔
      (f = .unnamedVariable ∧ ∃ v ∈ s.declarations, Text.isBlankText v.name = true) ∨
        ∃ t ∈ s.allSteps, f ∈ errorsOfStep [] t := by
  rw [validate, List.mem_append, mem_variableErrors hvariable, mem_stepErrors hstep]

theorem unnamedVariable_mem_validate :
    .unnamedVariable ∈ (s.validate supports).errors ↔
      ∃ v ∈ s.declarations, Text.isBlankText v.name = true := by
  rw [mem_errors_validate supports s rfl rfl]
  simp [errorsOfStep]

theorem unnamedStep_mem_validate (id : String) :
    .unnamedStep id ∈ (s.validate supports).errors ↔
      ∃ t ∈ s.allSteps, t.id = id ∧ Text.isBlankText t.name = true := by
  have hstep : ∀ t : Step, .unnamedStep id ∈ errorsOfStep [] t ↔
      t.id = id ∧ Text.isBlankText t.name = true := by
    intro t
    simp [errorsOfStep, and_comm, @eq_comm _ id]
  rw [mem_errors_validate supports s rfl rfl]
  simp [hstep]

theorem unnamedCondition_mem_validate (name : String) :
    .unnamedCondition name ∈ (s.validate supports).errors ↔
      ∃ t ∈ s.allSteps, t.name = name ∧ ∃ c ∈ t.conditions, Text.isBlankText c.name = true := by
  have hstep : ∀ t : Step, .unnamedCondition name ∈ errorsOfStep [] t ↔
      t.name = name ∧ ∃ c ∈ t.conditions, Text.isBlankText c.name = true := by
    intro t
    simp [errorsOfStep, and_comm, @eq_comm _ name]
  rw [mem_errors_validate supports s rfl rfl]
  simp [hstep]

/-- With every variable named, the names of variables are told apart by their keys alone. -/
theorem named_eq_self {vs : List Variable} (h : ∀ v ∈ vs, Text.isBlankText v.name = false) :
    named vs = vs :=
  List.filter_eq_self.2 fun v hv => by simp [h v hv]

theorem wellNamed_of_isValid (h : (s.validate supports).isValid = true) : s.WellNamed := by
  have hnone : (s.validate supports).errors = [] := List.isEmpty_iff.1 h
  have hsteps := duplicateSteps_validate supports s
  have hvariables := duplicateVariables_validate supports s
  have hdeclared := (unnamedVariable_mem_validate supports s).not
  have htitled := fun id => (unnamedStep_mem_validate supports s id).not
  have hguarded := fun name => (unnamedCondition_mem_validate supports s name).not
  simp only [hnone, List.not_mem_nil, not_false_eq_true, true_iff, not_exists, not_and,
    Bool.not_eq_true] at hdeclared htitled hguarded
  rw [hnone, List.filter_nil, eq_comm, List.map_eq_nil_iff, latecomers_eq_nil_iff] at hsteps
  rw [hnone, List.filter_nil, eq_comm, List.map_eq_nil_iff, latecomers_eq_nil_iff,
    named_eq_self hdeclared] at hvariables
  exact ⟨hdeclared, hvariables, hsteps, fun t ht => htitled t.id t ht rfl,
    fun t ht => hguarded t.name t ht rfl⟩

theorem isValid_of_wellNamed (h : s.WellNamed) : (s.validate supports).isValid = true := by
  have hsteps := duplicateSteps_validate supports s
  have hvariables := duplicateVariables_validate supports s
  rw [(latecomers_eq_nil_iff Step.id).2 h.identified, List.map_nil, List.filter_eq_nil_iff]
    at hsteps
  rw [named_eq_self h.declared, (latecomers_eq_nil_iff keyOf).2 h.apart, List.map_nil,
    List.filter_eq_nil_iff] at hvariables
  refine List.isEmpty_iff.2 (List.eq_nil_iff_forall_not_mem.2 fun f hf => ?_)
  cases f with
  | duplicateVariable name => exact hvariables _ hf rfl
  | duplicateStep id name => exact hsteps _ hf rfl
  | unnamedStep id =>
    obtain ⟨t, ht, -, hblank⟩ := (unnamedStep_mem_validate supports s id).1 hf
    exact Bool.false_ne_true ((h.titled t ht).symm.trans hblank)
  | unnamedCondition name =>
    obtain ⟨t, ht, -, c, hc, hblank⟩ := (unnamedCondition_mem_validate supports s name).1 hf
    exact Bool.false_ne_true ((h.guarded t ht c hc).symm.trans hblank)
  | unnamedVariable =>
    obtain ⟨v, hv, hblank⟩ := (unnamedVariable_mem_validate supports s).1 hf
    exact Bool.false_ne_true ((h.declared v hv).symm.trans hblank)

theorem duplicateStep_mem_validate (id name : String) :
    .duplicateStep id name ∈ (s.validate supports).errors ↔
      ∃ before t after, s.allSteps = before ++ t :: after ∧ t.id = id ∧ t.name = name ∧
        ∃ u ∈ before, u.id = id := by
  have hfiltered : Finding.duplicateStep id name ∈ (s.validate supports).errors ↔
      Finding.duplicateStep id name ∈
        (s.validate supports).errors.filter Finding.isDuplicateStep := by
    simp [List.mem_filter, Finding.isDuplicateStep]
  rw [hfiltered, duplicateSteps_validate]
  simp only [List.mem_map, mem_latecomers, Finding.duplicateStep.injEq]
  constructor
  · rintro ⟨t, ⟨before, after, hsteps, u, hu, hut⟩, hid, hname⟩
    exact ⟨before, t, after, hsteps, hid, hname, u, hu, hut.trans hid⟩
  · rintro ⟨before, t, after, hsteps, hid, hname, u, hu, hut⟩
    exact ⟨t, ⟨before, after, hsteps, u, hu, hut.trans hid.symm⟩, hid, hname⟩

/-- What the errors tell does not depend on what is known about executors. -/
theorem tells_validate : s.Tells (s.validate supports) where
  valid := ⟨wellNamed_of_isValid supports s, isValid_of_wellNamed supports s⟩
  duplicateSteps := duplicateSteps_validate supports s
  behind := duplicateStep_mem_validate supports s
  identities := by
    rw [List.countP_eq_length_filter, duplicateSteps_validate, List.length_map,
      length_latecomers, stepCount, allSteps, Step.length_preorderAll]
  duplicateVariables := duplicateVariables_validate supports s
  names := by
    rw [List.countP_eq_length_filter, duplicateVariables_validate, List.length_map,
      length_latecomers]
  unnamedVariables := unnamedVariable_mem_validate supports s
  unnamedSteps := unnamedStep_mem_validate supports s
  unnamedConditions := unnamedCondition_mem_validate supports s

end

end Sequence
end Runbook
