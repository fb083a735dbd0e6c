import Runbook.Proofs.Queue.Work
import Runbook.Proofs.Run.Afresh
import Runbook.Proofs.Run.Snapshot
import Runbook.Proofs.Validation.Errors

/-!
# Starting what validates

Validation compares the names of variables with one another, and publishing compares them with the
names of the built-in variables too.  So a sequence that validates can be started exactly if it
declares no built-in variable (`Engine.canStart_iff`).  Its variables are then in effect as they are
declared, and if a run of it fails, then not with an empty record.

The last of these holds of every run that begins: it takes its failure from a result that it has
recorded, whichever way it runs (`Engine.grounded_of_runs`).
-/

namespace Runbook

variable {σ : Type} {others : World σ → World σ → Prop}

/-! ## Failures have results -/

/-- If the run has failed, it has a result to show for it. -/
def Context.Grounded (c : Context) : Prop := c.status = .failed → c.results ≠ []

theorem Context.Grounded.finish {c : Context} (h : c.Grounded) {status : Status}
    (hstatus : status = .failed → c.results ≠ []) (now : Timestamp) :
    (c.finish status now).Grounded := by
  rw [Grounded, Context.finish]
  dsimp only
  split
  · exact h
  · exact hstatus

theorem Context.results_ne_nil_of_hasFailures {c : Context} (h : c.hasFailures = true) :
    c.results ≠ [] := by
  intro hnil
  rw [hasFailures, hnil] at h
  cases h

namespace Engine

open Activity (Delivers)

variable (e : Engine σ)

theorem grounded_opening (s : Sequence) (now : Timestamp) : (e.opening s now).Grounded := by
  intro hfailed
  cases hfailed

theorem delivers_record (r : StepResult) (c : Context) :
    (e.record r c).Delivers e.PanicsWith fun c' => c'.results ≠ [] := by
  refine .of_comes (e.notes_record r c) fun _ c' hc' => ?_
  rw [hc'.2, Context.record]
  exact List.append_ne_nil_of_right_ne_nil _ (List.cons_ne_nil _ _)

/-- The record that a step has left behind is not empty, so what happens to the status from there on
does not matter. -/
theorem delivers_runSteps : ∀ (ss : List Step) (c : Context), c.Grounded →
    (e.runSteps ss c).Delivers e.PanicsWith Context.Grounded
  | [], _, hc => hc
  | s :: ss, c, hc => by
      have hstep : (e.runStep s c).Delivers e.PanicsWith fun _ => True :=
        .of_comes (e.logs_nothing.notes_runStep s c) fun _ _ _ => trivial
      have htell : ∀ n, (e.tell n).Delivers e.PanicsWith fun _ => True := fun n =>
        .of_comes (e.notes_tell n) fun _ _ _ => trivial
      simp only [runSteps, Activity.bind_eq]
      intro w
      dsimp only [Activity.bind]
      split
      · intro hfailed
        cases hfailed
      · refine hstep.bind fun p _ => (e.delivers_record p.1 p.2).bind fun c' hc' => ?_
        refine (htell _).bind fun _ _ => ?_
        split
        · exact fun _ => hc'
        · exact delivers_runSteps ss c' fun _ => hc'

theorem delivers_finish_grounded {status : Status} {c : Context} (h : c.Grounded)
    (hstatus : status = .failed → c.results ≠ []) :
    (e.finish status c).Delivers e.PanicsWith Context.Grounded := by
  rw [finish, Activity.bind_eq]
  refine (Delivers.of_quietly Activity.notes_stamp).bind fun now _ => ?_
  refine .of_comes (e.notes_conclude _) fun _ c' hc' => ?_
  rw [hc'.2]
  exact h.finish hstatus now

theorem delivers_onceBegun (s : Sequence) {c : Context} (h : c.Grounded) :
    (e.onceBegun s (.ok c)).Delivers e.PanicsWith Context.Grounded :=
  (e.delivers_runSteps s.steps c h).bind fun _ hc' =>
    e.delivers_finish_grounded hc' fun hfailed => by cases hfailed

theorem delivers_join_grounded (f : Fan σ) (h : f.context.Grounded) :
    (e.join f).Delivers e.PanicsWith Context.Grounded := by
  simp only [join, Activity.bind_eq]
  refine (Delivers.of_quietly (notes_gatherAll _ _)).bind fun rs _ => ?_
  -- The run had failed before, or its verdict comes from a failed result.
  refine e.delivers_finish_grounded (fun hfailed => ?_) fun hfailed => ?_
  · exact List.append_ne_nil_of_left_ne_nil (h hfailed) _
  · refine Context.results_ne_nil_of_hasFailures ?_
    by_contra hnone
    rw [verdict, if_neg hnone] at hfailed
    split at hfailed <;> cases hfailed

variable {e} {s : Sequence} {w w' : World σ} {c : Context}

/-- A run that was begun does not fail with an empty record. -/
theorem grounded_of_runs (hclashes : ¬ s.Clashes e.machine) {mode : Mode}
    (h : e.Runs others mode s w (.returned c) w') : c.Grounded := by
  have hpublish := (s.refused_publish_eq_none_iff e.machine).mpr hclashes
  have hbegun : ∀ {started w₀}, (e.begin s).Course others w (.returned started) w₀ →
      ∃ c₀, started = .ok c₀ ∧ c₀.Grounded := fun hbegin => by
    obtain ⟨now, hreturned⟩ := course_begin hpublish hbegin
    cases hreturned
    exact ⟨_, rfl, e.grounded_opening s now⟩
  cases mode with
  | sequential =>
    obtain ⟨_, _, hbegin, hrest⟩ := exists_begun h
    obtain ⟨c₀, rfl, hc₀⟩ := hbegun hbegin
    exact (e.delivers_onceBegun s hc₀).ending hrest
  | parallel bound =>
    cases h with
    | joined hbegin _ _ hjoin =>
      obtain ⟨_, hc₀, hgrounded⟩ := hbegun hbegin
      cases hc₀
      exact (e.delivers_join_grounded _ hgrounded).ending hjoin
    | refused hbegin _ =>
      obtain ⟨_, hc₀, -⟩ := hbegun hbegin
      cases hc₀

end Engine

/-! ## Variables of valid sequences -/

namespace Sequence

variable {s : Sequence}

/-- No two declared variables have the same key. -/
theorem WellNamed.pairwise_declared (h : s.WellNamed) :
    s.declared.Pairwise fun p q => Store.keyOf p.1 ≠ Store.keyOf q.1 :=
  List.pairwise_map.mpr (List.pairwise_map.mp h.apart)

/-- The variables that are taken down are those that are declared. -/
theorem WellNamed.declared_publish (h : s.WellNamed) {machine : String}
    (hpublish : (s.publish machine).refused = none) :
    (s.publish machine).declared = s.declared := by
  have hnodup : (Pairs.keys s.declared).Nodup :=
    List.pairwise_map.mpr (h.pairwise_declared.imp fun hne heq => hne (congrArg Store.keyOf heq))
  rw [s.declared_publish machine hpublish, Pairs.ofList, Pairs.insertAll_nil hnodup]

/-- Every declared variable has the value that it is declared with. -/
theorem WellNamed.get_publish (h : s.WellNamed) {machine : String}
    (hpublish : (s.publish machine).refused = none) {v : Variable} (hv : v ∈ s.declarations) :
    (s.publish machine).store.get v.name = v.value := by
  have hmem : (v.name, v.value) ∈ s.declared := List.mem_map.mpr ⟨v, hv, rfl⟩
  rw [s.get_publish_declared machine hpublish (List.mem_map_of_mem hv),
    Store.lastValue?_of_mem h.pairwise_declared hmem]
  rfl

end Sequence

/-! ## Starting -/

namespace Engine

/-- The sequence can be started in the world, whatever its variables are. -/
structure CanStart (e : Engine σ) (s : Sequence) (w : World σ) : Prop where
  /-- A run publishes its variables and begins. -/
  begins : ∀ others : World σ → World σ → Prop,
    ((∀ v, others v v) → ∃ ending w', (e.begin s).Course others w ending w') ∧
      ∀ ending w', (e.begin s).Course others w ending w' → ∃ c, ending = .returned (.ok c)
  /-- The variables are those that are declared. -/
  published : ∀ others, (∀ w v, others w v → w.Apart v) → ∀ c w',
    (e.begin s).Course others w (.returned (.ok c)) w' →
      c.published = s.declared ∧ ∀ v ∈ s.declarations, w'.store.get v.name = v.value
  /-- A run that has failed has a record that is not empty. -/
  recorded : ∀ others mode c w', e.Runs others mode s w (.returned c) w' →
    c.status = .failed → c.results ≠ []

variable {e : Engine σ} {s : Sequence} {supports : Option (Step → Bool)} {w : World σ}

theorem CanStart.not_clashes (h : e.CanStart s w) : ¬ s.Clashes e.machine := by
  intro hclashes
  obtain ⟨ending, w', hbegin⟩ := (h.begins Eq).1 fun _ => rfl
  obtain ⟨c, rfl⟩ := (h.begins Eq).2 ending w' hbegin
  obtain ⟨c', hrefused⟩ := (begin_iff hbegin).mpr hclashes
  cases hrefused

/-- A valid sequence can be started exactly if no declared variable is a built-in one. -/
theorem canStart_iff (h : (s.validate supports).isValid = true) (w : World σ) :
    e.CanStart s w ↔ ¬ s.Clashes e.machine := by
  have hnamed := Sequence.wellNamed_of_isValid supports s h
  refine ⟨CanStart.not_clashes, fun hclashes => ?_⟩
  have hpublish := (s.refused_publish_eq_none_iff e.machine).mpr hclashes
  refine ⟨fun others => ⟨fun hself => Activity.exists_course hself _ w, fun ending w' h => ?_⟩,
    fun others hothers c w' h => ?_, fun others mode c w' h => grounded_of_runs hclashes h⟩
  · obtain ⟨now, rfl⟩ := course_begin hpublish h
    exact ⟨_, rfl⟩
  · rw [(published_begin h).2, hnamed.declared_publish hpublish, e.store_begin hothers h]
    exact ⟨rfl, fun v hv => hnamed.get_publish hpublish hv⟩

/-- A sequence with variables of its own, in a world where one of them is locked. -/
theorem canStart_iff_declaring :
    let s := { Sequence.ofSteps [.plain "a" "A" .custom []] with
      declarations := [⟨"W", "0", false, false⟩, ⟨"X", "1", false, false⟩] }
    let w := { World.epoch with store := Store.empty.setLocked "x" "2" }
    (s.validate none).isValid = true ∧ w.store.isLocked "X" = true ∧
      ¬ s.Clashes bare.machine ∧ bare.CanStart s w := by
  intro s w
  have hvalid : (s.validate none).isValid = true := by decide +kernel
  have hlocked : w.store.isLocked "X" = true := by decide +kernel
  have hclashes : ¬ s.Clashes bare.machine := by
    unfold Sequence.Clashes
    decide +kernel
  exact ⟨hvalid, hlocked, hclashes, (canStart_iff hvalid w).mpr hclashes⟩

/-- Not every valid sequence can be started: one may declare a built-in variable, and validation
does not say so. -/
theorem not_canStart_clashing :
    ¬ ∀ (e : Engine Unit) (s : Sequence) (supports : Option (Step → Bool)) (w : World Unit),
      (s.validate supports).isValid = true → e.CanStart s w := by
  intro h
  have hclashes : Sequence.clashing.Clashes bare.machine :=
    ⟨_, List.mem_cons_self, _, List.mem_cons_of_mem _ List.mem_cons_self, rfl⟩
  have hvalid : (Sequence.clashing.validate none).isValid = true := by decide +kernel
  exact (h bare .clashing none .epoch hvalid).not_clashes hclashes

end Engine
end Runbook
