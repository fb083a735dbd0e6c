import Runbook.Proofs.Run.Agreement
import Runbook.Proofs.Run.Writers
import Runbook.Proofs.Store.Spelling

/-!
# The variables of a context

Publishing fills two tables in turn: the store of the run, and the variables of its context.  The
store takes different spellings for the same variable, and the context does not.  No step touches
the variables of the context (`Engine.published_of_runs`), so the context that a run hands back
shows what was in effect when the run began exactly if the sequence declares each variable in one
spelling (`Engine.showsVariables_iff`).  If it does not, the context keeps a value that was
overwritten before the run began.
-/

namespace Runbook

open Store (firstSpellings keyOf lastValue?)

variable {σ : Type} {others : World σ → World σ → Prop}

/-- The context has the variables that the sequence declares as they are in the store. -/
structure Context.ShowsVariables (c : Context) (s : Sequence) (machine : String) (store : Store) :
    Prop where
  /-- Its variables have the values that they have in the store. -/
  inEffect : ∀ p ∈ c.published, store.get p.1 = p.2
  /-- Every declared variable is among them, in exactly one spelling. -/
  once : ∀ v ∈ s.declarations, ∃! n, n ∈ c.published.keys ∧ keyOf n = keyOf v.name
  /-- They are the variables in the store without the built-in ones, in the same order. -/
  snapshot : store.snapshot = s.builtins machine ++ c.published

namespace Sequence

variable (s : Sequence) (machine : String)

theorem mem_keys_declared_publish (h : (s.publish machine).refused = none) {n : String} :
    n ∈ (s.publish machine).declared.keys ↔ n ∈ s.declarations.map (·.name) := by
  rw [s.declared_publish machine h, Pairs.mem_keys_ofList, s.keys_declared]

/-- A declared variable has the value that was declared last. -/
theorem get_publish_declared (h : (s.publish machine).refused = none) {n : String}
    (hn : n ∈ s.declarations.map (·.name)) :
    (s.publish machine).store.get n = (lastValue? s.declared (Store.keyOf n)).getD "" := by
  rw [← s.keys_declared] at hn
  obtain ⟨value, hvalue⟩ :=
    Option.isSome_iff_exists.mp (Pairs.isSome_lastValue?_iff_keys.mpr ⟨n, hn, rfl⟩)
  rw [s.get_publish machine h, hvalue, Option.some_or]

/-- Where each variable is declared in one spelling, the ones that are taken down are those that are
in effect. -/
theorem declared_publish_eq_map (h : (s.publish machine).refused = none)
    (hone : Pairs.OneSpelling (s.declarations.map (·.name))) :
    (s.publish machine).declared = (firstSpellings (s.declarations.map (·.name))).map fun n =>
      (n, (s.publish machine).store.get n) := by
  rw [s.declared_publish machine h, Pairs.ofList_eq_map (s.keys_declared ▸ hone), s.keys_declared]
  refine List.map_congr_left fun n hn => ?_
  rw [s.get_publish_declared machine h (Store.mem_of_mem_firstSpellings hn)]

end Sequence

namespace Engine

variable {e : Engine σ} {s : Sequence} {w w' : World σ} {c : Context}

/-- The context with which a run begins has the variables that were taken down. -/
theorem published_begin (h : (e.begin s).Course others w (.returned (.ok c)) w') :
    (s.publish e.machine).refused = none ∧ c.published = (s.publish e.machine).declared := by
  by_cases hpublish : (s.publish e.machine).refused = none
  · obtain ⟨now, hreturned⟩ := course_begin hpublish h
    cases hreturned
    exact ⟨hpublish, rfl⟩
  · obtain ⟨_, hreturned, -⟩ := course_begin_refused hpublish h
    cases hreturned

/-- A run whose variables are published can begin at once. -/
theorem course_begin_at_once (hothers : ∀ w, others w w)
    (hpublish : (s.publish e.machine).refused = none) (w : World σ) :
    (e.begin s).Course others w (.returned (.ok (e.opening s w.tick.clock)))
      { w.tick with store := (s.publish e.machine).store } := by
  simp only [begin, Activity.bind_eq]
  refine .update (hothers _) (.look (hothers _) (.update (hothers _) ?_))
  rw [hpublish]
  exact .done

/-! ## What a run hands back -/

theorem published_record {r : StepResult} {c' : Context}
    (h : (e.record r c).Course others w (.returned c') w') : c'.published = c.published := by
  rw [e.record_returned h]
  rfl

mutual

/-- A step leaves the variables of the context alone. -/
theorem published_runStep : ∀ {s : Step} {c c' : Context} {r : StepResult} {w w' : World σ},
    (e.runStep s c).Course others w (.returned (r, c')) w' → c'.published = c.published
  | .mk _ _ _ _ _ _ _ _ _, _, _, _, _, _, h => by
      obtain ⟨_, _, -, h⟩ := course_runStep h
      rw [proceed] at h
      split at h
      · obtain ⟨_, _, -, hdone⟩ := h.of_bind_returned
        cases hdone.of_done.1
        rfl
      split at h
      · obtain ⟨_, _, hchildren, h⟩ := h.of_bind_returned
        obtain ⟨_, _, -, hdone⟩ := h.of_bind_returned
        cases hdone.of_done.1
        exact (published_runChildren hchildren).trans rfl
      · obtain ⟨_, _, -, hdone⟩ := h.of_bind_returned
        cases hdone.of_done.1
        rfl
termination_by structural s => s

theorem published_runChildren : ∀ {ss : List Step} {c c' : Context} {culprit : Option String}
    {w w' : World σ}, (e.runChildren ss c).Course others w (.returned (culprit, c')) w' →
      c'.published = c.published
  | [], _, _, _, _, _, h => by
      cases h.of_done.1
      rfl
  | _ :: _, _, _, _, _, _, h => by
      simp only [runChildren, Activity.bind_eq] at h
      obtain ⟨_, _, hstep, h⟩ := h.of_bind_returned
      obtain ⟨_, _, hrecord, h⟩ := h.of_bind_returned
      have hfirst := (published_record hrecord).trans (published_runStep hstep)
      split at h
      · cases h.of_done.1
        exact hfirst
      · exact (published_runChildren h).trans hfirst
termination_by structural ss => ss

end

theorem published_runSteps : ∀ {ss : List Step} {c c' : Context} {w w' : World σ},
    (e.runSteps ss c).Course others w (.returned c') w' → c'.published = c.published
  | [], _, _, _, _, h => by
      cases h.of_done.1
      rfl
  | _ :: _, _, _, _, _, h => by
      simp only [runSteps, Activity.bind_eq] at h
      obtain ⟨_, _, -, h⟩ := h.of_bind_returned
      split at h
      · cases h.of_done.1
        rfl
      obtain ⟨_, _, hstep, h⟩ := h.of_bind_returned
      obtain ⟨_, _, hrecord, h⟩ := h.of_bind_returned
      obtain ⟨_, _, -, h⟩ := h.of_bind_returned
      have hfirst := (published_record hrecord).trans (published_runStep hstep)
      split at h
      · cases h.of_done.1
        exact hfirst
      · exact (published_runSteps h).trans hfirst

theorem published_finish {status : Status} {c' : Context}
    (h : (e.finish status c).Course others w (.returned c') w') : c'.published = c.published := by
  simp only [finish, conclude, Activity.bind_eq] at h
  obtain ⟨_, _, -, h⟩ := h.of_bind_returned
  obtain ⟨_, _, -, hdone⟩ := h.of_bind_returned
  cases hdone.of_done.1
  rfl

theorem published_join {f : Fan σ} {c' : Context}
    (h : (e.join f).Course others w (.returned c') w') : c'.published = f.context.published := by
  simp only [join, Activity.bind_eq] at h
  obtain ⟨_, _, -, h⟩ := h.of_bind_returned
  exact (published_finish h).trans rfl

/-- The context that a run hands back has the variables that were taken down when it began. -/
theorem published_of_runs (hpublish : (s.publish e.machine).refused = none) {mode : Mode}
    (h : e.Runs others mode s w (.returned c) w') :
    c.published = (s.publish e.machine).declared := by
  cases mode with
  | sequential =>
    obtain ⟨started, _, hbegin, h⟩ := exists_begun h
    obtain ⟨now, hreturned⟩ := course_begin hpublish hbegin
    cases hreturned
    obtain ⟨_, _, hsteps, hfinish⟩ := h.of_bind_returned
    exact (published_finish hfinish).trans (published_runSteps hsteps)
  | parallel bound =>
    cases h with
    | joined hbegin _ _ hjoin => exact (published_join hjoin).trans (published_begin hbegin).2
    | refused hbegin _ =>
      obtain ⟨_, hreturned⟩ := course_begin hpublish hbegin
      cases hreturned

/-! ## Variables in effect -/

/-- Of variables that were taken down in publishing, the ones in the store are shown exactly if each
is declared in one spelling. -/
theorem showsVariables_iff_of_published (hpublish : (s.publish e.machine).refused = none)
    (hpublished : c.published = (s.publish e.machine).declared) :
    c.ShowsVariables s e.machine (s.publish e.machine).store ↔
      Pairs.OneSpelling (s.declarations.map (·.name)) := by
  have hkeys : ∀ n, n ∈ c.published.keys ↔ n ∈ s.declarations.map (·.name) := fun n => by
    rw [hpublished, s.mem_keys_declared_publish e.machine hpublish]
  constructor
  · -- Both spellings are taken down, and the context has only one of them.
    intro hshows m hm n hn hkey
    obtain ⟨v, hv, rfl⟩ := List.mem_map.mp hn
    exact (hshows.once v hv).unique ⟨(hkeys m).mpr hm, hkey⟩ ⟨(hkeys v.name).mpr hn, rfl⟩
  · intro hone
    have heq := s.declared_publish_eq_map e.machine hpublish hone
    refine ⟨fun p hp => ?_, fun v hv => ?_, ?_⟩
    · rw [hpublished, heq] at hp
      obtain ⟨n, -, rfl⟩ := List.mem_map.mp hp
      rfl
    · have hname : v.name ∈ s.declarations.map (·.name) := List.mem_map_of_mem hv
      exact ⟨v.name, ⟨(hkeys v.name).mpr hname, rfl⟩,
        fun n hn => hone n ((hkeys n).mp hn.1) v.name hname hn.2⟩
    · rw [s.snapshot_publish e.machine hpublish, hpublished, heq]

/-- The context with which a run begins shows what is in effect then exactly if each variable is
declared in one spelling, and so does each context that the run hands back, step by step or in
parallel. -/
theorem showsVariables_iff (hothers : ∀ w v, others w v → w.Apart v) {c₀ : Context} {w₀ : World σ}
    (h : (e.begin s).Course others w (.returned (.ok c₀)) w₀) :
    (c₀.ShowsVariables s e.machine w₀.store ↔
        Pairs.OneSpelling (s.declarations.map (·.name))) ∧
      ∀ mode c w', e.Runs others mode s w (.returned c) w' →
        (c.ShowsVariables s e.machine w₀.store ↔
          Pairs.OneSpelling (s.declarations.map (·.name))) := by
  obtain ⟨hpublish, hpublished⟩ := published_begin h
  rw [e.store_begin hothers h]
  exact ⟨showsVariables_iff_of_published hpublish hpublished, fun mode c w' hrun =>
    showsVariables_iff_of_published hpublish (published_of_runs hpublish hrun)⟩

/-- With a calm reporter a run that publishes its variables can come to its end. -/
theorem Calm.exists_returned (hcalm : e.Calm) (hothers : ∀ w, others w w)
    (hpublish : (s.publish e.machine).refused = none) (w : World σ) :
    ∃ c w', e.Runs others .sequential s w (.returned c) w' := by
  obtain ⟨ending, w', hcourse⟩ := Activity.exists_course hothers (e.sequential s) w
  obtain ⟨_, _, c, rfl, -⟩ := hcalm.stepByStep hothers hpublish hcourse
  exact ⟨c, w', hcourse⟩

/-- A variable may be declared twice in the same spelling: the context has its second value, in the
place of the first. -/
theorem showsVariables_iff_again :
    let s : Sequence := { Sequence.twofold with
      declarations := [⟨"X", "1", false, false⟩, ⟨"W", "0", false, false⟩,
        ⟨"X", "2", false, false⟩] }
    let c₀ := bare.opening s ⟨0, 1⟩
    let w₀ := { World.epoch.tick with store := (s.publish bare.machine).store }
    (bare.begin s).Course World.Apart .epoch (.returned (.ok c₀)) w₀ ∧
      c₀.published = [("X", "2"), ("W", "0")] ∧ c₀.ShowsVariables s bare.machine w₀.store ∧
      ∃ c w', bare.Runs World.Apart .sequential s .epoch (.returned c) w' ∧
        c.ShowsVariables s bare.machine w₀.store := by
  intro s c₀ w₀
  have hpublish : (s.publish bare.machine).refused = none := by decide +kernel
  have hbegin : (bare.begin s).Course World.Apart .epoch (.returned (.ok c₀)) w₀ :=
    course_begin_at_once World.Apart.refl hpublish .epoch
  have hpublished : c₀.published = [("X", "2"), ("W", "0")] := by decide +kernel
  have hone : Pairs.OneSpelling (s.declarations.map (·.name)) := by
    unfold Pairs.OneSpelling
    decide +kernel
  obtain ⟨hopening, hreturned⟩ := showsVariables_iff (fun _ _ => id) hbegin
  obtain ⟨c, w', hrun⟩ := bare_calm.exists_returned World.Apart.refl hpublish .epoch
  exact ⟨hbegin, hpublished, hopening.mpr hone, c, w', hrun, (hreturned _ _ _ hrun).mpr hone⟩

/-- Not every run hands back such a context: of a variable that is declared in two spellings it has
the first value too. -/
theorem not_showsVariables_twofold :
    ¬ ∀ (e : Engine Unit) (s : Sequence) (w w₀ w' : World Unit) (c₀ c : Context),
      (e.begin s).Course World.Apart w (.returned (.ok c₀)) w₀ →
        e.Runs World.Apart .sequential s w (.returned c) w' →
          c.ShowsVariables s e.machine w₀.store := by
  intro h
  have hpublish : (Sequence.twofold.publish bare.machine).refused = none := by decide +kernel
  have hbegin := course_begin_at_once World.Apart.refl hpublish World.epoch
  obtain ⟨c, w', hrun⟩ := bare_calm.exists_returned World.Apart.refl hpublish World.epoch
  have hshown : ("X", "1") ∈ c.published := by
    rw [published_of_runs hpublish hrun]
    decide +kernel
  have hread := (h _ _ _ _ _ _ _ hbegin hrun).inEffect _ hshown
  exact absurd hread (by decide +kernel)

end Engine
end Runbook
