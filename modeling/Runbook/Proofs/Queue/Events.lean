import Runbook.Proofs.Queue.Turns

/-!
# What an event makes of a run

`Queue.Moves` says all that an event can make of a run in the table and of its stage.  The run is
cancelled, or it moves in the turn of one of its tasks, or the event happens elsewhere and at most
grants it a place.  `Queue.Sound.moves` says that whatever is in the table after an event has moved
so, or was submitted just now.

No run is dropped before it shows as finished (`Queue.Sound.listed_happen`), and one that was
dropped does not come back (`Queue.Sound.unlisted_after`).
-/

namespace Runbook

variable {σ : Type}

namespace Queue

/-- What an event makes of a run in the table that stands at a stage. -/
inductive Moves (e : Engine σ) (q : Queue σ) (ev : Event) (r : QueuedRun)
    (s : Stage (UnderWay σ) RunEnd) : QueuedRun → Stage (UnderWay σ) RunEnd → Prop where
  /-- Something happens elsewhere, and the run may be granted a place. -/
  | elsewhere {s' : Stage (UnderWay σ) RunEnd} :
      (∀ t, ev = .turn t → t ∈ q.agenda.ready → t.number ≠ r.number) →
      s' = s ∨ s = .waiting ∧ s' = .granted → Moves e q ev r s r s'
  /-- It is cancelled. -/
  | cancelled : ev = .cancel r.number → r.state.isFinished = false → Moves e q ev r s r.cancel s
  /-- One of its tasks has its turn for nothing. -/
  | rests {t : Task} : ev = .turn t → Idle r.number t s → (t = .run r.number → ¬ r.Owes s) →
      Moves e q ev r s r s
  /-- It takes a place. -/
  | admitted : ev = .turn (.run r.number) → s.isEager = true → r.cancelled = false →
      Moves e q ev r s r (.inside (.single fun _ => work e r.sequence r.mode))
  /-- It puts down how far it is. -/
  | told {f : QueuedRun → QueuedRun} {keeps : Bool} : ev = .turn (.run r.number) →
      Tells r s f keeps → Moves e q ev r s (f r) s
  /-- It goes a stretch. -/
  | turned {t : Task} {y : Stretch σ} : ev = .turn t → Strides e r.number t s (q.worldOf r) y →
      (t = .run r.number → s.isInside = true → r.state ≠ .queued) →
      Moves e q ev r s (r.returned y.world) y.stage

variable {e : Engine σ} {q q' : Queue σ} {t : Task} {r r' : QueuedRun} {bound n : Nat} {ev : Event}

/-! ## Turns -/

theorem table_tells (f : QueuedRun → QueuedRun) (keeps : Bool) :
    (q.tells r t f keeps).table = (q.modifyRun r.number f).table := by
  rw [tells]
  split <;> rfl

theorem gate_tells (f : QueuedRun → QueuedRun) (keeps : Bool) :
    (q.tells r t f keeps).gate = q.gate := by
  rw [tells]
  split <;> rfl

theorem Took.length_stages (h : Took e q t q') :
    q'.gate.stages.length = q.gate.stages.length := by
  cases h with
  | idle => rfl
  | admitted _ _ _ _ _ hmoves => exact hmoves.length
  | told => rw [gate_tells]
  | turned _ _ _ _ hmoves => exact hmoves.length

/-- A run in the table after a turn was there before, and has moved. -/
theorem Sound.moves_turn (h : q.Sound e bound) (hr' : r' ∈ (turn e (q.without t) t).table) :
    ∃ r ∈ q.table, r.number = r'.number ∧ ∃ s s', q.gate.stages[r.number]? = some s ∧
      (turn e (q.without t) t).gate.stages[r.number]? = some s' ∧
        Moves e q (.turn t) r s r' s' := by
  -- A run whose task does not have its turn stays, and may be granted a place.
  have hother : ∀ {i : Nat} {s : Stage (UnderWay σ) RunEnd} {gate : Gate (UnderWay σ) RunEnd}
      {grant : Option Nat}, q.gate.MovesTo gate i s grant → i = t.number → r' ∈ q.table →
      r'.number ≠ i → ∃ r ∈ q.table, r.number = r'.number ∧ ∃ s s',
        q.gate.stages[r.number]? = some s ∧ gate.stages[r.number]? = some s' ∧
          Moves e q (.turn t) r s r' s' := by
    rintro i s gate grant hmoves rfl hr' hn
    have hs' := List.getElem?_eq_getElem (Nat.lt_of_lt_of_eq (h.known r' hr') hmoves.length.symm)
    obtain ⟨u, hu, hsame⟩ := hmoves.others _ _ hn hs'
    refine ⟨r', hr', rfl, u, _, hu, hs', .elsewhere ?_ ?_⟩
    · rintro t' ⟨⟩ - heq
      exact hn heq.symm
    · exact hsame.imp_right fun hgranted => ⟨hgranted.1, hgranted.2.1⟩
  have htook := h.took t
  generalize turn e (q.without t) t = q' at hr' htook ⊢
  cases htook with
  | idle hidle =>
    by_cases hn : r'.number = t.number
    · have hs := List.getElem?_eq_getElem (h.known r' hr')
      obtain ⟨hidle, howes⟩ := hidle r' _ (hn ▸ h.find?_of_mem hr') hs
      exact ⟨r', hr', rfl, _, _, hs, hs, .rests rfl hidle howes⟩
    · obtain ⟨s, hs⟩ : ∃ s, q.gate.stages[r'.number]? = some s :=
        ⟨_, List.getElem?_eq_getElem (h.known r' hr')⟩
      refine ⟨r', hr', rfl, s, s, hs, hs, .elsewhere ?_ (.inl rfl)⟩
      rintro t' ⟨⟩ - heq
      exact hn heq.symm
  | @admitted r s gate ht hfind hs heager hcancelled hmoves =>
    subst ht
    by_cases hn : r'.number = r.number
    · obtain rfl := h.eq_of_number hr' (find?_eq_some hfind).1 hn
      exact ⟨r', hr', rfl, s, _, hs, hmoves.self, .admitted rfl heager hcancelled⟩
    · exact hother hmoves rfl hr' hn
  | @told r s f keeps ht hfind hs htells =>
    subst ht
    rw [table_tells] at hr'
    rw [gate_tells]
    obtain ⟨r₀, hr₀, hn, rfl⟩ | ⟨hr', hn⟩ := mem_modifyRun (q := q) hr'
    · obtain rfl := h.eq_of_number hr₀ (find?_eq_some hfind).1 hn
      exact ⟨r₀, hr₀, (htells.number r₀).symm, s, s, hs, hs, .told rfl htells⟩
    · exact hother (Gate.movesTo_self hs) rfl hr' hn
  | @turned r s y gate grant hfind hs hstrides hstate hmoves =>
    obtain ⟨hmem, hnumber⟩ := find?_eq_some hfind
    obtain ⟨r₀, hr₀, hn, rfl⟩ | ⟨hr', hn⟩ := mem_modifyRun (q := q) hr'
    · obtain rfl := h.eq_of_number hr₀ hmem hn
      exact ⟨r₀, hr₀, rfl, s, _, hs, hmoves.self, .turned rfl hstrides hstate⟩
    · exact hother hmoves hnumber hr' hn

/-! ## Events -/

/-- Nothing happens when a run is cancelled in vain. -/
theorem cancel_eq_or (q : Queue σ) (m : Nat) : (q.cancel m).2 = q ∨
    (∃ x, q.status? m = some x ∧ x.isFinished = false) ∧ (q.cancel m).1 = true ∧
      (q.cancel m).2 = { q.modifyRun m .cancel with
        agenda := q.agenda.rouse fun t => t.number == m } := by
  rw [Queue.cancel]
  split
  · exact .inl rfl
  · next x hx =>
    split
    · exact .inl rfl
    · next hunfinished => exact .inr ⟨⟨x, hx, Bool.eq_false_iff.mpr hunfinished⟩, rfl, rfl⟩

theorem gate_cancel (q : Queue σ) (m : Nat) : (q.cancel m).2.gate = q.gate := by
  obtain heq | ⟨-, -, heq⟩ := q.cancel_eq_or m
  · rw [heq]
  · rw [heq]
    rfl

theorem gate_remove (q : Queue σ) (m : Nat) : (q.remove m).2.gate = q.gate := by
  rw [Queue.remove]
  split <;> rfl

/-- A run in the table after an event was submitted just now, or was there before and has moved. -/
theorem Sound.moves (h : q.Sound e bound) (ev : Event) (hr' : r' ∈ (q.happen e ev).table) :
    (∃ s mode, ev = .submit s mode ∧ r' = .submitted q.gate.stages.length s mode) ∨
      ∃ r ∈ q.table, r.number = r'.number ∧ ∃ s s', q.gate.stages[r.number]? = some s ∧
        (q.happen e ev).gate.stages[r.number]? = some s' ∧ Moves e q ev r s r' s' := by
  -- A run stays where it is at an event that is no turn and moves no run.
  have hstays : (∀ t, ev = .turn t → t ∈ q.agenda.ready → t.number ≠ r'.number) → r' ∈ q.table →
      (q.happen e ev).gate = q.gate →
      ∃ r ∈ q.table, r.number = r'.number ∧ ∃ s s', q.gate.stages[r.number]? = some s ∧
        (q.happen e ev).gate.stages[r.number]? = some s' ∧ Moves e q ev r s r' s' := by
    intro hev hr' hgate
    obtain ⟨s, hs, -⟩ := h.exists_stage hr'
    exact ⟨r', hr', rfl, s, s, hs, hgate ▸ hs, .elsewhere hev (.inl rfl)⟩
  cases ev with
  | submit seq mode =>
    obtain hr' | hr' := List.mem_append.mp hr'
    · obtain ⟨s, hs, -⟩ := h.exists_stage hr'
      refine .inr ⟨r', hr', rfl, s, s, hs, ?_, .elsewhere (by rintro _ ⟨⟩) (.inl rfl)⟩
      exact (List.getElem?_append_left (h.known r' hr')).trans hs
    · exact .inl ⟨seq, mode, rfl, List.mem_singleton.mp hr'⟩
  | cancel m =>
    have hgate : (q.happen e (.cancel m)).gate = q.gate := q.gate_cancel m
    obtain heq | ⟨⟨x, hx, hunfinished⟩, -, heq⟩ := q.cancel_eq_or m
    · rw [Queue.happen, heq] at hr'
      exact .inr (hstays (by rintro _ ⟨⟩) hr' hgate)
    · rw [Queue.happen, heq] at hr'
      obtain ⟨r, hr, rfl, rfl⟩ | ⟨hr', -⟩ := mem_modifyRun (q := q) hr'
      · obtain ⟨s, hs, -⟩ := h.exists_stage hr
        rw [h.status?_of_mem hr] at hx
        cases hx
        exact .inr ⟨r, hr, rfl, s, s, hs, hgate ▸ hs, .cancelled rfl hunfinished⟩
      · exact .inr (hstays (by rintro _ ⟨⟩) hr' hgate)
  | wait m => exact .inr (hstays (by rintro _ ⟨⟩) hr' rfl)
  | remove m =>
    obtain ⟨keep, -, heq⟩ := h.exists_remove m
    rw [Queue.happen, heq] at hr'
    exact .inr (hstays (by rintro _ ⟨⟩) (List.mem_filter.mp hr').1 (q.gate_remove m))
  | prune => exact .inr (hstays (by rintro _ ⟨⟩) (List.mem_filter.mp hr').1 rfl)
  | wake t => exact .inr (hstays (by rintro _ ⟨⟩) hr' rfl)
  | pass millis => exact .inr (hstays (by rintro _ ⟨⟩) hr' rfl)
  | turn t =>
    by_cases hready : t ∈ q.agenda.ready
    · have heq : q.happen e (.turn t) = turn e (q.without t) t := if_pos hready
      rw [heq] at hr' ⊢
      exact .inr (h.moves_turn hr')
    · have heq : q.happen e (.turn t) = q := if_neg hready
      rw [heq] at hr'
      refine .inr (hstays ?_ hr' (congrArg Queue.gate heq))
      rintro t' ⟨⟩ hready'
      exact absurd hready' hready

theorem Sound.length_le (h : q.Sound e bound) (ev : Event) :
    q.gate.stages.length ≤ (q.happen e ev).gate.stages.length := by
  cases ev with
  | submit s mode =>
    have hlength : (q.submit s mode).gate.stages.length = q.gate.stages.length + 1 :=
      List.length_append
    exact hlength ▸ Nat.le_succ _
  | cancel m => exact Nat.le_of_eq (congrArg (·.stages.length) (q.gate_cancel m).symm)
  | wait m => exact Nat.le_refl _
  | remove m => exact Nat.le_of_eq (congrArg (·.stages.length) (q.gate_remove m).symm)
  | prune => exact Nat.le_refl _
  | wake t => exact Nat.le_refl _
  | pass millis => exact Nat.le_refl _
  | turn t =>
    rw [Queue.happen]
    split
    · exact Nat.le_of_eq (h.took t).length_stages.symm
    · exact Nat.le_refl _

/-- What a run in the table has that moves, if it comes to have it at every move. -/
theorem Sound.moved (h : q.Sound e bound) {P Q : QueuedRun → Stage (UnderWay σ) RunEnd → Prop}
    (hmoves : ∀ {r s r' s'}, r ∈ q.table → r.number = n → r.Shows e s → Moves e q ev r s r' s' →
      P r s → Q r' s')
    (hlt : n < q.gate.stages.length)
    (hP : ∀ r ∈ q.table, r.number = n → ∀ s, q.gate.stages[n]? = some s → P r s) :
    ∀ r ∈ (q.happen e ev).table, r.number = n →
      ∀ s, (q.happen e ev).gate.stages[n]? = some s → Q r s := by
  rintro r' hr' rfl s' hs'
  obtain ⟨s, mode, -, rfl⟩ | ⟨r, hr, hnumber, s, s'', hs, hs'', hmove⟩ := h.moves ev hr'
  · exact absurd hlt (Nat.lt_irrefl _)
  · rw [hnumber] at hs''
    cases hs'.symm.trans hs''
    exact hmoves hr hnumber (h.shows r hr s hs) hmove (hP r hr hnumber s (hnumber ▸ hs))

/-- What a run in the table keeps as it moves, it keeps for as long as it is there. -/
theorem Sound.kept_after (h : q.Sound e bound) {P : QueuedRun → Stage (UnderWay σ) RunEnd → Prop}
    (hmoves : ∀ {q : Queue σ} {ev r s r' s'}, q.Sound e bound → r ∈ q.table → r.Shows e s →
      Moves e q ev r s r' s' → P r s → P r' s')
    (hlt : n < q.gate.stages.length)
    (hP : ∀ r ∈ q.table, r.number = n → ∀ s, q.gate.stages[n]? = some s → P r s)
    (more : List Event) :
    ∀ r ∈ (q.after e more).table, r.number = n →
      ∀ s, (q.after e more).gate.stages[n]? = some s → P r s := by
  refine (h.after_of_step (P := fun q => n < q.gate.stages.length ∧
    ∀ r ∈ q.table, r.number = n → ∀ s, q.gate.stages[n]? = some s → P r s) ?_ more ⟨hlt, hP⟩).2
  rintro q ev h ⟨hlt, hP⟩
  exact ⟨Nat.lt_of_lt_of_le hlt (h.length_le ev),
    h.moved (fun hr _ hshows hmove => hmoves h hr hshows hmove) hlt hP⟩

end Queue
end Runbook
