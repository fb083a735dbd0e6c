import Runbook.Run.World

/-!
# Courses of activities

What an activity comes to depends on what goes on beside it: other branches, other runs, whoever
cancels.  A *course* of an activity leads from the world in which it begins to the one in which it
ends.  Before each of its moves others may change the world as far as `others` allows, and about how
long a wait lasts nothing is assumed.

Every activity has a course (`exists_course`).  The courses of two activities in sequence are those
of the first continued by those of the second (`Course.of_bind`).  An activity that is carried on to
its end, or to its next wait, is on one of its courses (`Course.of_complete`, `Course.of_advance`).
-/

namespace Runbook

variable {σ α β : Type} {others : World σ → World σ → Prop}

namespace Activity

/-- A course of an activity, from one world to another. -/
inductive Course (others : World σ → World σ → Prop) :
    Activity (World σ) α → World σ → Ending α → World σ → Prop where
  /-- What is done is done. -/
  | done {a : α} {w : World σ} : Course others (.done a) w (.returned a) w
  /-- What has panicked goes no further. -/
  | panic {m : Option String} {w : World σ} : Course others (.panic m) w (.panicked m) w
  /-- A look at the world that others leave. -/
  | look {next : World σ → Activity (World σ) α} {w v w' : World σ} {r : Ending α} :
      others w v → Course others (next v) v r w' → Course others (.look next) w r w'
  /-- A change of the world that others leave. -/
  | update {change : World σ → World σ} {next : Activity (World σ) α} {w v w' : World σ}
      {r : Ending α} :
      others w v → Course others next (change v) r w' → Course others (.update change next) w r w'
  /-- A wait is over in a world that others leave. -/
  | await {delay : Delay} {next : Bool → Activity (World σ) α} {w v w' : World σ}
      {r : Ending α} :
      others w v → Course others (next v.cancelled) v r w' →
        Course others (.await delay next) w r w'

/-! ## Moves -/

theorem Course.of_done {a : α} {w w' : World σ} {r : Ending α}
    (h : Course others (.done a) w r w') : r = .returned a ∧ w' = w := by
  cases h
  exact ⟨rfl, rfl⟩

theorem Course.of_look {next : World σ → Activity (World σ) α} {w w' : World σ} {r : Ending α}
    (h : Course others (.look next) w r w') : ∃ v, others w v ∧ (next v).Course others v r w' := by
  cases h with
  | look hothers hnext => exact ⟨_, hothers, hnext⟩

theorem Course.of_update {change : World σ → World σ} {next : Activity (World σ) α}
    {w w' : World σ} {r : Ending α} (h : Course others (.update change next) w r w') :
    ∃ v, others w v ∧ next.Course others (change v) r w' := by
  cases h with
  | update hothers hnext => exact ⟨_, hothers, hnext⟩

theorem Course.of_await {delay : Delay} {next : Bool → Activity (World σ) α} {w w' : World σ}
    {r : Ending α} (h : Course others (.await delay next) w r w') :
    ∃ v, others w v ∧ (next v.cancelled).Course others v r w' := by
  cases h with
  | await hothers hnext => exact ⟨_, hothers, hnext⟩

theorem Course.of_state {w w' : World σ} {r : Ending (World σ)}
    (h : state.Course others w r w') : others w w' ∧ r = .returned w' := by
  obtain ⟨v, hothers, hdone⟩ := Course.of_look h
  obtain ⟨rfl, rfl⟩ := hdone.of_done
  exact ⟨hothers, rfl⟩

theorem Course.of_modify {change : World σ → World σ} {w w' : World σ} {r : Ending Unit}
    (h : (modify change).Course others w r w') :
    ∃ v, others w v ∧ r = .returned () ∧ w' = change v := by
  obtain ⟨v, hothers, hdone⟩ := Course.of_update h
  exact ⟨v, hothers, hdone.of_done⟩

/-- Whatever others do, every activity comes to an end. -/
theorem exists_course (hothers : ∀ w, others w w) (x : Activity (World σ) α) (w : World σ) :
    ∃ r w', x.Course others w r w' := by
  induction x generalizing w with
  | done a => exact ⟨_, _, .done⟩
  | panic m => exact ⟨_, _, .panic⟩
  | look next ih =>
    obtain ⟨r, w', h⟩ := ih w w
    exact ⟨r, w', .look (hothers w) h⟩
  | update change next ih =>
    obtain ⟨r, w', h⟩ := ih (change w)
    exact ⟨r, w', .update (hothers w) h⟩
  | await delay next ih =>
    obtain ⟨r, w', h⟩ := ih w.cancelled w
    exact ⟨r, w', .await (hothers w) h⟩

/-- A course may begin earlier, before others move.  If nothing follows, they move after it. -/
theorem Course.of_others (hself : ∀ w, others w w)
    (htrans : ∀ u v w, others u v → others v w → others u w) {x : Activity (World σ) α}
    {w v v' : World σ} {r : Ending α} (hwv : others w v) (h : x.Course others v r v') :
    ∃ w', x.Course others w r w' ∧ others w' v' := by
  cases h with
  | done => exact ⟨w, .done, hwv⟩
  | panic => exact ⟨w, .panic, hwv⟩
  | look hv hrest => exact ⟨v', .look (htrans _ _ _ hwv hv) hrest, hself v'⟩
  | update hv hrest => exact ⟨v', .update (htrans _ _ _ hwv hv) hrest, hself v'⟩
  | await hv hrest => exact ⟨v', .await (htrans _ _ _ hwv hv) hrest, hself v'⟩

/-! ## Sequences -/

/-- The first activity comes first. -/
theorem Course.of_bind {f : α → Activity (World σ) β} {w' : World σ} {r : Ending β} :
    ∀ {x : Activity (World σ) α} {w : World σ}, (x.bind f).Course others w r w' →
      (∃ a v, x.Course others w (.returned a) v ∧ (f a).Course others v r w') ∨
      (∃ m, x.Course others w (.panicked m) w' ∧ r = .panicked m)
  | .done a, w, h => .inl ⟨a, w, .done, h⟩
  | .panic m, w, h => by
      cases h
      exact .inr ⟨m, .panic, rfl⟩
  | .look next, w, h => by
      obtain ⟨v, hothers, hrest⟩ := Course.of_look h
      obtain ⟨a, u, hx, hf⟩ | ⟨m, hx, rfl⟩ := of_bind hrest
      · exact .inl ⟨a, u, .look hothers hx, hf⟩
      · exact .inr ⟨m, .look hothers hx, rfl⟩
  | .update change next, w, h => by
      obtain ⟨v, hothers, hrest⟩ := Course.of_update h
      obtain ⟨a, u, hx, hf⟩ | ⟨m, hx, rfl⟩ := of_bind hrest
      · exact .inl ⟨a, u, .update hothers hx, hf⟩
      · exact .inr ⟨m, .update hothers hx, rfl⟩
  | .await delay next, w, h => by
      obtain ⟨v, hothers, hrest⟩ := Course.of_await h
      obtain ⟨a, u, hx, hf⟩ | ⟨m, hx, rfl⟩ := of_bind hrest
      · exact .inl ⟨a, u, .await hothers hx, hf⟩
      · exact .inr ⟨m, .await hothers hx, rfl⟩

/-- An activity in front that does not panic returns something to go on with. -/
theorem Course.of_bind_of_returns {x : Activity (World σ) α} {f : α → Activity (World σ) β}
    {w w' : World σ} {r : Ending β} (h : (x.bind f).Course others w r w')
    (hx : ∀ m v, ¬ x.Course others w (.panicked m) v) :
    ∃ a v, x.Course others w (.returned a) v ∧ (f a).Course others v r w' := by
  obtain hreturn | ⟨m, hpanic, -⟩ := h.of_bind
  · exact hreturn
  · exact absurd hpanic (hx m w')

/-- What two activities in sequence return comes of what the first one has returned. -/
theorem Course.of_bind_returned {x : Activity (World σ) α} {f : α → Activity (World σ) β}
    {w w' : World σ} {b : β} (h : (x.bind f).Course others w (.returned b) w') :
    ∃ a v, x.Course others w (.returned a) v ∧ (f a).Course others v (.returned b) w' := by
  obtain hreturn | ⟨m, -, heq⟩ := h.of_bind
  · exact hreturn
  · cases heq

/-- A caught activity returns. -/
theorem Course.of_caught {r : Ending (Except (Option String) α)} {w' : World σ} :
    ∀ {x : Activity (World σ) α} {w : World σ}, x.caught.Course others w r w' →
      ∃ outcome, r = .returned outcome
  | .done _, _, h => ⟨_, h.of_done.1⟩
  | .panic _, _, h => ⟨_, h.of_done.1⟩
  | .look _, _, h => by
      obtain ⟨_, _, hrest⟩ := Course.of_look h
      exact of_caught hrest
  | .update _ _, _, h => by
      obtain ⟨_, _, hrest⟩ := Course.of_update h
      exact of_caught hrest
  | .await _ _, _, h => by
      obtain ⟨_, _, hrest⟩ := Course.of_await h
      exact of_caught hrest

/-! ## Carrying on -/

/-- An activity that nothing goes on beside but the passing of time is on a course. -/
theorem Course.of_complete (hothers : ∀ w, others w w) (hpass : ∀ ms w, others w (World.pass ms w))
    {x : Activity (World σ) α} {w w' : World σ} {r : Ending α}
    (h : x.complete (·.cancelled) World.pass w = (r, w')) (hr : r ≠ .stuck) :
    x.Course others w r w' := by
  induction x generalizing w with
  | done a =>
    cases h
    exact .done
  | panic m =>
    cases h
    exact .panic
  | look next ih => exact .look (hothers w) (ih w h)
  | update change next ih => exact .update (hothers w) (ih h)
  | await delay next ih =>
    rw [complete] at h
    split at h
    · next hover =>
      have hcancelled : w.cancelled = true := (Bool.and_eq_true_iff.mp hover).2
      refine .await (hothers w) ?_
      rw [hcancelled]
      exact ih true h
    · split at h
      · next ms _ => exact .await (hpass ms w) (ih w.cancelled h)
      · cases h
        exact absurd rfl hr

end Activity

/-- An ending that an activity comes to, carried on from where it stands. -/
inductive Pause.Leads (others : World σ → World σ → Prop) :
    Pause (World σ) α → World σ → Ending α → World σ → Prop where
  /-- What is done is done. -/
  | done {a : α} {w : World σ} : Leads others (.done a) w (.returned a) w
  /-- What has panicked goes no further. -/
  | panicked {m : Option String} {w : World σ} : Leads others (.panicked m) w (.panicked m) w
  /-- A wait is over in a world that others leave. -/
  | asleep {delay : Delay} {next : Bool → Activity (World σ) α} {w v w' : World σ}
      {r : Ending α} :
      others w v → (next v.cancelled).Course others v r w' →
        Leads others (.asleep delay next) w r w'

/-- Carried on to its next wait an activity stays on its courses. -/
theorem Activity.Course.of_advance (hothers : ∀ w, others w w) {x : Activity (World σ) α}
    {w w' : World σ} {r : Ending α}
    (h : Pause.Leads others (x.advance (·.cancelled) w).1 (x.advance (·.cancelled) w).2 r w') :
    x.Course others w r w' := by
  induction x generalizing w with
  | done a =>
    cases h
    exact .done
  | panic m =>
    cases h
    exact .panic
  | look next ih => exact .look (hothers w) (ih w h)
  | update change next ih => exact .update (hothers w) (ih h)
  | await delay next ih =>
    rw [Activity.advance] at h
    split at h
    · next hover =>
      have hcancelled : w.cancelled = true := (Bool.and_eq_true_iff.mp hover).2
      refine .await (hothers w) ?_
      rw [hcancelled]
      exact ih true h
    · cases h with
      | asleep hv hrest => exact .await hv hrest

end Runbook
