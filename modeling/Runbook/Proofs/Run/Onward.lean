import Runbook.Proofs.Run.Course
import Runbook.Run.Engine

/-!
# Time goes on

The clock of a world is not turned back, and a cancellation is not taken back.  Both are moves
*onward*.  An activity is *forward* if it makes no other changes; the work of an engine is forward
whatever its executors and its reporter do (`Engine.forward_runStep`), so on a course among others
who go onward the world goes onward (`Activity.Course.onward`).

A stamp is later than everything before it: `Activity.Course.stamp_after`.
-/

namespace Runbook

variable {σ α β : Type} {others : World σ → World σ → Prop}

/-! ## Points in time -/

/-- One point in time is earlier than another. -/
def Timestamp.Before (s t : Timestamp) : Prop :=
  s.seconds < t.seconds ∨ s.seconds = t.seconds ∧ s.nanos < t.nanos

namespace Timestamp

variable {r s t : Timestamp}

theorem notAfter_iff :
    s.notAfter t = true ↔ s.seconds < t.seconds ∨ s.seconds = t.seconds ∧ s.nanos ≤ t.nanos := by
  simp [notAfter]

theorem notAfter_refl (s : Timestamp) : s.notAfter s = true := by
  simp [notAfter_iff]

theorem notAfter_trans (h : r.notAfter s = true) (h' : s.notAfter t = true) :
    r.notAfter t = true := by
  rw [notAfter_iff] at *
  omega

theorem notAfter_total (s t : Timestamp) : s.notAfter t = true ∨ t.notAfter s = true := by
  rw [notAfter_iff, notAfter_iff]
  omega

theorem Before.notAfter (h : s.Before t) : s.notAfter t = true := by
  rw [notAfter_iff]
  rw [Before] at h
  omega

theorem Before.not_notAfter (h : s.Before t) : ¬ t.notAfter s = true := by
  rw [notAfter_iff]
  rw [Before] at h
  omega

theorem Before.trans_notAfter (h : r.Before s) (h' : s.notAfter t = true) : r.Before t := by
  rw [notAfter_iff] at h'
  rw [Before] at *
  omega

theorem notAfter_trans_before (h : r.notAfter s = true) (h' : s.Before t) : r.Before t := by
  rw [notAfter_iff] at h
  rw [Before] at *
  omega

theorem notAfter_later (t : Timestamp) (nanos : Nat) : t.notAfter (t.later nanos) = true := by
  rw [notAfter_iff]
  simp only [later, perSecond]
  omega

theorem before_later (t : Timestamp) {nanos : Nat} (h : 0 < nanos) : t.Before (t.later nanos) := by
  simp only [Before, later, perSecond]
  omega

end Timestamp

/-! ## Worlds -/

/-- The clock was not turned back and no cancellation was taken back. -/
structure World.Onward (w v : World σ) : Prop where
  /-- The clock was not turned back. -/
  clock : w.clock.notAfter v.clock = true
  /-- No cancellation was taken back. -/
  cancelled : w.cancelled = true → v.cancelled = true

namespace World

theorem Onward.refl (w : World σ) : w.Onward w := ⟨Timestamp.notAfter_refl _, id⟩

theorem Onward.trans {u v w : World σ} (h : u.Onward v) (h' : v.Onward w) : u.Onward w :=
  ⟨Timestamp.notAfter_trans h.clock h'.clock, fun hu => h'.cancelled (h.cancelled hu)⟩

theorem onward_tick (w : World σ) : w.Onward w.tick := ⟨Timestamp.notAfter_later _ _, id⟩

theorem onward_pass (ms : Nat) (w : World σ) : w.Onward (pass ms w) :=
  ⟨Timestamp.notAfter_later _ _, id⟩

theorem onward_withScene (s : Scene σ) (w : World σ) : w.Onward (withScene s w) :=
  ⟨Timestamp.notAfter_refl _, cancelled_withScene s w⟩

end World

/-! ## Activities -/

namespace Activity

/-- Every change the activity makes is onward. -/
def Forward : Activity (World σ) α → Prop
  | done _ => True
  | panic _ => True
  | look next => ∀ w, (next w).Forward
  | update change next => (∀ w, World.Onward w (change w)) ∧ next.Forward
  | await _ next => ∀ c, (next c).Forward

theorem forward_done (a : α) : (done a : Activity (World σ) α).Forward := trivial

theorem Forward.bind {f : α → Activity (World σ) β} (hf : ∀ a, (f a).Forward) :
    ∀ {x : Activity (World σ) α}, x.Forward → (x.bind f).Forward
  | .done a, _ => hf a
  | .panic _, _ => trivial
  | .look _, h => fun w => Forward.bind hf (h w)
  | .update _ _, h => ⟨h.1, Forward.bind hf h.2⟩
  | .await _ _, h => fun c => Forward.bind hf (h c)

theorem Forward.caught : ∀ {x : Activity (World σ) α}, x.Forward → x.caught.Forward
  | .done _, _ => trivial
  | .panic _, _ => trivial
  | .look _, h => fun w => Forward.caught (h w)
  | .update _ _, h => ⟨h.1, Forward.caught h.2⟩
  | .await _ _, h => fun c => Forward.caught (h c)

/-- Executors go onward, whatever they do to the scene. -/
theorem forward_onScene : ∀ x : Activity (Scene σ) α, (World.onScene x).Forward
  | .done _ => trivial
  | .panic _ => trivial
  | .look next => fun w => forward_onScene (next w.toScene)
  | .update change next =>
      ⟨fun w => World.onward_withScene (change w.toScene) w, forward_onScene next⟩
  | .await _ next => fun c => forward_onScene (next c)

theorem forward_stamp : (World.stamp : Activity (World σ) Timestamp).Forward :=
  ⟨World.onward_tick, fun _ => trivial⟩

/-- Among others who go onward, a forward activity goes onward. -/
theorem Course.onward (hothers : ∀ w v, others w v → World.Onward w v) {x : Activity (World σ) α}
    {w w' : World σ} {r : Ending α} (h : x.Course others w r w') (hx : x.Forward) :
    w.Onward w' := by
  induction h with
  | done => exact .refl _
  | panic => exact .refl _
  | look hv _ ih => exact (hothers _ _ hv).trans (ih (hx _))
  | update hv _ ih => exact ((hothers _ _ hv).trans (hx.1 _)).trans (ih hx.2)
  | await hv _ ih => exact (hothers _ _ hv).trans (ih (hx _))

/-- Up to its next wait too. -/
theorem Forward.onward_advance {x : Activity (World σ) α} (hx : x.Forward) (w : World σ) :
    w.Onward (x.advance (·.cancelled) w).2 := by
  induction x generalizing w with
  | done => exact .refl w
  | panic => exact .refl w
  | look next ih => exact ih w (hx w) w
  | update change next ih => exact (hx.1 w).trans (ih hx.2 (change w))
  | await delay next ih =>
    rw [advance]
    split
    · exact ih true (hx true) w
    · exact .refl w

/-- What is left of a forward activity at a wait is forward. -/
theorem Forward.of_asleep {x : Activity (World σ) α} (hx : x.Forward) {w : World σ}
    {delay : Delay} {next : Bool → Activity (World σ) α}
    (h : (x.advance (·.cancelled) w).1 = .asleep delay next) : ∀ c, (next c).Forward := by
  induction x generalizing w with
  | done => cases h
  | panic => cases h
  | look next ih => exact ih w (hx w) h
  | update change next ih => exact ih hx.2 h
  | await delay next ih =>
    rw [advance] at h
    split at h
    · exact ih true (hx true) h
    · cases h
      exact hx

/-- A stamp in front of something. -/
theorem Course.of_stamp {w w' : World σ} {r : Ending Timestamp}
    (h : World.stamp.Course others w r w') :
    ∃ u, others w u ∧ others u.tick w' ∧ r = .returned w'.clock := by
  obtain ⟨u, hu, hlook⟩ := Course.of_update h
  obtain ⟨v, hv, hdone⟩ := hlook.of_look
  obtain ⟨rfl, rfl⟩ := hdone.of_done
  exact ⟨u, hu, hv, rfl⟩

/-- A stamp is later than the time at which the clock was looked at. -/
theorem Course.stamp_after (hothers : ∀ w v, others w v → World.Onward w v) {w w' : World σ}
    {now : Timestamp} (h : World.stamp.Course others w (.returned now) w') :
    w.clock.Before now ∧ now = w'.clock := by
  obtain ⟨u, hu, hw', hnow⟩ := h.of_stamp
  obtain rfl : now = w'.clock := by
    injection hnow
  have htick : u.clock.Before u.tick.clock := Timestamp.before_later _ Nat.one_pos
  have hafter := (htick.trans_notAfter (hothers _ _ hw').clock)
  exact ⟨Timestamp.notAfter_trans_before (hothers _ _ hu).clock hafter, rfl⟩

end Activity

/-! ## Engines -/

namespace Engine

open Activity

variable (e : Engine σ)

theorem forward_tell (n : Notice) : (e.tell n).Forward := by
  rw [tell]
  split
  · trivial
  · intro w
    dsimp only
    split
    · trivial
    · exact ⟨fun w => ⟨Timestamp.notAfter_refl _, id⟩, trivial⟩

theorem forward_record (r : StepResult) (c : Context) : (e.record r c).Forward := by
  rw [record, bind_eq]
  exact (e.forward_tell _).bind fun _ => forward_done _

theorem forward_close (r : StepResult) (status : Status) (error : Option String) :
    (close r status error : Activity (World σ) StepResult).Forward := by
  rw [close, bind_eq]
  exact forward_stamp.bind fun _ => forward_done _

theorem forward_dispatch (s : Step) (c : Context) (r : StepResult) :
    (e.dispatch s c r).Forward := by
  rw [dispatch]
  split
  · exact forward_close _ _ _
  · rw [bind_eq]
    refine (forward_onScene _).caught.bind fun outcome => ?_
    split
    · rw [bind_eq]
      exact forward_stamp.bind fun _ => forward_done _
    · exact forward_close _ _ _
    · exact forward_close _ _ _

mutual

/-- A step goes onward. -/
theorem forward_runStep : ∀ (s : Step) (c : Context), (e.runStep s c).Forward
  | .mk i n d k enabled goesOn cs ps ss, c => by
      simp only [runStep, bind_eq]
      refine forward_stamp.bind fun now => ?_
      refine Forward.bind (fun v => ?_) fun _ => forward_done _
      split
      · exact (forward_close _ _ _).bind fun _ => forward_done _
      split
      · refine (forward_runChildren ss _).bind fun p => ?_
        split <;> exact (forward_close _ _ _).bind fun _ => forward_done _
      · exact (e.forward_dispatch _ _ _).bind fun _ => forward_done _
termination_by structural s => s

/-- The steps of a group go onward. -/
theorem forward_runChildren : ∀ (ss : List Step) (c : Context), (e.runChildren ss c).Forward
  | [], _ => trivial
  | s :: ss, c => by
      simp only [runChildren, bind_eq]
      refine (forward_runStep s c).bind fun p => ?_
      refine (e.forward_record _ _).bind fun c => ?_
      split
      · trivial
      · exact forward_runChildren ss c
termination_by structural ss => ss

end

theorem forward_begin (s : Sequence) : (e.begin s).Forward := by
  simp only [begin, bind_eq]
  refine forward_stamp.bind fun now => ?_
  refine ⟨fun w => ⟨Timestamp.notAfter_refl _, id⟩, ?_⟩
  dsimp only [Activity.bind]
  split
  · trivial
  · exact forward_stamp.bind fun _ => forward_done _

theorem forward_conclude (c : Context) : (e.conclude c).Forward :=
  (e.forward_tell _).bind fun _ => forward_done _

theorem forward_finish (status : Status) (c : Context) : (e.finish status c).Forward :=
  forward_stamp.bind fun _ => e.forward_conclude _

theorem forward_runSteps : ∀ (ss : List Step) (c : Context), (e.runSteps ss c).Forward
  | [], _ => trivial
  | s :: ss, c => by
      simp only [runSteps, bind_eq]
      intro w
      dsimp only [Activity.bind]
      split
      · trivial
      refine (e.forward_runStep s c).bind fun p => (e.forward_record _ _).bind fun c =>
        (e.forward_tell _).bind fun _ => ?_
      split
      · trivial
      · exact forward_runSteps ss c

/-- A run step by step goes onward. -/
theorem forward_sequential (s : Sequence) : (e.sequential s).Forward := by
  refine (e.forward_begin s).bind fun started => ?_
  cases started with
  | error c => exact e.forward_conclude c
  | ok c => exact (e.forward_runSteps s.steps c).bind fun _ => e.forward_finish _ _

end Engine
end Runbook
