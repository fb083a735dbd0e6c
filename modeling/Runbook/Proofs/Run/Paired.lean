import Runbook.Proofs.Run.Elsewhere
import Runbook.Proofs.Run.Wakeful

/-!
# Branches that are taken in step

Two parallel runs of a sequence are compared whose branches are taken in the same order while time
goes on differently beside them.  What the branches leave is sorted by time, so it matters that the
points in time of the one run are in the same order as those of the other.  They are *paired*
(`Timestamp.Paired`): while a branch is taken the clocks of both runs go on evenly, and whatever
happens in between only adds to the distance from what was before (`Timestamp.Paired.through`).

So branches of a stateless engine that are taken in step come to the like
(`Engine.Stateless.exists_taken`), and when they are put together both runs come to the like
(`Engine.Stateless.join_inStep`).
-/

namespace Runbook

variable {σ α : Type} {others : World σ → World σ → Prop}

/-! ## Points in time -/

namespace Timestamp

/-- From `a` to `s` as much time has passed as from `b` to `t`, and not none. -/
def Since (a b s t : Timestamp) : Prop := ∃ k, s = a.later (k + 1) ∧ t = b.later (k + 1)

variable {a b a' b' s t : Timestamp} {U : Timestamp → Timestamp → Prop}

theorem later_later (t : Timestamp) (m n : Nat) : (t.later m).later n = t.later (m + n) := by
  simp only [later, perSecond, Timestamp.mk.injEq]
  omega

theorem later_notAfter_later (t : Timestamp) (m n : Nat) :
    (t.later m).notAfter (t.later n) = decide (m ≤ n) := by
  rw [Bool.eq_iff_iff, notAfter_iff, decide_eq_true_iff]
  simp only [later, perSecond]
  omega

theorem since_later (a b : Timestamp) (n : Nat) : Since a b (a.later (n + 1)) (b.later (n + 1)) :=
  ⟨n, rfl, rfl⟩

theorem paced_since (a b : Timestamp) : Paced (Since a b) := by
  rintro _ _ n ⟨k, rfl, rfl⟩
  refine ⟨k + n, ?_, ?_⟩
  · rw [later_later, Nat.add_right_comm]
  · rw [later_later, Nat.add_right_comm]

theorem ordered_since (a b : Timestamp) : Ordered (Since a b) := by
  rintro _ _ _ _ ⟨j, rfl, rfl⟩ ⟨k, rfl, rfl⟩
  rw [later_notAfter_later, later_notAfter_later]

theorem Since.before (h : Since a b s t) : a.Before s ∧ b.Before t := by
  obtain ⟨k, rfl, rfl⟩ := h
  exact ⟨before_later a (Nat.succ_pos k), before_later b (Nat.succ_pos k)⟩

/-- Points in time are paired in their order, none of them after `a` and `b`. -/
structure Paired (U : Timestamp → Timestamp → Prop) (a b : Timestamp) : Prop where
  /-- They are in the same order. -/
  ordered : Ordered U
  /-- None is later. -/
  notAfter : ∀ s t, U s t → s.notAfter a = true ∧ t.notAfter b = true

/-- The pairs of `U`, and those of the time from `a` to `a'`, which is even with that from `b`. -/
def Through (U : Timestamp → Timestamp → Prop) (a b a' s t : Timestamp) : Prop :=
  U s t ∨ Since a b s t ∧ s.notAfter a' = true

theorem paired_nothing (a b : Timestamp) : Paired (fun _ _ => False) a b :=
  ⟨fun _ _ _ _ => nofun, fun _ _ => nofun⟩

theorem Paired.onward (h : Paired U a b) (ha : a.notAfter a' = true) (hb : b.notAfter b' = true) :
    Paired U a' b' :=
  ⟨h.ordered, fun s t hst => ⟨notAfter_trans (h.notAfter s t hst).1 ha,
    notAfter_trans (h.notAfter s t hst).2 hb⟩⟩

/-- Time that goes on evenly pairs further points in time. -/
theorem Paired.through (h : Paired U a b) (h' : Since a b a' b') :
    Paired (Through U a b a') a' b' where
  ordered := by
    rintro s s' t t' (hs | ⟨hs, -⟩) (ht | ⟨ht, -⟩)
    · exact h.ordered _ _ _ _ hs ht
    · -- What was paired before is earlier.
      obtain ⟨hsa, hsb⟩ := h.notAfter _ _ hs
      rw [(notAfter_trans_before hsa ht.before.1).notAfter,
        (notAfter_trans_before hsb ht.before.2).notAfter]
    · obtain ⟨hta, htb⟩ := h.notAfter _ _ ht
      rw [Bool.eq_false_iff.mpr (notAfter_trans_before hta hs.before.1).not_notAfter,
        Bool.eq_false_iff.mpr (notAfter_trans_before htb hs.before.2).not_notAfter]
    · exact ordered_since a b _ _ _ _ hs ht
  notAfter := by
    rintro s t (hst | ⟨hst, hsa⟩)
    · obtain ⟨hsa, htb⟩ := h.notAfter s t hst
      exact ⟨notAfter_trans hsa h'.before.1.notAfter, notAfter_trans htb h'.before.2.notAfter⟩
    · exact ⟨hsa, ordered_since a b _ _ _ _ hst h' ▸ hsa⟩

end Timestamp

/-! ## Worlds -/

/-- The worlds are akin, and the points in time so far are paired. -/
structure World.InStep (U : Timestamp → Timestamp → Prop) (w v : World σ) : Prop where
  /-- The worlds are akin. -/
  akin : w.Akin v
  /-- The points in time are paired. -/
  paired : Timestamp.Paired U w.clock v.clock

theorem World.InStep.elsewhere {U : Timestamp → Timestamp → Prop} {w v u : World σ}
    (h : w.InStep U v) (hu : w.Elsewhere u) : u.InStep U v :=
  ⟨h.akin.elsewhere hu, h.paired.onward hu.clock (Timestamp.notAfter_refl _)⟩

/-- Worlds in step that let as much time pass stay so. -/
theorem World.InStep.later {U : Timestamp → Timestamp → Prop} {w v : World σ} (h : w.InStep U v)
    (n : Nat) :
    World.InStep (Timestamp.Through U w.clock v.clock (w.clock.later (n + 1)))
      { w with clock := w.clock.later (n + 1) } { v with clock := v.clock.later (n + 1) } :=
  ⟨⟨⟨h.akin.scene.store, h.akin.scene.cancelled, trivial⟩, trivial⟩,
    h.paired.through (Timestamp.since_later _ _ n)⟩

section

variable {T U : Timestamp → Timestamp → Prop}

theorem StepResult.Alike.mono (hTU : ∀ s t, T s t → U s t) {r r' : StepResult} (h : r.Alike T r') :
    r.Alike U r' :=
  ⟨h.timeless, hTU _ _ h.started⟩

theorem BranchEnd.Alike.mono (hTU : ∀ s t, T s t → U s t) {b b' : BranchEnd} (h : b.Alike T b') :
    b.Alike U b' := by
  cases h with
  | finished hrs => exact .finished (hrs.imp fun _ _ => StepResult.Alike.mono hTU)
  | skipped => exact .skipped
  | crashed m => exact .crashed m

/-- Without results there are no times to relate. -/
theorem Context.Alike.unbegun {c c' : Context} (h : c.Alike T c') (hempty : c.results = []) :
    c.Alike U c' := by
  have hresults := h.results
  rw [hempty, List.forall₂_nil_left_iff] at hresults
  refine { h with results := ?_ }
  rw [hempty, hresults]
  exact .nil

end

/-- Twins that begin with a tick come to the like if the worlds are alike after it. -/
theorem Activity.Twin.advance_tick {T : Timestamp → Timestamp → Prop} {S : σ → σ → Prop}
    {Q : α → α → Prop} {x y : Activity (World σ) α} {w v : World σ}
    (h : (Activity.update World.tick x).Twin (World.Alike T S) Q (.update World.tick y))
    (hwv : w.tick.Alike T S v.tick) :
    (x.advance (·.cancelled) w.tick).1.Twin (World.Alike T S) Q
        (y.advance (·.cancelled) v.tick).1 ∧
      (x.advance (·.cancelled) w.tick).2.Alike T S (y.advance (·.cancelled) v.tick).2 := by
  cases h with
  | update _ hnext => exact hnext.advance hwv

/-! ## Results in time -/

namespace Engine

variable (e : Engine σ)

/-- The result of a group keeps the time at which the group was begun. -/
theorem started_closeGroup (hothers : ∀ w v, others w v → World.Onward w v) {s : Step}
    {began : Timestamp} {w w' : World σ} {own : StepResult} :
    ∀ {culprit : Option String}, (closeGroup s began culprit).Course others w (.returned own) w' →
      own.started = began ∧ w.Onward w'
  | none, h => by
      obtain ⟨_, hreturned, -⟩ := course_close h
      cases hreturned
      exact ⟨rfl, h.onward hothers (forward_close _ _ _)⟩
  | some _, h => by
      obtain ⟨_, hreturned, -⟩ := course_close h
      cases hreturned
      exact ⟨rfl, h.onward hothers (forward_close _ _ _)⟩

mutual

/-- What a step leaves was begun by the time that it is over. -/
theorem notAfter_of_runStep (hothers : ∀ w v, others w v → World.Onward w v) {c : Context}
    {w w' : World σ} {p : StepResult × Context} :
    ∀ {s : Step}, (e.runStep s c).Course others w (.returned p) w' →
      ∃ new, p.2.results = c.results ++ new ∧ ∀ r ∈ p.1 :: new, r.started.notAfter w'.clock = true
  | .mk i n d k enabled goesOn cs ps ss, h => by
      obtain ⟨began, v, hbegun, h⟩ := course_runStep h
      have hbegan := (hbegun.after hothers).2.2
      rw [proceed] at h
      split at h
      · obtain ⟨own, hown, hclose⟩ := of_bind_pair h fun _ _ hpanic => by
          obtain ⟨_, hreturned, -⟩ := course_close hpanic
          cases hreturned
        cases hown
        obtain ⟨ended, hreturned, -⟩ := course_close hclose
        cases hreturned
        have hv := (hclose.onward hothers (forward_close _ _ _)).clock
        exact ⟨[], (List.append_nil _).symm,
          List.forall_mem_singleton.mpr (Timestamp.notAfter_trans hbegan hv)⟩
      split at h
      · obtain ⟨⟨culprit, c₁⟩, u, hchildren, h⟩ | ⟨_, _, hreturned⟩ := h.of_bind
        · obtain ⟨new, hnew, hstarted⟩ := notAfter_of_runChildren hothers hchildren
          have hu := (hchildren.onward hothers (e.forward_runChildren _ _)).clock
          obtain ⟨own, _, hclose, hdone⟩ | ⟨_, _, hreturned⟩ := h.of_bind
          · obtain ⟨hown, rfl⟩ := hdone.of_done
            cases hown
            obtain ⟨hown, hv⟩ := started_closeGroup hothers hclose
            refine ⟨new, hnew, List.forall_mem_cons.mpr ⟨?_, fun r hr =>
              Timestamp.notAfter_trans (hstarted r hr) hv.clock⟩⟩
            rw [hown]
            exact Timestamp.notAfter_trans (Timestamp.notAfter_trans hbegan hu) hv.clock
          · cases hreturned
        · cases hreturned
      · obtain ⟨own, hown, hdispatch⟩ := of_bind_pair h fun _ _ hpanic => by
          obtain ⟨_, hreturned, -⟩ := e.course_dispatch hpanic
          cases hreturned
        cases hown
        obtain ⟨_, hreturned, hcloses⟩ := e.course_dispatch hdispatch
        cases hreturned
        have hv := (hdispatch.onward hothers (e.forward_dispatch _ _ _)).clock
        refine ⟨[], (List.append_nil _).symm, List.forall_mem_singleton.mpr ?_⟩
        rw [hcloses.started]
        exact Timestamp.notAfter_trans hbegan hv
termination_by structural s => s

theorem notAfter_of_runChildren (hothers : ∀ w v, others w v → World.Onward w v) {c : Context}
    {w w' : World σ} {p : Option String × Context} :
    ∀ {ss : List Step}, (e.runChildren ss c).Course others w (.returned p) w' →
      ∃ new, p.2.results = c.results ++ new ∧ ∀ r ∈ new, r.started.notAfter w'.clock = true
  | [], h => by
      cases h.of_done.1
      exact ⟨[], (List.append_nil _).symm, by simp⟩
  | s :: ss, h => by
      simp only [runChildren, Activity.bind_eq] at h
      obtain ⟨⟨own, c₁⟩, u, hstep, h⟩ | ⟨_, _, hreturned⟩ := h.of_bind
      · obtain ⟨new, hnew, hstarted⟩ := notAfter_of_runStep hothers hstep
        obtain ⟨c₂, v, hrecord, h⟩ | ⟨_, _, hreturned⟩ := h.of_bind
        · obtain rfl := e.record_returned hrecord
          have hv := (hrecord.onward hothers (e.forward_record _ _)).clock
          have hrecorded : (c₁.record own).results = c.results ++ (new ++ [own]) := by
            rw [← List.append_assoc, ← hnew]
            rfl
          have hsoFar : ∀ r ∈ new ++ [own], r.started.notAfter v.clock = true := by
            obtain ⟨hown, hnew⟩ := List.forall_mem_cons.mp hstarted
            exact fun r hr => Timestamp.notAfter_trans
              ((List.forall_mem_append.mpr ⟨hnew, List.forall_mem_singleton.mpr hown⟩) r hr) hv
          split at h
          · obtain ⟨hp, rfl⟩ := h.of_done
            cases hp
            exact ⟨_, hrecorded, hsoFar⟩
          · obtain ⟨more, hmore, hmoreStarted⟩ := notAfter_of_runChildren hothers h
            have hw' := (h.onward hothers (e.forward_runChildren _ _)).clock
            refine ⟨new ++ [own] ++ more, ?_, List.forall_mem_append.mpr ⟨fun r hr =>
              Timestamp.notAfter_trans (hsoFar r hr) hw', hmoreStarted⟩⟩
            rw [hmore, hrecorded, List.append_assoc]
        · cases hreturned
      · cases hreturned
termination_by structural ss => ss

end

/-- What a branch leaves was begun by the time that it is over. -/
theorem notAfter_of_branch (hothers : ∀ w v, others w v → World.Onward w v) {s : Step}
    {c : Context} {w w' : World σ} {rs : List StepResult}
    (h : (e.branch s c).Course others w (.returned rs) w') :
    ∀ r ∈ rs, r.started.notAfter w'.clock = true := by
  simp only [branch, Activity.bind_eq] at h
  obtain ⟨⟨own, c₁⟩, u, hstep, h⟩ | ⟨_, _, hreturned⟩ := h.of_bind
  · obtain ⟨new, hnew, hstarted⟩ := e.notAfter_of_runStep hothers hstep
    obtain ⟨c₂, v, hrecord, hdone⟩ | ⟨_, _, hreturned⟩ := h.of_bind
    · obtain rfl := e.record_returned hrecord
      obtain ⟨hrs, rfl⟩ := hdone.of_done
      cases hrs
      have hv := (hrecord.onward hothers (e.forward_record _ _)).clock
      have hresults : (c₁.record own).results = new ++ [own] := by
        rw [Context.record, hnew]
        rfl
      obtain ⟨hown, hnew⟩ := List.forall_mem_cons.mp hstarted
      rw [hresults]
      exact fun r hr => Timestamp.notAfter_trans
        ((List.forall_mem_append.mpr ⟨hnew, List.forall_mem_singleton.mpr hown⟩) r hr) hv
    · cases hreturned
  · cases hreturned

/-! ## Branches -/

/-- A branch begins with a tick of the clock. -/
theorem exists_branch_eq (s : Step) (c : Context) : ∃ x, e.branch s c = .update World.tick x := by
  rw [branch, runStep_eq]
  exact ⟨_, rfl⟩

namespace Stateless

variable {e} {s : Step} {ss : List Step} {c c' : Context} {w w' v : World σ} {b : BranchEnd}
  {U V : Timestamp → Timestamp → Prop}

/-- Branches that are carried on in step come to the like, and stay in step. -/
theorem branch_inStep (h : e.Stateless fun _ _ => True) (s : Step) (hc : c.Alike V c')
    (hwv : w.InStep U v) :
    ((e.branch s c).advance (·.cancelled) w).1.Twin
        (World.Alike (Timestamp.Since w.clock v.clock) fun _ _ => True)
        (List.Forall₂ (StepResult.Alike (Timestamp.Since w.clock v.clock)))
        ((e.branch s c').advance (·.cancelled) v).1 ∧
      World.InStep (Timestamp.Through U w.clock v.clock
          ((e.branch s c).advance (·.cancelled) w).2.clock)
        ((e.branch s c).advance (·.cancelled) w).2 ((e.branch s c').advance (·.cancelled) v).2 := by
  obtain ⟨x, hx⟩ := e.exists_branch_eq s c
  obtain ⟨y, hy⟩ := e.exists_branch_eq s c'
  have htwin := h.twin_branch (Timestamp.paced_since w.clock v.clock) s hc
  rw [hx, hy] at htwin ⊢
  have htick : w.tick.Alike (Timestamp.Since w.clock v.clock) (fun _ _ => True) v.tick :=
    ⟨⟨hwv.akin.scene.store, hwv.akin.scene.cancelled, trivial⟩, Timestamp.since_later _ _ 0⟩
  obtain ⟨hpause, hworld⟩ := htwin.advance_tick htick
  exact ⟨hpause, ⟨hworld.scene, trivial⟩, hwv.paired.through hworld.clock⟩

/-- Branches that are taken in step come to the like. -/
theorem exists_taken (h : e.Stateless fun _ _ => True) (hc : c.Alike V c') (hwv : w.InStep U v)
    (hb : e.Taken s c w b w') :
    ∃ b' v' U', e.Taken s c' v b' v' ∧ (∀ s t, U s t → U' s t) ∧ b.Alike U' b' ∧
      w'.InStep U' v' := by
  have hcancelled := hwv.akin.scene.cancelled
  obtain ⟨hpause, hinStep⟩ := h.branch_inStep s hc hwv
  have hcourse := @Activity.Course.of_advance σ _ Eq (fun _ => rfl) (e.branch s c) w
  cases hv : (e.branch s c').advance (·.cancelled) v with
  | mk pause v' =>
  rw [hv] at hpause hinStep
  cases hb with
  | skipped hw => exact ⟨_, v, U, .skipped (hcancelled ▸ hw), fun _ _ => id, .skipped, hwv⟩
  | finished hw hadvance =>
    rw [hadvance] at hpause hinStep hcourse
    have hdated := e.notAfter_of_branch (by rintro u _ rfl; exact .refl u) (hcourse .done)
    cases hpause with
    | @done rs rs' hrs =>
      refine ⟨_, v', _, .finished (hcancelled ▸ hw) hv, fun _ _ => .inl, .finished ?_, hinStep⟩
      refine List.forall₂_iff_zip.mpr ⟨(List.forall₂_iff_zip.mp hrs).1, fun {r r'} hzip => ?_⟩
      have hr := (List.forall₂_iff_zip.mp hrs).2 hzip
      exact ⟨hr.timeless, .inr ⟨hr.started, hdated r (List.of_mem_zip hzip).1⟩⟩
  | @crashed m _ hw hadvance =>
    rw [hadvance] at hpause hinStep
    cases hpause with
    | panicked =>
      exact ⟨_, v', _, .crashed (hcancelled ▸ hw) hv, fun _ _ => .inl, .crashed m, hinStep⟩

/-! ## Putting the branches together -/

/-- What branches leave that came to the like is alike. -/
theorem exists_gatherAll : ∀ {bs bs' : List BranchEnd} {U : Timestamp → Timestamp → Prop}
    {w v : World σ}, List.Forall₂ (BranchEnd.Alike U) bs bs' → w.InStep U v →
    ∀ (task : Nat) (ss : List Step), ∃ rs rs' w' v' U',
      (gatherAll task (ss.zip bs)).advance (·.cancelled) w = (.done rs, w') ∧
      (gatherAll task (ss.zip bs')).advance (·.cancelled) v = (.done rs', v') ∧
      (∀ s t, U s t → U' s t) ∧ List.Forall₂ (StepResult.Alike U') rs rs' ∧ w'.InStep U' v'
  | [], _, U, w, v, h, hwv, task, ss => by
      cases h
      rw [List.zip_nil_right]
      exact ⟨[], [], w, v, U, rfl, rfl, fun _ _ => id, .nil, hwv⟩
  | _ :: _, _, U, w, v, _, hwv, task, [] =>
      ⟨[], [], w, v, U, by rw [List.zip_nil_left]; rfl, by rw [List.zip_nil_left]; rfl,
        fun _ _ => id, .nil, hwv⟩
  | b :: bs, _, U, w, v, h, hwv, task, s :: ss => by
      cases h with
      | @cons _ b' _ bs' hb hbs =>
      obtain ⟨rs, rs', w₁, v₁, U₁, hgather, hgather', hU₁, hrs, hwv₁⟩ : ∃ rs rs' w₁ v₁ U₁,
          (gather task s b).advance (·.cancelled) w = (.done rs, w₁) ∧
          (gather task s b').advance (·.cancelled) v = (.done rs', v₁) ∧
          (∀ s t, U s t → U₁ s t) ∧ List.Forall₂ (StepResult.Alike U₁) rs rs' ∧
          w₁.InStep U₁ v₁ := by
        cases hb with
        | finished hrs => exact ⟨_, _, w, v, U, rfl, rfl, fun _ _ => id, hrs, hwv⟩
        | skipped => exact ⟨_, _, w, v, U, rfl, rfl, fun _ _ => id, .nil, hwv⟩
        | crashed m =>
          have hlater := hwv.later 1
          rw [← Timestamp.later_later _ 1 1, ← Timestamp.later_later _ 1 1] at hlater
          refine ⟨_, _, _, _, _, rfl, rfl, fun _ _ => .inl, .cons ?_ .nil, hlater⟩
          exact ⟨rfl, .inr ⟨Timestamp.since_later _ _ 0, Timestamp.notAfter_later _ _⟩⟩
      obtain ⟨more, more', w', v', U', hall, hall', hU', hmore, hwv'⟩ :=
        exists_gatherAll (hbs.imp fun _ _ => BranchEnd.Alike.mono hU₁) hwv₁ (task + 1) ss
      refine ⟨rs ++ more, rs' ++ more', w', v', U', ?_, ?_, fun s t hst => hU' s t (hU₁ s t hst),
        List.rel_append (hrs.imp fun _ _ => StepResult.Alike.mono hU') hmore, hwv'⟩
      · simp only [List.zip_cons_cons, gatherAll, Activity.bind_eq, Activity.advance_bind, hgather,
          hall]
        rfl
      · simp only [List.zip_cons_cons, gatherAll, Activity.bind_eq, Activity.advance_bind, hgather',
          hall']
        rfl

/-- When branches that came to the like are put together, both runs come to the like. -/
theorem join_inStep (h : e.Stateless fun _ _ => True) (hc : c.Alike V c')
    (hempty : c.results = []) {x x' : Branches σ}
    (hends : List.Forall₂ (BranchEnd.Alike U) x.outcomes x'.outcomes) (hwv : w.InStep U v) :
    ∃ U', ((e.join ⟨ss, c, x⟩).advance (·.cancelled) w).1.Twin World.Akin (Context.Alike U')
      ((e.join ⟨ss, c', x'⟩).advance (·.cancelled) v).1 := by
  obtain ⟨rs, rs', w', v', U', hgather, hgather', hU', hrs, hwv'⟩ :=
    exists_gatherAll hends hwv 1 ss
  have htwin := h.twin_verdict (T := fun _ _ => True) (fun _ _ _ _ => trivial) hwv'.paired.ordered
    (hc.unbegun hempty) hrs (hends.imp fun _ _ => BranchEnd.Alike.mono hU')
  simp only [join, Activity.bind_eq, Activity.advance_bind, hgather, hgather']
  exact ⟨U', (htwin.advance hwv'.akin).1⟩

end Stateless
end Engine
end Runbook
