import Runbook.Proofs.Run.Onward

/-!
# What activities note

A run may keep a log in its world.  `Activity.Adds` says what an activity comes to, given the
entries that its own changes add to the log.  It says so of every course, whatever others do in
between, even if they add entries of their own: an activity that is carried on to its next wait
still adds what is left of it (`Activity.Adds.of_advance`).

`Activity.Notes` says the same of a log that is kept in the surroundings.
-/

namespace Runbook

variable {σ τ α β : Type} {others : World σ → World σ → Prop}

/-! ## Activities -/

namespace Activity

/-- The activity comes only to endings that `P` allows after the entries that its own changes add to
the log. -/
def Adds (log : σ → List τ) : (List τ → Ending α → Prop) → Activity σ α → Prop
  | P, done a => P [] (.returned a)
  | P, panic m => P [] (.panicked m)
  | P, look next => ∀ s, (next s).Adds log P
  | P, update change next =>
      ∃ new, (∀ s, log (change s) = log s ++ new) ∧ next.Adds log fun K => P (new ++ K)
  | P, await _ next => ∀ c, (next c).Adds log P

section

variable {log : σ → List τ}

theorem Adds.mono : ∀ {x : Activity σ α} {P Q : List τ → Ending α → Prop},
    x.Adds log P → (∀ K r, P K r → Q K r) → x.Adds log Q
  | done _, _, _, h, hPQ => hPQ _ _ h
  | panic _, _, _, h, hPQ => hPQ _ _ h
  | look _, _, _, h, hPQ => fun s => Adds.mono (h s) hPQ
  | update _ _, _, _, ⟨new, hnew, h⟩, hPQ => ⟨new, hnew, h.mono fun K r => hPQ (new ++ K) r⟩
  | await _ _, _, _, h, hPQ => fun c => Adds.mono (h c) hPQ

/-- Of two activities in sequence the entries of the first come first. -/
theorem Adds.bind {f : α → Activity σ β} :
    ∀ {x : Activity σ α} {P : List τ → Ending α → Prop} {Q : List τ → Ending β → Prop},
      x.Adds log P → (∀ K a, P K (.returned a) → (f a).Adds log fun K' => Q (K ++ K')) →
      (∀ K m, P K (.panicked m) → Q K (.panicked m)) → (x.bind f).Adds log Q
  | done a, _, _, h, hf, _ => hf [] a h
  | panic m, _, _, h, _, hpanic => hpanic [] m h
  | look _, _, _, h, hf, hpanic => fun s => Adds.bind (h s) hf hpanic
  | update _ _, _, Q, ⟨new, hnew, h⟩, hf, hpanic => by
      refine ⟨new, hnew, Adds.bind h (fun K a ha => ?_) fun K m => hpanic (new ++ K) m⟩
      exact (hf (new ++ K) a ha).mono fun K' r hr => List.append_assoc new K K' ▸ hr
  | await _ _, _, _, h, hf, hpanic => fun c => Adds.bind (h c) hf hpanic

theorem Adds.caught : ∀ {x : Activity σ α} {P : List τ → Ending α → Prop}
    {Q : List τ → Ending (Except (Option String) α) → Prop},
    x.Adds log P → (∀ K a, P K (.returned a) → Q K (.returned (.ok a))) →
      (∀ K m, P K (.panicked m) → Q K (.returned (.error m))) → x.caught.Adds log Q
  | done a, _, _, h, hdone, _ => hdone [] a h
  | panic m, _, _, h, _, hpanic => hpanic [] m h
  | look _, _, _, h, hdone, hpanic => fun s => Adds.caught (h s) hdone hpanic
  | update _ _, _, _, ⟨new, hnew, h⟩, hdone, hpanic =>
      ⟨new, hnew, h.caught (fun K => hdone (new ++ K)) fun K => hpanic (new ++ K)⟩
  | await _ _, _, _, h, hdone, hpanic => fun c => Adds.caught (h c) hdone hpanic

end

section

variable {log : World σ → List τ}

/-- Among others who leave the log alone, a course adds its own entries. -/
theorem Adds.of_course (hothers : ∀ w v, others w v → log v = log w)
    {x : Activity (World σ) α} {w w' : World σ} {r : Ending α} (h : x.Course others w r w') :
    ∀ {P : List τ → Ending α → Prop}, x.Adds log P → ∃ K, log w' = log w ++ K ∧ P K r := by
  induction h with
  | done => exact fun hx => ⟨[], (List.append_nil _).symm, hx⟩
  | panic => exact fun hx => ⟨[], (List.append_nil _).symm, hx⟩
  | look hv _ ih =>
    intro P hx
    rw [← hothers _ _ hv]
    exact ih (hx _)
  | @update _ _ w v _ _ hv _ ih =>
    rintro P ⟨new, hnew, hx⟩
    obtain ⟨K, hK, hP⟩ := ih hx
    exact ⟨new ++ K, by rw [hK, hnew v, hothers w v hv, List.append_assoc], hP⟩
  | await hv _ ih =>
    intro P hx
    rw [← hothers _ _ hv]
    exact ih (hx _)

end

end Activity

/-- What the entries up to the next wait, and those after it, allow. -/
def Pause.Adds (log : σ → List τ) (P : List τ → Ending α → Prop) (K : List τ) :
    Pause σ α → Prop
  | .done a => P K (.returned a)
  | .panicked m => P K (.panicked m)
  | .asleep _ next => ∀ c, (next c).Adds log fun K' => P (K ++ K')

namespace Activity

/-- Carried on to its next wait an activity adds its own entries. -/
theorem Adds.of_advance {log : World σ → List τ} : ∀ {x : Activity (World σ) α}
    {P : List τ → Ending α → Prop} (w : World σ), x.Adds log P →
      ∃ K, log (x.advance (·.cancelled) w).2 = log w ++ K ∧
        (x.advance (·.cancelled) w).1.Adds log P K
  | done _, _, _, h => ⟨[], (List.append_nil _).symm, h⟩
  | panic _, _, _, h => ⟨[], (List.append_nil _).symm, h⟩
  | look next, _, w, h => Adds.of_advance (x := next w) w (h w)
  | update change next, P, w, ⟨new, hnew, h⟩ => by
      obtain ⟨K, hK, hP⟩ := Adds.of_advance (x := next) (change w) h
      refine ⟨new ++ K, by rw [advance, hK, hnew w, List.append_assoc], ?_⟩
      rw [advance]
      cases hpause : (next.advance (·.cancelled) (change w)).1 with
      | done a =>
        rw [hpause] at hP
        exact hP
      | panicked m =>
        rw [hpause] at hP
        exact hP
      | asleep d rest =>
        rw [hpause] at hP
        exact fun c => (hP c).mono fun K' r hr => List.append_assoc new K K' ▸ hr
  | await d next, _, w, h => by
      rw [advance]
      split
      · exact Adds.of_advance (x := next true) w (h true)
      · exact ⟨[], (List.append_nil _).symm, h⟩

/-! ## Logs in the surroundings -/

/-- The activity comes only to endings that `P` allows after the entries that its own changes add to
the log. -/
def Notes (log : σ → List τ) : (List τ → Ending α → Prop) → Activity (World σ) α → Prop
  | P, done a => P [] (.returned a)
  | P, panic m => P [] (.panicked m)
  | P, look next => ∀ w, (next w).Notes log P
  | P, update change next =>
      ∃ new, (∀ w, log (change w).surroundings = log w.surroundings ++ new) ∧
        next.Notes log fun K => P (new ++ K)
  | P, await _ next => ∀ c, (next c).Notes log P

variable {log : σ → List τ}

theorem notes_iff : ∀ {x : Activity (World σ) α} {P : List τ → Ending α → Prop},
    x.Notes log P ↔ x.Adds (fun w => log w.surroundings) P
  | done _, _ => Iff.rfl
  | panic _, _ => Iff.rfl
  | look _, _ => forall_congr' fun _ => notes_iff
  | update _ _, _ => exists_congr fun _ => and_congr_right' notes_iff
  | await _ _, _ => forall_congr' fun _ => notes_iff

theorem Notes.mono {x : Activity (World σ) α} {P Q : List τ → Ending α → Prop}
    (h : x.Notes log P) (hPQ : ∀ K r, P K r → Q K r) : x.Notes log Q :=
  notes_iff.mpr ((notes_iff.mp h).mono hPQ)

theorem Notes.bind {x : Activity (World σ) α} {f : α → Activity (World σ) β}
    {P : List τ → Ending α → Prop} {Q : List τ → Ending β → Prop} (h : x.Notes log P)
    (hf : ∀ K a, P K (.returned a) → (f a).Notes log fun K' => Q (K ++ K'))
    (hpanic : ∀ K m, P K (.panicked m) → Q K (.panicked m)) : (x.bind f).Notes log Q :=
  notes_iff.mpr ((notes_iff.mp h).bind (fun K a ha => notes_iff.mp (hf K a ha)) hpanic)

theorem Notes.caught {x : Activity (World σ) α} {P : List τ → Ending α → Prop}
    {Q : List τ → Ending (Except (Option String) α) → Prop} (h : x.Notes log P)
    (hdone : ∀ K a, P K (.returned a) → Q K (.returned (.ok a)))
    (hpanic : ∀ K m, P K (.panicked m) → Q K (.returned (.error m))) : x.caught.Notes log Q :=
  notes_iff.mpr ((notes_iff.mp h).caught hdone hpanic)

theorem Notes.of_course (hothers : ∀ w v, others w v → log v.surroundings = log w.surroundings)
    {x : Activity (World σ) α} {w w' : World σ} {r : Ending α} (h : x.Course others w r w')
    {P : List τ → Ending α → Prop} (hx : x.Notes log P) :
    ∃ K, log w'.surroundings = log w.surroundings ++ K ∧ P K r :=
  (notes_iff.mp hx).of_course hothers h

/-- A course adds nothing to a log that stays empty. -/
theorem Notes.ending {x : Activity (World σ) α} {w w' : World σ} {r : Ending α}
    {P : List τ → Ending α → Prop} (h : x.Notes (fun _ => []) P)
    (hcourse : x.Course others w r w') :
    P [] r := by
  obtain ⟨K, hK, hP⟩ := h.of_course (fun _ _ _ => rfl) hcourse
  rw [List.nil_append] at hK
  exact hK ▸ hP

end Activity

/-- Something was returned that `P` allows after the entries that were added. -/
def Returns (P : List τ → α → Prop) (K : List τ) : Ending α → Prop
  | .returned a => P K a
  | _ => False

/-- Nothing was added, and something was returned that `P` allows. -/
def Quietly (P : α → Prop) : List τ → Ending α → Prop := Returns fun K a => K = [] ∧ P a

/-- Setting variables and the clock leaves the log as it is. -/
def World.Detached (log : World σ → List τ) : Prop :=
  ∀ w store clock, log { w with store := store, clock := clock } = log w

theorem World.detached_surroundings {log : σ → List τ} :
    World.Detached fun w : World σ => log w.surroundings :=
  fun _ _ _ => rfl

namespace Activity

theorem Adds.returns {log : σ → List τ} {x : Activity σ α} {f : α → Activity σ β}
    {P : List τ → α → Prop} {Q : List τ → Ending β → Prop} (h : x.Adds log (Returns P))
    (hf : ∀ K a, P K a → (f a).Adds log fun K' => Q (K ++ K')) : (x.bind f).Adds log Q :=
  h.bind hf fun _ _ => False.elim

theorem Adds.weaken {log : σ → List τ} {x : Activity σ α} {P : List τ → α → Prop}
    {Q : List τ → Ending α → Prop} (h : x.Adds log (Returns P))
    (hPQ : ∀ K a, P K a → Q K (.returned a)) : x.Adds log Q := by
  refine h.mono fun K r hr => ?_
  cases r with
  | returned a => exact hPQ K a hr
  | panicked m => exact hr.elim
  | stuck => exact hr.elim

theorem Adds.quietly {log : σ → List τ} {x : Activity σ α} {f : α → Activity σ β} {P : α → Prop}
    {Q : List τ → Ending β → Prop} (h : x.Adds log (Quietly P))
    (hf : ∀ a, P a → (f a).Adds log Q) : (x.bind f).Adds log Q := by
  refine h.returns fun K a ha => ?_
  obtain ⟨rfl, ha⟩ := ha
  exact hf a ha

theorem adds_stamp {log : World σ → List τ} (hlog : World.Detached log) :
    (World.stamp : Activity (World σ) Timestamp).Adds log (Quietly fun _ => True) :=
  ⟨[], fun w => (hlog w w.store _).trans (List.append_nil _).symm, fun _ => ⟨rfl, trivial⟩⟩

variable {log : σ → List τ}

theorem Notes.returns {x : Activity (World σ) α} {f : α → Activity (World σ) β}
    {P : List τ → α → Prop} {Q : List τ → Ending β → Prop} (h : x.Notes log (Returns P))
    (hf : ∀ K a, P K a → (f a).Notes log fun K' => Q (K ++ K')) : (x.bind f).Notes log Q :=
  h.bind hf fun _ _ => False.elim

theorem Notes.quietly {x : Activity (World σ) α} {f : α → Activity (World σ) β} {P : α → Prop}
    {Q : List τ → Ending β → Prop} (h : x.Notes log (Quietly P))
    (hf : ∀ a, P a → (f a).Notes log Q) : (x.bind f).Notes log Q :=
  notes_iff.mpr ((notes_iff.mp h).quietly fun a ha => notes_iff.mp (hf a ha))

theorem notes_stamp :
    (World.stamp : Activity (World σ) Timestamp).Notes log (Quietly fun _ => True) :=
  notes_iff.mpr (adds_stamp World.detached_surroundings)

end Activity

end Runbook
