import Runbook.Proofs.Run.Parallel

/-!
# The work of a queued run

An activity *delivers* what `P` allows if it comes to nothing else, unless it breaks off with a
message that `B` allows.  It does so also when it is carried on from wait to wait, whatever others
do in between (`Activity.Delivers.of_advance`).

The work of a run delivers a record with a terminal status, or sets up branches
(`Engine.delivers_work`), and so does the work that puts the branches together
(`Engine.delivers_joined`).  It breaks off only if the reporter panics, or if more branches are to
be under way than a gate can have places.
-/

namespace Runbook

variable {σ α β : Type}

/-- Something was returned that `P` allows, or the message of a panic is one that `B` allows. -/
def Ending.Yields (B : Option String → Prop) (P : α → Prop) : Ending α → Prop
  | .returned a => P a
  | .panicked m => B m
  | .stuck => False

namespace Engine

variable (e : Engine σ)

/-- The reporter panics with a message. -/
def PanicsWith (m : Option String) : Prop := ∃ n, e.PanicsOn n m

/-- A run in a mode may break off with a message. -/
def BreaksOff (mode : Mode) (m : Option String) : Prop := e.PanicsWith m ∨ mode.fits = false

theorem Comes.yields {e : Engine σ} {ss calls : List Step} {P : List Step → α → Prop}
    {Q : α → Prop} (hPQ : ∀ a, P calls a → Q a) :
    ∀ {r : Ending α}, e.Comes ss P calls r → r.Yields e.PanicsWith Q
  | .returned a, h => hPQ a h
  | .panicked _, h => h.2
  | .stuck, h => h

end Engine

/-! ## Activities -/

namespace Activity

variable (B : Option String → Prop)

/-- The activity comes to nothing but what `P` allows, unless it breaks off as `B` allows. -/
def Delivers (P : α → Prop) (x : Activity (World σ) α) : Prop :=
  x.Notes (fun _ => ([] : List Step)) fun _ => Ending.Yields B P

/-- What is left of the activity delivers what `P` allows. -/
def Pending (P : α → Prop) : Pause (World σ) α → Prop
  | .done a => P a
  | .panicked m => B m
  | .asleep _ next => ∀ c, (next c).Delivers B P

variable {B} {B' : Option String → Prop} {P Q : α → Prop} {e : Engine σ}

theorem Delivers.of_comes {x : Activity (World σ) α} {ss : List Step} {R : List Step → α → Prop}
    (h : x.Notes (fun _ => []) (e.Comes ss R)) (hRP : ∀ calls a, R calls a → P a) :
    x.Delivers e.PanicsWith P :=
  h.mono fun calls _ hr => hr.yields (hRP calls)

theorem Delivers.of_quietly {x : Activity (World σ) α}
    (h : x.Notes (fun _ => ([] : List Step)) (Quietly P)) : x.Delivers B P := by
  refine h.mono fun K r hr => ?_
  cases r with
  | returned a => exact hr.2
  | panicked m => exact hr.elim
  | stuck => exact hr

/-- What an activity delivers it delivers also if it may break off in more ways. -/
theorem Delivers.mono {x : Activity (World σ) α} (h : x.Delivers B P) (hB : ∀ m, B m → B' m) :
    x.Delivers B' P := by
  refine Notes.mono h fun K r hr => ?_
  cases r with
  | returned a => exact hr
  | panicked m => exact hB m hr
  | stuck => exact hr

theorem Delivers.bind {f : α → Activity (World σ) β} {R : β → Prop} {x : Activity (World σ) α}
    (h : x.Delivers B P) (hf : ∀ a, P a → (f a).Delivers B R) : (x.bind f).Delivers B R :=
  Notes.bind h (fun _ a ha => hf a ha) fun _ _ => id

/-- Carried on to its next wait, what is left of the activity still delivers. -/
theorem Delivers.of_advance {x : Activity (World σ) α} (h : x.Delivers B P) (w : World σ) :
    Pending B P (x.advance (·.cancelled) w).1 := by
  obtain ⟨K, -, hstays⟩ := (notes_iff.mp h).of_advance w
  cases hpause : (x.advance (·.cancelled) w).1 with
  | done a =>
    rw [hpause] at hstays
    exact hstays
  | panicked m =>
    rw [hpause] at hstays
    exact hstays
  | asleep d next =>
    rw [hpause] at hstays
    exact fun c => notes_iff.mpr (hstays c)

end Activity

/-! ## Runs -/

/-- The record of the run has a terminal status. -/
def Context.Terminal (c : Context) : Prop := c.status.isTerminal = true

/-- The work of a run has led to a terminal status, or to branches none of which has come yet. -/
def Stride.Concluded : Stride σ → Prop
  | .ended c => c.Terminal
  | .spread f => ∃ bound, f.branches = Gate.ofBound bound f.steps.length

theorem Context.terminal_finish {status : Status} (h : status.isTerminal = true) (c : Context)
    (now : Timestamp) : (c.finish status now).Terminal := by
  rw [Terminal, finish]
  split
  · assumption
  · exact h

theorem Status.isTerminal_verdict (c : Context) (ends : List BranchEnd) :
    (Engine.verdict c ends).isTerminal = true := by
  rw [Engine.verdict]
  split
  · rfl
  · split <;> rfl

namespace Engine

open Activity (Delivers)

variable (e : Engine σ)

theorem delivers_conclude {c : Context} (h : c.Terminal) :
    (e.conclude c).Delivers e.PanicsWith Context.Terminal := by
  refine .of_comes (e.notes_conclude c) fun _ a ha => ?_
  rw [ha.2]
  exact h

theorem delivers_finish {status : Status} (h : status.isTerminal = true) (c : Context) :
    (e.finish status c).Delivers e.PanicsWith Context.Terminal := by
  rw [finish, Activity.bind_eq]
  refine (Delivers.of_quietly Activity.notes_stamp).bind fun now _ => ?_
  exact e.delivers_conclude (Context.terminal_finish h c now)

/-- A run whose variables are refused has failed. -/
theorem delivers_begin (s : Sequence) :
    (e.begin s).Delivers e.PanicsWith fun started => ∀ c, started = .error c → c.Terminal := by
  simp only [begin, Activity.bind_eq]
  refine (Delivers.of_quietly Activity.notes_stamp).bind fun now _ => ?_
  refine ⟨[], fun _ => rfl, ?_⟩
  dsimp only [Activity.bind]
  split
  · intro c hc
    cases hc
  · refine (Delivers.of_quietly Activity.notes_stamp).bind fun now _ => ?_
    intro c hc
    cases hc
    exact Context.terminal_finish rfl _ _

theorem delivers_sequential (s : Sequence) :
    (e.sequential s).Delivers e.PanicsWith Context.Terminal := by
  simp only [sequential, Activity.bind_eq]
  refine (e.delivers_begin s).bind fun started hstarted => ?_
  split
  · exact e.delivers_conclude (hstarted _ rfl)
  · next c =>
    have hsteps : (e.runSteps s.steps c).Delivers e.PanicsWith fun _ => True :=
      .of_comes (e.logs_nothing.notes_runSteps s.steps c) fun _ _ _ => trivial
    exact hsteps.bind fun c' _ => e.delivers_finish rfl c'

theorem delivers_join (f : Fan σ) : (e.join f).Delivers e.PanicsWith Context.Terminal := by
  simp only [join, Activity.bind_eq]
  refine (Delivers.of_quietly (notes_gatherAll _ _)).bind fun rs _ => ?_
  exact e.delivers_finish (Status.isTerminal_verdict _ _) _

/-- A run that asks for too many places breaks off, unless its variables are refused. -/
theorem delivers_oversized (s : Sequence) {mode : Mode} (hmode : mode.fits = false) :
    (e.oversized s).Delivers (e.BreaksOff mode) Context.Terminal := by
  refine ((e.delivers_begin s).mono fun _ => .inl).bind fun started hstarted => ?_
  split
  · exact (e.delivers_conclude (hstarted _ rfl)).mono fun _ => .inl
  · exact .inr hmode

/-- Branches that are over are put together to a record with a terminal status. -/
theorem delivers_joined (f : Fan σ) :
    ((e.join f).bind fun c => .done (Stride.ended (σ := σ) c)).Delivers e.PanicsWith
      Stride.Concluded :=
  (e.delivers_join f).bind fun _ hc => hc

/-- The work of a run leads to a record with a terminal status, or to branches. -/
theorem delivers_work (s : Sequence) (mode : Mode) :
    (Queue.work e s mode).Delivers (e.BreaksOff mode) Stride.Concluded := by
  cases mode with
  | sequential =>
    exact ((e.delivers_sequential s).mono fun _ => .inl).bind fun _ hc => hc
  | parallel bound =>
    rw [Queue.work]
    split
    · refine ((e.delivers_begin s).mono fun _ => .inl).bind fun started hstarted => ?_
      split
      · exact ((e.delivers_conclude (hstarted _ rfl)).mono fun _ => .inl).bind fun _ hc => hc
      · dsimp only
        split
        · exact (e.delivers_joined _).mono fun _ => .inl
        · exact ⟨bound, rfl⟩
    · next hfits =>
      exact (e.delivers_oversized s (Bool.eq_false_iff.mpr hfits)).bind fun _ hc => hc

end Engine
end Runbook
