import Runbook.Proofs.Queue.Bookkeeping
import Runbook.Proofs.Queue.Onward
import Runbook.Proofs.Run.Elsewhere

/-!
# The fortunes of a run

All that a queue holds of a run is in *sight* of it: its stage, its world and the agenda.  What an
event that does not cancel the run makes of this is the run's own doing, or it happens elsewhere
(`Queue.Fares`, `Queue.Sound.fares`).  In the turns of its tasks the run goes its way.  Otherwise
its variables stay as they are and none of its tasks is taken off the agenda.

So what a run keeps as it fares on, it keeps throughout a history in which nobody cancels it
(`Queue.Sound.fortunes`).
-/

namespace Runbook

variable {σ : Type}

/-! ## Sights -/

/-- What a queue holds of a run. -/
structure Sight (σ : Type) where
  /-- Where the run stands. -/
  stage : Stage (UnderWay σ) RunEnd
  /-- Its world. -/
  world : World σ
  /-- The turns to come. -/
  agenda : Agenda Task

namespace Queue

/-- What a queue holds of a run that stands at a stage. -/
def sight (q : Queue σ) (r : QueuedRun) (s : Stage (UnderWay σ) RunEnd) : Sight σ :=
  ⟨s, q.worldOf r, q.agenda⟩

/-- What an event makes of the run with number `n` if it does not cancel it. -/
inductive Fares (e : Engine σ) (n : Nat) (s : Sequence) (mode : Mode) :
    Event → Sight σ → Sight σ → Prop where
  /-- Something happens elsewhere. -/
  | stays {ev : Event} {stage : Stage (UnderWay σ) RunEnd} {w v : World σ} {a b : Agenda Task} :
      w.Elsewhere v → a.Keeps (·.number = n) b → Fares e n s mode ev ⟨stage, w, a⟩ ⟨stage, v, b⟩
  /-- The run is granted the place of another one. -/
  | granted {ev : Event} {w v : World σ} {a b : Agenda Task} :
      w.Elsewhere v → Fares e n s mode ev ⟨.waiting, w, a⟩ ⟨.granted, v, b⟩
  /-- The run takes a place. -/
  | admitted {t : Task} {stage : Stage (UnderWay σ) RunEnd} {w : World σ} {a b : Agenda Task} :
      stage.isOutside = true → .run n ∈ b.ready →
      Fares e n s mode (.turn t) ⟨stage, w, a⟩ ⟨.inside (.single fun _ => work e s mode), w, b⟩
  /-- One of its tasks has its turn for nothing. -/
  | rests {t : Task} {stage : Stage (UnderWay σ) RunEnd} {w : World σ} {a : Agenda Task} :
      Idle n t stage → Fares e n s mode (.turn t) ⟨stage, w, a⟩ ⟨stage, w, a.without t⟩
  /-- One of its tasks has its turn, and the run goes a stretch. -/
  | turned {t : Task} {stage : Stage (UnderWay σ) RunEnd} {w : World σ} {a : Agenda Task}
      {y : Stretch σ} {cancelled : Bool} :
      Strides e n t stage w y →
      Fares e n s mode (.turn t) ⟨stage, w, a⟩
        ⟨y.stage, y.world, y.noted (a.without t) t n cancelled⟩

variable {e : Engine σ} {q q' : Queue σ} {t : Task} {r r' : QueuedRun} {bound n : Nat}
  {ev : Event}

theorem elsewhere_worldOf (h : q.clock.notAfter q'.clock = true) (r : QueuedRun) :
    (q.worldOf r).Elsewhere (q'.worldOf r) :=
  ⟨rfl, rfl, h⟩

/-- The run was just submitted, or fared on from what the queue held of it. -/
inductive Fared (e : Engine σ) (q q' : Queue σ) (ev : Event) (r' : QueuedRun) : Prop where
  /-- It was submitted. -/
  | submitted : q.gate.stages[r'.number]? = none → q'.gate.stages[r'.number]? = some .fresh →
      (q'.worldOf r').Fresh → Fared e q q' ev r'
  /-- It fared on. -/
  | fares {r : QueuedRun} {s s' : Stage (UnderWay σ) RunEnd} :
      r ∈ q.table → r.number = r'.number → r.sequence = r'.sequence → r.mode = r'.mode →
      q.gate.stages[r.number]? = some s → q'.gate.stages[r'.number]? = some s' →
      Fares e r.number r.sequence r.mode ev (q.sight r s) (q'.sight r' s') → Fared e q q' ev r'

/-! ## Events -/

/-- A run that nothing happens to but that others have their way. -/
theorem Sound.fared_stays (h : q.Sound e bound) (hr : r ∈ q.table) (hgate : q'.gate = q.gate)
    (hclock : q.clock.notAfter q'.clock = true)
    (hkeeps : q.agenda.Keeps (·.number = r.number) q'.agenda) : Fared e q q' ev r := by
  have hs := List.getElem?_eq_getElem (h.known r hr)
  refine .fares hr rfl rfl rfl hs ?_ (.stays (elsewhere_worldOf hclock r) hkeeps)
  rw [hgate]
  exact hs

theorem Sound.fared_submit (h : q.Sound e bound) (s : Sequence) (mode : Mode)
    (hr : r' ∈ (q.submit s mode).table) : Fared e q (q.submit s mode) ev r' := by
  obtain hr | hr := List.mem_append.mp hr
  · have hlt := h.known r' hr
    have hs := List.getElem?_eq_getElem hlt
    exact .fares hr rfl rfl rfl hs ((List.getElem?_append_left hlt).trans hs)
      (.stays (elsewhere_worldOf (Timestamp.notAfter_refl _) r')
        (Agenda.keeps_wakeAll _ q.agenda [.run q.gate.stages.length]))
  · obtain rfl := List.mem_singleton.mp hr
    refine .submitted (List.getElem?_eq_none (Nat.le_refl _)) ?_ ⟨rfl, rfl⟩
    rw [Queue.submit, Gate.enroll, QueuedRun.submitted]
    exact List.getElem?_concat_length

theorem Sound.fared_cancel (h : q.Sound e bound) {m : Nat} (hr : r' ∈ (q.cancel m).2.table)
    (hnever : m = r'.number → (q.cancel m).1 = false) : Fared e q (q.cancel m).2 ev r' := by
  obtain heq | ⟨-, hcancelled, heq⟩ := q.cancel_eq_or m
  · rw [heq] at hr ⊢
    exact h.fared_stays hr rfl (Timestamp.notAfter_refl _) (.refl _ _)
  · rw [heq] at hr ⊢
    obtain ⟨r, -, hm, rfl⟩ | ⟨hr, -⟩ := mem_modifyRun (q := q) hr
    · rw [hnever hm.symm] at hcancelled
      cases hcancelled
    · exact h.fared_stays hr rfl (Timestamp.notAfter_refl _) (Agenda.keeps_wakeAll _ _ _)

theorem Sound.fared_drop (h : q.Sound e bound) {keep : QueuedRun → Bool}
    (hr : r' ∈ q.table.filter keep) : Fared e q { q with table := q.table.filter keep } ev r' :=
  h.fared_stays (List.mem_filter.mp hr).1 rfl (Timestamp.notAfter_refl _) (.refl _ _)

/-- A run none of whose tasks has its turn stays where it is, unless it is granted a place. -/
theorem Sound.fared_elsewhere (h : q.Sound e bound) (hr : r ∈ q.table) {i : Nat}
    {s : Stage (UnderWay σ) RunEnd} {grant : Option Nat}
    (hmoves : q.gate.MovesTo q'.gate i s grant) (hi : r.number ≠ i)
    (hclock : q.clock.notAfter q'.clock = true)
    (hkeeps : q.agenda.Keeps (·.number = r.number) q'.agenda) : Fared e q q' ev r := by
  have hlt : r.number < q'.gate.stages.length := hmoves.length.symm ▸ h.known r hr
  have hs' := List.getElem?_eq_getElem hlt
  obtain ⟨u, hu, hsame⟩ := hmoves.others _ _ hi hs'
  have hworld := elsewhere_worldOf hclock r
  generalize q'.gate.stages[r.number] = u' at hs' hsame
  obtain rfl | ⟨rfl, rfl, -⟩ := hsame
  · exact .fares hr rfl rfl rfl hu hs' (.stays hworld hkeeps)
  · exact .fares hr rfl rfl rfl hu hs' (.granted hworld)

/-- A run puts down how far it is, and its world stays as it is. -/
theorem Sound.fared_told (h : q.Sound e bound) {s : Stage (UnderWay σ) RunEnd}
    {f : QueuedRun → QueuedRun} {keeps : Bool}
    (hr' : r' ∈ ((q.without (.run r.number)).tells r (.run r.number) f keeps).table)
    (hfind : q.find? r.number = some r) (hs : q.gate.stages[r.number]? = some s)
    (htells : Tells r s f keeps) :
    Fared e q ((q.without (.run r.number)).tells r (.run r.number) f keeps)
      (.turn (.run r.number)) r' := by
  have hclock : q.clock.notAfter
      ((q.without (.run r.number)).tells r (.run r.number) f keeps).clock = true := by
    cases keeps <;> exact Timestamp.notAfter_refl _
  rw [table_tells] at hr'
  obtain ⟨r₀, hr₀, hn, rfl⟩ | ⟨hr', hn⟩ := mem_modifyRun (q := q) hr'
  · obtain rfl := h.eq_of_number hr₀ (find?_eq_some hfind).1 hn
    have hagain := Agenda.keeps_without_again (·.number = r₀.number) q.agenda (.run r₀.number)
    cases htells with
    | running => exact .fares hr₀ rfl rfl rfl hs hs (.stays (.refl _) hagain)
    | recorded => exact .fares hr₀ rfl rfl rfl hs hs (.stays (.refl _) hagain)
    | finished => exact .fares hr₀ rfl rfl rfl hs hs (.rests .ended)
  · have hmoves := Gate.movesTo_self (g := q.gate) hs
    cases keeps with
    | true =>
      exact h.fared_elsewhere hr' hmoves hn hclock (Agenda.keeps_without_again _ q.agenda _)
    | false =>
      refine h.fared_elsewhere hr' hmoves hn hclock (Agenda.keeps_without _ ?_ q.agenda)
      rintro u hu rfl
      exact hn hu.symm

/-- In a turn the run that the task belongs to goes its way, and the others stay where they are, up
to one that is granted a place. -/
theorem Sound.fared_turn (h : q.Sound e bound) (hprogressive : q.Progressive)
    (hr' : r' ∈ (turn e (q.without t) t).table) :
    Fared e q (turn e (q.without t) t) (.turn t) r' := by
  have hclock := ((h.took t).progressive hprogressive).2
  have htook := h.took t
  generalize turn e (q.without t) t = q' at hr' hclock htook ⊢
  have hwithout : r'.number ≠ t.number →
      q.agenda.Keeps (·.number = r'.number) (q.agenda.without t) := by
    refine fun hn => Agenda.keeps_without _ ?_ _
    rintro u hu rfl
    exact hn hu.symm
  have hagain := Agenda.keeps_without_again (·.number = r'.number) q.agenda t
  cases htook with
  | idle hidle =>
    have hs := List.getElem?_eq_getElem (h.known r' hr')
    by_cases hn : r'.number = t.number
    · have hfind : q.find? t.number = some r' := hn ▸ h.find?_of_mem hr'
      exact .fares hr' rfl rfl rfl hs hs (.rests (hidle r' _ hfind hs).1)
    · exact .fares hr' rfl rfl rfl hs hs (.stays (.refl _) (hwithout hn))
  | @admitted r s gate ht hfind hs heager _ hmoves =>
    subst ht
    by_cases hn : r'.number = r.number
    · obtain rfl := h.eq_of_number hr' (find?_eq_some hfind).1 hn
      have houtside : s.isOutside = true := by
        cases s with
        | inside u => cases heager
        | ended b => cases heager
        | _ => rfl
      exact .fares hr' rfl rfl rfl hs hmoves.self (.admitted houtside List.mem_cons_self)
    · exact h.fared_elsewhere hr' hmoves hn hclock hagain
  | @told r s f keeps ht hfind hs htells =>
    subst ht
    exact h.fared_told hr' hfind hs htells
  | @turned r s y gate grant hfind hs hstrides hstate hmoves =>
    obtain ⟨hmem, hnumber⟩ := find?_eq_some hfind
    obtain ⟨r₀, hr₀, hn, rfl⟩ | ⟨hr₀, hn⟩ := mem_modifyRun (f := .returned y.world) hr'
    · obtain rfl := h.eq_of_number hr₀ hmem hn
      exact .fares hr₀ rfl rfl rfl hs hmoves.self (.turned hstrides)
    · exact h.fared_elsewhere hr₀ hmoves hn hclock
        ((hwithout (hnumber ▸ hn)).trans (keeps_noted _ y _ t r.number _))

/-- Whatever happens, a run that is not cancelled fares on. -/
theorem Sound.fares (h : q.Sound e bound) (hprogressive : q.Progressive) {ev : Event}
    (hr : r' ∈ (q.happen e ev).table)
    (hnever : ev = .cancel r'.number → (q.cancel r'.number).1 = false) :
    Fared e q (q.happen e ev) ev r' := by
  cases ev with
  | submit s mode => exact h.fared_submit s mode hr
  | cancel m =>
    refine h.fared_cancel hr ?_
    rintro rfl
    exact hnever rfl
  | wait m => exact h.fared_stays hr rfl (Timestamp.notAfter_refl _) (.refl _ _)
  | remove m =>
    obtain ⟨keep, -, heq⟩ := h.exists_remove m
    rw [Queue.happen, heq] at hr ⊢
    exact h.fared_drop hr
  | prune => exact h.fared_drop hr
  | wake t =>
    exact h.fared_stays hr rfl (Timestamp.notAfter_refl _) (Agenda.keeps_wakeAll _ q.agenda [t])
  | pass millis => exact h.fared_stays hr rfl (Timestamp.notAfter_atLeast _ _) (.refl _ _)
  | turn t =>
    rw [Queue.happen] at hr ⊢
    split at hr
    · next hready =>
      rw [if_pos hready]
      exact h.fared_turn hprogressive hr
    · next hasleep =>
      rw [if_neg hasleep]
      exact h.fared_stays hr rfl (Timestamp.notAfter_refl _) (.refl _ _)

/-! ## Histories -/

/-- Each event of a history is as `P` allows in the state in which it happens. -/
def Throughout (e : Engine σ) (P : Queue σ → Event → Prop) : Queue σ → List Event → Prop
  | _, [] => True
  | q, ev :: history => P q ev ∧ Throughout e P (q.happen e ev) history

/-- Nobody cancels the run with a number, or it is in vain. -/
def NeverCancelled (e : Engine σ) (n : Nat) : Queue σ → List Event → Prop :=
  Throughout e fun q ev => ev = .cancel n → (q.cancel n).1 = false

/-- What holds of a run that was just submitted, and what the run keeps as it fares on while events
are as `allowed` says, holds throughout a history in which nobody cancels it. -/
theorem Sound.fortunes (P : Sequence → Mode → Sight σ → Prop)
    (allowed : Agenda Task → Event → Prop)
    (hfresh : ∀ s mode x, x.stage = .fresh → x.world.Fresh → P s mode x)
    (hfares : ∀ s mode ev x y, allowed x.agenda ev → Fares e n s mode ev x y → P s mode x →
      P s mode y) :
    ∀ {history : List Event} {q : Queue σ}, q.Sound e bound → q.Progressive →
      NeverCancelled e n q history → Throughout e (fun q => allowed q.agenda) q history →
      (∀ r ∈ q.table, r.number = n → ∀ s, q.gate.stages[n]? = some s →
        P r.sequence r.mode (q.sight r s)) →
      ∀ r ∈ (q.after e history).table, r.number = n →
        ∀ s, (q.after e history).gate.stages[n]? = some s →
          P r.sequence r.mode ((q.after e history).sight r s)
  | [], _, _, _, _, _, hP => hP
  | ev :: history, q, h, hprogressive, hnever, hallowed, hP => by
      refine Sound.fortunes P allowed (q := q.happen e ev) hfresh hfares (h.happen ev)
        (h.progressive_happen hprogressive ev).1 hnever.2 hallowed.2 fun r' hr' hn s' hs' => ?_
      subst hn
      cases h.fares hprogressive hr' hnever.1 with
      | submitted _ hstage hworld =>
        cases hstage.symm.trans hs'
        exact hfresh _ _ _ rfl hworld
      | fares hr hnumber hsequence hmode hs hs'' hfared =>
        cases hs''.symm.trans hs'
        rw [← hsequence, ← hmode]
        rw [hnumber] at hs hfared
        exact hfares _ _ _ _ _ hallowed.1 hfared (hP _ hr hnumber _ hs)

end Queue
end Runbook
