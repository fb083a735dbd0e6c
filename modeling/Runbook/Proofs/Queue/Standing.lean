import Mathlib.Data.List.Nodup
import Runbook.Proofs.Queue.Histories
import Runbook.Proofs.Queue.Work

/-!
# Where the runs of a queue stand

In a *sound* queue no place is lost, no two runs have the same number, and every run *stands*: it is
in the table unless it is over, it is ready if nothing but its turn keeps it from going on, and if
it waits for a place it is asleep, and ready once it is cancelled.

What the table shows of a run falls behind where the run stands, for the run puts it down in turns
of its own.  As long as it *owes* the table something it is ready (`Queue.Stands.telling`), and
until then the table shows a state that the run had before (`QueuedRun.Shows`).

Whatever a queue is asked for leaves it sound.
-/

namespace Runbook

variable {σ : Type}

/-! ## Agendas -/

namespace Agenda

variable {κ : Type} [DecidableEq κ] {a : Agenda κ} {j : κ}

/-- The task is ready or asleep. -/
def Holds (a : Agenda κ) (k : κ) : Prop := k ∈ a.ready ∨ ∃ s ∈ a.sleepers, s.task = k

theorem Holds.wake (h : a.Holds j) (k : κ) : (a.wake k).Holds j := by
  obtain hready | ⟨s, hs, rfl⟩ := h
  · exact .inl (mem_ready_wake k hready)
  · by_cases hk : s.task = k
    · exact .inl (hk ▸ self_mem_ready_wake a s.task)
    · exact .inr ⟨s, List.mem_filter.mpr ⟨hs, by simpa using hk⟩, rfl⟩

theorem Holds.wakeAll : ∀ (ks : List κ) {a : Agenda κ}, a.Holds j → (a.wakeAll ks).Holds j
  | [], _, h => h
  | k :: ks, _, h => Holds.wakeAll ks (h.wake k)

theorem mem_ready_wakeAll_of_mem : ∀ {ks : List κ} {a : Agenda κ}, j ∈ ks →
    j ∈ (a.wakeAll ks).ready
  | k :: ks, a, h => by
      obtain rfl | h := List.mem_cons.mp h
      · exact mem_ready_wakeAll ks (self_mem_ready_wake a j)
      · exact mem_ready_wakeAll_of_mem (a := a.wake k) h

/-- A task that is roused is ready, if it is on the agenda at all. -/
theorem Holds.rouse (h : a.Holds j) {among : κ → Bool} (hj : among j = true) :
    j ∈ (a.rouse among).ready := by
  obtain hready | ⟨s, hs, rfl⟩ := h
  · exact mem_ready_wakeAll _ hready
  · exact mem_ready_wakeAll_of_mem (List.mem_filter.mpr ⟨List.mem_map_of_mem hs, hj⟩)

/-- Who is on the agenda stays on it when a turn is noted. -/
theorem Holds.note (h : a.Holds j) (self : κ) (among : κ → Bool) (cancelled : Bool)
    (granted : Option κ) (sleep : Option Delay) (w : World σ) :
    (a.note self among cancelled granted sleep w).Holds j := by
  have hroused : (if cancelled then a.rouse among else a).Holds j := by
    split
    · exact Holds.wakeAll _ h
    · exact h
  have hslept : ∀ {b : Agenda κ}, b.Holds j → ∀ due, (b.sleep self due).Holds j := by
    rintro b (hready | ⟨s, hs, htask⟩) due
    · exact .inl hready
    · exact .inr ⟨s, List.mem_append_left _ hs, htask⟩
  cases granted with
  | none =>
    cases sleep with
    | none => exact hroused
    | some d => exact hslept hroused _
  | some k =>
    cases sleep with
    | none => exact hroused.wake k
    | some d => exact hslept (hroused.wake k) _

/-- A task that falls asleep is on the agenda. -/
theorem holds_note_self (self : κ) (among : κ → Bool) (cancelled : Bool) (granted : Option κ)
    (due : Delay) (w : World σ) :
    (a.note self among cancelled granted (some due) w).Holds self :=
  .inr ⟨_, List.mem_append_right _ (List.mem_singleton_self _), rfl⟩

/-! ### Tasks that stay on the agenda -/

/-- Some tasks stay ready if they were, and stay on the agenda. -/
structure Keeps (among : κ → Prop) (a b : Agenda κ) : Prop where
  /-- Those that are ready stay so. -/
  ready : ∀ k, among k → k ∈ a.ready → k ∈ b.ready
  /-- Those that are on the agenda stay there. -/
  holds : ∀ k, among k → a.Holds k → b.Holds k

variable {among : κ → Prop} {b c : Agenda κ}

omit [DecidableEq κ] in
theorem Keeps.refl (among : κ → Prop) (a : Agenda κ) : a.Keeps among a :=
  ⟨fun _ _ => id, fun _ _ => id⟩

omit [DecidableEq κ] in
theorem Keeps.trans (h : a.Keeps among b) (h' : b.Keeps among c) : a.Keeps among c :=
  ⟨fun k hk hready => h'.ready k hk (h.ready k hk hready),
    fun k hk hholds => h'.holds k hk (h.holds k hk hholds)⟩

/-- The agenda with a task taken off those that are ready. -/
def without (a : Agenda κ) (k : κ) : Agenda κ := { a with ready := a.ready.erase k }

theorem keeps_wakeAll (among : κ → Prop) (a : Agenda κ) (ks : List κ) :
    a.Keeps among (a.wakeAll ks) :=
  ⟨fun _ _ => mem_ready_wakeAll ks, fun _ _ hholds => hholds.wakeAll ks⟩

theorem keeps_note (among : κ → Prop) (a : Agenda κ) (self : κ) (mates : κ → Bool)
    (cancelled : Bool) (granted : Option κ) (sleep : Option Delay) (w : World σ) :
    a.Keeps among (a.note self mates cancelled granted sleep w) :=
  ⟨fun _ _ hready => mem_ready_note (.inl hready), fun _ _ hholds => hholds.note _ _ _ _ _ _⟩

theorem keeps_without (among : κ → Prop) {k : κ} (hk : ∀ j, among j → j ≠ k) (a : Agenda κ) :
    a.Keeps among (a.without k) :=
  ⟨fun j hj hready => (List.mem_erase_of_ne (hk j hj)).mpr hready,
    fun j hj => Or.imp_left fun hready => (List.mem_erase_of_ne (hk j hj)).mpr hready⟩

omit [DecidableEq κ] in
theorem keeps_again (among : κ → Prop) (a : Agenda κ) (k : κ) : a.Keeps among (a.again k) :=
  ⟨fun _ _ => List.mem_cons_of_mem _, fun _ _ => Or.imp_left (List.mem_cons_of_mem _)⟩

/-- A task that keeps its turn stays ready when it is taken off the agenda for it. -/
theorem keeps_without_again (among : κ → Prop) (a : Agenda κ) (k : κ) :
    a.Keeps among ((a.without k).again k) := by
  have hready : ∀ j, j ∈ a.ready → j ∈ ((a.without k).again k).ready := by
    intro j hj
    by_cases hjk : j = k
    · exact hjk ▸ List.mem_cons_self
    · exact List.mem_cons_of_mem _ ((List.mem_erase_of_ne hjk).mpr hj)
  exact ⟨fun j _ => hready j, fun j _ => Or.imp_left (hready j)⟩

end Agenda

/-! ## Gates -/

namespace Gate

variable {α β : Type} {g : Gate α β}

theorem Fair.enroll {bound : Nat} (h : g.Fair bound) : g.enroll.Fair bound where
  accounted := by
    rw [← h.accounted, taken, taken, Gate.enroll, List.countP_append]
    rfl
  full := by
    intro hwaiting
    obtain hwaiting | hnew := List.mem_append.mp hwaiting
    · exact h.full hwaiting
    · cases List.mem_singleton.mp hnew

theorem ForAll.enroll {P : Nat → Stage α β → Prop} (h : g.ForAll P)
    (hnew : P g.stages.length .fresh) : g.enroll.ForAll P := by
  intro i s hs
  rw [Gate.enroll, List.getElem?_append] at hs
  split at hs
  · exact h i s hs
  · next hle =>
    obtain ⟨hlt, rfl⟩ := List.getElem?_eq_some_iff.mp hs
    rw [List.length_singleton] at hlt
    obtain rfl : i = g.stages.length := by omega
    simpa using hnew

/-- A task that is over leaves the others where they are, up to one that waits and is granted its
place. -/
theorem forAll_leave_waiting {P : Nat → Stage α β → Prop} {i : Nat} {b : β}
    (h : ∀ j t, j ≠ i → g.stages[j]? = some t → P j t) (hb : P i (.ended b))
    (hgrant : ∀ j, j ≠ i → g.stages[j]? = some .waiting → (g.leave i b).2 = some j → P j .granted) :
    (g.leave i b).1.ForAll P := by
  rw [leave, release] at hgrant ⊢
  split at hgrant
  · next j hj =>
    obtain ⟨hlt, hwaiting, -⟩ := List.findIdx?_eq_some_iff_getElem.mp hj
    have hstage : (g.put i (.ended b)).stages[j]? = some .waiting :=
      (List.getElem?_eq_getElem hlt).trans (congrArg some (Stage.eq_waiting hwaiting))
    have hne : j ≠ i := by
      rintro rfl
      rw [length_put] at hlt
      rw [put, List.getElem?_set_self hlt] at hstage
      cases hstage
    have hbefore : g.stages[j]? = some .waiting := by
      rwa [put, List.getElem?_set_ne hne.symm] at hstage
    dsimp only
    exact (forAll_put h hb).put (hgrant j hne hbefore rfl)
  · exact forAll_put h hb

theorem stages_leave_self {i : Nat} (hlt : i < g.stages.length) (b : β) :
    (g.leave i b).1.stages[i]? = some (.ended b) := by
  have hall : (g.leave i b).1.ForAll fun j t => j = i → t = .ended b :=
    forAll_leave_waiting (fun _ _ hj _ heq => absurd heq hj) (fun _ => rfl)
      fun _ hj _ _ heq => absurd heq hj
  rw [← length_leave i b] at hlt
  have hs := List.getElem?_eq_getElem hlt
  rw [hs, hall i _ hs rfl]

end Gate

/-! ## What the table shows -/

/-- The record of a run that was cancelled before it was admitted. -/
structure Context.CalledOff (c : Context) : Prop where
  /-- It was cancelled. -/
  status : c.status = .cancelled
  /-- It has no results. -/
  results : c.results = []
  /-- It has not started. -/
  started : c.started = none

theorem Context.CalledOff.terminal {c : Context} (h : c.CalledOff) : c.Terminal := by
  rw [Context.Terminal, h.status]
  rfl

theorem Queue.calledOff_neverStarted (e : Engine σ) (s : Sequence) (now : Timestamp) :
    (neverStarted e s now).CalledOff := ⟨rfl, rfl, rfl⟩

/-- What is left of the work of the run comes to a terminal status, or to branches. -/
def UnderWay.Sound (e : Engine σ) (mode : Mode) : UnderWay σ → Prop
  | single next => ∀ c, (next c).Delivers (e.BreaksOff mode) Stride.Concluded
  | fan _ => True

/-- The run has come to its end. -/
def Stage.isOver : Stage (UnderWay σ) RunEnd → Bool
  | ended (.finished _) => true
  | _ => false

/-- The run broke off. -/
def Stage.isBroken : Stage (UnderWay σ) RunEnd → Bool
  | ended .crashed => true
  | _ => false

namespace QueuedRun

/-- What the table shows of a run that stands at a stage. -/
inductive Shows (e : Engine σ) (r : QueuedRun) : Stage (UnderWay σ) RunEnd → Prop where
  /-- It has not been admitted. -/
  | outside {s : Stage (UnderWay σ) RunEnd} : s.isOutside = true → r.state = .queued →
      r.record = none → Shows e r s
  /-- It was admitted, and its work has not begun. -/
  | admitted : r.state = .queued → r.record = none →
      Shows e r (.inside (.single fun _ => Queue.work e r.sequence r.mode))
  /-- It is under way. -/
  | inside {u : UnderWay σ} : r.state = .running → r.record = none → u.Sound e r.mode →
      Shows e r (.inside u)
  /-- It is over, and does not show as finished yet. -/
  | ending {c : Context} : r.state = .running ∨ r.state = .queued ∧ c.CalledOff →
      r.record = none ∨ r.record = some c → c.Terminal → Shows e r (.ended (.finished c))
  /-- It is over. -/
  | finished {c : Context} : r.state = .finished c.status → r.record = some c → c.Terminal →
      Shows e r (.ended (.finished c))
  /-- It broke off, because the reporter panicked or because it asked for too many places. -/
  | brokenOff {m : Option String} : r.state = .running → r.record = none → e.BreaksOff r.mode m →
      Shows e r (.ended .crashed)

/-- The run has something to put down. -/
def Owes (r : QueuedRun) : Stage (UnderWay σ) RunEnd → Prop
  | .inside _ => r.state = .queued
  | .ended (.finished _) => r.state.isFinished = false
  | _ => False

variable {e : Engine σ} {r r' : QueuedRun} {s : Stage (UnderWay σ) RunEnd}

/-- The table shows as much of a run whose world has changed. -/
theorem Shows.congr (h : r.Shows e s) (hsequence : r'.sequence = r.sequence)
    (hmode : r'.mode = r.mode) (hstate : r'.state = r.state) (hrecord : r'.record = r.record) :
    r'.Shows e s := by
  cases h with
  | outside hs hqueued hnone => exact .outside hs (hstate.trans hqueued) (hrecord.trans hnone)
  | admitted hqueued hnone =>
    rw [← hsequence, ← hmode]
    exact .admitted (hstate.trans hqueued) (hrecord.trans hnone)
  | inside hrunning hnone hu =>
    exact .inside (hstate.trans hrunning) (hrecord.trans hnone) (hmode.symm ▸ hu)
  | ending hunfinished hleft hc =>
    refine .ending ?_ ?_ hc
    · rwa [hstate]
    · rwa [hrecord]
  | finished hfinished hsome hc => exact .finished (hstate.trans hfinished) (hrecord.trans hsome) hc
  | brokenOff hrunning hnone hbreaks =>
    exact .brokenOff (hstate.trans hrunning) (hrecord.trans hnone) (hmode.symm ▸ hbreaks)

/-- What a run owes the table depends on the state that it shows. -/
theorem Owes.congr (h : r.Owes s) (hstate : r'.state = r.state) : r'.Owes s := by
  cases s with
  | inside u => exact hstate.trans h
  | ended b =>
    cases b with
    | finished c =>
      rw [Owes, hstate]
      exact h
    | crashed => exact h
  | _ => exact h

/-- A run that shows as finished is over, and its record says how it ended. -/
theorem Shows.of_finished (h : r.Shows e s) {x : Status} (hx : r.state = .finished x) :
    ∃ c, s = .ended (.finished c) ∧ r.record = some c ∧ c.status = x ∧ c.Terminal := by
  cases h with
  | outside _ hqueued =>
    rw [hx] at hqueued
    cases hqueued
  | admitted hqueued =>
    rw [hx] at hqueued
    cases hqueued
  | inside hrunning =>
    rw [hx] at hrunning
    cases hrunning
  | ending hunfinished =>
    rw [hx] at hunfinished
    obtain hrunning | ⟨hqueued, -⟩ := hunfinished
    · cases hrunning
    · cases hqueued
  | finished hfinished hsome hc =>
    rw [hx] at hfinished
    cases hfinished
    exact ⟨_, rfl, hsome, rfl, hc⟩
  | brokenOff hrunning =>
    rw [hx] at hrunning
    cases hrunning

/-- A run that shows as queued has not been admitted, or owes the table something. -/
theorem Shows.of_queued (h : r.Shows e s) (hqueued : r.state = .queued) :
    s.isOutside = true ∨ r.Owes s := by
  cases h with
  | outside hs => exact .inl hs
  | admitted => exact .inr hqueued
  | inside => exact .inr hqueued
  | ending =>
    refine .inr ?_
    rw [Owes, hqueued]
    rfl
  | finished hfinished =>
    rw [hqueued] at hfinished
    cases hfinished
  | brokenOff hrunning =>
    rw [hqueued] at hrunning
    cases hrunning

/-- A run in the table that is over has left no record but its own. -/
theorem Shows.of_record (h : r.Shows e s) {c : Context} (hc : r.record = some c) :
    s = .ended (.finished c) := by
  cases h with
  | outside _ _ hnone => exact nomatch hc.symm.trans hnone
  | admitted _ hnone => exact nomatch hc.symm.trans hnone
  | inside _ hnone => exact nomatch hc.symm.trans hnone
  | ending _ hleft =>
    obtain hnone | hsome := hleft
    · exact nomatch hc.symm.trans hnone
    · rw [Option.some.inj (hc.symm.trans hsome)]
  | finished _ hsome => rw [Option.some.inj (hc.symm.trans hsome)]
  | brokenOff _ hnone => exact nomatch hc.symm.trans hnone

end QueuedRun

namespace Queue

/-- The run is in the table. -/
def Listed (q : Queue σ) (n : Nat) : Prop := ∃ r ∈ q.table, r.number = n

/-- The run is in the table, and was cancelled. -/
def Cancelled (q : Queue σ) (n : Nat) : Prop := ∃ r ∈ q.table, r.number = n ∧ r.cancelled = true

variable {e : Engine σ} {q q' : Queue σ} {bound n : Nat} {s : Stage (UnderWay σ) RunEnd}
  {r r' : QueuedRun} {x : RunState}

theorem find?_eq_some (h : q.find? n = some r) : r ∈ q.table ∧ r.number = n :=
  ⟨List.mem_of_find?_eq_some h, by simpa using List.find?_some h⟩

theorem isSome_find?_iff : (q.find? n).isSome = true ↔ q.Listed n := by
  simp [find?, Listed]

/-- Where a run stands that is at a stage. -/
structure Stands (q : Queue σ) (n : Nat) (s : Stage (UnderWay σ) RunEnd) : Prop where
  /-- It is in the table unless it is over. -/
  listed : s.isOver = false → q.Listed n
  /-- It is ready if it waits for nothing but its turn. -/
  eager : s.isEager = true → .run n ∈ q.agenda.ready
  /-- If it waits for a place it is on the agenda. -/
  held : s.isWaiting = true → q.agenda.Holds (.run n)
  /-- If it waits for a place and was cancelled it is ready. -/
  roused : s.isWaiting = true → q.Cancelled n → .run n ∈ q.agenda.ready
  /-- It is ready if it has something to put down. -/
  telling : ∀ r ∈ q.table, r.number = n → r.Owes s → .run n ∈ q.agenda.ready

/-- What holds in every state of a queue. -/
structure Sound (e : Engine σ) (bound : Nat) (q : Queue σ) : Prop where
  /-- The table is in the order of submission. -/
  ordered : q.table.Pairwise fun r r' => r.number < r'.number
  /-- Every run in the table was submitted. -/
  known : ∀ r ∈ q.table, r.number < q.gate.stages.length
  /-- No place is lost. -/
  fair : q.gate.Fair bound
  /-- Every run stands. -/
  stands : q.gate.ForAll q.Stands
  /-- The table shows where every run has come to. -/
  shows : ∀ r ∈ q.table, ∀ s, q.gate.stages[r.number]? = some s → r.Shows e s

/-- No two runs have the same number. -/
theorem Sound.nodup (h : q.Sound e bound) : (q.table.map (·.number)).Nodup :=
  List.pairwise_map.mpr (h.ordered.imp Nat.ne_of_lt)

/-- Two runs in the table do not have the same number. -/
theorem Sound.eq_of_number (h : q.Sound e bound) (hr : r ∈ q.table) (hr' : r' ∈ q.table)
    (hnumber : r.number = r'.number) : r = r' :=
  List.inj_on_of_nodup_map h.nodup hr hr' hnumber

/-- A run in the table is found by its number. -/
theorem Sound.find?_of_mem (h : q.Sound e bound) (hr : r ∈ q.table) :
    q.find? r.number = some r := by
  obtain ⟨r', hfind⟩ := Option.isSome_iff_exists.mp (isSome_find?_iff.mpr ⟨r, hr, rfl⟩)
  obtain ⟨hmem, hnumber⟩ := find?_eq_some hfind
  rw [hfind, h.eq_of_number hmem hr hnumber]

/-- The state that a run in the table shows. -/
theorem Sound.status?_of_mem (h : q.Sound e bound) (hr : r ∈ q.table) :
    q.status? r.number = some r.state := by
  rw [status?, h.find?_of_mem hr]
  rfl

theorem Sound.context?_of_mem (h : q.Sound e bound) (hr : r ∈ q.table) :
    q.context? r.number = r.record := by
  rw [context?, h.find?_of_mem hr]
  rfl

theorem exists_of_status? (h : q.status? n = some x) :
    ∃ r ∈ q.table, r.number = n ∧ r.state = x := by
  obtain ⟨r, hr, rfl⟩ := Option.map_eq_some_iff.mp h
  obtain ⟨hmem, rfl⟩ := find?_eq_some hr
  exact ⟨r, hmem, rfl, rfl⟩

/-- A run in the table is at a stage. -/
theorem Sound.exists_stage (h : q.Sound e bound) (hr : r ∈ q.table) :
    ∃ s, q.gate.stages[r.number]? = some s ∧ r.Shows e s := by
  have hs := List.getElem?_eq_getElem (h.known r hr)
  exact ⟨_, hs, h.shows r hr _ hs⟩

theorem sound_new (e : Engine σ) (bound : Nat) (clock : Timestamp) (surroundings : σ) :
    (new bound clock surroundings).Sound e bound where
  ordered := .nil
  known := fun _ hr => nomatch hr
  fair := Gate.fair_ofBound bound 0
  stands := fun _ _ hs => nomatch hs
  shows := fun _ hr => nomatch hr

/-- Nothing that a run relies on is taken from it. -/
structure Spares (q q' : Queue σ) (n : Nat) : Prop where
  /-- It stays in the table. -/
  listed : q.Listed n → q'.Listed n
  /-- The table shows the same state of it. -/
  state : ∀ r' ∈ q'.table, r'.number = n → ∃ r ∈ q.table, r.number = n ∧ r.state = r'.state
  /-- It stays on the agenda. -/
  agenda : q.agenda.Keeps (· = .run n) q'.agenda
  /-- It is not cancelled, unless it is woken. -/
  cancelled : q.agenda.Holds (.run n) → q'.Cancelled n →
    q.Cancelled n ∨ .run n ∈ q'.agenda.ready

theorem Stands.spared (h : q.Stands n s) (hspares : q.Spares q' n) : q'.Stands n s where
  listed := fun hs => hspares.listed (h.listed hs)
  eager := fun hs => hspares.agenda.ready _ rfl (h.eager hs)
  held := fun hs => hspares.agenda.holds _ rfl (h.held hs)
  roused := fun hs hcancelled => (hspares.cancelled (h.held hs) hcancelled).elim
    (fun hc => hspares.agenda.ready _ rfl (h.roused hs hc)) id
  telling := fun r' hr' hn howes => by
    obtain ⟨r, hr, hnumber, hstate⟩ := hspares.state r' hr' hn
    exact hspares.agenda.ready _ rfl (h.telling r hr hnumber (howes.congr hstate))

/-! ## Asking for something -/

theorem Sound.submit (h : q.Sound e bound) (t : Sequence) (mode : Mode) :
    (q.submit t mode).Sound e bound where
  ordered := by
    refine List.pairwise_append.mpr ⟨h.ordered, List.pairwise_singleton _ _, ?_⟩
    intro r hr r' hr'
    rw [List.mem_singleton.mp hr']
    exact h.known r hr
  known := by
    intro r hr
    have hlength : (q.submit t mode).gate.stages.length = q.gate.stages.length + 1 :=
      List.length_append
    rw [hlength]
    obtain hr | hr := List.mem_append.mp hr
    · exact Nat.lt_add_right _ (h.known r hr)
    · rw [List.mem_singleton.mp hr]
      exact Nat.lt_succ_self _
  fair := h.fair.enroll
  stands := by
    refine Gate.ForAll.enroll (fun n s hs => ?_) ?_
    · have hlt : n < q.gate.stages.length := (List.getElem?_eq_some_iff.mp hs).1
      have hold : ∀ r ∈ (q.submit t mode).table, r.number = n → r ∈ q.table := by
        rintro r hr rfl
        refine (List.mem_append.mp hr).resolve_right fun hr => ?_
        rw [List.mem_singleton.mp hr] at hlt
        exact Nat.lt_irrefl _ hlt
      refine (h.stands n s hs).spared ⟨fun ⟨r, hr, hn⟩ => ⟨r, List.mem_append_left _ hr, hn⟩,
        fun r hr hn => ⟨r, hold r hr hn, hn, rfl⟩,
        Agenda.keeps_wakeAll _ q.agenda [.run q.gate.stages.length],
        fun _ ⟨r, hr, hn, hcancelled⟩ => ?_⟩
      exact .inl ⟨r, hold r hr hn, hn, hcancelled⟩
    · exact ⟨fun _ => ⟨_, List.mem_append_right _ (List.mem_singleton_self _), rfl⟩,
        fun _ => Agenda.self_mem_ready_wake _ _, nofun, nofun, fun _ _ _ => False.elim⟩
  shows := by
    intro r hr s hs
    obtain hr | hr := List.mem_append.mp hr
    · refine h.shows r hr s ?_
      rwa [Queue.submit, Gate.enroll, List.getElem?_append_left (h.known r hr)] at hs
    · obtain rfl := List.mem_singleton.mp hr
      rw [Queue.submit, Gate.enroll, QueuedRun.submitted, List.getElem?_concat_length] at hs
      cases hs
      exact .outside rfl rfl rfl

/-- A queue whose runs and turns are what they were. -/
theorem Sound.same (h : q.Sound e bound) (hgate : q'.gate = q.gate) (htable : q'.table = q.table)
    (hagenda : ∀ n, q.agenda.Keeps (· = .run n) q'.agenda) : q'.Sound e bound where
  ordered := htable ▸ h.ordered
  known := by
    rw [htable, hgate]
    exact h.known
  fair := hgate ▸ h.fair
  stands := by
    rw [hgate]
    refine h.stands.mono fun n s hs => hs.spared ⟨?_, ?_, hagenda n, fun _ hc => .inl ?_⟩
    · rw [Listed, Listed, htable]
      exact id
    · rw [htable]
      exact fun r hr hn => ⟨r, hr, hn, rfl⟩
    · rwa [Cancelled, htable] at hc
  shows := by
    rw [htable, hgate]
    exact h.shows

/-- A run that is woken for nothing still stands. -/
theorem Sound.wake (h : q.Sound e bound) (t : Task) :
    Sound e bound { q with agenda := q.agenda.wake t } :=
  h.same rfl rfl fun _ => Agenda.keeps_wakeAll _ q.agenda [t]

theorem Sound.pass (h : q.Sound e bound) (clock : Timestamp) :
    Sound e bound { q with clock := clock } :=
  h.same rfl rfl fun _ => .refl _ _

/-- Runs that show as finished may be dropped. -/
theorem Sound.drop (h : q.Sound e bound) {keep : QueuedRun → Bool}
    (hkeep : ∀ r ∈ q.table, keep r = false → r.state.isFinished = true) :
    Sound e bound { q with table := q.table.filter keep } where
  ordered := h.ordered.filter keep
  known := fun r hr => h.known r (List.mem_filter.mp hr).1
  fair := h.fair
  stands := by
    intro n s hs
    have hstands := h.stands n s hs
    refine ⟨fun hunfinished => ?_, hstands.eager, hstands.held, fun hwaiting => ?_,
      fun r hr => hstands.telling r (List.mem_filter.mp hr).1⟩
    · obtain ⟨r, hr, rfl⟩ := hstands.listed hunfinished
      refine ⟨r, List.mem_filter.mpr ⟨hr, ?_⟩, rfl⟩
      by_contra hdropped
      have hfinished := hkeep r hr (Bool.eq_false_iff.mpr hdropped)
      cases hstate : r.state with
      | finished x =>
        obtain ⟨c, rfl, -⟩ := (h.shows r hr s hs).of_finished hstate
        cases hunfinished
      | queued =>
        rw [hstate] at hfinished
        cases hfinished
      | running =>
        rw [hstate] at hfinished
        cases hfinished
    · rintro ⟨r, hr, hn, hcancelled⟩
      exact hstands.roused hwaiting ⟨r, (List.mem_filter.mp hr).1, hn, hcancelled⟩
  shows := fun r hr => h.shows r (List.mem_filter.mp hr).1

/-- A run is removed only if it shows as finished. -/
theorem Sound.exists_remove (h : q.Sound e bound) (n : Nat) : ∃ keep : QueuedRun → Bool,
    (∀ r ∈ q.table, keep r = false → r.state.isFinished = true) ∧
      (q.remove n).2 = { q with table := q.table.filter keep } := by
  rw [Queue.remove]
  split
  · next x hstatus =>
    refine ⟨(·.number != n), fun r hr hdropped => ?_, rfl⟩
    obtain rfl : r.number = n := by simpa using hdropped
    rw [h.status?_of_mem hr] at hstatus
    rw [Option.some.inj hstatus]
    rfl
  · refine ⟨fun _ => true, fun _ _ hdropped => Bool.noConfusion hdropped, ?_⟩
    rw [List.filter_true]

theorem Sound.remove (h : q.Sound e bound) (n : Nat) : (q.remove n).2.Sound e bound := by
  obtain ⟨keep, hkeep, heq⟩ := h.exists_remove n
  rw [heq]
  exact h.drop hkeep

theorem Sound.prune (h : q.Sound e bound) : q.prune.2.Sound e bound := by
  have hkeep : ∀ r ∈ q.table, (!r.state.isFinished) = false → r.state.isFinished = true :=
    fun r _ hr => (Bool.not_eq_false' _).mp hr
  exact h.drop hkeep

/-! ## Changing a run -/

section

variable {f : QueuedRun → QueuedRun} {m : Nat}

/-- A run in the changed table is the one that was changed, or another one. -/
theorem mem_modifyRun (hr : r' ∈ (q.modifyRun m f).table) :
    (∃ r ∈ q.table, r.number = m ∧ r' = f r) ∨ r' ∈ q.table ∧ r'.number ≠ m := by
  obtain ⟨r, hmem, rfl⟩ := List.mem_map.mp hr
  by_cases hm : r.number = m
  · exact .inl ⟨r, hmem, hm, if_pos (beq_iff_eq.mpr hm)⟩
  · have hother : (if r.number == m then f r else r) = r := if_neg fun heq => hm (eq_of_beq heq)
    rw [hother]
    exact .inr ⟨hmem, hm⟩

theorem mem_modifyRun_self (hr : r ∈ q.table) : f r ∈ (q.modifyRun r.number f).table :=
  List.mem_map.mpr ⟨r, hr, if_pos (beq_self_eq_true _)⟩

theorem mem_modifyRun_of_ne (hr : r ∈ q.table) (hm : r.number ≠ m) :
    r ∈ (q.modifyRun m f).table :=
  List.mem_map.mpr ⟨r, hr, if_neg fun heq => hm (eq_of_beq heq)⟩

theorem number_modified (hf : ∀ r, (f r).number = r.number) (m : Nat) (r : QueuedRun) :
    (if r.number == m then f r else r).number = r.number := by
  split
  · exact hf r
  · rfl

/-- The runs in the table stay in it. -/
theorem listed_modifyRun (hf : ∀ r, (f r).number = r.number) (m : Nat) :
    (q.modifyRun m f).Listed n ↔ q.Listed n := by
  constructor
  · rintro ⟨r, hr, rfl⟩
    obtain ⟨r, hr', rfl⟩ := List.mem_map.mp hr
    exact ⟨r, hr', (number_modified hf m r).symm⟩
  · rintro ⟨r, hr, rfl⟩
    exact ⟨_, List.mem_map_of_mem hr, number_modified hf m r⟩

/-- The runs in the table keep their order. -/
theorem ordered_modifyRun (hf : ∀ r, (f r).number = r.number)
    (h : q.table.Pairwise fun r r' => r.number < r'.number) :
    (q.modifyRun m f).table.Pairwise fun r r' => r.number < r'.number := by
  refine List.pairwise_map.mpr (h.imp fun hlt => ?_)
  rwa [number_modified hf, number_modified hf]

theorem known_modifyRun (hf : ∀ r, (f r).number = r.number) {k : Nat}
    (h : ∀ r ∈ q.table, r.number < k) : ∀ r ∈ (q.modifyRun m f).table, r.number < k := by
  intro r hr
  obtain ⟨r, hr', rfl⟩ := List.mem_map.mp hr
  rw [number_modified hf]
  exact h r hr'

/-- A run that is not changed is cancelled if it was. -/
theorem cancelled_modifyRun (hf : ∀ r, (f r).number = r.number) (hn : n ≠ m) :
    (q.modifyRun m f).Cancelled n ↔ q.Cancelled n := by
  constructor
  · rintro ⟨r, hr, rfl, hcancelled⟩
    obtain ⟨r, -, rfl, rfl⟩ | ⟨hr, -⟩ := mem_modifyRun hr
    · exact absurd (hf r) hn
    · exact ⟨r, hr, rfl, hcancelled⟩
  · rintro ⟨r, hr, rfl, hcancelled⟩
    exact ⟨r, mem_modifyRun_of_ne hr hn, rfl, hcancelled⟩

/-- A run that is not changed shows the same state. -/
theorem state_modifyRun (hf : ∀ r, (f r).number = r.number) (hn : n ≠ m) :
    ∀ r' ∈ (q.modifyRun m f).table, r'.number = n →
      ∃ r ∈ q.table, r.number = n ∧ r.state = r'.state := by
  rintro r' hr' rfl
  obtain ⟨r, -, rfl, rfl⟩ | ⟨hr, -⟩ := mem_modifyRun hr'
  · exact absurd (hf r) hn
  · exact ⟨r', hr, rfl, rfl⟩

end

theorem Sound.cancel (h : q.Sound e bound) (m : Nat) : (q.cancel m).2.Sound e bound := by
  rw [Queue.cancel]
  split
  · exact h
  split
  · exact h
  · have hnumber : ∀ r : QueuedRun, r.cancel.number = r.number := fun _ => rfl
    refine ⟨ordered_modifyRun hnumber h.ordered, known_modifyRun hnumber h.known, h.fair,
      fun n s hs => (h.stands n s hs).spared ?_, fun r' hr' s hs => ?_⟩
    · refine ⟨(listed_modifyRun hnumber m).mpr, fun r' hr' hn => ?_, Agenda.keeps_wakeAll _ _ _,
        fun hholds hcancelled => ?_⟩
      · obtain ⟨r, hr, -, rfl⟩ | ⟨hr, -⟩ := mem_modifyRun hr'
        · exact ⟨r, hr, hn, rfl⟩
        · exact ⟨r', hr, hn, rfl⟩
      · by_cases hn : n = m
        · exact .inr (hholds.rouse (beq_iff_eq.mpr hn))
        · exact .inl ((cancelled_modifyRun hnumber hn).mp hcancelled)
    · obtain ⟨r, hr, -, rfl⟩ | ⟨hr, -⟩ := mem_modifyRun hr'
      · exact (h.shows r hr s hs).congr rfl rfl rfl rfl
      · exact h.shows r' hr s hs

end Queue
end Runbook
