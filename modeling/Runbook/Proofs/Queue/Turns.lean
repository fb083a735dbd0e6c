import Runbook.Proofs.Queue.Strides

/-!
# Turns leave a queue sound

In its turn a run that is not over yet goes on to a stage at which it shows what it showed before,
and owes the table nothing unless it keeps its turn (`Queue.Strides.shows`).  The other runs are
spared, up to one that is granted a place and is woken for it.  So every turn leaves a queue sound
(`Queue.Took.sound`), and so does every history (`Queue.Sound.after`).
-/

namespace Runbook

variable {σ : Type}

/-! ## Stretches -/

/-- What is left of the work of a run that goes on comes to a terminal status, or to branches. -/
theorem Activity.Delivers.shows {e : Engine σ} {r : QueuedRun} {x : Activity (World σ) (Stride σ)}
    (hx : x.Delivers (e.BreaksOff r.mode) Stride.Concluded) (hrunning : r.state = .running)
    (hnone : r.record = none) (w : World σ) : r.Shows e (x.advance (·.cancelled) w).1.stage := by
  have hpending := hx.of_advance w
  generalize (x.advance (·.cancelled) w).1 = pause at hpending ⊢
  cases pause with
  | panicked m => exact .brokenOff hrunning hnone hpending
  | asleep d next => exact .inside hrunning hnone hpending
  | done stride =>
    cases stride with
    | ended c => exact .ending (.inl hrunning) (.inl hnone) hpending
    | spread f => exact .inside hrunning hnone trivial

namespace Queue

variable {e : Engine σ} {q q' : Queue σ} {t : Task} {r : QueuedRun} {bound n : Nat}
  {s : Stage (UnderWay σ) RunEnd} {y : Stretch σ}

/-- The work that a run goes on with comes to a terminal status, or to branches. -/
theorem Resumes.delivers {mode : Mode} {cancelled : Bool} {u : UnderWay σ}
    {x : Activity (World σ) (Stride σ)} (h : Resumes e cancelled u x) (hu : u.Sound e mode) :
    x.Delivers (e.BreaksOff mode) Stride.Concluded := by
  cases h with
  | single => exact hu cancelled
  | joined => exact (e.delivers_joined _).mono fun _ => .inl

/-- After a stretch the table shows what it showed before, and the run owes it nothing unless it is
over. -/
theorem Strides.shows {w : World σ} (h : Strides e n t s w y) (hshows : r.Shows e s)
    (hstate : t = .run n → s.isInside = true → r.state ≠ .queued) :
    r.Shows e y.stage ∧ (y.stage.isOver = false → ¬ r.Owes y.stage) := by
  have hinside : ∀ {u : UnderWay σ}, r.Shows e (.inside u) → r.state ≠ .queued →
      r.state = .running ∧ r.record = none ∧ u.Sound e r.mode := by
    intro u hu hstate
    cases hu with
    | outside hs => cases hs
    | admitted hqueued => exact absurd hqueued hstate
    | inside hrunning hnone hsound => exact ⟨hrunning, hnone, hsound⟩
  cases h with
  | outside hproceeds =>
    have houtside : r.state = .queued ∧ r.record = none := by
      cases hshows with
      | outside _ hqueued hnone => exact ⟨hqueued, hnone⟩
      | _ => cases hproceeds.isOutside
    obtain ⟨hqueued, hnone⟩ := houtside
    cases hproceeds with
    | comes => exact ⟨.outside rfl hqueued hnone, fun _ => id⟩
    | waits => exact ⟨.outside rfl hqueued hnone, fun _ => id⟩
    | calledOff _ _ hc =>
      exact ⟨.ending (.inr ⟨hqueued, hc⟩) (.inl hnone) hc.terminal, by rintro ⟨⟩⟩
  | @goesOn u x w _ _ _ hresumes =>
    have hstate := hstate rfl rfl
    obtain ⟨hrunning, hnone, hu⟩ := hinside hshows hstate
    refine ⟨(hresumes.delivers hu).shows hrunning hnone w, fun hunder howes => ?_⟩
    dsimp only at hunder howes
    generalize (x.advance (·.cancelled) w).1 = pause at hunder howes
    cases pause with
    | panicked m => exact howes
    | asleep d next => exact hstate howes
    | done stride =>
      cases stride with
      | ended c => cases hunder
      | spread f => exact hstate howes
  | branch =>
    cases hshows with
    | outside hs => cases hs
    | inside hrunning hnone =>
      refine ⟨.inside hrunning hnone trivial, fun _ howes => ?_⟩
      exact nomatch hrunning.symm.trans howes

/-- After a stretch a run waits for something else than its turn, or is over. -/
theorem Strides.isEager {w : World σ} (h : Strides e n t s w y) : y.stage.isEager = false := by
  cases h with
  | outside hproceeds => cases hproceeds <;> rfl
  | @goesOn u x w =>
    dsimp only
    cases (x.advance (·.cancelled) w).1 with
    | panicked m => rfl
    | asleep d next => rfl
    | done stride => cases stride <;> rfl
  | branch => rfl

/-- Only in its own turn a run comes to its end. -/
theorem Strides.of_isOver {w : World σ} (h : Strides e n t s w y) (hy : y.stage.isOver = true) :
    t = .run n := by
  cases h with
  | branch => cases hy
  | _ => rfl

/-- After a stretch a run that waits for a place is asleep, and was not cancelled. -/
theorem Strides.waiting {w : World σ} (h : Strides e n t s w y) (hy : y.stage.isWaiting = true) :
    t = .run n ∧ y.sleep.isSome = true ∧ y.world.cancelled = false := by
  cases h with
  | outside hproceeds hsleep =>
    cases hproceeds with
    | comes hcancelled => exact ⟨rfl, hsleep rfl, hcancelled⟩
    | waits hcancelled => exact ⟨rfl, hsleep rfl, hcancelled⟩
    | calledOff => cases hy
  | @goesOn u x w =>
    dsimp only at hy
    generalize (x.advance (·.cancelled) w).1 = pause at hy
    cases pause with
    | panicked m => cases hy
    | asleep d next => cases hy
    | done stride => cases stride <;> cases hy
  | branch => cases hy

/-! ## Runs that are spared -/

/-- Other runs are spared when a task is taken off the agenda. -/
theorem spares_without (h : Task.run n ≠ t) : q.Spares (q.without t) n where
  listed := id
  state := fun r hr hn => ⟨r, hr, hn, rfl⟩
  agenda := Agenda.keeps_without _ (by rintro _ rfl; exact h) q.agenda
  cancelled := fun _ => .inl

/-- Other runs are spared when one is changed. -/
theorem spares_modifyRun {f : QueuedRun → QueuedRun} (hf : ∀ r, (f r).number = r.number) {m : Nat}
    (hn : n ≠ m) (htable : q'.table = (q.modifyRun m f).table)
    (hagenda : q.agenda.Keeps (· = .run n) q'.agenda) : q.Spares q' n where
  listed := fun hlisted => by
    rw [Listed, htable]
    exact (listed_modifyRun hf m).mpr hlisted
  state := by
    rw [htable]
    exact state_modifyRun hf hn
  agenda := hagenda
  cancelled := fun _ hc => by
    rw [Cancelled, htable] at hc
    exact .inl ((cancelled_modifyRun hf hn).mp hc)

/-- Other tasks than the one that had its turn stay on the agenda. -/
theorem keeps_noted (among : Task → Prop) (y : Stretch σ) (a : Agenda Task) (t : Task) (n : Nat)
    (cancelled : Bool) : a.Keeps among (y.noted a t n cancelled) := by
  have hkeeps := (Agenda.keeps_note among a t (fun u => u.number == n) cancelled y.granted y.sleep
    y.world).trans (Agenda.keeps_wakeAll among _ y.next)
  rw [Stretch.noted]
  split
  · exact hkeeps.trans (Agenda.keeps_again among _ t)
  · exact hkeeps

/-- A task that is granted a place gets ready. -/
theorem mem_ready_noted {u : Task} (h : y.granted = some u) (a : Agenda Task) (t : Task) (n : Nat)
    (cancelled : Bool) : u ∈ (y.noted a t n cancelled).ready := by
  have hready : u ∈ (a.note t (fun u => u.number == n) cancelled y.granted y.sleep y.world).ready :=
    Agenda.mem_ready_note (.inr h)
  rw [Stretch.noted]
  split
  · exact List.mem_cons_of_mem _ (Agenda.mem_ready_wakeAll y.next hready)
  · exact Agenda.mem_ready_wakeAll y.next hready

/-! ## Turns -/

/-- A run in the table whose task is ready stands. -/
theorem stands_of_ready (hlisted : s.isOver = false → q.Listed n)
    (hready : .run n ∈ q.agenda.ready) : q.Stands n s where
  listed := hlisted
  eager := fun _ => hready
  held := fun _ => .inl hready
  roused := fun _ _ => hready
  telling := fun _ _ _ _ => hready

/-- Nothing happens in the turn of a task of a run that owes the table nothing. -/
theorem Sound.idle (h : q.Sound e bound)
    (hidle : ∀ r s, q.find? t.number = some r → q.gate.stages[r.number]? = some s →
      Idle r.number t s ∧ (t = .run r.number → ¬ r.Owes s)) : (q.without t).Sound e bound where
  ordered := h.ordered
  known := h.known
  fair := h.fair
  stands := by
    intro n s hs
    have hstands := h.stands n s hs
    by_cases ht : t = .run n
    · subst ht
      have hidle' : ∀ r ∈ q.table, r.number = n → Idle n (.run n) s ∧ ¬ r.Owes s := by
        rintro r hr rfl
        obtain ⟨hidle, howes⟩ := hidle r s (h.find?_of_mem hr) hs
        exact ⟨hidle, howes rfl⟩
      -- A run that waits for its turn is in the table, and not idle.
      have hnot : s.isEager = true ∨ s.isWaiting = true → False := by
        intro hs
        have hunder : s.isOver = false := by
          cases s with
          | ended b => rcases hs with hs | hs <;> cases hs
          | _ => rfl
        obtain ⟨r, hr, hn⟩ := hstands.listed hunder
        cases (hidle' r hr hn).1 with
        | fan => rcases hs with hs | hs <;> cases hs
        | ended => rcases hs with hs | hs <;> cases hs
      exact ⟨hstands.listed, fun hs => (hnot (.inl hs)).elim, fun hs => (hnot (.inr hs)).elim,
        fun hs => (hnot (.inr hs)).elim, fun r hr hn howes => ((hidle' r hr hn).2 howes).elim⟩
    · exact hstands.spared (spares_without (Ne.symm ht))
  shows := h.shows

/-- A run takes a place. -/
theorem Sound.admitted (h : q.Sound e bound) {gate : Gate (UnderWay σ) RunEnd}
    (hfind : q.find? r.number = some r) (hs : q.gate.stages[r.number]? = some s)
    (heager : s.isEager = true)
    (hmoves : q.gate.MovesTo gate r.number (.inside (.single fun _ => work e r.sequence r.mode))
      none) :
    Sound e bound ({ q.without (.run r.number) with gate := gate }.again (.run r.number)) where
  ordered := h.ordered
  known := fun r' hr' => Nat.lt_of_lt_of_eq (h.known r' hr') hmoves.length.symm
  fair := hmoves.fair bound h.fair
  stands := by
    have hmem := (find?_eq_some hfind).1
    refine h.stands.movesTo hmoves (stands_of_ready (fun _ => ⟨r, hmem, rfl⟩) List.mem_cons_self)
      (fun n u hn hu => ?_) (by rintro _ _ ⟨⟩)
    exact hu.spared ⟨id, fun r hr hn => ⟨r, hr, hn, rfl⟩,
      Agenda.keeps_without_again _ q.agenda (.run r.number), fun _ => .inl⟩
  shows := by
    intro r' hr' s' hs'
    by_cases hn : r'.number = r.number
    · obtain rfl := h.eq_of_number hr' (find?_eq_some hfind).1 hn
      cases hmoves.self.symm.trans hs'
      cases h.shows r' hr' s hs with
      | outside _ hqueued hnone => exact .admitted hqueued hnone
      | _ => cases heager
    · obtain ⟨u, hu, rfl | ⟨-, -, hgrant⟩⟩ := hmoves.others _ _ hn hs'
      · exact h.shows r' hr' _ hu
      · cases hgrant

/-- A run that puts down how far it is keeps its number. -/
theorem Tells.number {f : QueuedRun → QueuedRun} {keeps : Bool} (h : Tells r s f keeps)
    (r' : QueuedRun) : (f r').number = r'.number := by
  cases h <;> rfl

/-- What a run has put down is what the table shows of it.  It owes nothing more unless it keeps its
turn. -/
theorem Tells.shows {f : QueuedRun → QueuedRun} {keeps : Bool} (h : Tells r s f keeps)
    (hshows : r.Shows e s) :
    (f r).Shows e s ∧ (keeps = false → s.isOver = true ∧ ¬ (f r).Owes s) := by
  cases h with
  | running hqueued =>
    refine ⟨?_, by rintro ⟨⟩⟩
    cases hshows with
    | outside hs => cases hs
    | admitted _ hnone => exact .inside rfl hnone fun _ => e.delivers_work r.sequence r.mode
    | inside hrunning => exact nomatch hqueued.symm.trans hrunning
  | recorded hunfinished =>
    refine ⟨?_, by rintro ⟨⟩⟩
    cases hshows with
    | outside hs => cases hs
    | ending hstate _ hc => exact .ending hstate (.inr rfl) hc
    | finished hfinished =>
      rw [hfinished] at hunfinished
      cases hunfinished
  | finished hunfinished hsome =>
    refine ⟨?_, fun _ => ⟨rfl, fun howes => Bool.noConfusion howes⟩⟩
    cases hshows with
    | outside hs => cases hs
    | ending _ hleft hc =>
      obtain hnone | hrecord := hleft
      · rw [hnone] at hsome
        cases hsome
      · exact .finished rfl hrecord hc
    | finished hfinished =>
      rw [hfinished] at hunfinished
      cases hunfinished

/-- A run in the table is changed and goes to a stage. -/
theorem Sound.changed (h : q.Sound e bound) {f : QueuedRun → QueuedRun} {grant : Option Nat}
    (hf : ∀ r, (f r).number = r.number) (hr : r ∈ q.table)
    (htable : q'.table = (q.modifyRun r.number f).table)
    (hmoves : q.gate.MovesTo q'.gate r.number s grant)
    (hagenda : ∀ n, n ≠ r.number → q.agenda.Keeps (· = .run n) q'.agenda)
    (hgrant : ∀ j, grant = some j → .run j ∈ q'.agenda.ready) (hself : q'.Stands r.number s)
    (hshows : (f r).Shows e s) : q'.Sound e bound where
  ordered := htable ▸ ordered_modifyRun hf h.ordered
  known := by
    rw [htable, hmoves.length]
    exact known_modifyRun hf h.known
  fair := hmoves.fair bound h.fair
  stands := by
    refine h.stands.movesTo hmoves hself (fun n u hn hu => ?_) fun j hj hgranted => ?_
    · exact hu.spared (spares_modifyRun hf hn htable (hagenda n hn))
    · refine stands_of_ready (fun _ => ?_) (hgrant j hgranted)
      rw [Listed, htable]
      exact (listed_modifyRun hf _).mpr (hj.listed rfl)
  shows := by
    rw [htable]
    intro r' hr' s' hs'
    obtain ⟨r₀, hr₀, hn, rfl⟩ | ⟨hr', hn⟩ := mem_modifyRun hr'
    · obtain rfl := h.eq_of_number hr₀ hr hn
      rw [hf, hmoves.self] at hs'
      cases hs'
      exact hshows
    · obtain ⟨u, hu, rfl | ⟨rfl, rfl, -⟩⟩ := hmoves.others _ _ hn hs'
      · exact h.shows r' hr' _ hu
      · cases h.shows r' hr' _ hu with
        | outside _ hqueued hnone => exact .outside rfl hqueued hnone

/-- A run puts down how far it is. -/
theorem Sound.told (h : q.Sound e bound) {f : QueuedRun → QueuedRun} {keeps : Bool}
    (hfind : q.find? r.number = some r) (hs : q.gate.stages[r.number]? = some s)
    (htells : Tells r s f keeps) :
    ((q.without (.run r.number)).tells r (.run r.number) f keeps).Sound e bound := by
  have hr := (find?_eq_some hfind).1
  obtain ⟨hshows, hkept⟩ := htells.shows (h.shows r hr s hs)
  have hlisted := (listed_modifyRun (q := q) htells.number r.number).mpr ⟨r, hr, rfl⟩
  have hother : ∀ n, n ≠ r.number → ∀ t : Task, t = .run n → t ≠ .run r.number :=
    fun n hn t ht heq => hn (Task.run.inj (ht.symm.trans heq))
  rw [tells]
  split
  · refine h.changed htells.number hr rfl (Gate.movesTo_self hs) (fun n hn => ?_)
      (by rintro _ ⟨⟩) (stands_of_ready (fun _ => hlisted) List.mem_cons_self) hshows
    exact Agenda.keeps_without_again _ q.agenda _
  · next hkeeps =>
    obtain ⟨hover, hnot⟩ := hkept (Bool.eq_false_iff.mpr hkeeps)
    refine h.changed htells.number hr rfl (Gate.movesTo_self hs)
      (fun n hn => Agenda.keeps_without _ (hother n hn) q.agenda) (by rintro _ ⟨⟩) ?_ hshows
    cases s with
    | ended b =>
      refine ⟨fun hunder => absurd (hunder.symm.trans hover) Bool.false_ne_true, by rintro ⟨⟩,
        by rintro ⟨⟩, by rintro ⟨⟩, fun r' hr' hn howes => ?_⟩
      obtain ⟨r₀, hr₀, hn, rfl⟩ | ⟨-, hne⟩ := mem_modifyRun (q := q) hr'
      · obtain rfl := h.eq_of_number hr₀ hr ((htells.number r₀).symm.trans hn)
        exact absurd howes hnot
      · exact absurd hn hne
    | _ => cases hover

/-- A run that goes a stretch stands. -/
theorem Sound.stands_takes (h : q.Sound e bound) {gate : Gate (UnderWay σ) RunEnd}
    (hr : r ∈ q.table) (hstrides : Strides e r.number t s (q.worldOf r) y)
    (hnot : y.stage.isOver = false → ¬ r.Owes y.stage) :
    ((q.without t).takes r t gate y).Stands r.number y.stage := by
  have hlisted : ((q.without t).takes r t gate y).Listed r.number :=
    ⟨_, mem_modifyRun_self (q := q) hr, rfl⟩
  have hself : ∀ r' ∈ ((q.without t).takes r t gate y).table, r'.number = r.number →
      r' = r.returned y.world := by
    intro r' hr' hn
    obtain ⟨r₀, hr₀, hn, rfl⟩ | ⟨-, hne⟩ := mem_modifyRun (q := q) hr'
    · rw [h.eq_of_number hr₀ hr hn]
    · exact absurd hn hne
  cases hover : y.stage.isOver with
  | true =>
    refine stands_of_ready (fun _ => hlisted) ?_
    rw [hstrides.of_isOver hover, takes, Stretch.noted, if_pos hover]
    exact List.mem_cons_self
  | false =>
    refine ⟨fun _ => hlisted, fun heager => ?_, fun hwaiting => ?_, fun hwaiting hcancelled => ?_,
      fun r' hr' hn howes => ?_⟩
    · rw [hstrides.isEager] at heager
      cases heager
    · obtain ⟨rfl, hsleep, -⟩ := hstrides.waiting hwaiting
      obtain ⟨d, hd⟩ := Option.isSome_iff_exists.mp hsleep
      rw [takes, Stretch.noted_of_under hover, hd]
      exact Agenda.Holds.wakeAll _ (Agenda.holds_note_self _ _ _ _ _ _)
    · obtain ⟨r', hr', hn, hcancelled⟩ := hcancelled
      rw [hself r' hr' hn] at hcancelled
      exact absurd ((hstrides.waiting hwaiting).2.2.symm.trans hcancelled) Bool.false_ne_true
    · rw [hself r' hr' hn] at howes
      exact absurd (howes.congr rfl) (hnot hover)

/-- A run goes a stretch. -/
theorem Sound.turned (h : q.Sound e bound) {gate : Gate (UnderWay σ) RunEnd} {grant : Option Nat}
    (hfind : q.find? t.number = some r) (hs : q.gate.stages[r.number]? = some s)
    (hstrides : Strides e r.number t s (q.worldOf r) y)
    (hstate : t = .run r.number → s.isInside = true → r.state ≠ .queued)
    (hmoves : q.gate.MovesTo gate r.number y.stage grant)
    (hgrant : ∀ j, grant = some j → y.granted = some (.run j)) :
    ((q.without t).takes r t gate y).Sound e bound := by
  obtain ⟨hr, hnumber⟩ := find?_eq_some hfind
  obtain ⟨hshows, hnot⟩ := hstrides.shows (h.shows r hr s hs) hstate
  refine h.changed (f := .returned y.world) (fun _ => rfl) hr rfl hmoves (fun n hn => ?_)
    (fun j hj => mem_ready_noted (hgrant j hj) _ _ _ _) (h.stands_takes hr hstrides hnot)
    (hshows.congr rfl rfl rfl rfl)
  refine (Agenda.keeps_without _ ?_ q.agenda).trans (keeps_noted _ y _ t r.number _)
  rintro _ rfl rfl
  exact hn hnumber.symm

/-! ## Histories leave a queue sound -/

theorem Sound.took (h : q.Sound e bound) (t : Task) :
    Took e (q.without t) t (turn e (q.without t) t) :=
  took_turn (q := q.without t) h.known t

/-- Whatever a turn does, it leaves the queue sound. -/
theorem Took.sound (htook : Took e (q.without t) t q') (h : q.Sound e bound) :
    q'.Sound e bound := by
  cases htook with
  | idle hidle => exact h.idle hidle
  | admitted ht hfind hs heager _ hmoves =>
    subst ht
    exact h.admitted hfind hs heager hmoves
  | told ht hfind hs htells =>
    subst ht
    exact h.told hfind hs htells
  | turned hfind hs hstrides hstate hmoves hgrant =>
    exact h.turned hfind hs hstrides hstate hmoves hgrant

theorem Sound.happen (h : q.Sound e bound) (ev : Event) : (q.happen e ev).Sound e bound := by
  cases ev with
  | submit s mode => exact h.submit s mode
  | cancel n => exact h.cancel n
  | wait n => exact h
  | remove n => exact h.remove n
  | prune => exact h.prune
  | wake t => exact h.wake t
  | pass millis => exact h.pass _
  | turn t =>
    rw [Queue.happen]
    split
    · exact (h.took t).sound h
    · exact h

theorem Sound.after (h : q.Sound e bound) (history : List Event) :
    (q.after e history).Sound e bound :=
  after_induction (fun _ ev h => h.happen ev) history h

/-- What every event keeps in a sound queue, every history keeps. -/
theorem Sound.after_of_step (h : q.Sound e bound) {P : Queue σ → Prop}
    (hstep : ∀ q ev, q.Sound e bound → P q → P (q.happen e ev)) (history : List Event) (hP : P q) :
    P (q.after e history) :=
  (after_induction (P := fun q => q.Sound e bound ∧ P q)
    (fun q ev h => ⟨h.1.happen ev, hstep q ev h.1 h.2⟩) history ⟨h, hP⟩).2

end Queue
end Runbook
