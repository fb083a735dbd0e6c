import Runbook.Proofs.Queue.FirstCome

/-!
# The throughput of a queue

A run that was admitted holds a place at the gate until it is over, so no more runs are inside than
there are places, and while a run waits and nobody is ready every place is taken.

What the table shows falls behind.  A run that takes a place is *starting* until it shows as
running, and one that gives it back is *closing* until it shows as finished.  A run that breaks off
gives its place back too, but it shows as running from then on.  `Queue.Sound.balance` counts them
all.

If tasks have their turns as they come then a run that is closing shows as finished before another
one takes its place (`Queue.Orderly`).  So the runs that break off are the only ones that may show
as running beyond the bound: because the reporter panicked, or because they asked for too many
places.
-/

namespace Runbook

variable {σ : Type}

/-! ## Counting -/

theorem countP_range {α : Type} (p : α → Bool) (xs : List α) :
    (List.range xs.length).countP (fun i => xs[i]?.any p) = xs.countP p := by
  have hmap : (List.range xs.length).map (fun i => xs[i]?) = xs.map some := by
    refine List.ext_getElem? fun i => ?_
    rw [List.getElem?_map, List.getElem?_map]
    by_cases hi : i < xs.length <;> simp [hi]
  calc
    (List.range xs.length).countP (fun i => xs[i]?.any p)
    _ = ((List.range xs.length).map (fun i => xs[i]?)).countP (·.any p) := by
      rw [List.countP_map]
      rfl
    _ = xs.countP p := by
      rw [hmap, List.countP_map]
      rfl

/-- Counts balance if they do at each entry. -/
theorem countP_balance {α : Type} {p p' a b c : α → Bool} : ∀ {xs : List α},
    (∀ x ∈ xs, (p x).toNat + (p' x).toNat = (a x).toNat + (b x).toNat + (c x).toNat) →
      xs.countP p + xs.countP p' = xs.countP a + xs.countP b + xs.countP c
  | [], _ => rfl
  | x :: xs, h => by
      have hcount : ∀ p : α → Bool, (x :: xs).countP p = xs.countP p + (p x).toNat := by
        intro p
        rw [List.countP_cons]
        cases p x <;> rfl
      have hhead := h x List.mem_cons_self
      have hrest := countP_balance fun y hy => h y (List.mem_cons_of_mem x hy)
      rw [hcount, hcount, hcount, hcount, hcount]
      omega

/-- When a task goes to another stage, it alone is inside more or less. -/
theorem Gate.MovesTo.countP_isInside {α β : Type} {g g' : Gate α β} {i : Nat} {s t : Stage α β}
    {grant : Option Nat} (h : g.MovesTo g' i t grant) (hs : g.stages[i]? = some s) :
    g'.stages.countP (·.isInside) + s.isInside.toNat =
      g.stages.countP (·.isInside) + t.isInside.toNat := by
  obtain ⟨hlt, rfl⟩ := List.getElem?_eq_some_iff.mp hs
  have hmap : g'.stages.map (·.isInside) = (g.stages.map (·.isInside)).set i t.isInside := by
    refine List.ext_getElem? fun j => ?_
    by_cases hj : j = i
    · subst hj
      rw [List.getElem?_map, h.self, List.getElem?_set_self (by simpa using hlt)]
      rfl
    · rw [List.getElem?_set_ne (Ne.symm hj), List.getElem?_map, List.getElem?_map]
      cases hu : g'.stages[j]? with
      | none =>
        rw [List.getElem?_eq_none (h.length ▸ List.getElem?_eq_none_iff.mp hu)]
      | some u =>
        obtain ⟨v, hv, rfl | ⟨rfl, rfl, -⟩⟩ := h.others j u hj hu
        · rw [hv]
        · rw [hv]
          rfl
  have hcount : ∀ stages : List (Stage α β),
      stages.countP (·.isInside) = (stages.map (·.isInside)).countP id := fun stages => by
    rw [List.countP_map]
    rfl
  have hpos : g.stages[i].isInside = true → 0 < (g.stages.map (·.isInside)).countP id := by
    intro hinside
    rw [← hcount]
    exact List.countP_pos_iff.mpr ⟨_, List.getElem_mem hlt, hinside⟩
  rw [hcount, hmap, List.countP_set (by simpa using hlt), hcount, List.getElem_map]
  generalize (g.stages.map (·.isInside)).countP id = k at hpos ⊢
  cases hold : g.stages[i].isInside with
  | false => cases t.isInside <;> simp
  | true =>
    have hpos := hpos hold
    cases t.isInside <;> simp <;> omega

namespace Queue

variable {e : Engine σ} {q : Queue σ} {bound n : Nat} {r : QueuedRun} {ev : Event}

/-- The number of runs in the table that were admitted and do not show as running yet. -/
def starting (q : Queue σ) : Nat :=
  q.table.countP fun r => r.state == .queued && q.gate.stages[r.number]?.any (·.isInside)

/-- The number of runs in the table that are over and show as running still. -/
def closing (q : Queue σ) : Nat :=
  q.table.countP fun r => r.state == .running && q.gate.stages[r.number]?.any (·.isOver)

/-- The number of runs in the table that broke off. -/
def brokenOff (q : Queue σ) : Nat :=
  q.table.countP fun r => q.gate.stages[r.number]?.any (·.isBroken)

/-- Runs that are all in the table are counted at the gate. -/
theorem Sound.countP_table (h : q.Sound e bound) {p : Stage (UnderWay σ) RunEnd → Bool}
    (hlisted : ∀ n s, q.gate.stages[n]? = some s → p s = true → q.Listed n) :
    q.table.countP (fun r => q.gate.stages[r.number]?.any p) = q.gate.stages.countP p := by
  have hperm : ((q.table.map (·.number)).filter fun n => q.gate.stages[n]?.any p).Perm
      ((List.range q.gate.stages.length).filter fun n => q.gate.stages[n]?.any p) := by
    refine (List.perm_ext_iff_of_nodup (h.nodup.filter _) (List.nodup_range.filter _)).mpr
      fun n => ?_
    rw [List.mem_filter, List.mem_filter]
    refine and_congr_left fun hn => ?_
    obtain ⟨s, hs, hp⟩ := (Option.any_eq_true _ _).mp hn
    have hlt := (List.getElem?_eq_some_iff.mp hs).1
    obtain ⟨r, hr, hnumber⟩ := hlisted n s hs hp
    exact ⟨fun _ => List.mem_range.mpr hlt, fun _ => List.mem_map.mpr ⟨r, hr, hnumber⟩⟩
  calc
    q.table.countP (fun r => q.gate.stages[r.number]?.any p)
    _ = (q.table.map (·.number)).countP fun n => q.gate.stages[n]?.any p := by
      rw [List.countP_map]
      rfl
    _ = ((q.table.map (·.number)).filter fun n => q.gate.stages[n]?.any p).length :=
      List.countP_eq_length_filter
    _ = ((List.range q.gate.stages.length).filter fun n => q.gate.stages[n]?.any p).length :=
      hperm.length_eq
    _ = (List.range q.gate.stages.length).countP fun n => q.gate.stages[n]?.any p :=
      List.countP_eq_length_filter.symm
    _ = q.gate.stages.countP p := countP_range p _

/-- The runs that are inside, broke off or are closing show as running, up to those that are
starting. -/
theorem Sound.balance (h : q.Sound e bound) :
    q.runningCount + q.starting =
      q.gate.stages.countP (·.isInside) + q.brokenOff + q.closing := by
  have hlisted : ∀ n s, q.gate.stages[n]? = some s → s.isInside = true → q.Listed n := by
    intro n s hs hinside
    refine (h.stands n s hs).listed ?_
    cases s with
    | ended b => cases hinside
    | _ => rfl
  rw [← h.countP_table hlisted]
  refine countP_balance fun r hr => ?_
  obtain ⟨s, hs, hshows⟩ := h.exists_stage hr
  rw [hs]
  cases hshows with
  | outside houtside hqueued =>
    rw [hqueued]
    cases s with
    | inside u => cases houtside
    | ended b => cases houtside
    | _ => rfl
  | admitted hqueued =>
    rw [hqueued]
    rfl
  | inside hrunning =>
    rw [hrunning]
    rfl
  | ending hstate =>
    obtain hrunning | ⟨hqueued, -⟩ := hstate
    · rw [hrunning]
      rfl
    · rw [hqueued]
      rfl
  | finished hfinished =>
    rw [hfinished]
    rfl
  | brokenOff hrunning =>
    rw [hrunning]
    rfl

/-! ## Every state of a queue -/

/-- What holds in a state of a queue in which `k` runs may show as running. -/
structure Throughput (k : Nat) (q : Queue σ) : Prop where
  /-- No more show as running. -/
  bounded : q.runningCount ≤ k
  /-- A run is queued and not cancelled while nobody is ready only if so many show as running. -/
  conserving : q.agenda.ready = [] → ∀ r ∈ q.table, r.state = .queued → r.cancelled = false →
    q.runningCount = k

/-- When nobody is ready no run has something to put down. -/
theorem Sound.not_owes (h : q.Sound e bound) (hready : q.agenda.ready = []) (hr : r ∈ q.table)
    {s : Stage (UnderWay σ) RunEnd} (hs : q.gate.stages[r.number]? = some s) : ¬ r.Owes s := by
  intro howes
  have hmem := (h.stands _ s hs).telling r hr rfl howes
  rw [hready] at hmem
  cases hmem

/-- When nobody is ready no run is starting. -/
theorem Sound.starting_eq_zero (h : q.Sound e bound) (hready : q.agenda.ready = []) :
    q.starting = 0 := by
  refine List.countP_eq_zero.mpr fun r hr hstarting => ?_
  obtain ⟨hqueued, hinside⟩ := Bool.and_eq_true_iff.mp hstarting
  obtain ⟨s, hs, hinside⟩ := (Option.any_eq_true _ _).mp hinside
  refine h.not_owes hready hr hs ?_
  cases s with
  | inside u => exact eq_of_beq hqueued
  | _ => cases hinside

/-- A run that is over and shows as running has more to put down. -/
theorem owes_of_isOver {s : Stage (UnderWay σ) RunEnd} (hs : s.isOver = true)
    (hrunning : r.state = .running) : r.Owes s := by
  cases s with
  | ended b =>
    cases b with
    | finished c =>
      rw [QueuedRun.Owes, hrunning]
      rfl
    | crashed => cases hs
  | _ => cases hs

/-- When nobody is ready no run is closing. -/
theorem Sound.closing_eq_zero (h : q.Sound e bound) (hready : q.agenda.ready = []) :
    q.closing = 0 := by
  refine List.countP_eq_zero.mpr fun r hr hclosing => ?_
  obtain ⟨hrunning, hover⟩ := Bool.and_eq_true_iff.mp hclosing
  obtain ⟨s, hs, hover⟩ := (Option.any_eq_true _ _).mp hover
  exact h.not_owes hready hr hs (owes_of_isOver hover (eq_of_beq hrunning))

theorem Sound.throughput_closing (h : q.Sound e bound) :
    q.Throughput (Gate.places bound + q.brokenOff + q.closing) := by
  have haccounted := h.fair.accounted
  have hbalance := h.balance
  refine ⟨?_, fun hready r hr hqueued _ => ?_⟩
  · have hinside := q.gate.countP_isInside_le
    omega
  · have hidle : ∀ s ∈ q.gate.stages, s.isEager = false := by
      intro s hs
      obtain ⟨n, hn⟩ := List.mem_iff_getElem?.mp hs
      refine Bool.eq_false_iff.mpr fun heager => ?_
      have hmem := (h.stands n s hn).eager heager
      rw [hready] at hmem
      cases hmem
    obtain ⟨s, hs, hshows⟩ := h.exists_stage hr
    have hmem := List.mem_of_getElem? hs
    have houtside := (hshows.of_queued hqueued).resolve_right (h.not_owes hready hr hs)
    have hwaiting : s = .waiting := by
      have heager := hidle s hmem
      cases s with
      | waiting => rfl
      | fresh => cases heager
      | granted => cases heager
      | inside u => cases houtside
      | ended b => cases houtside
    have hfree := h.fair.full (hwaiting ▸ hmem)
    have hinside := Gate.countP_isInside hidle
    have hstarting := h.starting_eq_zero hready
    omega

/-- Runs break off only if the reporter panics, or if they ask for too many places. -/
theorem Sound.brokenOff_eq_zero (h : q.Sound e bound) (hcalm : ∀ n m, ¬ e.PanicsOn n m)
    (hfits : ∀ r ∈ q.table, r.mode.fits = true) : q.brokenOff = 0 := by
  refine List.countP_eq_zero.mpr fun r hr hbroken => ?_
  obtain ⟨s, hs, hbroken⟩ := (Option.any_eq_true _ _).mp hbroken
  cases h.shows r hr s hs with
  | outside houtside =>
    cases s with
    | ended b => cases houtside
    | _ => cases hbroken
  | @brokenOff m _ _ hbreaks =>
    obtain ⟨n, hpanics⟩ | hunfit := hbreaks
    · exact hcalm n m hpanics
    · rw [hfits r hr] at hunfit
      cases hunfit
  | _ => cases hbroken

/-! ## Tasks that have their turns as they come -/

/-- A run that is closing has the next turn, and the place that it gave back is not taken. -/
def Orderly (bound : Nat) (q : Queue σ) : Prop :=
  ∀ r ∈ q.table, r.state = .running → ∀ s, q.gate.stages[r.number]? = some s → s.isOver = true →
    q.agenda.ready.head? = some (.run r.number) ∧
      q.gate.stages.countP (·.isInside) < Gate.places bound

theorem head?_wakeAll {t : Task} : ∀ (ts : List Task) {a : Agenda Task},
    a.ready.head? = some t → (a.wakeAll ts).ready.head? = some t
  | [], _, h => h
  | u :: ts, a, h => by
      refine head?_wakeAll ts (a := a.wake u) ?_
      rw [Agenda.wake]
      dsimp only
      split
      · exact h
      · rw [List.head?_append, h]
        rfl

/-- Nobody but a task that has its turn goes inside or loses the next turn. -/
theorem Sound.still (h : q.Sound e bound) (hev : ∀ t, ev ≠ .turn t) :
    (q.happen e ev).gate.stages.countP (·.isInside) = q.gate.stages.countP (·.isInside) ∧
      ∀ t, q.agenda.ready.head? = some t → (q.happen e ev).agenda.ready.head? = some t := by
  cases ev with
  | submit s mode =>
    refine ⟨?_, fun t ht => head?_wakeAll [_] ht⟩
    rw [Queue.happen, Queue.submit, Gate.enroll, List.countP_append]
    rfl
  | cancel m =>
    rw [Queue.happen, gate_cancel]
    refine ⟨rfl, fun t ht => ?_⟩
    obtain heq | ⟨-, -, heq⟩ := q.cancel_eq_or m
    · rwa [heq]
    · rw [heq]
      exact head?_wakeAll _ ht
  | wait m => exact ⟨rfl, fun _ => id⟩
  | remove m =>
    obtain ⟨keep, -, heq⟩ := h.exists_remove m
    rw [Queue.happen, heq]
    exact ⟨rfl, fun _ => id⟩
  | prune => exact ⟨rfl, fun _ => id⟩
  | wake t => exact ⟨rfl, fun _ ht => head?_wakeAll [t] ht⟩
  | pass millis => exact ⟨rfl, fun _ => id⟩
  | turn t => exact absurd rfl (hev t)

/-- What is no turn leaves a queue orderly. -/
theorem Sound.orderly_still (h : q.Sound e bound) (horderly : Orderly bound q)
    (hev : ∀ t, ev ≠ .turn t) : Orderly bound (q.happen e ev) := by
  intro r' hr' hrunning s' hs' hover
  obtain ⟨hinside, hhead⟩ := h.still hev
  rw [hinside]
  obtain ⟨s, mode, -, rfl⟩ | ⟨r, hr, hnumber, s, s'', hs, hs'', hmove⟩ := h.moves ev hr'
  · cases hrunning
  rw [hnumber] at hs''
  cases hs'.symm.trans hs''
  have hold : r.state = .running ∧ s.isOver = true := by
    cases hmove with
    | elsewhere _ hsame =>
      obtain rfl | ⟨-, rfl⟩ := hsame
      · exact ⟨hrunning, hover⟩
      · cases hover
    | cancelled => exact ⟨hrunning, hover⟩
    | rests hturn => exact absurd hturn (hev _)
    | admitted hturn => exact absurd hturn (hev _)
    | told hturn => exact absurd hturn (hev _)
    | turned hturn => exact absurd hturn (hev _)
  obtain ⟨hfirst, hless⟩ := horderly r hr hold.1 s hs hold.2
  exact ⟨hhead _ (hnumber ▸ hfirst), hless⟩

/-- A run that has its turn and shows as running afterwards, though it is over, was inside. -/
theorem Sound.inside_of_turned (h : q.Sound e bound) (hr : r ∈ q.table)
    {s : Stage (UnderWay σ) RunEnd} (hs : q.gate.stages[r.number]? = some s) {t : Task}
    {w : World σ}
    {y : Stretch σ} (hstrides : Strides e r.number t s w y) (hrunning : r.state = .running) :
    s.isInside = true := by
  cases h.shows r hr s hs with
  | outside _ hqueued => exact nomatch hrunning.symm.trans hqueued
  | inside => rfl
  | admitted => rfl
  | _ => exact absurd hstrides Strides.not_ended

/-- A run that ends in its turn leaves a place free. -/
theorem Sound.lt_of_turned (h : q.Sound e bound) (hr : r ∈ q.table)
    {s : Stage (UnderWay σ) RunEnd} (hs : q.gate.stages[r.number]? = some s) {t : Task}
    {w : World σ} {y : Stretch σ} (hstrides : Strides e r.number t s w y)
    (hrunning : r.state = .running) (hover : y.stage.isOver = true)
    {gate : Gate (UnderWay σ) RunEnd} {grant : Option Nat}
    (hmoves : q.gate.MovesTo gate r.number y.stage grant) :
    gate.stages.countP (·.isInside) < Gate.places bound := by
  have hgone : y.stage.isInside = false := by
    cases hy : y.stage with
    | inside u =>
      rw [hy] at hover
      cases hover
    | _ => rfl
  have hinside := h.inside_of_turned hr hs hstrides hrunning
  have hcount := Gate.MovesTo.countP_isInside (g := q.gate) hmoves hs
  have hle := q.gate.countP_isInside_le
  have haccounted := h.fair.accounted
  rw [hinside, hgone] at hcount
  simp only [Bool.toNat_true, Bool.toNat_false] at hcount
  omega

/-- A run other than the one that moved is closing only if it was closing before, and then it had
the next turn. -/
theorem Orderly.head?_of_moved (horderly : Orderly bound q) {gate : Gate (UnderWay σ) RunEnd}
    {s u : Stage (UnderWay σ) RunEnd} {grant : Option Nat} (hmoves : q.gate.MovesTo gate n u grant)
    (hr : r ∈ q.table) (hn : r.number ≠ n) (hrunning : r.state = .running)
    (hs : gate.stages[r.number]? = some s) (hover : s.isOver = true) :
    q.agenda.ready.head? = some (.run r.number) := by
  obtain ⟨v, hv, rfl | ⟨-, rfl, -⟩⟩ := hmoves.others _ _ hn hs
  · exact (horderly r hr hrunning _ hv hover).1
  · cases hover

/-- The turn of the first task that is ready leaves a queue orderly. -/
theorem Sound.orderly_turn (h : q.Sound e bound) (horderly : Orderly bound q) {t : Task}
    (hfirst : q.agenda.ready.head? = some t) : Orderly bound (turn e (q.without t) t) := by
  have htook := h.took t
  generalize turn e (q.without t) t = q' at htook ⊢
  intro r' hr' hrunning s' hs' hover
  -- A run that is closing besides the one that moves had this turn.
  have hothers : ∀ {gate : Gate (UnderWay σ) RunEnd} {u : Stage (UnderWay σ) RunEnd} {i : Nat}
      {grant : Option Nat}, q.gate.MovesTo gate i u grant → r' ∈ q.table → r'.number ≠ i →
      gate.stages[r'.number]? = some s' → t = .run r'.number := by
    intro gate u i grant hmoves hr' hn hs'
    have hhead := horderly.head?_of_moved hmoves hr' hn hrunning hs' hover
    exact Option.some.inj (hfirst.symm.trans hhead)
  cases htook with
  | idle hidle =>
    obtain ⟨hhead, -⟩ := horderly r' hr' hrunning s' hs' hover
    cases hfirst.symm.trans hhead
    exact absurd (owes_of_isOver hover hrunning)
      ((hidle r' s' (h.find?_of_mem hr') hs').2 rfl)
  | @admitted r s gate ht hfind hs _ _ hmoves =>
    by_cases hn : r'.number = r.number
    · rw [hn] at hs'
      cases hmoves.self.symm.trans hs'
      cases hover
    · exact absurd (Task.run.inj ((hothers hmoves hr' hn hs').symm.trans ht)) hn
  | @told r s f keeps ht hfind hs htells =>
    subst ht
    rw [table_tells] at hr'
    rw [gate_tells] at hs' ⊢
    obtain ⟨r₀, hr₀, hn, rfl⟩ | ⟨hr', hn⟩ := mem_modifyRun (q := q) hr'
    · obtain rfl := h.eq_of_number hr₀ (find?_eq_some hfind).1 hn
      rw [htells.number] at hs' ⊢
      cases hs.symm.trans hs'
      cases htells with
      | running => cases hover
      | recorded => exact ⟨rfl, (horderly r₀ hr₀ hrunning _ hs rfl).2⟩
      | finished => cases hrunning
    · exact absurd (Task.run.inj (hothers (Gate.movesTo_self hs) hr' hn hs').symm) hn
  | @turned r s y gate grant hfind hs hstrides hstate hmoves =>
    obtain ⟨hmem, hnumber⟩ := find?_eq_some hfind
    obtain ⟨r₀, hr₀, hn, rfl⟩ | ⟨hr', hn⟩ := mem_modifyRun (q := q) hr'
    · obtain rfl := h.eq_of_number hr₀ hmem hn
      cases hmoves.self.symm.trans hs'
      refine ⟨?_, h.lt_of_turned hr₀ hs hstrides hrunning hover hmoves⟩
      rw [hstrides.of_isOver hover, takes, Stretch.noted, if_pos hover]
      rfl
    · rw [hothers hmoves hr' hn hs'] at hnumber
      exact absurd hnumber.symm hn

/-- If tasks have their turns as they come a queue stays orderly. -/
theorem Sound.orderly_after : ∀ {history : List Event} {q : Queue σ}, q.Sound e bound →
    Orderly bound q → FirstCome e q history → Orderly bound (q.after e history)
  | [], _, _, horderly, _ => horderly
  | ev :: history, q, h, horderly, hcomes => by
      have hnext : Orderly bound (q.happen e ev) := by
        by_cases hev : ∃ t, ev = .turn t
        · obtain ⟨t, rfl⟩ := hev
          rw [Queue.happen, if_pos (List.mem_of_mem_head? hcomes.1)]
          exact h.orderly_turn horderly hcomes.1
        · exact h.orderly_still horderly (not_exists.mp hev)
      exact Sound.orderly_after (q := q.happen e ev) (h.happen ev) hnext hcomes.2

/-- In an orderly queue at most one run is closing, and then a place is free. -/
theorem Sound.closing_le_one (h : q.Sound e bound) (horderly : Orderly bound q)
    (hclosing : 0 < q.closing) :
    q.closing ≤ 1 ∧ q.gate.stages.countP (·.isInside) < Gate.places bound := by
  have hold : ∀ {r : QueuedRun}, r ∈ q.table →
      (r.state == .running && q.gate.stages[r.number]?.any (·.isOver)) = true →
      q.agenda.ready.head? = some (.run r.number) ∧
        q.gate.stages.countP (·.isInside) < Gate.places bound := by
    intro r hr hr'
    obtain ⟨hrunning, hover⟩ := Bool.and_eq_true_iff.mp hr'
    obtain ⟨s, hs, hover⟩ := (Option.any_eq_true _ _).mp hover
    exact horderly r hr (eq_of_beq hrunning) s hs hover
  obtain ⟨r, hr, hr'⟩ := List.countP_pos_iff.mp hclosing
  obtain ⟨hhead, hless⟩ := hold hr hr'
  refine ⟨?_, hless⟩
  calc
    q.closing
    _ ≤ q.table.countP fun r' => r'.number == r.number := by
      refine List.countP_mono_left fun r' hr' hclosing' => beq_iff_eq.mpr ?_
      have hhead' := (hold hr' hclosing').1
      exact Task.run.inj (Option.some.inj (hhead'.symm.trans hhead))
    _ = 1 := by
      have hnumbers := congrArg List.length (h.numbers_eq ⟨r, hr, rfl⟩)
      rwa [List.length_map, ← List.countP_eq_length_filter] at hnumbers

/-- In an orderly queue the runs that are closing make no difference to the bound. -/
theorem Sound.throughput_orderly (h : q.Sound e bound) (horderly : Orderly bound q) :
    q.Throughput (Gate.places bound + q.brokenOff) := by
  have hthroughput := h.throughput_closing
  refine ⟨?_, fun hready r hr hqueued hcancelled => ?_⟩
  · obtain hzero | hclosing := Nat.eq_zero_or_pos q.closing
    · have hbounded := hthroughput.bounded
      omega
    · obtain ⟨hone, hless⟩ := h.closing_le_one horderly hclosing
      have hbalance := h.balance
      omega
  · have hrunning := hthroughput.conserving hready r hr hqueued hcancelled
    rwa [h.closing_eq_zero hready, Nat.add_zero] at hrunning

/-- Whatever executors and reporter do, and in whatever order a queue is asked for something, tasks
have their turns and waits are over: as many runs show as running as there are places, besides those
that broke off and those that are closing, and fewer only if nobody waits to be admitted.

None is closing when nobody is ready, and if tasks have their turns as they come those that are
closing count as running.  None breaks off unless the reporter panics, or it asks for more places
than a gate can have. -/
theorem throughput (e : Engine σ) (bound : Nat) (clock : Timestamp) (surroundings : σ)
    (history : List Event) :
    let q := (new bound clock surroundings).after e history
    q.Throughput (Gate.places bound + q.brokenOff + q.closing) ∧
      (q.agenda.ready = [] → q.closing = 0) ∧
      (FirstCome e (new bound clock surroundings) history →
        q.Throughput (Gate.places bound + q.brokenOff)) ∧
      ((∀ n m, ¬ e.PanicsOn n m) → (∀ r ∈ q.table, r.mode.fits = true) → q.brokenOff = 0) := by
  intro q
  have hnew := sound_new e bound clock surroundings
  have h := hnew.after history
  have horderly : Orderly bound (new bound clock surroundings : Queue σ) := fun _ hr => nomatch hr
  exact ⟨h.throughput_closing, h.closing_eq_zero,
    fun hcomes => h.throughput_orderly (hnew.orderly_after horderly hcomes), h.brokenOff_eq_zero⟩

/-- With the bound zero the second of two runs waits while the first one sleeps. -/
theorem throughput_patient :
    let s := Sequence.ofSteps [.plain "a" "A" .custom []]
    let q₀ := new 0 ⟨0, 0⟩ ()
    let history : List Event := [.submit s .sequential, .submit s .sequential, .turn (.run 0),
      .turn (.run 0), .turn (.run 0), .turn (.run 1)]
    let q := q₀.after Engine.patient history
    FirstCome Engine.patient q₀ history ∧ q.brokenOff = 0 ∧
      q.Throughput (Gate.places 0 + q.brokenOff) ∧ q.agenda.ready = [] ∧
      q.status? 1 = some .queued ∧ q.runningCount = 1 := by
  intro s q₀ history q
  have hcalm : ∀ n m, ¬ Engine.patient.PanicsOn n m := by
    rintro n m ⟨reporter, hreporter, -⟩
    cases hreporter
  have hcomes : FirstCome Engine.patient q₀ history :=
    ⟨trivial, trivial, rfl, rfl, rfl, rfl, trivial⟩
  obtain ⟨-, -, hthroughput, hzero⟩ := throughput Engine.patient 0 ⟨0, 0⟩ () history
  exact ⟨hcomes, hzero hcalm (by decide +kernel), hthroughput hcomes,
    by decide +kernel, by decide +kernel, by decide +kernel⟩

/-- With one place two runs may show as running, if the first one breaks off because it asks for too
many branches at a time. -/
theorem not_throughput_oversized :
    ¬ ∀ (e : Engine Unit) (bound : Nat) (clock : Timestamp) (history : List Event),
      ((new bound clock ()).after e history).Throughput (Gate.places bound) := by
  intro h
  have hbounded := (h .patient 1 ⟨0, 0⟩
    [.submit (.ofSteps [.plain "s" "S" .custom []]) (.parallel (Gate.limit + 1)), .turn (.run 0),
      .turn (.run 0), .turn (.run 0), .submit (.ofSteps [.plain "w" "W" .custom []]) .sequential,
      .turn (.run 1), .turn (.run 1)]).bounded
  exact absurd hbounded (by decide +kernel)

end Queue
end Runbook
