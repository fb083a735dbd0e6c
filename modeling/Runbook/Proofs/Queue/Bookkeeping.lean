import Runbook.Proofs.Queue.LifeCycle

/-!
# The books of a queue

The table of a queue is what was submitted without what was dropped, in the order of submission.
`Queue.Books` is the invariant, `Queue.Books.happen` is what one event makes of it and
`Queue.books_after` what a history does.

Only a run that has ended is dropped: one by one, each for its record, or all of them at once.  The
others stay where they are.  `Queue.bookkeeping` says so of every state of a queue, together with
what it means to cancel a run.
-/

namespace Runbook

variable {σ : Type}

/-! ## Agendas -/

namespace Agenda

variable {κ : Type} [DecidableEq κ] {p : κ → Bool} {ks : List κ}

/-- Waking some tasks does not change the order of others. -/
theorem filter_ready_wakeAll {a : Agenda κ} (hks : ∀ k ∈ ks, p k = false) :
    (a.wakeAll ks).ready.filter p = a.ready.filter p := by
  induction ks generalizing a with
  | nil => rfl
  | cons k ks ih =>
    rw [wakeAll, List.foldl_cons, ← wakeAll, ih fun k hk => hks k (List.mem_cons_of_mem _ hk), wake]
    dsimp only
    split
    · rfl
    · rw [List.filter_append, List.filter_cons, if_neg (by simp [hks k List.mem_cons_self]),
        List.filter_nil, List.append_nil]

/-- Waking some tasks leaves others asleep. -/
theorem filter_sleepers_wakeAll {a : Agenda κ} (hks : ∀ k ∈ ks, p k = false) :
    ((a.wakeAll ks).sleepers.filter fun s => p s.task) = a.sleepers.filter fun s => p s.task := by
  induction ks generalizing a with
  | nil => rfl
  | cons k ks ih =>
    rw [wakeAll, List.foldl_cons, ← wakeAll, ih fun k hk => hks k (List.mem_cons_of_mem _ hk), wake]
    dsimp only
    rw [List.filter_filter]
    refine List.filter_congr fun s _ => ?_
    by_cases hs : s.task = k
    · simp [hs, hks k List.mem_cons_self]
    · simp [hs]

end Agenda

namespace Queue

/-! ## Histories -/

/-- What is submitted in a history. -/
def submitted (history : List Event) : List (Sequence × Mode) :=
  history.filterMap fun
    | .submit s mode => some (s, mode)
    | _ => none

/-- The runs that an event drops: the one whose record it hands over, or all that show as
finished. -/
def dropped (q : Queue σ) : Event → List Nat
  | .remove n => if (q.remove n).1.isSome then [n] else []
  | .prune => (q.list.filter (·.2.2.isFinished)).map (·.1)
  | _ => []

/-- The runs that are dropped in a history. -/
def droppedIn (e : Engine σ) : Queue σ → List Event → List Nat
  | _, [] => []
  | q, ev :: history => q.dropped ev ++ droppedIn e (q.happen e ev) history

/-- What was submitted and under which number. -/
def entry (r : QueuedRun) : (Sequence × Mode) × Nat := ((r.sequence, r.mode), r.number)

/-- The table of a queue to which `subs` was submitted and from which `gone` was dropped. -/
structure Books (q : Queue σ) (subs : List (Sequence × Mode)) (gone : List Nat) : Prop where
  /-- It holds what was submitted and not dropped, in order. -/
  entries : q.table.map entry = subs.zipIdx.filter fun p => p.2 ∉ gone
  /-- The next run gets the next number. -/
  next : q.gate.stages.length = subs.length
  /-- What was dropped was submitted before. -/
  known : ∀ n ∈ gone, n < subs.length
  /-- What was dropped is missing. -/
  counted : q.table.length + gone.length = subs.length

variable {e : Engine σ} {q q' : Queue σ} {t : Task} {bound n : Nat}
  {subs : List (Sequence × Mode)} {gone : List Nat}

theorem books_new (bound : Nat) (clock : Timestamp) (surroundings : σ) :
    (new bound clock surroundings).Books [] [] := ⟨rfl, rfl, nofun, rfl⟩

theorem Books.submit (h : q.Books subs gone) (s : Sequence) (mode : Mode) :
    (q.submit s mode).Books (subs ++ [(s, mode)]) gone := by
  have hfresh : subs.length ∉ gone := fun hmem => Nat.lt_irrefl _ (h.known _ hmem)
  refine ⟨?_, ?_, fun n hn => ?_, ?_⟩
  · rw [List.zipIdx_append, List.filter_append, ← h.entries, Queue.submit, List.map_append, h.next]
    simp [entry, QueuedRun.submitted, hfresh]
  · simp [Queue.submit, Gate.enroll, h.next]
  · rw [List.length_append]
    exact Nat.lt_add_right 1 (h.known n hn)
  · have hcounted := h.counted
    simp only [Queue.submit, List.length_append, List.length_singleton]
    omega

/-- A queue that keeps its entries keeps its books. -/
theorem Books.same (h : q.Books subs gone) (htable : q'.table.map entry = q.table.map entry)
    (hgate : q'.gate.stages.length = q.gate.stages.length) : q'.Books subs gone where
  entries := htable.trans h.entries
  next := hgate.trans h.next
  known := h.known
  counted := by
    have hlength := congrArg List.length htable
    rw [List.length_map, List.length_map] at hlength
    rw [hlength]
    exact h.counted

/-- The books after some runs are dropped. -/
theorem Books.drop (h : q.Books subs gone) (hsound : q.Sound e bound) {keep : QueuedRun → Bool}
    {more : List Nat} (hmore : (q.table.filter fun r => !keep r).map (·.number) = more) :
    Books { q with table := q.table.filter keep } subs (gone ++ more) := by
  have hkeep : ∀ r ∈ q.table, keep r = decide (r.number ∉ more) := by
    intro r hr
    have hmem : r.number ∈ more ↔ keep r = false := by
      rw [← hmore]
      constructor
      · intro hmem
        obtain ⟨r', hr', hnumber⟩ := List.mem_map.mp hmem
        obtain ⟨hr', hdropped⟩ := List.mem_filter.mp hr'
        obtain rfl := hsound.eq_of_number hr' hr hnumber
        simpa using hdropped
      · exact fun hdropped =>
          List.mem_map.mpr ⟨r, List.mem_filter.mpr ⟨hr, by simp [hdropped]⟩, rfl⟩
    cases hr' : keep r <;> simp [hmem, hr']
  refine ⟨?_, h.next, fun n hn => ?_, ?_⟩
  · calc
      (q.table.filter keep).map entry
      _ = (q.table.filter fun r => (entry r).2 ∉ more).map entry :=
        congrArg (List.map entry) (List.filter_congr hkeep)
      _ = (q.table.map entry).filter fun p => p.2 ∉ more := by
        rw [List.filter_map]
        rfl
      _ = subs.zipIdx.filter fun p => p.2 ∉ gone ++ more := by
        rw [h.entries, List.filter_filter]
        refine List.filter_congr fun p _ => ?_
        rw [← Bool.decide_and]
        exact decide_eq_decide.mpr (by rw [List.mem_append, not_or, and_comm])
  · obtain hn | hn := List.mem_append.mp hn
    · exact h.known n hn
    · rw [← hmore] at hn
      obtain ⟨r, hr, rfl⟩ := List.mem_map.mp hn
      rw [← h.next]
      exact hsound.known r (List.mem_filter.mp hr).1
  · have hcounted := h.counted
    have hlength := List.length_eq_length_filter_add (l := q.table) keep
    have hdropped := congrArg List.length hmore
    rw [List.length_map] at hdropped
    rw [List.length_append]
    dsimp only
    omega

/-! ## Runs that are dropped -/

/-- Some runs are dropped and nothing else happens. -/
structure Drops (q q' : Queue σ) (gone : Nat → Bool) : Prop where
  /-- The others are shown as before, in their order. -/
  list : q'.list = q.list.filter fun x => !gone x.1
  /-- Those that are dropped are not known any more. -/
  missing : ∀ n, gone n = true → q'.status? n = none ∧ q'.context? n = none
  /-- The others have the states and records that they had. -/
  others : ∀ n, gone n = false →
    q'.find? n = q.find? n ∧ q'.status? n = q.status? n ∧ q'.context? n = q.context? n
  /-- No run moves and no turn is lost. -/
  work : q'.gate = q.gate ∧ q'.agenda = q.agenda

theorem drops_filter (q : Queue σ) (gone : Nat → Bool) :
    q.Drops { q with table := q.table.filter fun r => !gone r.number } gone := by
  have hfind : ∀ n, Queue.find? { q with table := q.table.filter fun r => !gone r.number } n =
      if gone n then none else q.find? n := by
    intro n
    have hkept : ∀ r : QueuedRun, decide ((!gone r.number) = true ∧ (r.number == n) = true) =
        (!gone n && r.number == n) := by
      intro r
      by_cases hr : r.number = n <;> simp [hr]
    rw [Queue.find?, List.find?_filter, Queue.find?]
    simp only [hkept]
    cases gone n <;> simp
  refine ⟨?_, fun n hn => ?_, fun n hn => ?_, rfl, rfl⟩
  · rw [list, list, List.filter_map]
    rfl
  · rw [status?, context?, hfind, if_pos hn]
    exact ⟨rfl, rfl⟩
  · have hsame := hfind n
    rw [if_neg (by simp [hn])] at hsame
    refine ⟨hsame, ?_, ?_⟩
    · rw [status?, hsame]
      rfl
    · rw [context?, hsame]
      rfl

/-- Pruning drops the runs that show as finished. -/
theorem Sound.drops_prune (h : q.Sound e bound) :
    q.Drops q.prune.2 fun n => (q.status? n).any (·.isFinished) := by
  have hkeep : ∀ r ∈ q.table,
      (!r.state.isFinished) = !(q.status? r.number).any (·.isFinished) := by
    intro r hr
    rw [h.status?_of_mem hr]
    rfl
  rw [Queue.prune]
  dsimp only
  rw [List.filter_congr hkeep]
  exact q.drops_filter fun n => (q.status? n).any (·.isFinished)

/-- A run that has not ended is not removed. -/
theorem remove_eq (hstatus : ∀ s, q.status? n ≠ some (.finished s)) : q.remove n = (none, q) := by
  rw [Queue.remove]
  split
  · next s hs => exact absurd hs (hstatus s)
  · rfl

theorem remove_finished {s : Status} (hstatus : q.status? n = some (.finished s)) :
    q.remove n =
      (q.context? n, { q with table := q.table.filter fun r => !(r.number == n) }) := by
  rw [Queue.remove, hstatus]
  rfl

/-- A run is removed for its record. -/
theorem Sound.isSome_remove (h : q.Sound e bound) :
    (q.remove n).1.isSome = true ↔ ∃ s, q.status? n = some (.finished s) := by
  constructor
  · intro hsome
    by_contra hstatus
    rw [remove_eq fun s hs => hstatus ⟨s, hs⟩] at hsome
    cases hsome
  · rintro ⟨s, hs⟩
    obtain ⟨-, c, hcontext, -⟩ := h.recorded hs
    rw [remove_finished hs, hcontext]
    rfl

/-- A run in the table is there once. -/
theorem Sound.numbers_eq (h : q.Sound e bound) (hlisted : q.Listed n) :
    (q.table.filter fun r => r.number == n).map (·.number) = [n] := by
  obtain ⟨r, hr, rfl⟩ := hlisted
  calc
    (q.table.filter fun r' => r'.number == r.number).map (·.number)
    _ = (q.table.map (·.number)).filter (· == r.number) := by
      rw [List.filter_map]
      rfl
    _ = [r.number] := by
      rw [List.filter_beq, List.count_eq_one_of_mem h.nodup (List.mem_map_of_mem hr)]
      rfl

/-! ## Events -/

theorem entries_modifyRun {f : QueuedRun → QueuedRun} (hf : ∀ r, entry (f r) = entry r) (n : Nat) :
    (q.modifyRun n f).table.map entry = q.table.map entry := by
  rw [modifyRun, List.map_map]
  refine List.map_congr_left fun r _ => ?_
  rw [Function.comp_apply]
  split
  · exact hf r
  · rfl

/-- A turn leaves the entries of the table alone. -/
theorem Took.entries (h : Took e q t q') : q'.table.map entry = q.table.map entry := by
  cases h with
  | idle => rfl
  | admitted => rfl
  | @told r _ f keeps _ _ _ htells =>
    rw [table_tells]
    exact entries_modifyRun (fun _ => by cases htells <;> rfl) r.number
  | @turned r _ y => exact entries_modifyRun (f := .returned y.world) (fun _ => rfl) r.number

theorem entries_cancel (q : Queue σ) (n : Nat) :
    (q.cancel n).2.table.map entry = q.table.map entry := by
  obtain heq | ⟨-, -, heq⟩ := q.cancel_eq_or n
  · rw [heq]
  · rw [heq]
    exact entries_modifyRun (f := .cancel) (fun _ => rfl) n

/-- A turn does not touch the books. -/
theorem Books.turn (h : q.Books subs gone) (hsound : q.Sound e bound) (t : Task) :
    (q.happen e (.turn t)).Books subs gone := by
  rw [Queue.happen]
  split
  · have htook := hsound.took t
    exact h.same htook.entries htook.length_stages
  · exact h

/-- What one event makes of the books. -/
theorem Books.happen (h : q.Books subs gone) (hsound : q.Sound e bound) (ev : Event) :
    (q.happen e ev).Books (subs ++ submitted [ev]) (gone ++ q.dropped ev) := by
  have hnone : submitted [ev] = [] → q.dropped ev = [] → (q.happen e ev).Books subs gone →
      (q.happen e ev).Books (subs ++ submitted [ev]) (gone ++ q.dropped ev) := by
    intro hsubs hgone hbooks
    rwa [hsubs, hgone, List.append_nil, List.append_nil]
  cases ev with
  | submit s mode =>
    have hgone : q.dropped (.submit s mode) = [] := rfl
    rw [hgone, List.append_nil]
    exact h.submit s mode
  | cancel n =>
    exact hnone rfl rfl (h.same (q.entries_cancel n) (congrArg (·.stages.length) (q.gate_cancel n)))
  | wait n => exact hnone rfl rfl h
  | wake t => exact hnone rfl rfl (h.same rfl rfl)
  | pass millis => exact hnone rfl rfl (h.same rfl rfl)
  | turn t => exact hnone rfl rfl (h.turn hsound t)
  | remove n =>
    rw [dropped, Queue.happen]
    split
    · next hsome =>
      obtain ⟨s, hs⟩ := hsound.isSome_remove.mp hsome
      rw [remove_finished hs]
      refine (List.append_nil subs).symm ▸ h.drop hsound ?_
      obtain ⟨r, hr, hn, -⟩ := exists_of_status? hs
      simpa using hsound.numbers_eq ⟨r, hr, hn⟩
    · next hkept =>
      rw [remove_eq fun s hs => hkept (hsound.isSome_remove.mpr ⟨s, hs⟩), List.append_nil]
      exact (List.append_nil subs).symm ▸ h
  | prune =>
    refine (List.append_nil subs).symm ▸ h.drop hsound ?_
    rw [dropped, list, List.filter_map, List.map_map]
    simp only [Bool.not_not]
    rfl

/-- What a history makes of the books. -/
theorem Books.after (h : q.Books subs gone) (hsound : q.Sound e bound) (history : List Event) :
    (q.after e history).Books (subs ++ submitted history) (gone ++ droppedIn e q history) := by
  induction history generalizing q subs gone with
  | nil =>
    rw [droppedIn, List.append_nil]
    exact (List.append_nil subs).symm ▸ h
  | cons ev history ih =>
    have hsubmitted : submitted (ev :: history) = submitted [ev] ++ submitted history :=
      List.filterMap_append (l := [ev])
    rw [hsubmitted, droppedIn, ← List.append_assoc, ← List.append_assoc]
    exact ih (h.happen hsound ev) (hsound.happen ev)

/-- The table shows what was submitted and not dropped, each once and in order. -/
theorem Books.list_eq (h : q.Books subs gone) (hsound : q.Sound e bound) :
    q.list.map (fun x => (x.1, x.2.1, some x.2.2)) =
      (subs.zipIdx.filter fun p => p.2 ∉ gone).map fun p => (p.2, p.1.1.name, q.status? p.2) := by
  rw [← h.entries, list, List.map_map, List.map_map]
  refine List.map_congr_left fun r hr => ?_
  rw [Function.comp_apply, Function.comp_apply, entry, hsound.status?_of_mem hr]

/-! ## Cancelling -/

/-- A run is cancelled and no other run is touched. -/
structure Cancels (q q' : Queue σ) (n : Nat) : Prop where
  /-- The run is cancelled from now on. -/
  cancelled : q'.Cancelled n
  /-- The table shows the same runs in the same states. -/
  list : q'.list = q.list
  /-- No run moves. -/
  gate : q'.gate = q.gate
  /-- The other runs are what they were. -/
  others : ∀ m, m ≠ n → q'.find? m = q.find? m
  /-- Their turns come in the same order. -/
  ready : (q'.agenda.ready.filter fun t => t.number != n) =
    q.agenda.ready.filter fun t => t.number != n
  /-- They sleep on. -/
  asleep : (q'.agenda.sleepers.filter fun s => s.task.number != n) =
    q.agenda.sleepers.filter fun s => s.task.number != n
  /-- Time, reports and surroundings are what they were. -/
  rest : q'.clock = q.clock ∧ q'.notices = q.notices ∧ q'.surroundings = q.surroundings

/-- A run that is changed leaves the others alone. -/
theorem find?_modifyRun {f : QueuedRun → QueuedRun} (hf : ∀ r, (f r).number = r.number) {m : Nat}
    (hm : m ≠ n) : (q.modifyRun n f).find? m = q.find? m := by
  rw [Queue.find?, Queue.find?, modifyRun]
  dsimp only
  induction q.table with
  | nil => rfl
  | cons r rs ih =>
    rw [List.map_cons, List.find?_cons, List.find?_cons, number_modified hf, ih]
    by_cases hr : r.number = m
    · rw [if_neg (by rw [hr, beq_iff_eq]; exact hm)]
    · rw [beq_eq_false_iff_ne.mpr hr]

theorem list_cancelled (q : Queue σ) (n : Nat) : (q.modifyRun n .cancel).list = q.list := by
  rw [list, modifyRun, List.map_map]
  refine List.map_congr_left fun r _ => ?_
  rw [Function.comp_apply]
  split <;> rfl

theorem cancel_eq {x : RunState} (hstatus : q.status? n = some x) (hx : x.isFinished = false) :
    q.cancel n = (true, { q.modifyRun n .cancel with
      agenda := q.agenda.rouse fun t => t.number == n }) := by
  simp only [Queue.cancel, hstatus, hx, Bool.false_eq_true, if_false]
  rfl

theorem cancels (hlisted : q.Listed n) :
    q.Cancels { q.modifyRun n .cancel with
      agenda := q.agenda.rouse fun t => t.number == n } n := by
  have hroused : ∀ t ∈ (q.agenda.sleepers.map (·.task)).filter fun t => t.number == n,
      (t.number != n) = false := by
    intro t ht
    simpa using (List.mem_filter.mp ht).2
  have hnumber : ∀ r : QueuedRun, r.cancel.number = r.number := fun _ => rfl
  obtain ⟨r, hr, rfl⟩ := hlisted
  exact ⟨⟨_, mem_modifyRun_self (q := q) hr, rfl, rfl⟩, q.list_cancelled _,
    rfl, fun m hm => find?_modifyRun (q := q) hnumber hm, Agenda.filter_ready_wakeAll hroused,
    Agenda.filter_sleepers_wakeAll hroused, rfl, rfl, rfl⟩

/-- Only a run in the table that has not ended can be cancelled. -/
theorem cancel_refused (hstatus : ∀ x, q.status? n = some x → x.isFinished = true) :
    q.cancel n = (false, q) := by
  rw [Queue.cancel]
  split
  · rfl
  · next x hx => rw [if_pos (hstatus x hx)]

/-! ## What the table shows -/

/-- The books of a queue after a history. -/
structure Bookkeeping (e : Engine σ) (q₀ : Queue σ) (history : List Event) (q : Queue σ) :
    Prop where
  /-- The table shows what was submitted and not dropped, each once and in order, and the state of
  each. -/
  shown : q.list.map (fun x => (x.1, x.2.1, some x.2.2)) =
    ((submitted history).zipIdx.filter fun p => p.2 ∉ droppedIn e q₀ history).map
      fun p => (p.2, p.1.1.name, q.status? p.2)
  /-- It has the size of what it shows, and what is missing was dropped. -/
  sized : q.size = q.list.length ∧
    q.size + (droppedIn e q₀ history).length = (submitted history).length
  /-- A run that has ended is removed for its final record, and no other run with it. -/
  removed : ∀ n s, q.status? n = some (.finished s) → ∃ c, (q.remove n).1 = some c ∧
    q.context? n = some c ∧ c.status = s ∧ q.Drops (q.remove n).2 (· == n)
  /-- Otherwise nothing is removed. -/
  refused : ∀ n, (∀ s, q.status? n ≠ some (.finished s)) → q.remove n = (none, q)
  /-- Pruning drops the runs that have ended and counts them. -/
  pruned : q.prune.1 = q.list.countP (·.2.2.isFinished) ∧
    q.Drops q.prune.2 (fun n => (q.status? n).any (·.isFinished)) ∧
    ∀ x ∈ q.prune.2.list, x.2.2.isFinished = false
  /-- A run is cancelled if it is in the table and has not ended, and only then. -/
  cancelled : ∀ n, (q.cancel n).1 = true ↔ ∃ x, q.status? n = some x ∧ x.isFinished = false
  /-- Cancelling it touches no other run, and a refusal touches none. -/
  cancels : ∀ n, if (q.cancel n).1 then q.Cancels (q.cancel n).2 n else (q.cancel n).2 = q

/-- Whatever executors and reporter do, and in whatever order a queue is asked for something, tasks
have their turns and waits are over: the books are right. -/
theorem bookkeeping (e : Engine σ) (bound : Nat) (clock : Timestamp) (surroundings : σ)
    (history : List Event) :
    Bookkeeping e (new bound clock surroundings) history
      ((new bound clock surroundings).after e history) := by
  have hnew := sound_new e bound clock surroundings
  have h := hnew.after history
  have hbooks := (books_new bound clock surroundings).after hnew history
  generalize (new bound clock surroundings).after e history = q at h hbooks ⊢
  have hunfinished : ∀ {n}, ¬ (∃ x, q.status? n = some x ∧ x.isFinished = false) →
      q.cancel n = (false, q) := by
    intro n hno
    refine cancel_refused fun x hx => ?_
    by_contra hfinished
    exact hno ⟨x, hx, Bool.eq_false_iff.mpr hfinished⟩
  refine ⟨hbooks.list_eq h, ⟨(List.length_map _).symm, hbooks.counted⟩, fun n s hs => ?_,
    fun n => remove_eq, ⟨?_, h.drops_prune, fun x hx => ?_⟩,
    fun n => ⟨fun hcancelled => ?_, fun ⟨x, hstatus, hx⟩ => ?_⟩, fun n => ?_⟩
  · obtain ⟨-, c, hcontext, hc⟩ := h.recorded hs
    rw [remove_finished hs]
    exact ⟨c, hcontext, hcontext, hc, q.drops_filter (· == n)⟩
  · have hlength := List.length_eq_length_filter_add (l := q.table) fun r => !r.state.isFinished
    simp only [Bool.not_not] at hlength
    rw [prune, list, List.countP_map, List.countP_eq_length_filter]
    dsimp only [Function.comp_def]
    omega
  · obtain ⟨r, hr, rfl⟩ := List.mem_map.mp hx
    exact (Bool.not_eq_true' _).mp (List.mem_filter.mp hr).2
  · by_contra hno
    rw [hunfinished hno] at hcancelled
    cases hcancelled
  · rw [cancel_eq hstatus hx]
  · by_cases hx : ∃ x, q.status? n = some x ∧ x.isFinished = false
    · obtain ⟨x, hstatus, hx⟩ := hx
      rw [cancel_eq hstatus hx]
      obtain ⟨r, hr, hn, -⟩ := exists_of_status? hstatus
      exact cancels ⟨r, hr, hn⟩
    · rw [hunfinished hx]
      exact rfl

end Queue
end Runbook
