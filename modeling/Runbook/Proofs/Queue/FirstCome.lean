import Runbook.Proofs.Queue.Passing
import Runbook.Proofs.Queue.Undisturbed

/-!
# Tasks that have their turns as they come

Left to itself a queue gives the next turn to the task that has been ready for the longest time, and
wakes no task but those on its agenda (`Queue.FirstCome`, `Queue.exists_firstCome_settle`).

Then nobody has to see to it that the branches of a parallel run are taken in order, if its
executors do not wait.  They get ready all at once and in the order of the steps, and each is over
after its first turn, so that none falls asleep and comes again later (`Queue.Ranked`).  So such a
run comes to the same as the direct run (`Queue.matches_of_firstCome`, `Queue.matches_settle`).
-/

namespace Runbook

variable {σ : Type}

namespace Queue

variable {e : Engine σ} {q q' : Queue σ} {r : QueuedRun} {bound n : Nat} {ev : Event}

/-! ## Branches in order -/

/-- Where a run stands whose branches come in the order of the steps. -/
structure Ranked (n : Nat) (a : Agenda Task) (s : Stage (UnderWay σ) RunEnd) : Prop where
  /-- None of them sleeps. -/
  awake : a.Awake (·.isBranchOf n)
  /-- Those that are ready are so in the order of the steps. -/
  ordered : ∃ is : List Nat, is.Pairwise (· < ·) ∧
    a.ready.filter (·.isBranchOf n) = is.map (.branch n)
  /-- There are none before they are set up. -/
  unspread : s.Unspread → a.ready.filter (·.isBranchOf n) = []

variable {a b : Agenda Task} {s s' : Stage (UnderWay σ) RunEnd} {i : Nat}

theorem ranked_of_nil (hawake : a.Awake (·.isBranchOf n))
    (hnil : a.ready.filter (·.isBranchOf n) = []) (s : Stage (UnderWay σ) RunEnd) : Ranked n a s :=
  ⟨hawake, ⟨[], .nil, hnil⟩, fun _ => hnil⟩

theorem Ranked.passes (h : Ranked n a s) (hpasses : a.Passes (·.isBranchOf n) b)
    (hs : s'.Unspread → s.Unspread) : Ranked n b s' where
  awake := hpasses.awake h.awake
  ordered := hpasses.ready.symm ▸ h.ordered
  unspread := fun hs' => hpasses.ready.trans (h.unspread (hs hs'))

/-- Branches that are set up get ready in the order of the steps. -/
theorem Ranked.setsUp (h : Ranked n q.agenda s) (hs : q.gate.stages[n]? = some s)
    (hset : SetsUp n q q') (hs' : q'.gate.stages[n]? = some s') : Ranked n q'.agenda s' := by
  obtain ⟨s₀, hs₀, hunspread⟩ := hset.before
  obtain ⟨f, hf⟩ := hset.after
  obtain ⟨a, k, hpasses, hagenda⟩ := hset.agenda
  cases hs.symm.trans hs₀
  cases hf.symm.trans hs'
  have hnil : a.ready.filter (·.isBranchOf n) = [] := hpasses.ready.trans (h.unspread hunspread)
  have hbranches : ∀ t ∈ (List.range k).map (Task.branch n), t.isBranchOf n = true := by
    intro t ht
    obtain ⟨i, -, rfl⟩ := List.mem_map.mp ht
    exact beq_self_eq_true n
  have hnodup : ((List.range k).map (Task.branch n)).Nodup :=
    List.nodup_range.map fun _ _ heq => (Task.branch.inj heq).2
  rw [hagenda]
  refine ⟨(hpasses.awake h.awake).wakeAll _, ⟨List.range k, List.pairwise_lt_range, ?_⟩, nofun⟩
  rw [Agenda.filter_ready_wakeAll_self hbranches hnodup ?_, hnil, List.nil_append]
  intro t ht hready
  exact List.filter_eq_nil_iff.mp hnil t hready (hbranches t ht)

/-- The branch that has its turn is the first one in the order of the steps. -/
theorem Ranked.behead (h : Ranked n a s) (hcomes : a.ready.head? = some (.branch n i)) :
    ∃ is : List Nat, (∀ j ∈ is, i < j) ∧ is.Pairwise (· < ·) ∧
      (a.without (.branch n i)).ready.filter (·.isBranchOf n) = is.map (.branch n) ∧
      a.ready.filter (·.isBranchOf n) = (i :: is).map (.branch n) := by
  obtain ⟨is, hordered, hfilter⟩ := h.ordered
  obtain ⟨ts, hready⟩ := List.head?_eq_some_iff.mp hcomes
  have hwithout : (a.without (.branch n i)).ready = ts := by
    rw [Agenda.without, hready]
    exact List.erase_cons_head _ _
  have hself : (Task.branch n i).isBranchOf n = true := beq_self_eq_true n
  rw [hready, List.filter_cons, if_pos hself] at hfilter ⊢
  cases is with
  | nil => cases hfilter
  | cons j js =>
    obtain ⟨hj, hjs⟩ := List.cons.inj hfilter
    obtain rfl := (Task.branch.inj hj).2
    obtain ⟨hfirst, hordered⟩ := List.pairwise_cons.mp hordered
    exact ⟨js, hfirst, hordered, hwithout ▸ hjs, congrArg _ hjs⟩

/-- No branch of an earlier step is ready then. -/
theorem Ranked.inOrder (h : Ranked n a s) (hcomes : a.ready.head? = some (.branch n i)) :
    ∀ j < i, .branch n j ∉ a.ready := by
  intro j hj hready
  obtain ⟨is, hfirst, -, -, hfilter⟩ := h.behead hcomes
  have hmem : Task.branch n j ∈ a.ready.filter (·.isBranchOf n) :=
    List.mem_filter.mpr ⟨hready, beq_self_eq_true n⟩
  rw [hfilter] at hmem
  obtain ⟨k, hk, heq⟩ := List.mem_map.mp hmem
  obtain rfl := (Task.branch.inj heq).2
  obtain rfl | hk := List.mem_cons.mp hk
  · exact Nat.lt_irrefl _ hj
  · exact Nat.lt_asymm hj (hfirst _ hk)

/-- A branch of a run that waits for its branches has its turn. -/
theorem branchTurn_fan {f : Fan σ} (hs : q.gate.stages[r.number]? = some (.inside (.fan f)))
    (i : Nat) :
    branchTurn e q r i =
      q.close r (.branch r.number i)
        (q.gate.put r.number
          (.inside (.fan { f with branches := (e.turn f i (q.worldOf r)).branches })))
        (e.turn f i (q.worldOf r)).world
        ((e.turn f i (q.worldOf r)).granted.map (.branch r.number))
        (e.turn f i (q.worldOf r)).sleep
        (if ((e.turn f i (q.worldOf r)).branches.stages[i]?.bind (·.outcome?)).isSome then
          [.run r.number] else []) := by
  rw [branchTurn, hs]

/-- The turn of a branch of a run that is over is for nothing. -/
theorem branchTurn_ended {x : RunEnd} (hs : q.gate.stages[r.number]? = some (.ended x)) (i : Nat) :
    branchTurn e q r i = q := by
  rw [branchTurn, hs]

/-- The branch that has its turn first is taken off the agenda. -/
theorem happen_branch (hcomes : q.agenda.ready.head? = some (.branch r.number i))
    (hfind : q.find? r.number = some r) :
    q.happen e (.turn (.branch r.number i)) =
      branchTurn e (q.without (.branch r.number i)) r i := by
  have hfind' : (q.without (.branch r.number i)).find? (Task.branch r.number i).number = some r :=
    hfind
  rw [happen, if_pos (List.mem_of_mem_head? hcomes)]
  simp only [turn, hfind']

/-- The turn of a branch that does not fall asleep and passes no place on. -/
theorem Ranked.branchTurn (h : Ranked n q.agenda s)
    (hcomes : q.agenda.ready.head? = some (.branch n i)) (hfind : q.find? n = some r)
    (hs : q.gate.stages[n]? = some s)
    (hover : ∀ f, s = .inside (.fan f) →
      (e.turn f i (q.worldOf r)).granted = none ∧ (e.turn f i (q.worldOf r)).sleep = none)
    (hs' : (q.happen e (.turn (.branch n i))).gate.stages[n]? = some s') :
    Ranked n (q.happen e (.turn (.branch n i))).agenda s' := by
  obtain ⟨is, -, hordered, hrest, hfilter⟩ := h.behead hcomes
  obtain rfl := (find?_eq_some hfind).2
  have hspread : ¬ s.Unspread := by
    intro hunspread
    rw [h.unspread hunspread] at hfilter
    cases hfilter
  have hawake : (q.without (.branch r.number i)).agenda.Awake (·.isBranchOf r.number) := h.awake
  rw [happen_branch hcomes hfind] at hs' ⊢
  cases s with
  | inside u =>
    cases u with
    | single next => exact absurd trivial hspread
    | fan f =>
      obtain ⟨hgranted, hsleep⟩ := hover f rfl
      have hlt := (List.getElem?_eq_some_iff.mp hs).1
      rw [branchTurn_fan (q := q.without (.branch r.number i)) hs] at hs' ⊢
      cases (List.getElem?_set_self hlt).symm.trans hs'
      have hwithout : Ranked r.number (q.without (.branch r.number i)).agenda
          (.inside (.fan f)) := ⟨hawake, ⟨is, hordered, hrest⟩, False.elim⟩
      refine hwithout.passes (passes_close hawake (.inl hsleep) (fun k hk => ?_) fun k hk => ?_)
        False.elim
      · obtain ⟨j, hj, -⟩ := Option.map_eq_some_iff.mp hk
        cases hgranted.symm.trans hj
      · split at hk
        · rw [List.mem_singleton.mp hk]
          rfl
        · cases hk
  | ended b =>
    rw [branchTurn_ended (q := q.without (.branch r.number i)) hs] at hs' ⊢
    cases hs.symm.trans hs'
    exact ⟨hawake, ⟨is, hordered, hrest⟩, False.elim⟩
  | _ => exact absurd trivial hspread

/-- A run that has not set up its branches had not done so before. -/
theorem Fares.unspread {mode : Mode} {seq : Sequence} {x y : Sight σ}
    (h : Fares e n seq mode ev x y) (hy : y.stage.Unspread) : x.stage.Unspread := by
  cases h with
  | stays => exact hy
  | granted => trivial
  | @admitted _ stage _ _ _ houtside =>
    cases stage with
    | inside u => cases houtside
    | ended b => cases houtside
    | _ => trivial
  | rests => exact hy
  | @turned _ _ w _ _ _ hstrides =>
    cases hstrides with
    | outside hproceeds =>
      cases hproceeds with
      | comes => trivial
      | waits => trivial
      | calledOff => exact hy.elim
    | goesOn hresumes =>
      cases hresumes with
      | single => trivial
      | @joined f _ =>
        obtain ⟨c, v, hended⟩ | ⟨m, v, hended⟩ := e.advance_join f w
        · dsimp only at hy
          rw [hended] at hy
          exact hy.elim
        · dsimp only at hy
          rw [hended] at hy
          exact hy.elim
    | branch => exact hy.elim

/-! ## Histories -/

/-- Throughout a history tasks have their turns as they come. -/
def FirstCome (e : Engine σ) : Queue σ → List Event → Prop :=
  Throughout e fun q => AsTheyCome q.agenda

/-- The branches of the run with number `n` come in order, if it is a parallel one and does not
wait.  The run of its sequence alone that begins in the world `v` has come as far. -/
structure LinesUp (e : Engine σ) (n bound : Nat) (v : World σ) (q : Queue σ) : Prop where
  /-- It has no branches before it is submitted. -/
  unknown : q.gate.stages[n]? = none →
    q.agenda.Awake (·.isBranchOf n) ∧ q.agenda.ready.filter (·.isBranchOf n) = []
  /-- From then on its branches are ranked. -/
  known : ∀ r ∈ q.table, r.number = n → r.mode = .parallel bound → e.Wakeful r.sequence.steps →
    ∀ s, q.gate.stages[n]? = some s →
      Abides e n bound r.sequence v (q.worldOf r) q.agenda s ∧ Ranked n q.agenda s

variable {bound' : Nat} {v : World σ}

theorem linesUp_new (e : Engine σ) (n bound : Nat) (v : World σ) (bound' : Nat) (clock : Timestamp)
    (surroundings : σ) : LinesUp e n bound v (new bound' clock surroundings) :=
  ⟨fun _ => ⟨(fun _ hs => nomatch hs), rfl⟩, fun _ hr => nomatch hr⟩

/-- A run has no branches before it is submitted, nor when it just was. -/
theorem LinesUp.unknown_happen (h : LinesUp e n bound v q) (hsound : q.Sound e bound')
    (hcomes : AsTheyCome q.agenda ev)
    (hnone : q.gate.stages[n]? = none) :
    (q.happen e ev).agenda.Awake (·.isBranchOf n) ∧
      (q.happen e ev).agenda.ready.filter (·.isBranchOf n) = [] := by
  obtain ⟨hawake, hnil⟩ := h.unknown hnone
  have hev : ∀ i, ev ≠ .turn (.branch n i) := by
    rintro i rfl
    exact List.filter_eq_nil_iff.mp hnil _ (List.mem_of_mem_head? hcomes) (beq_self_eq_true n)
  obtain hpasses | hset := hsound.passes_happen hawake hcomes hev
  · exact ⟨hpasses.awake hawake, hpasses.ready.trans hnil⟩
  · obtain ⟨s, hs, -⟩ := hset.before
    rw [hnone] at hs
    cases hs

/-- At an event the branches stay ranked. -/
theorem Ranked.happen (h : Ranked n q.agenda s) (hsound : q.Sound e bound')
    (hcomes : AsTheyCome q.agenda ev) {r r' : QueuedRun} (hr : r ∈ q.table) (hn : r.number = n)
    (hs : q.gate.stages[n]? = some s) (hs' : (q.happen e ev).gate.stages[n]? = some s')
    {seq : Sequence} {mode : Mode}
    (hfares : Fares e n seq mode ev (q.sight r s) ((q.happen e ev).sight r' s'))
    (hover : ∀ f i, s = .inside (.fan f) → ev = .turn (.branch n i) →
      (e.turn f i (q.worldOf r)).granted = none ∧ (e.turn f i (q.worldOf r)).sleep = none) :
    Ranked n (q.happen e ev).agenda s' := by
  by_cases hev : ∃ i, ev = .turn (.branch n i)
  · obtain ⟨i, rfl⟩ := hev
    exact h.branchTurn hcomes (hn ▸ hsound.find?_of_mem hr) hs (fun f hf => hover f i hf rfl) hs'
  · rw [not_exists] at hev
    obtain hpasses | hset := hsound.passes_happen h.awake hcomes hev
    · exact h.passes hpasses hfares.unspread
    · exact h.setsUp hs hset hs'

/-- At an event the branches of a run that is not cancelled stay lined up. -/
theorem LinesUp.happen (h : LinesUp e n bound v q) (hstateless : e.Stateless fun _ _ => True)
    (hv : v.Fresh) (hsound : q.Sound e bound') (hprogressive : q.Progressive)
    (hcomes : AsTheyCome q.agenda ev) (hnever : ev = .cancel n → (q.cancel n).1 = false) :
    LinesUp e n bound v (q.happen e ev) where
  unknown := by
    intro hnone
    refine h.unknown_happen hsound hcomes (List.getElem?_eq_none ?_)
    exact Nat.le_trans (hsound.length_le ev) (List.getElem?_eq_none_iff.mp hnone)
  known := by
    rintro r' hr' rfl hmode hwakeful s' hs'
    cases hsound.fares hprogressive hr' hnever with
    | submitted hnone hstage hfresh =>
      cases hstage.symm.trans hs'
      obtain ⟨hawake, hnil⟩ := h.unknown_happen hsound hcomes hnone
      exact ⟨hfresh, ranked_of_nil hawake hnil _⟩
    | @fares r s _ hr hnumber hsequence hmode' hs hs'' hfares =>
      cases hs''.symm.trans hs'
      rw [hnumber] at hs
      rw [hnumber, hsequence, hmode', hmode] at hfares
      obtain ⟨habides, hranked⟩ := h.known r hr hnumber (hmode'.trans hmode)
        (hsequence ▸ hwakeful) s hs
      rw [hsequence] at habides
      have horder : ∀ i, ev = .turn (.branch r'.number i) →
          ∀ j < i, .branch r'.number j ∉ q.agenda.ready := by
        rintro i rfl
        exact hranked.inOrder hcomes
      refine ⟨hfares.abides hstateless hwakeful hv horder habides,
        hranked.happen hsound hcomes hr hnumber hs hs' hfares ?_⟩
      rintro f i rfl hev
      exact (abides_branch hstateless hwakeful habides (horder i hev) (.refl _ _)).2

/-- Through a history in which it is not cancelled the branches of a run stay lined up. -/
theorem LinesUp.after (hstateless : e.Stateless fun _ _ => True) (hv : v.Fresh) :
    ∀ {history : List Event} {q : Queue σ}, LinesUp e n bound v q → q.Sound e bound' →
      q.Progressive → FirstCome e q history → NeverCancelled e n q history →
        LinesUp e n bound v (q.after e history)
  | [], _, h, _, _, _, _ => h
  | ev :: _, q, h, hsound, hprogressive, hcomes, hnever =>
      LinesUp.after (q := q.happen e ev) hstateless hv
        (h.happen hstateless hv hsound hprogressive hcomes.1 hnever.1) (hsound.happen ev)
        (hsound.progressive_happen hprogressive ev).1 hcomes.2 hnever.2

/-- If tasks have their turns as they come, a parallel run whose executors do not wait, and that
nobody cancels, comes to the same as the direct run. -/
theorem matches_of_firstCome (hstateless : e.Stateless fun _ _ => True) {clock : Timestamp}
    {surroundings : σ} {history : List Event}
    (hr : r ∈ ((new bound' clock surroundings).after e history).table)
    (hnever : NeverCancelled e r.number (new bound' clock surroundings) history)
    (hcomes : FirstCome e (new bound' clock surroundings) history)
    (hmode : r.mode = .parallel bound) (hwakeful : e.Wakeful r.sequence.steps) (hv : v.Fresh)
    {turns : Nat} (hturns : r.sequence.steps.length ≤ turns) :
    ((new bound' clock surroundings).after e history).Matches r.number
      (e.runIn turns (.parallel bound) r.sequence v).1 := by
  have hnew := sound_new e bound' clock surroundings
  have hsound := hnew.after history
  have hlined := (linesUp_new e r.number bound v bound' clock surroundings).after hstateless hv hnew
    (progressive_new bound' clock surroundings) hcomes hnever
  refine hsound.matches hr (fun b hb => ?_)
    (hsound.exists_ended hr fun s hs => (follows_after hr hnever hs).2)
  exact (hlined.known r hr rfl hmode hwakeful _ hb).1 turns hturns

/-! ## Settling -/

theorem throughout_append {P : Queue σ → Event → Prop} :
    ∀ {history more : List Event} {q : Queue σ}, Throughout e P q history →
      Throughout e P (q.after e history) more → Throughout e P q (history ++ more)
  | [], _, _, _, h' => h'
  | _ :: _, _, _, h, h' => ⟨h.1, throughout_append h.2 h'⟩

theorem after_wakes (ts : List Task) : ∀ q : Queue σ,
    q.after e (ts.map .wake) = { q with agenda := q.agenda.wakeAll ts } := by
  induction ts with
  | nil => exact fun _ => rfl
  | cons t ts ih => exact fun q => ih (q.happen e (.wake t))

/-- Tasks on the agenda are woken one after the other. -/
theorem firstCome_wakes : ∀ {ts : List Task} {q : Queue σ}, (∀ t ∈ ts, q.agenda.Holds t) →
    FirstCome e q (ts.map .wake)
  | [], _, _ => trivial
  | t :: _, _, h =>
      ⟨h t List.mem_cons_self,
        firstCome_wakes fun u hu => (h u (List.mem_cons_of_mem _ hu)).wake t⟩

/-- A turn, or the passing of time, is a history in which tasks have their turns as they come and no
run is cancelled. -/
theorem exists_firstCome_next? (h : next? e q = some q') :
    ∃ history, FirstCome e q history ∧ (∀ n, .cancel n ∉ history) ∧ q.after e history = q' := by
  rw [next?] at h
  split at h
  · next t a hturn =>
    cases h
    have hhead : q.agenda.ready.head? = some t := by
      rw [Agenda.turn?] at hturn
      split at hturn
      · cases hturn
      · next hready =>
        cases hturn
        rw [hready]
        rfl
    obtain ⟨hready, rfl⟩ := Agenda.turn?_eq_some hturn
    exact ⟨[.turn t], ⟨hhead, trivial⟩, by simp, if_pos hready⟩
  · obtain ⟨time, -, rfl⟩ := Option.map_eq_some_iff.mp h
    refine ⟨.pass time :: _, ⟨trivial, firstCome_wakes fun t ht => ?_⟩, by simp, after_wakes _ _⟩
    obtain ⟨s, hs, rfl⟩ := List.mem_map.mp ht
    exact .inr ⟨s, (List.mem_filter.mp hs).1, rfl⟩

/-- When a queue is left to itself tasks have their turns as they come, and no run is cancelled. -/
theorem exists_firstCome_settle : ∀ (turns : Nat) (q : Queue σ),
    ∃ history, FirstCome e q history ∧ (∀ n, .cancel n ∉ history) ∧
      q.after e history = settle e turns q
  | 0, _ => ⟨[], trivial, by simp, rfl⟩
  | turns + 1, q => by
      rw [settle]
      cases hnext : next? e q with
      | none => exact ⟨[], trivial, by simp, rfl⟩
      | some q' =>
        obtain ⟨history, hhistory, hnever, rfl⟩ := exists_firstCome_next? hnext
        obtain ⟨more, hmore, hnever', heq⟩ := exists_firstCome_settle turns (q.after e history)
        refine ⟨history ++ more, throughout_append hhistory hmore, fun n hn => ?_,
          (q.after_append e history more).trans heq⟩
        exact (List.mem_append.mp hn).elim (hnever n) (hnever' n)

/-- A run that nobody cancels comes to the same as the direct run when the queue is left to itself,
if it is a parallel run whose executors do not wait. -/
theorem matches_settle (hstateless : e.Stateless fun _ _ => True) {clock : Timestamp}
    {surroundings : σ} {history : List Event} {k : Nat}
    (hr : r ∈ (settle e k ((new bound' clock surroundings).after e history)).table)
    (hnever : NeverCancelled e r.number (new bound' clock surroundings) history)
    (hcomes : FirstCome e (new bound' clock surroundings) history)
    (hmode : r.mode = .parallel bound) (hwakeful : e.Wakeful r.sequence.steps) (hv : v.Fresh)
    {turns : Nat} (hturns : r.sequence.steps.length ≤ turns) :
    (settle e k ((new bound' clock surroundings).after e history)).Matches r.number
      (e.runIn turns (.parallel bound) r.sequence v).1 := by
  obtain ⟨more, hmore, hspared, heq⟩ :=
    exists_firstCome_settle (e := e) k ((new bound' clock surroundings).after e history)
  rw [← heq, ← after_append] at hr ⊢
  exact matches_of_firstCome hstateless hr
    (throughout_append hnever (neverCancelled_of_not_mem (hspared r.number)))
    (throughout_append hcomes hmore) hmode hwakeful hv hturns

end Queue
end Runbook
