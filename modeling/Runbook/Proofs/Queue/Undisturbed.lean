import Runbook.Proofs.Queue.Apart
import Runbook.Proofs.Run.Agreement
import Runbook.Proofs.Run.Alongside

/-!
# Runs in a queue do not disturb each other

Whatever else a queue is asked for and however its tasks have their turns, a run that nobody cancels
comes to what a direct run of its sequence comes to, in its mode and with variables of its own, as
long as executors depend on nothing but the step and the context of the run
(`Queue.undisturbed`).

A run step by step comes to the same whatever its executors wait for.  What a parallel run comes to
depends on the order in which its branches have their turns, and in each order it comes to what some
direct run does.  If its executors do not wait then a direct run takes its branches in the order of
the steps, and so the run in the queue comes to the same if its branches are taken *in order* there
(`Queue.InOrder`).
-/

namespace Runbook

variable {σ : Type}

namespace Queue

/-! ## Branches in order -/

section

variable (e : Engine σ) (n bound : Nat) (s : Sequence) (v₀ : World σ)

/-- Where a parallel run with number `n` stands whose branches are taken in order.  The run of the
sequence alone that begins in the world `v₀` has come as far. -/
def Abides (w : World σ) (a : Agenda Task) : Stage (UnderWay σ) RunEnd → Prop
  | .inside (.single next) => w.Fresh ∧ next = fun _ => work e s (.parallel bound)
  | .inside (.fan f) => ∃ c ends k, f = ⟨s.steps, c, Engine.inLine bound ends k⟩ ∧
      (Mode.parallel bound).fits = true ∧ e.Alongside bound s v₀ c ends k w ∧
      ∀ i, ends.length ≤ i → i < s.steps.length → .branch n i ∈ a.ready
  | .ended b => ∀ turns, s.steps.length ≤ turns →
      (e.runIn turns (.parallel bound) s v₀).1.Resembles b
  | .fresh => w.Fresh
  | .waiting => w.Fresh
  | .granted => w.Fresh

end

variable {e : Engine σ} {n bound : Nat} {s : Sequence} {v₀ w v : World σ} {a b : Agenda Task}
  {stage : Stage (UnderWay σ) RunEnd} {t : Task} {ev : Event}

theorem Abides.fresh (h : Abides e n bound s v₀ w a stage) (houtside : stage.isOutside = true) :
    w.Fresh := by
  cases stage with
  | fresh => exact h
  | waiting => exact h
  | granted => exact h
  | inside u => cases houtside
  | ended b => cases houtside

theorem Abides.elsewhere (h : Abides e n bound s v₀ w a stage) (hv : w.Elsewhere v)
    (hkeeps : a.Keeps (·.number = n) b) : Abides e n bound s v₀ v b stage := by
  cases stage with
  | fresh => exact hv.fresh h
  | waiting => exact hv.fresh h
  | granted => exact hv.fresh h
  | ended x => exact h
  | inside u =>
    cases u with
    | single next => exact ⟨hv.fresh h.1, h.2⟩
    | fan f =>
      obtain ⟨c, ends, k, hf, hfits, halong, hready⟩ := h
      exact ⟨c, ends, k, hf, hfits, halong.elsewhere hv,
        fun i hi hlt => hkeeps.ready _ rfl (hready i hi hlt)⟩

theorem runIn_of_fits (hfits : (Mode.parallel bound).fits = true) (turns : Nat) :
    e.runIn turns (.parallel bound) s v₀ = e.runParallel turns bound s v₀ :=
  if_pos hfits

/-- A run that ends like the run alone. -/
theorem abides_ended {x : Activity (World σ) Context}
    (h : ∀ turns, s.steps.length ≤ turns →
      x.EndsLike w (e.runIn turns (.parallel bound) s v₀).1)
    (v : World σ) (a : Agenda Task) :
    Abides e n bound s v₀ v a
      ((x.bind fun c => .done (.ended c)).advance (·.cancelled) w).1.stage := by
  rw [Activity.advance_bind]
  generalize hp : x.advance (·.cancelled) w = p
  simp only [Activity.EndsLike, hp] at h
  obtain ⟨c, u, rfl, -⟩ | ⟨m, u, rfl, -⟩ := h _ (Nat.le_refl _)
  · intro turns hturns
    obtain ⟨_, _, heq, hresembles⟩ | ⟨_, _, heq, -⟩ := h turns hturns
    · cases heq
      exact hresembles
    · cases heq
  · intro turns hturns
    obtain ⟨_, _, heq, -⟩ | ⟨_, _, -, hresembles⟩ := h turns hturns
    · cases heq
    · exact hresembles

/-- A run that begins sets up its branches, or is over. -/
theorem abides_work (hstateless : e.Stateless fun _ _ => True) (hv : v₀.Fresh) (hw : w.Fresh)
    (hready : ∀ f, ((work e s (.parallel bound)).advance (·.cancelled) w).1 = .done (.spread f) →
      ∀ i, i < f.steps.length → .branch n i ∈ a.ready) :
    Abides e n bound s v₀ ((work e s (.parallel bound)).advance (·.cancelled) w).2 a
      ((work e s (.parallel bound)).advance (·.cancelled) w).1.stage := by
  rw [work] at hready ⊢
  split at hready
  · next hfits =>
    have hrunIn := fun turns => @runIn_of_fits σ e bound s v₀ hfits turns
    rw [if_pos hfits]
    simp only [Activity.bind_eq, Activity.advance_bind] at hready ⊢
    obtain ⟨c, w', hbegin, halong⟩ | ⟨c, w', hbegin, hends⟩ := hstateless.alongside bound s hw hv
    · simp only [hbegin] at hready ⊢
      split at hready
      · next hempty =>
        rw [if_pos hempty]
        rw [List.isEmpty_iff.mp hempty, List.length_nil] at halong
        have hfan : (Engine.fan bound s c : Fan σ) = ⟨s.steps, c, Engine.inLine bound [] 0⟩ := by
          rw [Engine.inLine_nil, Engine.fan, List.isEmpty_iff.mp hempty]
          rfl
        rw [hfan]
        exact abides_ended (fun turns hturns => hrunIn turns ▸ halong.joined hstateless hturns) _ a
      · next hsteps =>
        rw [if_neg hsteps]
        exact ⟨c, [], s.steps.length, rfl, hfits, halong, fun i _ hi => hready _ rfl i hi⟩
    · simp only [hbegin]
      exact abides_ended (fun turns _ => hrunIn turns ▸ hends turns) _ a
  · next hfits =>
    rw [if_neg hfits]
    refine abides_ended (fun turns _ => ?_) _ a
    rw [Engine.runIn, if_neg hfits]
    exact hstateless.oversized_endsLike s hw hv

/-- The turn of a branch leaves the branches in line.  It passes no place on and does not fall
asleep. -/
theorem abides_branch (hstateless : e.Stateless fun _ _ => True) (hwakeful : e.Wakeful s.steps)
    {f : Fan σ} {i : Nat} (h : Abides e n bound s v₀ w a (.inside (.fan f)))
    (horder : ∀ j < i, .branch n j ∉ a.ready)
    (hkeeps : a.Keeps (fun u => u.number = n ∧ u ≠ .branch n i) b) :
    Abides e n bound s v₀ (e.turn f i w).world b
        (.inside (.fan { f with branches := (e.turn f i w).branches })) ∧
      (e.turn f i w).granted = none ∧ (e.turn f i w).sleep = none := by
  obtain ⟨c, ends, k, rfl, hfits, halong, hready⟩ := h
  have hlength := halong.length
  have hstill : ∀ j, ends.length ≤ j → j < s.steps.length → j ≠ i → .branch n j ∈ b.ready :=
    fun j hj hlt hne => hkeeps.ready _ ⟨rfl, fun heq => hne (Task.branch.inj heq).2⟩
      (hready j hj hlt)
  obtain hi | ⟨rfl, hk⟩ :
      (i < ends.length ∨ s.steps.length ≤ i) ∨ i = ends.length ∧ ends.length < s.steps.length := by
    by_cases hlt : ends.length < i ∧ i < s.steps.length
    · exact absurd (hready ends.length (Nat.le_refl _) (Nat.lt_trans hlt.1 hlt.2))
        (horder _ hlt.1)
    · omega
  · -- The branch is over, or there is none.
    have hgone := Engine.turn_of_gone (e := e) (f := ⟨s.steps, c, Engine.inLine bound ends k⟩)
      (i := i) (fun stage hstage => ?_) w
    · rw [hgone]
      exact ⟨⟨c, ends, k, rfl, hfits, halong, fun j hj hlt => hstill j hj hlt (by omega)⟩, rfl, rfl⟩
    · dsimp only [Engine.inLine] at hstage
      obtain hi | hi := hi
      · rw [List.getElem?_append_left (by rwa [List.length_map]), List.getElem?_map] at hstage
        obtain ⟨b, -, rfl⟩ := Option.map_eq_some_iff.mp hstage
        exact ⟨b, rfl⟩
      · rw [List.getElem?_eq_none (by simpa [hlength] using hi)] at hstage
        cases hstage
  · obtain ⟨k, rfl⟩ : ∃ m, k = m + 1 := Nat.exists_eq_add_one.mpr (by omega)
    have hstep := List.getElem?_eq_getElem hk
    obtain ⟨x, w', htaken⟩ :=
      (hwakeful.of_mem (List.mem_of_getElem? hstep)).exists_taken c w
    rw [htaken.turn hstep]
    refine ⟨⟨c, ends ++ [x], k, rfl, hfits, halong.taken hstateless hstep htaken,
      fun j hj hlt => ?_⟩, rfl, rfl⟩
    rw [List.length_append, List.length_singleton] at hj
    exact hstill j (by omega) hlt (by omega)

/-- In its turn a run that is inside abides. -/
theorem Strides.abides (hstateless : e.Stateless fun _ _ => True) (hwakeful : e.Wakeful s.steps)
    (hv : v₀.Fresh) {y : Stretch σ} (h : Strides e n t stage w y)
    (hx : Abides e n bound s v₀ w a stage)
    (horder : ∀ i, t = .branch n i → ∀ j < i, .branch n j ∉ a.ready) (cancelled : Bool) :
    Abides e n bound s v₀ y.world (y.noted (a.without t) t n cancelled) y.stage := by
  cases h with
  | outside hproceeds =>
    cases hproceeds with
    | comes => exact hx
    | waits => exact hx
    | calledOff hcancelled houtside =>
      rw [(hx.fresh houtside).cancelled] at hcancelled
      cases hcancelled
  | goesOn hresumes _ hnext =>
    cases hresumes with
    | single =>
      obtain ⟨hw, rfl⟩ := hx
      refine abides_work hstateless hv hw fun f hf i hi => ?_
      rw [Stretch.noted_of_under (by rw [hf]; rfl), hnext f hf]
      exact Agenda.mem_ready_wakeAll_of_mem (List.mem_map.mpr ⟨i, List.mem_range.mpr hi, rfl⟩)
    | joined hover =>
      obtain ⟨c, ends, k, rfl, hfits, halong, -⟩ := hx
      dsimp only at hover
      rw [Engine.isEmpty_inLine, beq_iff_eq] at hover
      subst hover
      refine abides_ended (fun turns hturns => ?_) _ _
      rw [runIn_of_fits hfits]
      exact halong.joined hstateless hturns
  | branch =>
    refine (abides_branch hstateless hwakeful hx (horder _ rfl) ?_).1
    exact (Agenda.keeps_without _ (fun _ hu => hu.2) a).trans (keeps_noted _ _ _ _ n cancelled)

/-- A run that fares on while its branches are taken in order abides. -/
theorem Fares.abides (hstateless : e.Stateless fun _ _ => True) (hwakeful : e.Wakeful s.steps)
    (hv : v₀.Fresh) {x y : Sight σ} (h : Fares e n s (.parallel bound) ev x y)
    (horder : ∀ i, ev = .turn (.branch n i) → ∀ j < i, .branch n j ∉ x.agenda.ready)
    (hx : Abides e n bound s v₀ x.world x.agenda x.stage) :
    Abides e n bound s v₀ y.world y.agenda y.stage := by
  cases h with
  | stays hv hkeeps => exact hx.elsewhere hv hkeeps
  | granted hv => exact hv.fresh hx
  | admitted houtside => exact ⟨hx.fresh houtside, rfl⟩
  | @rests _ stage w a hidle =>
    cases hidle with
    | branch hnot =>
      cases stage with
      | inside u =>
        cases u with
        | single next => exact hx
        | fan f => exact absurd rfl (hnot f)
      | _ => exact hx
    | fan =>
      obtain ⟨c, ends, k, hf, hfits, halong, hready⟩ := hx
      refine ⟨c, ends, k, hf, hfits, halong, fun i hi hlt => ?_⟩
      exact (Agenda.keeps_without (· = .branch n i) (by rintro _ rfl; exact nofun)
        a).ready _ rfl (hready i hi hlt)
    | ended => exact hx
  | turned hstrides =>
    exact hstrides.abides hstateless hwakeful hv hx (fun i hi => horder i (congrArg _ hi)) _

/-! ## Histories -/

/-- No branch of the run with a number has its turn while one of an earlier step is ready. -/
def InOrder (e : Engine σ) (n : Nat) : Queue σ → List Event → Prop :=
  Throughout e fun q ev => ∀ i, ev = .turn (.branch n i) → ∀ j < i, .branch n j ∉ q.agenda.ready

/-- No task of the run with a number is on the agenda, ready or asleep. -/
def NothingLeft (q : Queue σ) (n : Nat) : Prop := ∀ t : Task, t.number = n → ¬ q.agenda.Holds t

theorem nothingLeft_of_empty {q : Queue σ} (h : q.agenda = Agenda.empty) (n : Nat) :
    q.NothingLeft n := by
  rintro t - (ht | ⟨_, ht, -⟩)
  · rw [h] at ht
    cases ht
  · rw [h] at ht
    cases ht

/-- The run with a number comes to what another one comes to that has the ending, apart from
identities and times. -/
structure Matches (q : Queue σ) (n : Nat) (ending : Ending Context) : Prop where
  /-- A record of the run is like that of the other one. -/
  record : ∀ c, q.context? n = some c →
    ∃ c', ending = .returned c' ∧ c.timeless = c'.timeless
  /-- When nothing is left to be done for the run, it has a record if the other one has. -/
  concluded : q.NothingLeft n → ∀ c', ending = .returned c' → ∃ c, q.context? n = some c

/-- After a history a run in the table, which nobody has cancelled, has come to what a direct run of
its sequence comes to. -/
structure Undisturbed (e : Engine σ) (q₀ : Queue σ) (history : List Event) (r : QueuedRun) :
    Prop where
  /-- Its record is that of a direct run, beside which the clock, the reports and the surroundings
  change. -/
  apart : ∀ c, (q₀.after e history).context? r.number = some c →
    ∃ w w', w.Fresh ∧ e.Runs World.Elsewhere r.mode r.sequence w (.returned c) w'
  /-- When nothing is left to be done for it, it has a record, unless the reporter panicked or the
  run asked for too many places. -/
  recorded : (q₀.after e history).NothingLeft r.number →
    (∃ c, (q₀.after e history).context? r.number = some c) ∨ (∃ n m, e.PanicsOn n m) ∨
      r.mode.fits = false
  /-- If executors depend on nothing but the step and the context, a run step by step comes to the
  same as the direct run, unless this one waits for a cancellation. -/
  sequential : (e.Stateless fun _ _ => True) → r.mode = .sequential → ∀ v : World σ, v.Fresh →
    (e.run r.sequence v).1 ≠ .stuck →
    (q₀.after e history).Matches r.number (e.run r.sequence v).1
  /-- A parallel run comes to what some direct run comes to, beside which nothing happens but that
  time passes. -/
  parallel : (e.Stateless fun _ _ => True) → ∀ bound, r.mode = .parallel bound →
    ∀ v : World σ, v.Fresh → ∀ c, (q₀.after e history).context? r.number = some c →
      ∃ c' v', e.Parallel World.Lapse bound r.sequence v (.returned c') v' ∧
        c.timeless = c'.timeless
  /-- If its executors do not wait either, and its branches have their turns in order, it comes to
  the same as the direct run. -/
  inOrder : (e.Stateless fun _ _ => True) → ∀ bound, r.mode = .parallel bound →
    e.Wakeful r.sequence.steps → InOrder e r.number q₀ history →
    ∀ turns, r.sequence.steps.length ≤ turns → ∀ v : World σ, v.Fresh →
      (q₀.after e history).Matches r.number (e.runIn turns (.parallel bound) r.sequence v).1

/-- Nobody cancels a run in a history in which nobody asks for it. -/
theorem neverCancelled_of_not_mem {e : Engine σ} {n : Nat} :
    ∀ {history : List Event} {q : Queue σ}, .cancel n ∉ history → NeverCancelled e n q history
  | [], _, _ => trivial
  | ev :: history, _, h => by
      rw [List.mem_cons, not_or] at h
      exact ⟨fun heq => absurd heq.symm h.1, neverCancelled_of_not_mem h.2⟩

/-- A history is always as nothing forbids. -/
theorem throughout_true (e : Engine σ) : ∀ (q : Queue σ) (history : List Event),
    Throughout e (fun _ _ => True) q history
  | _, [] => trivial
  | q, ev :: history => ⟨trivial, throughout_true e (q.happen e ev) history⟩

variable {q : Queue σ} {r : QueuedRun}

/-- A run that has left a record has come to its end. -/
theorem Sound.ended_of_context? (h : q.Sound e bound) (hr : r ∈ q.table) {c : Context}
    (hc : q.context? r.number = some c) :
    q.gate.stages[r.number]? = some (.ended (.finished c)) := by
  obtain ⟨s, hs, hshows⟩ := h.exists_stage hr
  rw [hs, hshows.of_record ((h.context?_of_mem hr).symm.trans hc)]

/-- A run that has come to its end has left its record when nothing is left to be done for it. -/
theorem Sound.context?_of_ended (h : q.Sound e bound) (hr : r ∈ q.table) {c : Context}
    (hs : q.gate.stages[r.number]? = some (.ended (.finished c))) (hleft : q.NothingLeft r.number) :
    q.context? r.number = some c := by
  rw [h.context?_of_mem hr]
  cases h.shows r hr _ hs with
  | outside houtside => cases houtside
  | finished _ hrecord => exact hrecord
  | ending hstate =>
    -- The run would still have something to put down.
    refine absurd (.inl ((h.stands _ _ hs).telling r hr rfl ?_)) (hleft (.run r.number) rfl)
    obtain hrunning | ⟨hqueued, -⟩ := hstate
    · rw [QueuedRun.Owes, hrunning]
      rfl
    · rw [QueuedRun.Owes, hqueued]
      rfl

/-- A run that has come up to the like of an ending matches it. -/
theorem Sound.matches (h : q.Sound e bound) (hr : r ∈ q.table) {ending : Ending Context}
    (hended : ∀ b, q.gate.stages[r.number]? = some (.ended b) → ending.Resembles b)
    (hover : q.NothingLeft r.number → ∃ b, q.gate.stages[r.number]? = some (.ended b)) :
    q.Matches r.number ending where
  record := by
    intro c hc
    cases hended _ (h.ended_of_context? hr hc) with
    | finished heq => exact ⟨_, rfl, heq⟩
  concluded := by
    rintro hleft c' rfl
    obtain ⟨b, hb⟩ := hover hleft
    cases hended b hb with
    | finished => exact ⟨_, h.context?_of_ended hr hb hleft⟩

/-- A run is over when nothing is left to be done for it. -/
theorem Sound.exists_ended (h : q.Sound e bound) (hr : r ∈ q.table)
    (hattended : ∀ s, q.gate.stages[r.number]? = some s → Attended r.number q.agenda s)
    (hleft : q.NothingLeft r.number) : ∃ b, q.gate.stages[r.number]? = some (.ended b) := by
  obtain ⟨s, hs⟩ : ∃ s, q.gate.stages[r.number]? = some s :=
    ⟨_, List.getElem?_eq_getElem (h.known r hr)⟩
  have hstands := h.stands _ _ hs
  have hattended := hattended _ hs
  cases s with
  | ended b => exact ⟨b, hs⟩
  | fresh => exact absurd (.inl (hstands.eager rfl)) (hleft (.run r.number) rfl)
  | waiting => exact absurd (hstands.held rfl) (hleft (.run r.number) rfl)
  | granted => exact absurd (.inl (hstands.eager rfl)) (hleft (.run r.number) rfl)
  | inside u =>
    cases u with
    | single next => exact absurd hattended (hleft _ rfl)
    | fan f =>
      obtain ⟨-, hrun, hbranches⟩ := hattended
      have hover : f.branches.isEmpty = true := by
        refine List.all_eq_true.mpr fun s hs => ?_
        obtain ⟨i, hi⟩ := List.mem_iff_getElem?.mp hs
        rw [Option.isSome_iff_ne_none]
        exact fun hnot => hleft _ rfl (hbranches i s hi hnot)
      exact absurd (.inl (hrun hover)) (hleft (.run r.number) rfl)

section

variable {clock : Timestamp} {surroundings : σ} {history : List Event}

/-- A run that nobody cancels is on its way apart, and attended to. -/
theorem follows_after (hr : r ∈ ((new bound clock surroundings).after e history).table)
    (hnever : NeverCancelled e r.number (new bound clock surroundings) history)
    {s : Stage (UnderWay σ) RunEnd}
    (hs : ((new bound clock surroundings).after e history).gate.stages[r.number]? = some s) :
    Follows e r.sequence r.mode (((new bound clock surroundings).after e history).worldOf r) s ∧
      Attended r.number ((new bound clock surroundings).after e history).agenda s :=
  Sound.fortunes
    (fun s mode x => Follows e s mode x.world x.stage ∧ Attended r.number x.agenda x.stage)
    (fun _ _ => True)
    (fun s mode x hstage hworld => by rw [hstage]; exact ⟨hworld, trivial⟩)
    (fun s mode ev x y _ hfares hx => ⟨hfares.follows hx.1, hfares.attended hx.1 hx.2⟩)
    (sound_new e bound clock surroundings) (progressive_new bound clock surroundings) hnever
    (throughout_true e _ history) (fun _ hr => nomatch hr) r hr rfl s hs

/-- If its branches are taken in order it has the run alone alongside. -/
theorem abides_after (hstateless : e.Stateless fun _ _ => True) (hv : v.Fresh) {bound' : Nat}
    (hr : r ∈ ((new bound' clock surroundings).after e history).table)
    (hnever : NeverCancelled e r.number (new bound' clock surroundings) history)
    (hmode : r.mode = .parallel bound) (hwakeful : e.Wakeful r.sequence.steps)
    (horder : InOrder e r.number (new bound' clock surroundings) history)
    {s : Stage (UnderWay σ) RunEnd}
    (hs : ((new bound' clock surroundings).after e history).gate.stages[r.number]? = some s) :
    Abides e r.number bound r.sequence v
      (((new bound' clock surroundings).after e history).worldOf r)
      ((new bound' clock surroundings).after e history).agenda s :=
  Sound.fortunes
    (fun s mode x => mode = .parallel bound → e.Wakeful s.steps →
      Abides e r.number bound s v x.world x.agenda x.stage)
    (fun a ev => ∀ i, ev = .turn (.branch r.number i) →
      ∀ j < i, Task.branch r.number j ∉ a.ready)
    (fun s mode x hstage hworld _ _ => by rw [hstage]; exact hworld)
    (fun s mode ev x y hallowed hfares hx hmode hwakeful => by
      subst hmode
      exact hfares.abides hstateless hwakeful hv hallowed (hx rfl hwakeful))
    (sound_new e bound' clock surroundings) (progressive_new bound' clock surroundings) hnever
    horder (fun _ hr => nomatch hr) r hr rfl s hs hmode hwakeful

end

/-- Whatever executors and reporter do, whatever a queue is asked for and in whatever order its
tasks have their turns, a run that nobody cancels is not disturbed by the others. -/
theorem undisturbed (e : Engine σ) (bound : Nat) (clock : Timestamp) (surroundings : σ)
    (history : List Event) (r : QueuedRun)
    (hr : r ∈ ((new bound clock surroundings).after e history).table)
    (hnever : NeverCancelled e r.number (new bound clock surroundings) history) :
    Undisturbed e (new bound clock surroundings) history r := by
  have hsound := (sound_new e bound clock surroundings).after history
  have hended := fun c => hsound.ended_of_context? hr (c := c)
  have hcameTo : ∀ b, ((new bound clock surroundings).after e history).gate.stages[r.number]? =
      some (.ended b) → e.CameTo r.sequence r.mode b :=
    fun b hb => (follows_after hr hnever hb).1
  have hover := hsound.exists_ended hr fun s hs => (follows_after hr hnever hs).2
  constructor
  case apart =>
    intro c hc
    obtain ⟨w, ending, w', hw, hrun, hleaves⟩ | ⟨-, hcrashed⟩ := hcameTo _ (hended c hc)
    · cases hleaves
      exact ⟨w, w', hw, hrun⟩
    · cases hcrashed
  case recorded =>
    intro hleft
    obtain ⟨b, hb⟩ := hover hleft
    cases b with
    | finished c => exact .inl ⟨c, hsound.context?_of_ended hr hb hleft⟩
    | crashed =>
      refine .inr ?_
      cases hsound.shows r hr _ hb with
      | outside houtside => cases houtside
      | @brokenOff m _ _ hbreaks => exact hbreaks.imp_left fun ⟨n, hn⟩ => ⟨n, m, hn⟩
  case sequential =>
    intro hstateless hmode v hv hstuck
    refine hsound.matches hr (fun b hb => ?_) hover
    have hcame := hcameTo b hb
    rw [hmode] at hcame
    obtain ⟨w, ending, w', hw, hrun, hleaves⟩ | ⟨hfits, -⟩ := hcame
    · exact ((hstateless.run_alike hw hv hrun).resolve_left hstuck).resembles hleaves
    · cases hfits
  case parallel =>
    intro hstateless bound' hmode v hv c hc
    have hcame := hcameTo _ (hended c hc)
    rw [hmode] at hcame
    obtain ⟨w, ending, w', hw, hrun, hleaves⟩ | ⟨-, hcrashed⟩ := hcame
    · obtain ⟨ending', v', hrun', htwin⟩ := hstateless.exists_lapse hw hv hrun
      cases htwin.resembles hleaves with
      | finished heq => exact ⟨_, v', hrun', heq⟩
    · cases hcrashed
  case inOrder =>
    intro hstateless bound' hmode hwakeful horder turns hturns v hv
    refine hsound.matches hr (fun b hb => ?_) hover
    exact abides_after hstateless hv hr hnever hmode hwakeful horder hb turns hturns

/-- What the diligent executor does depends on nothing but the step and the variables. -/
theorem diligent_stateless : Engine.diligent.Stateless fun _ _ => True where
  executors := by
    intro x hx s c c' _
    obtain rfl := List.mem_singleton.mp hx
    refine .look fun u v huv => ?_
    rw [huv.store]
    split
    · exact .update (fun _ _ h => ⟨rfl, h.cancelled, trivial⟩) (Execution.twin_close _ _ _)
    · exact .done (.refused _)
  reporter := by
    rintro reporter ⟨⟩

theorem diligent_wakeful (ss : List Step) : Engine.diligent.Wakeful ss := by
  intro t _ x hx c
  obtain rfl := List.mem_singleton.mp (List.mem_of_find?_eq_some hx)
  refine Activity.wakeful_look fun w => ?_
  dsimp only
  split
  · exact Activity.wakeful_update _ (Activity.wakeful_look fun _ => Activity.wakeful_done _)
  · exact Activity.wakeful_done _

/-- Two runs set the same variables in a queue with two places, one step by step and one in
parallel, and their tasks take turns. -/
theorem undisturbed_diligent :
    let s := Sequence.ofSteps [.plain "x" "X" .custom [], .plain "y" "Y" .custom []]
    let q₀ := new 2 ⟨0, 0⟩ ()
    let history : List Event := [.submit s .sequential, .submit s (.parallel 1), .turn (.run 0),
      .turn (.run 0), .turn (.run 1), .turn (.run 1), .turn (.run 1), .turn (.branch 1 0),
      .turn (.run 0), .turn (.branch 1 1), .turn (.run 0), .turn (.run 1), .turn (.run 0),
      .turn (.run 1), .turn (.run 1)]
    let q := q₀.after Engine.diligent history
    q.table.map (·.mode) = [.sequential, .parallel 1] ∧ (∀ n, q.NothingLeft n) ∧
      Engine.diligent.Stateless (fun _ _ => True) ∧ Engine.diligent.Wakeful s.steps ∧
      InOrder Engine.diligent 1 q₀ history ∧
      ∀ r ∈ q.table, NeverCancelled Engine.diligent r.number q₀ history ∧
        (q.context? r.number).isSome = true ∧ Undisturbed Engine.diligent q₀ history r := by
  intro s q₀ history q
  have horder : InOrder Engine.diligent 1 q₀ history := by
    refine ⟨nofun, nofun, nofun, nofun, nofun, nofun, nofun, ?_, nofun, ?_, nofun, nofun, nofun,
      nofun, nofun, trivial⟩
    · intro i hi j hj
      cases hi
      cases hj
    · intro i hi j hj
      cases hi
      obtain rfl := Nat.lt_one_iff.mp hj
      decide +kernel
  have hrecords : ∀ r ∈ q.table, (q.context? r.number).isSome = true := by decide +kernel
  refine ⟨by decide +kernel, nothingLeft_of_empty (by decide +kernel), diligent_stateless,
    diligent_wakeful _, horder, fun r hr => ?_⟩
  have hnever : NeverCancelled Engine.diligent r.number q₀ history :=
    neverCancelled_of_not_mem (by simp [history])
  exact ⟨hnever, hrecords r hr, undisturbed Engine.diligent 2 ⟨0, 0⟩ () history r hr hnever⟩

end Queue
end Runbook
