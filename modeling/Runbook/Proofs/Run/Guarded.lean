import Mathlib.Logic.Relation
import Runbook.Proofs.Run.Parallel
import Runbook.Proofs.Run.Writers
import Runbook.Proofs.Store.Publishing

/-!
# What documents cannot alter

The transitions of a run that has published its variables are the looks and changes of the work
that goes on, the beginnings and ends of turns, and whatever others do meanwhile.
`Engine.Transition` are these, one by one, so a run is looked at also in the middle of a step.
Step by step or in parallel, a run consists of transitions once it has begun
(`Engine.transitions_of_sequential`, `Engine.transitions_of_parallel`).

If every executor is a built-in one or spares the variables, a transition sets at most one variable,
and none that is locked (`Engine.Transition.sets`).  So from the publishing to the end of a run the
built-in variables keep their values and their locks, whatever the document declares and its steps
write, and no variable goes away: `Engine.guards_of_transitions`, and at the ends of runs
`Engine.Trusted.guards_of_runs`.
-/

namespace Runbook

variable {σ α : Type} {others : World σ → World σ → Prop}

/-! ## Transitions -/

/-- How far a run has come that has published its variables. -/
inductive Phase (σ : Type) where
  /-- One work goes on, and nothing beside it. -/
  | alone (work : Activity (World σ) Context)
  /-- It is no branch's turn. -/
  | between (branches : Branches σ)
  /-- It is the turn of a branch, and its work goes on. -/
  | turn (branches : Branches σ) (i : Nat) (work : Activity (World σ) (List StepResult))

/-- An activity looks at the world or changes it. -/
inductive Activity.Acts : Activity (World σ) α → World σ → Activity (World σ) α → World σ → Prop
    where
  /-- It looks. -/
  | look {next : World σ → Activity (World σ) α} {w : World σ} : Acts (.look next) w (next w) w
  /-- It makes a change. -/
  | update {change : World σ → World σ} {next : Activity (World σ) α} {w : World σ} :
      Acts (.update change next) w next (change w)

namespace Engine

variable (e : Engine σ)

/-- A branch is called.  It starts or goes on, or stays where it is. -/
def called (ss : List Step) (c : Context) (b : Branches σ) (i : Nat) (cancelled : Bool) : Phase σ :=
  let call := b.call i cancelled .skipped
  match call.admission, ss[i]? with
  | .admitted, some s => .turn call.gate i (e.branch s c)
  | .inside next, _ => .turn call.gate i (next cancelled)
  | _, _ => .between call.gate

/-- The transitions of a run of steps among others. -/
inductive Transition (others : World σ → World σ → Prop) (ss : List Step) (c : Context) :
    Phase σ × World σ → Phase σ × World σ → Prop where
  /-- Others move. -/
  | others {p : Phase σ} {w v : World σ} : others w v → Transition others ss c (p, w) (p, v)
  /-- The work that goes on alone looks at the world or changes it. -/
  | acts {x y : Activity (World σ) Context} {w v : World σ} :
      x.Acts w y v → Transition others ss c (.alone x, w) (.alone y, v)
  /-- Its wait is over. -/
  | wakes {d : Delay} {next : Bool → Activity (World σ) Context} {w : World σ} :
      Transition others ss c (.alone (.await d next), w) (.alone (next w.cancelled), w)
  /-- A branch is called. -/
  | calls {b : Branches σ} {w : World σ} (i : Nat) :
      Transition others ss c (.between b, w) (e.called ss c b i w.cancelled, w)
  /-- The branch whose turn it is looks at the world or changes it. -/
  | turns {b : Branches σ} {i : Nat} {x y : Activity (World σ) (List StepResult)}
      {w v : World σ} : x.Acts w y v → Transition others ss c (.turn b i x, w) (.turn b i y, v)
  /-- It does not wait in a run that is cancelled, if it heeds that. -/
  | hastens {b : Branches σ} {i : Nat} {d : Delay}
      {next : Bool → Activity (World σ) (List StepResult)} {w : World σ} :
      d.heeds = true → w.cancelled = true →
      Transition others ss c (.turn b i (.await d next), w) (.turn b i (next true), w)
  /-- It falls asleep. -/
  | sleeps {b : Branches σ} {i : Nat} {d : Delay}
      {next : Bool → Activity (World σ) (List StepResult)} {w : World σ} :
      (d.heeds && w.cancelled) = false →
      Transition others ss c (.turn b i (.await d next), w) (.between (b.put i (.inside next)), w)
  /-- It comes to its end. -/
  | ends {b : Branches σ} {i : Nat} {rs : List StepResult} {w : World σ} :
      Transition others ss c (.turn b i (.done rs), w) (.between (b.leave i (.finished rs)).1, w)
  /-- It breaks off. -/
  | breaks {b : Branches σ} {i : Nat} {m : Option String} {w : World σ} :
      Transition others ss c (.turn b i (.panic m), w) (.between (b.leave i (.crashed m)).1, w)
  /-- All branches are over, and what they leave is put together. -/
  | joins {b : Branches σ} {w : World σ} : b.isEmpty = true →
      Transition others ss c (.between b, w) (.alone (e.join ⟨ss, c, b⟩), w)

/-- How a run goes on that has begun. -/
inductive Starts (s : Sequence) (c : Context) : Except Context Context → Phase σ → Prop where
  /-- Step by step, or not at all. -/
  | sequential {started : Except Context Context} :
      Starts s c started (.alone (e.onceBegun s started))
  /-- In parallel. -/
  | parallel (bound : Nat) : Starts s c (.ok c) (.between (Gate.ofBound bound s.steps.length))

variable {e} {ss : List Step} {c : Context}

open Relation (ReflTransGen)

/-! ## Runs as transitions -/

/-- What goes on alone goes through the transitions of its course. -/
theorem transitions_of_course {x : Activity (World σ) Context} {w w' : World σ}
    {r : Ending Context}
    (h : x.Course others w r w') :
    ∃ y, ReflTransGen (e.Transition others ss c) (.alone x, w) (.alone y, w') := by
  induction h with
  | done => exact ⟨_, .refl⟩
  | panic => exact ⟨_, .refl⟩
  | look hv _ ih =>
    obtain ⟨y, hy⟩ := ih
    exact ⟨y, .head (.others hv) (.head (.acts .look) hy)⟩
  | update hv _ ih =>
    obtain ⟨y, hy⟩ := ih
    exact ⟨y, .head (.others hv) (.head (.acts .update) hy)⟩
  | await hv _ ih =>
    obtain ⟨y, hy⟩ := ih
    exact ⟨y, .head (.others hv) (.head .wakes hy)⟩

/-- A branch goes on to its next wait. -/
theorem transitions_carryOn (b : Branches σ) (i : Nat) :
    ∀ (work : Activity (World σ) (List StepResult)) (w : World σ),
      ReflTransGen (e.Transition others ss c) (.turn b i work, w)
        (.between (carryOn b i work w).branches, (carryOn b i work w).world)
  | .done _, _ => .single .ends
  | .panic _, _ => .single .breaks
  | .look next, w => .head (.turns .look) (transitions_carryOn b i (next w) w)
  | .update change next, w => .head (.turns .update) (transitions_carryOn b i next (change w))
  | .await d next, w => by
      cases hover : d.heeds && w.cancelled with
      | true =>
        obtain ⟨hheeds, hcancelled⟩ := Bool.and_eq_true_iff.mp hover
        have hsame : carryOn b i (.await d next) w = carryOn b i (next true) w := by
          simp only [carryOn, Activity.advance, hover, if_true]
        rw [hsame]
        exact .head (.hastens hheeds hcancelled) (transitions_carryOn b i (next true) w)
      | false =>
        simp only [carryOn, Activity.advance, hover, Bool.false_eq_true, if_false]
        exact .single (.sleeps hover)

/-- The turn of a branch. -/
theorem transitions_turn (x : Flight σ) (i : Nat) :
    ReflTransGen (e.Transition others ss c) (.between x.branches, x.world)
      (.between (e.afterTurn ss c x i).branches, (e.afterTurn ss c x i).world) := by
  refine .head (.calls i) ?_
  rw [called, afterTurn, turn, Turn.flight]
  dsimp only
  generalize x.branches.call i x.world.cancelled .skipped = call
  obtain ⟨gate, admission, granted⟩ := call
  cases admission with
  | admitted =>
    cases ss[i]? with
    | none => exact .refl
    | some s => exact transitions_carryOn gate i _ _
  | inside next => exact transitions_carryOn gate i _ _
  | held => exact .refl
  | gone => exact .refl

theorem transitions_of_reaches {bound : Nat} {w₀ : World σ} {x : Flight σ}
    (h : e.Reaches others ss c bound w₀ x) :
    ReflTransGen (e.Transition others ss c) (.between (Gate.ofBound bound ss.length), w₀)
      (.between x.branches, x.world) := by
  induction h with
  | start => exact .refl
  | turn i _ ih => exact ih.trans (transitions_turn _ i)
  | others _ hv ih => exact ih.tail (.others hv)

/-- A sequential run ends where its transitions lead. -/
theorem transitions_of_sequential {s : Sequence} {w w' : World σ} {r : Ending Context}
    (h : (e.sequential s).Course others w r w') :
    ∃ started w₀ start y, (e.begin s).Course others w (.returned started) w₀ ∧
      e.Starts s c started start ∧
      ReflTransGen (e.Transition others s.steps c) (start, w₀) (.alone y, w') := by
  obtain ⟨started, w₀, hbegin, h⟩ := exists_begun h
  obtain ⟨y, hy⟩ := transitions_of_course h
  exact ⟨started, w₀, _, y, hbegin, .sequential, hy⟩

/-- And so does a parallel run. -/
theorem transitions_of_parallel {bound : Nat} {s : Sequence} {w w' : World σ} {r : Ending Context}
    (h : e.Parallel others bound s w r w') :
    ∃ c started w₀ start y, (e.begin s).Course others w (.returned started) w₀ ∧
      e.Starts s c started start ∧
      ReflTransGen (e.Transition others s.steps c) (start, w₀) (.alone y, w') := by
  cases h with
  | @joined c₀ w₀ _ x _ hbegin hx hover hjoin =>
    obtain ⟨y, hy⟩ := transitions_of_course hjoin
    exact ⟨c₀, _, w₀, _, y, hbegin, .parallel bound,
      (transitions_of_reaches hx).trans (.head (.joins hover) hy)⟩
  | @refused c₀ w₀ _ _ hbegin hconclude =>
    obtain ⟨y, hy⟩ := transitions_of_course hconclude
    exact ⟨c₀, _, w₀, _, y, hbegin, .sequential, hy⟩

end Engine

/-! ## What a transition does to variables -/

/-- At most one variable was set, and none that was locked. -/
def Store.Sets (s t : Store) : Prop := t = s ∨ ∃ n v, s.set n v = .ok t

namespace Activity

/-- What the activity goes on to do to variables are deeds. -/
def Tame (x : Activity (World σ) α) (w : World σ) : Prop := ∃ P m, m.Fits w ∧ x.Does P m

theorem tame_of_does {x : Activity (World σ) α} {P : List Deed → Ending α → Moment → Prop}
    (h : ∀ m, x.Does P m) (w : World σ) : x.Tame w :=
  ⟨P, _, Moment.fits_self w, h _⟩

theorem Tame.beside {x : Activity (World σ) α} {w v : World σ} (h : x.Tame w)
    (hv : w.Apart v) : x.Tame v := by
  obtain ⟨P, m, hm, hx⟩ := h
  exact ⟨P, m, hm.beside hv, hx⟩

theorem Tame.acts {x y : Activity (World σ) α} {w v : World σ} (h : x.Tame w)
    (hacts : x.Acts w y v) : y.Tame v ∧ w.store.Sets v.store := by
  obtain ⟨P, m, hm, hx⟩ := h
  cases hacts with
  | look => exact ⟨⟨_, _, hm.look, hx w hm⟩, .inl rfl⟩
  | update =>
    obtain ⟨K, m', hchanges, hy⟩ := hx w hm
    refine ⟨⟨_, m', hchanges.fits hm, hy⟩, ?_⟩
    cases hchanges with
    | quiet hstore _ => exact .inl hstore
    | deed _ _ hset _ => exact .inr ⟨_, _, hset⟩

theorem Tame.await {d : Delay} {next : Bool → Activity (World σ) α} {w : World σ}
    (h : (await d next).Tame w) (c : Bool) (v : World σ) : (next c).Tame v := by
  obtain ⟨P, m, -, hx⟩ := h
  exact tame_of_does (fun m => hx m c) v

end Activity

/-- A branch that is resumed is tame. -/
def Stage.Tame (stage : Stage (Bool → Activity (World σ) (List StepResult)) BranchEnd) : Prop :=
  ∀ next, stage = .inside next → ∀ c w, (next c).Tame w

/-- Everything that goes on, or is to go on, is tame. -/
def Phase.Tame : Phase σ × World σ → Prop
  | (.alone x, w) => x.Tame w
  | (.between b, _) => b.ForAll fun _ stage => stage.Tame
  | (.turn b _ x, w) => x.Tame w ∧ b.ForAll fun _ stage => stage.Tame

namespace Engine

/-- Every executor is a built-in one or spares the variables. -/
def Trusted (e : Engine σ) (host : Host σ) : Prop :=
  ∀ x ∈ e.registry, x ∈ Registry.builtin host ∨ ∀ s c, (x.execute s c).Spares

variable {e : Engine σ} {host : Host σ} {ss : List Step} {c : Context}

open Relation (ReflTransGen)

/-- Whatever their results tell, the steps of such an engine do deeds. -/
theorem Trusted.explained (h : e.Trusted host) : e.Explained fun _ _ _ => True where
  closed _ _ _ _ _ := trivial
  executed s x hx c began m hfloor hnow := by
    have hplan : ∀ kind plan, x = .ofPlan host kind plan →
        (World.onScene (x.execute s c)).Does (fun K r _ =>
          (∀ o, r = .returned (.ok o) → ∀ _ : Timestamp, True) ∧
            ((∀ o, r ≠ .returned (.ok o)) → K = [])) m := by
      rintro kind plan rfl
      refine (Executor.does_ofPlan host kind plan s c hfloor hnow).mono fun K r _ hreply => ?_
      obtain ⟨store, reply, rfl, hcomes⟩ := hreply
      exact ⟨fun _ _ _ => trivial, fun hno => hcomes.eq_nil fun o ho => hno o (congrArg _ ho)⟩
    obtain hbuiltin | hspares := h x (List.mem_of_find?_eq_some hx)
    · simp only [Registry.builtin, List.mem_cons, List.not_mem_nil, or_false] at hbuiltin
      obtain rfl | rfl | rfl | rfl := hbuiltin
      · exact hplan _ _ rfl
      · exact hplan _ _ rfl
      · exact hplan _ _ rfl
      · exact hplan _ _ rfl
    · exact ((hspares s c).does m).mono fun K r _ hK => ⟨fun _ _ _ => trivial, fun _ => hK⟩

theorem Starts.tame (htells : e.Explained fun _ _ _ => True) {s : Sequence}
    {started : Except Context Context} {start : Phase σ} (h : e.Starts s c started start)
    (w : World σ) : Phase.Tame (start, w) := by
  cases h with
  | sequential =>
    cases started with
    | error c => exact Activity.tame_of_does (e.idle_conclude c) w
    | ok c => exact Activity.tame_of_does (htells.does_onceBegun s c) w
  | parallel bound => exact Gate.forAll_ofBound fun _ next hnext => by cases hnext

theorem tame_called (htells : e.Explained fun _ _ _ => True) {b : Branches σ}
    (hb : b.ForAll fun _ stage => stage.Tame) (i : Nat) (w : World σ) :
    Phase.Tame (e.called ss c b i w.cancelled, w) := by
  have hgate : (b.call i w.cancelled .skipped).gate.ForAll fun _ stage => stage.Tame :=
    hb.call (fun _ _ _ hnext => by cases hnext) (fun _ _ _ hnext => by cases hnext)
      fun _ _ _ _ hnext => by cases hnext
  rw [called]
  split
  · exact ⟨Activity.tame_of_does (htells.does_branch _ c) w, hgate⟩
  · next next hinside =>
    exact ⟨hb i _ (Gate.call_inside hinside).1 next rfl _ w, hgate⟩
  · exact hgate

/-- A transition sets at most one variable, and none that is locked. -/
theorem Transition.sets (hothers : ∀ w v, others w v → w.Apart v)
    (htells : e.Explained fun _ _ _ => True) {x y : Phase σ × World σ}
    (h : e.Transition others ss c x y) (hx : Phase.Tame x) :
    Phase.Tame y ∧ x.2.store.Sets y.2.store := by
  cases h with
  | @others p w v hv =>
    refine ⟨?_, .inl (hothers w v hv).2⟩
    cases p with
    | alone work => exact Activity.Tame.beside hx (hothers w v hv)
    | between b => exact hx
    | turn b i work => exact ⟨hx.1.beside (hothers w v hv), hx.2⟩
  | acts hacts => exact Activity.Tame.acts hx hacts
  | wakes => exact ⟨Activity.Tame.await hx _ _, .inl rfl⟩
  | calls i => exact ⟨tame_called htells hx i _, .inl rfl⟩
  | turns hacts =>
    obtain ⟨hy, hsets⟩ := hx.1.acts hacts
    exact ⟨⟨hy, hx.2⟩, hsets⟩
  | hastens _ _ => exact ⟨⟨hx.1.await _ _, hx.2⟩, .inl rfl⟩
  | sleeps _ =>
    refine ⟨hx.2.put fun next hnext => ?_, .inl rfl⟩
    cases hnext
    exact hx.1.await
  | ends =>
    refine ⟨Gate.forAll_leave (fun j stage _ => hx.2 j stage) ?_ ?_, .inl rfl⟩
    · exact fun _ hnext => by cases hnext
    · exact fun _ _ _ hnext => by cases hnext
  | breaks =>
    refine ⟨Gate.forAll_leave (fun j stage _ => hx.2 j stage) ?_ ?_, .inl rfl⟩
    · exact fun _ hnext => by cases hnext
    · exact fun _ _ _ hnext => by cases hnext
  | joins _ => exact ⟨Activity.tame_of_does (e.idle_join _) _, .inl rfl⟩

/-! ## Runs -/

/-- The transitions of a run keep its work tame. -/
theorem tame_of_transitions (hothers : ∀ w v, others w v → w.Apart v)
    (htells : e.Explained fun _ _ _ => True) {x y : Phase σ × World σ}
    (h : ReflTransGen (e.Transition others ss c) x y) (hx : Phase.Tame x) : Phase.Tame y := by
  induction h with
  | refl => exact hx
  | tail _ hstep ih => exact (hstep.sets hothers htells ih).1

/-- They keep whatever is kept when a variable is set. -/
theorem store_of_transitions (hothers : ∀ w v, others w v → w.Apart v)
    (htells : e.Explained fun _ _ _ => True) {P : Store → Prop}
    (hset : ∀ s t n v, P s → s.set n v = .ok t → P t) {x y : Phase σ × World σ}
    (h : ReflTransGen (e.Transition others ss c) x y) (hx : Phase.Tame x) (hP : P x.2.store) :
    P y.2.store := by
  induction h with
  | refl => exact hP
  | tail hpath hstep ih =>
    obtain hsame | ⟨n, v, hn⟩ := (hstep.sets hothers htells
      (tame_of_transitions hothers htells hpath hx)).2
    · rw [hsame]
      exact ih
    · exact hset _ _ n v ih hn

/-- No variable that is there goes away. -/
theorem contains_of_transitions (hothers : ∀ w v, others w v → w.Apart v)
    (htells : e.Explained fun _ _ _ => True) {x y : Phase σ × World σ}
    (h : ReflTransGen (e.Transition others ss c) x y) (hx : Phase.Tame x) {n : String}
    (hn : x.2.store.contains n = true) : y.2.store.contains n = true :=
  store_of_transitions (P := fun t => t.contains n = true) hothers htells
    (fun _ _ _ _ h hset => Store.contains_of_set hset h) h hx hn

/-- Wherever the transitions of a run lead, its built-in variables are guarded, and all variables
that it has published are there. -/
theorem Trusted.guards_of_starts (htrusted : e.Trusted host)
    (hothers : ∀ w v, others w v → w.Apart v) {s : Sequence} {w w₀ : World σ}
    {started : Except Context Context}
    (hbegin : (e.begin s).Course others w (.returned started) w₀) {start : Phase σ}
    (hstart : e.Starts s c started start) {x : Phase σ × World σ}
    (hx : ReflTransGen (e.Transition others s.steps c) (start, w₀) x) :
    s.Guards e.machine x.2.store ∧ ∀ n, (s.publish e.machine).store.contains n = true →
      x.2.store.contains n = true := by
  have htells := htrusted.explained
  have htame := hstart.tame htells w₀
  have hpublished := e.store_begin hothers hbegin
  have hguards : s.Guards e.machine w₀.store := hpublished ▸ s.guards_publish e.machine
  exact ⟨store_of_transitions hothers htells (fun _ _ _ _ h hset => h.set hset) hx htame hguards,
    fun n hn => contains_of_transitions hothers htells hx htame (hpublished ▸ hn)⟩

/-- So they are when a run has come to its end, step by step or in parallel. -/
theorem Trusted.guards_of_runs (htrusted : e.Trusted host)
    (hothers : ∀ w v, others w v → w.Apart v) {mode : Mode} {s : Sequence} {w w' : World σ}
    {ending : Ending Context} (h : e.Runs others mode s w ending w') :
    s.Guards e.machine w'.store ∧ ∀ n, (s.publish e.machine).store.contains n = true →
      w'.store.contains n = true := by
  cases mode with
  | sequential =>
    obtain ⟨started, w₀, start, y, hbegin, hstart, hpath⟩ :=
      transitions_of_sequential (c := e.opening s w.clock) h
    exact htrusted.guards_of_starts hothers hbegin hstart hpath
  | parallel bound =>
    obtain ⟨c, started, w₀, start, y, hbegin, hstart, hpath⟩ := transitions_of_parallel h
    exact htrusted.guards_of_starts hothers hbegin hstart hpath

/-- If every executor is a built-in one or spares the variables, then in every state of a run from
the publishing to the end, whatever the sequence declares and its steps do, in whatever order
branches go on and whenever the run is cancelled, the built-in variables have their values and are
locked, no others are locked, and no variable that is there goes away. -/
theorem guards_of_transitions (htrusted : e.Trusted host)
    (hothers : ∀ w v, others w v → w.Apart v) {s : Sequence}
    {w w₀ : World σ} {started : Except Context Context}
    (hbegin : (e.begin s).Course others w (.returned started) w₀) {start : Phase σ}
    (hstart : e.Starts s c started start) {x y : Phase σ × World σ}
    (hx : ReflTransGen (e.Transition others s.steps c) (start, w₀) x)
    (hy : ReflTransGen (e.Transition others s.steps c) x y) :
    s.Guards e.machine x.2.store ∧
      ∀ n, x.2.store.contains n = true → y.2.store.contains n = true := by
  have htells := htrusted.explained
  have htame : Phase.Tame x := tame_of_transitions hothers htells hx (hstart.tame htells w₀)
  exact ⟨(htrusted.guards_of_starts hothers hbegin hstart hx).1,
    fun _ => contains_of_transitions hothers htells hy htame⟩

end Engine

/-- A step that sets a variable. -/
def Step.setting (id name variableName value : String) : Step :=
  .mk id name "" .setVariable true true []
    [("VariableName", variableName), ("VariableValue", value)] []

/-- A sequence whose first step would change the name of the sequence, and whose second step reads
it. -/
def Sequence.meddling : Sequence :=
  .ofSteps [.setting "a" "A" " taskSequenceName " "two", .setting "b" "B" "x" "%TASKSEQUENCENAME%"]

namespace Engine

/-- An engine with the built-in executors, on a host without programs. -/
def handy : Engine Unit := ⟨Registry.builtin ⟨fun _ u => (.error "none", u)⟩, none, "host",
  fun _ => "run"⟩

/-- A parallel run in which the second step has its turn before the first. -/
theorem guards_of_transitions_handy :
    let s := Sequence.meddling
    let c₀ := handy.opening s ⟨0, 1⟩
    let w₀ := { World.epoch.tick with store := (s.publish handy.machine).store }
    let x := handy.afterTurn s.steps c₀
      (handy.afterTurn s.steps c₀ ⟨Gate.ofBound 2 s.steps.length, w₀, []⟩ 1) 0
    (handy.begin s).Course Eq .epoch (.returned (.ok c₀)) w₀ ∧
      x.branches.isEmpty = true ∧ x.world.store.get "x" = "one" ∧
      s.Guards handy.machine x.world.store ∧
      ∀ n, w₀.store.contains n = true → x.world.store.contains n = true := by
  intro s c₀ w₀ x
  have htrusted : handy.Trusted ⟨fun _ u => (.error "none", u)⟩ := fun x hx => .inl hx
  have hothers : ∀ w v : World Unit, w = v → w.Apart v := by
    rintro w _ rfl
    exact .refl w
  have hbegin : (handy.begin s).Course Eq .epoch (.returned (.ok c₀)) w₀ :=
    .update rfl (.look rfl (.update rfl .done))
  have hx : handy.Reaches Eq s.steps c₀ 2 w₀ x := .turn 0 (.turn 1 .start)
  have hover : x.branches.isEmpty = true := by decide +kernel
  have hread : x.world.store.get "x" = "one" := by decide +kernel
  clear_value w₀ x
  have hpath := transitions_of_reaches hx
  have hstart := Starts.parallel (e := handy) (s := s) (c := c₀) 2
  have hguards := guards_of_transitions htrusted hothers hbegin hstart hpath .refl
  have hstays := guards_of_transitions htrusted hothers hbegin hstart .refl hpath
  exact ⟨hbegin, hover, hread, hguards.1, hstays.2⟩

end Engine
end Runbook
