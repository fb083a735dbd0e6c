import Runbook.Proofs.Run.Sequential
import Runbook.Proofs.Run.Swift
import Runbook.Proofs.Run.Trail

/-!
# Performances

An engine is *steady* if what its executors hand back and leave depends on the step and the
variables alone, as long as the run is not cancelled.  What it makes of steps is, apart from times,
their *performance* (`Engine.perform`).  It says which account each step has, for which steps an
executor is called, and which variables are left.  `Engine.performUpTo` performs steps up to one
that stops the others, `Engine.performAll` all of them.

A step that is run by the rules is performed, if the run is not cancelled (`Engine.Ran.performed`).
-/

namespace Runbook

variable {σ : Type}

/-! ## Results without times -/

/-- The result without its times. -/
def StepResult.timeless (r : StepResult) : StepResult := { r with started := ⟨0, 0⟩, ended := none }

namespace Account

mutual

/-- The account without times. -/
def timeless : Account → Account
  | mk own as => mk own.timeless (timelessAll as)
termination_by structural a => a

/-- The accounts without times. -/
def timelessAll : List Account → List Account
  | [] => []
  | a :: as => timeless a :: timelessAll as
termination_by structural as => as

end

theorem own_timeless (a : Account) : a.timeless.own = a.own.timeless := by
  cases a with
  | mk own as => rfl

mutual

theorem block_timeless : ∀ a : Account, a.timeless.block = a.block.map (·.timeless)
  | mk own as => by rw [timeless, block, block, blocks_timeless as, List.map_append]; rfl
termination_by structural a => a

theorem blocks_timeless : ∀ as : List Account,
    blocks (timelessAll as) = (blocks as).map (·.timeless)
  | [] => rfl
  | a :: as => by
      rw [timelessAll, blocks, blocks, block_timeless a, blocks_timeless as, List.map_append]
termination_by structural as => as

end

mutual

theorem chronicle_timeless : ∀ a : Account, a.timeless.chronicle = a.chronicle.map (·.timeless)
  | mk own as => by rw [timeless, chronicle, chronicle, chronicles_timeless as, List.map_cons]
termination_by structural a => a

theorem chronicles_timeless : ∀ as : List Account,
    chronicles (timelessAll as) = (chronicles as).map (·.timeless)
  | [] => rfl
  | a :: as => by
      rw [timelessAll, chronicles, chronicles, chronicle_timeless a, chronicles_timeless as,
        List.map_append]
termination_by structural as => as

end

theorem timelessAll_eq_map : ∀ as : List Account, timelessAll as = as.map timeless
  | [] => rfl
  | a :: as => by rw [timelessAll, timelessAll_eq_map as, List.map_cons]

end Account

/-- Which step stops the others does not depend on times. -/
theorem culprit?_timeless (ss : List Step) (as : List Account) :
    culprit? ss (Account.timelessAll as) = culprit? ss as := by
  rw [culprit?, culprit?, Account.timelessAll_eq_map, List.zip_map_right, List.getLast?_map]
  cases (ss.zip as).getLast? with
  | none => rfl
  | some p =>
    obtain ⟨s, own, inner⟩ := p
    rfl

namespace UpTo

variable {s : Step} {ss : List Step} {a : Account} {as : List Account}

theorem tail (h : UpTo (s :: ss) (a :: as)) : UpTo ss as where
  length_le := Nat.le_of_succ_le_succ h.length_le
  goesOn := by
    intro p hp
    refine h.goesOn p ?_
    rw [List.zip_cons_cons]
    cases hzip : ss.zip as with
    | nil => simp [hzip] at hp
    | cons q qs =>
      rw [List.dropLast_cons_cons, ← hzip]
      exact List.mem_cons_of_mem _ hp

/-- No account follows that of a step that stops the others. -/
theorem eq_nil_of_stops (h : UpTo (s :: ss) (a :: as)) (ha : s.stops a.own = true) : as = [] := by
  cases as with
  | nil => rfl
  | cons b bs =>
    cases ss with
    | nil => exact absurd (Nat.le_of_succ_le_succ h.length_le) (Nat.not_succ_le_zero _)
    | cons t ts =>
      have hgoesOn := h.goesOn (s, a) (by simp)
      rw [ha] at hgoesOn
      cases hgoesOn

end UpTo

/-! ## Performing steps -/

/-- What comes of steps: accounts of them, calls of executors and variables. -/
structure Performance (α : Type) where
  /-- The accounts. -/
  account : α
  /-- The steps that executors are called for, in the order of the calls. -/
  calls : List Step
  /-- The variables that are left. -/
  store : Store

/-- A result of the step without times. -/
def Step.ended (s : Step) (status : Status) (error : Option String) (outputs : Pairs) :
    StepResult :=
  ⟨s.id, s.name, status, ⟨0, 0⟩, none, error, outputs⟩

/-- The result of the step from the reply of its executor. -/
def Reply.result (s : Step) : Reply → StepResult
  | .ok (.ok o) => s.ended (if o.status.isTerminal then o.status else .completed) o.error o.outputs
  | .ok (.error f) =>
      s.ended .failed (some (ExecutionError.executorFailure s.name f.message).message) []
  | .error m => s.ended .failed (some (ExecutionError.executorPanicked s.name m).message) []

theorem Step.timeless_closed (s : Step) (culprit : Option Step) (began ended : Timestamp) :
    (s.closed culprit began ended).timeless = (s.closed culprit ⟨0, 0⟩ ⟨0, 0⟩).timeless := by
  cases culprit <;> rfl

/-- The result of a step that did no work of its own depends on its identity and its name, and on
the name of the child that stopped it. -/
theorem Step.closed_congr {s t : Step} {culprit culprit' : Option Step} (hkey : s.key = t.key)
    (hculprit : culprit.map name = culprit'.map name) (began ended : Timestamp) :
    s.closed culprit began ended = t.closed culprit' began ended := by
  obtain ⟨hid, hname⟩ := Prod.mk.inj hkey
  have hbegun : s.begun began = t.begun began := by rw [begun, begun, hid, hname]
  cases culprit with
  | none =>
    cases culprit' with
    | none => rw [closed, closed, hbegun]
    | some child' => cases hculprit
  | some child =>
    cases culprit' with
    | none => cases hculprit
    | some child' =>
      have hchild : child.name = child'.name := Option.some.inj hculprit
      rw [closed, closed, hbegun, hchild]

/-- The result, without times, of a step that did no work of its own. -/
def Step.summed (s : Step) (culprit : Option Step) : StepResult :=
  (s.closed culprit ⟨0, 0⟩ ⟨0, 0⟩).timeless

/-- Such a step stops the others if it was stopped itself. -/
theorem Step.stops_summed (s : Step) (culprit : Option Step) :
    s.stops (s.summed culprit) = (culprit.isSome && !s.continueOnError) := by
  cases culprit <;> rfl

theorem timeless_result (o : Outcome) (s : Step) (began now : Timestamp) :
    (o.result (s.begun began) now).timeless =
      Reply.result s (.ok (.ok { o with ended := none })) := by
  rw [Outcome.result]
  cases hterminal : o.status.isTerminal <;> simp [StepResult.timeless, Reply.result, Step.ended,
    Step.begun, StepResult.begun, hterminal]

namespace Engine

section

variable (e : Engine σ) (act : Step → Store → Reply × Store)

/-- Performs a step that is given to its executor. -/
def performWork (s : Step) (store : Store) : Performance StepResult :=
  match e.registry.resolve? s with
  | none => ⟨s.ended .failed (some (ExecutionError.noExecutor s.kind).message) [], [], store⟩
  | some _ => ⟨Reply.result s (act s store).1, [s], (act s store).2⟩

mutual

/-- Performs a step. -/
def perform : Step → Store → Performance Account
  | .mk i n d k enabled goesOn cs ps ss, store =>
      let s := Step.mk i n d k enabled goesOn cs ps ss
      if !s.isDue store then ⟨⟨(s.closed none ⟨0, 0⟩ ⟨0, 0⟩).timeless, []⟩, [], store⟩
      else if s.isGroup then
        let p := performUpTo ss store
        ⟨⟨(s.closed (culprit? ss p.account) ⟨0, 0⟩ ⟨0, 0⟩).timeless, p.account⟩, p.calls, p.store⟩
      else
        let p := e.performWork act s store
        ⟨⟨p.account, []⟩, p.calls, p.store⟩
termination_by structural s => s

/-- Performs steps up to one that stops the others. -/
def performUpTo : List Step → Store → Performance (List Account)
  | [], store => ⟨[], [], store⟩
  | s :: ss, store =>
      let p := perform s store
      if s.stops p.account.own then ⟨[p.account], p.calls, p.store⟩
      else
        let q := performUpTo ss p.store
        ⟨p.account :: q.account, p.calls ++ q.calls, q.store⟩
termination_by structural ss => ss

end

/-- Performs all steps, one after the other. -/
def performAll : List Step → Store → Performance (List Account)
  | [], store => ⟨[], [], store⟩
  | s :: ss, store =>
      let p := e.perform act s store
      let q := performAll ss p.store
      ⟨p.account :: q.account, p.calls ++ q.calls, q.store⟩

theorem perform_eq (s : Step) (store : Store) :
    e.perform act s store =
      if !s.isDue store then ⟨⟨(s.closed none ⟨0, 0⟩ ⟨0, 0⟩).timeless, []⟩, [], store⟩
      else if s.isGroup then
        let p := e.performUpTo act s.children store
        ⟨⟨(s.closed (culprit? s.children p.account) ⟨0, 0⟩ ⟨0, 0⟩).timeless, p.account⟩, p.calls,
          p.store⟩
      else
        let p := e.performWork act s store
        ⟨⟨p.account, []⟩, p.calls, p.store⟩ := by
  cases s
  rw [perform]
  rfl

/-- A step that is not due is skipped. -/
theorem perform_skipped {s : Step} {store : Store} (hdue : s.isDue store = false) :
    e.perform act s store = ⟨⟨s.summed none, []⟩, [], store⟩ := by
  rw [perform_eq, hdue]
  rfl

/-- A group that is due performs the steps in it. -/
theorem perform_group {s : Step} {store : Store} (hgroup : s.isGroup = true)
    (hdue : s.isDue store = true) :
    e.perform act s store =
      ⟨⟨s.summed (culprit? s.children (e.performUpTo act s.children store).account),
          (e.performUpTo act s.children store).account⟩,
        (e.performUpTo act s.children store).calls,
        (e.performUpTo act s.children store).store⟩ := by
  rw [perform_eq, hdue, hgroup]
  rfl

variable {e act}

/-- A step that stops the others is the last one. -/
theorem performUpTo_cons_stops {s : Step} {store : Store}
    (h : s.stops (e.perform act s store).account.own = true) (ss : List Step) :
    e.performUpTo act (s :: ss) store =
        ⟨[(e.perform act s store).account], (e.perform act s store).calls,
          (e.perform act s store).store⟩ ∧
      culprit? (s :: ss) (e.performUpTo act (s :: ss) store).account = some s := by
  have hperformed : e.performUpTo act (s :: ss) store =
      ⟨[(e.perform act s store).account], (e.perform act s store).calls,
        (e.perform act s store).store⟩ := by
    rw [performUpTo]
    simp only [h, if_true]
  exact ⟨hperformed, hperformed ▸ culprit?_single h ss⟩

/-- A step that does not stop the others is followed by the next one. -/
theorem performUpTo_cons_goesOn {s : Step} {store : Store}
    (h : s.stops (e.perform act s store).account.own = false) (ss : List Step) :
    e.performUpTo act (s :: ss) store =
        ⟨(e.perform act s store).account ::
            (e.performUpTo act ss (e.perform act s store).store).account,
          (e.perform act s store).calls ++
            (e.performUpTo act ss (e.perform act s store).store).calls,
          (e.performUpTo act ss (e.perform act s store).store).store⟩ ∧
      culprit? (s :: ss) (e.performUpTo act (s :: ss) store).account =
        culprit? ss (e.performUpTo act ss (e.perform act s store).store).account := by
  have hperformed : e.performUpTo act (s :: ss) store =
      ⟨(e.perform act s store).account ::
          (e.performUpTo act ss (e.perform act s store).store).account,
        (e.perform act s store).calls ++
          (e.performUpTo act ss (e.perform act s store).store).calls,
        (e.performUpTo act ss (e.perform act s store).store).store⟩ := by
    rw [performUpTo]
    simp only [h, Bool.false_eq_true, if_false]
  exact ⟨hperformed, hperformed ▸ culprit?_cons h ss _⟩

variable (e act)

end

end Engine

/-! ## Worlds -/

/-- Variables, cancellation and surroundings are as they were. -/
structure World.Still (w v : World σ) : Prop where
  /-- The variables. -/
  store : v.store = w.store
  /-- The cancellation. -/
  cancelled : v.cancelled = w.cancelled
  /-- The surroundings. -/
  surroundings : v.surroundings = w.surroundings

theorem World.Still.refl (w : World σ) : w.Still w := ⟨rfl, rfl, rfl⟩

theorem World.Still.trans {u v w : World σ} (h : u.Still v) (h' : v.Still w) : u.Still w :=
  ⟨h'.store.trans h.store, h'.cancelled.trans h.cancelled, h'.surroundings.trans h.surroundings⟩

theorem World.Still.uncancelled {w v : World σ} (h : w.Still v) (hv : v.cancelled = false) :
    w.cancelled = false :=
  h.cancelled.symm.trans hv

/-- A run that is not cancelled has gone from one world to another: these calls were added to its
log and these variables are left. -/
structure World.Went (log : σ → List Step) (w : World σ) (calls : List Step) (store : Store)
    (w' : World σ) : Prop where
  /-- The calls. -/
  calls : log w'.surroundings = log w.surroundings ++ calls
  /-- The variables. -/
  store : w'.store = store
  /-- The run is still not cancelled. -/
  cancelled : w'.cancelled = false

namespace World.Went

variable {log : σ → List Step} {u v w : World σ} {K K' : List Step} {store store' : Store}

theorem of_still (hw : w.cancelled = false) (h : w.Still v) : Went log w [] w.store v :=
  ⟨by rw [h.surroundings, List.append_nil], h.store, h.cancelled.trans hw⟩

theorem still (h : Went log u K store v) (hw : v.Still w) : Went log u K store w :=
  ⟨hw.surroundings ▸ h.calls, hw.store.trans h.store, hw.cancelled.trans h.cancelled⟩

theorem after (h : v.surroundings = u.surroundings) (hw : Went log v K store w) :
    Went log u K store w :=
  ⟨h ▸ hw.calls, hw.store, hw.cancelled⟩

theorem append (h : Went log u K store v) (hw : Went log v K' store' w) :
    Went log u (K ++ K') store' w :=
  ⟨by rw [hw.calls, h.calls, List.append_assoc], hw.store, hw.cancelled⟩

end World.Went

/-! ## Others -/

/-- Others let time pass and cancel the run at most. -/
structure World.Harmless (others : World σ → World σ → Prop) : Prop where
  /-- They go onward. -/
  onward : ∀ w v, others w v → w.Onward v
  /-- They leave the variables alone. -/
  store : ∀ w v, others w v → v.store = w.store
  /-- They leave the surroundings alone. -/
  surroundings : ∀ w v, others w v → v.surroundings = w.surroundings

theorem World.harmless_eq : World.Harmless (σ := σ) Eq where
  onward _ _ h := h ▸ .refl _
  store _ _ h := h ▸ rfl
  surroundings _ _ h := h ▸ rfl

/-- A world that is not cancelled was not cancelled before. -/
theorem World.Onward.uncancelled {w v : World σ} (h : w.Onward v) (hv : v.cancelled = false) :
    w.cancelled = false := by
  rw [Bool.eq_false_iff] at *
  exact fun hw => hv (h.cancelled hw)

/-- If the run is not cancelled, others have let time pass. -/
theorem World.Harmless.still {others : World σ → World σ → Prop} (hothers : World.Harmless others)
    {w v : World σ} (h : others w v) (hv : v.cancelled = false) : w.Still v :=
  ⟨hothers.store w v h, hv.trans ((hothers.onward w v h).uncancelled hv).symm,
    hothers.surroundings w v h⟩

/-! ## Clerical work -/

section

variable {α β : Type} {others : World σ → World σ → Prop}

namespace Activity

/-- The activity changes no variables and no surroundings, and does not cancel the run. -/
def Clerical : Activity (World σ) α → Prop
  | done _ => True
  | panic _ => True
  | look next => ∀ w, (next w).Clerical
  | update change next => (∀ w, World.Still w (change w)) ∧ next.Clerical
  | await _ next => ∀ c, (next c).Clerical

theorem Clerical.bind {f : α → Activity (World σ) β} (hf : ∀ a, (f a).Clerical) :
    ∀ {x : Activity (World σ) α}, x.Clerical → (x.bind f).Clerical
  | .done a, _ => hf a
  | .panic _, _ => trivial
  | .look _, h => fun w => Clerical.bind hf (h w)
  | .update _ _, h => ⟨h.1, Clerical.bind hf h.2⟩
  | .await _ _, h => fun c => Clerical.bind hf (h c)

theorem clerical_done (a : α) : (done a : Activity (World σ) α).Clerical := trivial

theorem clerical_stamp : (World.stamp : Activity (World σ) Timestamp).Clerical :=
  ⟨fun _ => ⟨rfl, rfl, rfl⟩, fun _ => trivial⟩

/-- In a run that is not cancelled clerical work leaves everything as it was. -/
theorem Clerical.still {x : Activity (World σ) α} (hx : x.Clerical)
    (hothers : World.Harmless others) {w w' : World σ} {r : Ending α}
    (h : x.Course others w r w') (hw' : w'.cancelled = false) : w.Still w' := by
  induction h with
  | done => exact .refl _
  | panic => exact .refl _
  | look hv _ ih =>
    have hrest := ih (hx _) hw'
    exact (hothers.still hv (hrest.uncancelled hw')).trans hrest
  | update hv _ ih =>
    have hrest := (hx.1 _).trans (ih hx.2 hw')
    exact (hothers.still hv (hrest.uncancelled hw')).trans hrest
  | await hv _ ih =>
    have hrest := ih (hx _) hw'
    exact (hothers.still hv (hrest.uncancelled hw')).trans hrest

end Activity

end

namespace Engine

variable {e : Engine σ} {others : World σ → World σ → Prop}

theorem still_begun (hothers : World.Harmless others) {w v : World σ} {began : Timestamp}
    (h : Begun others w began v) (hv : v.cancelled = false) : w.Still v := by
  obtain ⟨u, hstamp, huv⟩ := h
  have hrest := hothers.still huv hv
  exact (Activity.clerical_stamp.still hothers hstamp (hrest.uncancelled hv)).trans hrest

theorem clerical_tell (e : Engine σ) (n : Notice) : (e.tell n).Clerical := by
  rw [tell]
  split
  · exact trivial
  · intro w
    dsimp only
    split
    · exact trivial
    · exact ⟨fun _ => ⟨rfl, rfl, rfl⟩, trivial⟩

theorem clerical_record (e : Engine σ) (r : StepResult) (c : Context) : (e.record r c).Clerical :=
  (e.clerical_tell _).bind fun _ => Activity.clerical_done _

/-! ## Steps that are run -/

variable {act : Step → Store → Reply × Store} {log : σ → List Step}

/-- In a run that is not cancelled, what executors hand back and the variables they leave depend
only on the step and the variables they find. -/
def Steady (e : Engine σ) (others : World σ → World σ → Prop) (act : Step → Store → Reply × Store) :
    Prop :=
  ∀ s x, e.registry.resolve? s = some x → ∀ c w reply w',
    (World.onScene (x.execute s c)).caught.Course others w (.returned reply) w' →
      w'.cancelled = false → (Reply.timeless reply, w'.store) = act s w.store

/-- The executor of a step is called once. -/
theorem Steady.went_execute (hsteady : e.Steady others act) (hothers : World.Harmless others)
    (hkeeps : e.Keeps log) {s : Step} {x : Executor σ} (hx : e.registry.resolve? s = some x)
    {c : Context} {w v : World σ} {reply : Reply}
    (h : (World.onScene (x.execute s c)).caught.Course others w (.returned reply) v)
    (hv : v.cancelled = false) :
    reply.timeless = (act s w.store).1 ∧ w.Went log [s] (act s w.store).2 v := by
  have hnotes : (World.onScene (x.execute s c)).caught.Notes log fun K _ => K = [s] :=
    (hkeeps s x hx c).caught (fun _ _ => id) fun _ _ => id
  obtain ⟨_, hlog, rfl⟩ := hnotes.of_course
    (fun _ _ hv => congrArg log (hothers.surroundings _ _ hv)) h
  rw [← hsteady s x hx c w reply v h hv]
  exact ⟨rfl, hlog, rfl, hv⟩

/-- A step that is given to its executor is performed. -/
theorem Steady.went_dispatch (hsteady : e.Steady others act) (hothers : World.Harmless others)
    (hkeeps : e.Keeps log) {s : Step} {c : Context} {began : Timestamp} {own : StepResult}
    {w w' : World σ} (h : (e.dispatch s c (s.begun began)).Course others w (.returned own) w')
    (hw' : w'.cancelled = false) :
    own.timeless = (e.performWork act s w.store).account ∧
      w.Went log (e.performWork act s w.store).calls (e.performWork act s w.store).store w' := by
  rw [dispatch] at h
  rw [performWork]
  cases hx : e.registry.resolve? s with
  | none =>
    rw [hx] at h
    obtain ⟨now, hown, hstamp⟩ := course_close h
    cases hown
    have hstill := Activity.clerical_stamp.still hothers hstamp hw'
    exact ⟨rfl, .of_still (hstill.uncancelled hw') hstill⟩
  | some x =>
    rw [hx] at h
    obtain ⟨reply, v, hcalled, h⟩ := h.of_bind_of_returns fun _ _ hpanic => by
      obtain ⟨_, hreturned⟩ := hpanic.of_caught
      cases hreturned
    -- What is left is a stamp, whatever the reply.
    have hperformed : v.Still w' → Reply.timeless reply = (act s w.store).1 ∧
        w.Went log [s] (act s w.store).2 w' := by
      intro hstill
      obtain ⟨hreply, hwent⟩ :=
        hsteady.went_execute hothers hkeeps hx hcalled (hstill.uncancelled hw')
      exact ⟨hreply, hwent.still hstill⟩
    dsimp only
    rcases reply with m | f | o
    · obtain ⟨now, hown, hstamp⟩ := course_close h
      cases hown
      obtain ⟨hreply, hwent⟩ := hperformed (Activity.clerical_stamp.still hothers hstamp hw')
      exact ⟨hreply ▸ rfl, hwent⟩
    · obtain ⟨now, hown, hstamp⟩ := course_close h
      cases hown
      obtain ⟨hreply, hwent⟩ := hperformed (Activity.clerical_stamp.still hothers hstamp hw')
      exact ⟨hreply ▸ rfl, hwent⟩
    · obtain ⟨now, u, hstamp, hdone⟩ := h.of_bind_of_returns fun _ _ => not_course_stamp
      obtain ⟨hown, rfl⟩ := hdone.of_done
      cases hown
      obtain ⟨hreply, hwent⟩ := hperformed (Activity.clerical_stamp.still hothers hstamp hw')
      exact ⟨hreply ▸ timeless_result o s began now, hwent⟩

/-! ## Rules -/

/-- Steps have been performed one after the other. -/
inductive Performed (e : Engine σ) (act : Step → Store → Reply × Store) (log : σ → List Step) :
    List Step → World σ → List Account → World σ → Prop where
  /-- There are none. -/
  | nil {w : World σ} : Performed e act log [] w [] w
  /-- The first one and then the others. -/
  | cons {s : Step} {ss : List Step} {w v u w' : World σ} {a : Account} {as : List Account} :
      a.timeless = (e.perform act s w.store).account →
      w.Went log (e.perform act s w.store).calls (e.perform act s w.store).store v → v.Still u →
      Performed e act log ss u as w' → Performed e act log (s :: ss) w (a :: as) w'

/-- Steps that have all been performed. -/
theorem Performed.all {ss : List Step} {w w' : World σ} {as : List Account}
    (h : Performed e act log ss w as w') (hw : w.cancelled = false) :
    Account.timelessAll as = (e.performAll act ss w.store).account ∧
      w.Went log (e.performAll act ss w.store).calls (e.performAll act ss w.store).store w' := by
  induction h with
  | nil => exact ⟨rfl, .of_still hw (.refl _)⟩
  | cons ha hwent hstill _ ih =>
    have hrest := hwent.still hstill
    obtain ⟨has, hw'⟩ := ih hrest.cancelled
    rw [hrest.store] at has hw'
    rw [Account.timelessAll, performAll, ha, has]
    exact ⟨rfl, hrest.append hw'⟩

/-- Steps that have been performed up to one that stops the others. -/
theorem Performed.upTo {ss : List Step} {as : List Account} {w w' : World σ}
    (h : Performed e act log (ss.take as.length) w as w') (hw : w.cancelled = false)
    (hupTo : UpTo ss as) (hall : culprit? ss as = none → as.length = ss.length) :
    Account.timelessAll as = (e.performUpTo act ss w.store).account ∧
      w.Went log (e.performUpTo act ss w.store).calls (e.performUpTo act ss w.store).store w' := by
  induction as generalizing ss w with
  | nil =>
    obtain rfl : ss = [] := List.length_eq_zero_iff.mp (hall (culprit?_nil ss)).symm
    cases h
    exact ⟨rfl, .of_still hw (.refl _)⟩
  | cons a as ih =>
    cases ss with
    | nil => exact absurd hupTo.length_le (Nat.not_succ_le_zero _)
    | cons s ss =>
    cases h with
    | cons ha hwent hstill hrest =>
    have hstops : s.stops (e.perform act s w.store).account.own = s.stops a.own := by
      rw [← ha, Account.own_timeless]
      rfl
    rw [Account.timelessAll, performUpTo, ha]
    dsimp only
    rw [hstops]
    cases hown : s.stops a.own with
    | true =>
      obtain rfl := hupTo.eq_nil_of_stops hown
      cases hrest
      exact ⟨rfl, hwent.still hstill⟩
    | false =>
      have hfirst := hwent.still hstill
      obtain ⟨has, hw'⟩ := ih hrest hfirst.cancelled hupTo.tail fun hnone => by
        exact Nat.succ.inj (hall (culprit?_cons hown ss as ▸ hnone))
      rw [hfirst.store] at has hw'
      rw [has]
      exact ⟨rfl, hfirst.append hw'⟩

mutual

/-- A step that is run by the rules is performed, if the run is not cancelled. -/
theorem Ran.performed (hsteady : e.Steady others act) (hothers : World.Harmless others)
    (hkeeps : e.Keeps log) {s : Step} {c c' : Context} {w w' : World σ}
    (hw' : w'.cancelled = false) :
    ∀ {a : Account}, e.Ran others s c w a c' w' →
      a.timeless = (e.perform act s w.store).account ∧
        w.Went log (e.perform act s w.store).calls (e.perform act s w.store).store w'
  | .mk own as, h => by
      rw [perform_eq]
      cases h with
      | skipped hbegun hdue hstamp hrecord =>
        have hrecorded := (e.clerical_record _ _).still hothers hrecord hw'
        have hended := (Activity.clerical_stamp.still hothers hstamp
          (hrecorded.uncancelled hw')).trans hrecorded
        have hbegan := still_begun hothers hbegun (hended.uncancelled hw')
        have hstill := hbegan.trans hended
        rw [hbegan.store] at hdue
        rw [hdue]
        exact ⟨congrArg (Account.mk · []) (s.timeless_closed none _ _),
          .of_still (hstill.uncancelled hw') hstill⟩
      | executed hbegun hdue hgroup hdispatch hrecord =>
        have hrecorded := (e.clerical_record _ _).still hothers hrecord hw'
        have hu := hrecorded.uncancelled hw'
        have honward := hdispatch.onward hothers.onward (e.forward_dispatch _ _ _)
        have hbegan := still_begun hothers hbegun (honward.uncancelled hu)
        obtain ⟨hown, hwent⟩ := hsteady.went_dispatch hothers hkeeps hdispatch hu
        rw [hbegan.store] at hdue hown hwent
        rw [hdue, hgroup]
        exact ⟨congrArg (Account.mk · []) hown,
          .after hbegan.surroundings (hwent.still hrecorded)⟩
      | group hbegun hdue hgroup hran hupTo hall hstamp hrecord =>
        have hrecorded := (e.clerical_record _ _).still hothers hrecord hw'
        have hended := (Activity.clerical_stamp.still hothers hstamp
          (hrecorded.uncancelled hw')).trans hrecorded
        have ht := hended.uncancelled hw'
        have hv := (RanAll.onward e hothers.onward hran).uncancelled ht
        have hbegan := still_begun hothers hbegun hv
        obtain ⟨has, hwent⟩ :=
          (RanAll.performed hsteady hothers hkeeps ht hran).upTo hv hupTo hall
        rw [hbegan.store] at hdue has hwent
        rw [hdue, hgroup]
        dsimp only [Bool.not_true, Bool.false_eq_true, if_false, if_true]
        rw [← has, culprit?_timeless]
        exact ⟨congrArg (Account.mk · _) (s.timeless_closed _ _ _),
          .after hbegan.surroundings (hwent.still hended)⟩
termination_by structural a => a

theorem RanAll.performed (hsteady : e.Steady others act) (hothers : World.Harmless others)
    (hkeeps : e.Keeps log) {ss : List Step} {c c' : Context} {w w' : World σ}
    (hw' : w'.cancelled = false) :
    ∀ {as : List Account}, e.RanAll others ss c w as c' w' → Performed e act log ss w as w'
  | [], h => by
      cases h
      exact .nil
  | a :: as, h => by
      cases h with
      | cons hfirst hrest =>
        have hv := (RanAll.onward e hothers.onward hrest).uncancelled hw'
        obtain ⟨ha, hwent⟩ := Ran.performed hsteady hothers hkeeps hv hfirst
        exact .cons ha hwent (.refl _) (RanAll.performed hsteady hothers hkeeps hw' hrest)
termination_by structural as => as

end

end Engine

/-! ## Trees of accounts -/

namespace Account

mutual

/-- The account is one of the step, and those in it are accounts of the first steps in the step. -/
def Follows : Account → Step → Prop
  | mk own as, s => own.key = s.key ∧ FollowAll as s.children
termination_by structural a => a

/-- The accounts are accounts of the first steps. -/
def FollowAll : List Account → List Step → Prop
  | [], _ => True
  | _ :: _, [] => False
  | a :: as, s :: ss => Follows a s ∧ FollowAll as ss
termination_by structural as => as

end

mutual

theorem follows_timeless : ∀ {a : Account} {s : Step}, a.timeless.Follows s → a.Follows s
  | mk _ _, _, h => ⟨h.1, followAll_timeless h.2⟩

theorem followAll_timeless : ∀ {as : List Account} {ss : List Step},
    FollowAll (timelessAll as) ss → FollowAll as ss
  | [], _, _ => trivial
  | _ :: _, [], h => h.elim
  | _ :: _, _ :: _, h => ⟨follows_timeless h.1, followAll_timeless h.2⟩

end

end Account

namespace Engine

theorem key_performWork (e : Engine σ) (act : Step → Store → Reply × Store) (s : Step)
    (store : Store) : (e.performWork act s store).account.key = s.key := by
  rw [performWork]
  split
  · rfl
  · rcases (act s store).1 with m | f | o <;> rfl

mutual

/-- A step is performed to an account of it. -/
theorem follows_perform (e : Engine σ) (act : Step → Store → Reply × Store) :
    ∀ (s : Step) (store : Store), (e.perform act s store).account.Follows s
  | .mk i n d k enabled goesOn cs ps ss, store => by
      rw [perform]
      dsimp only
      split
      · exact ⟨rfl, trivial⟩
      split
      · refine ⟨?_, followAll_performUpTo e act ss store⟩
        cases culprit? ss (e.performUpTo act ss store).account <;> rfl
      · exact ⟨e.key_performWork act _ store, trivial⟩
termination_by structural s => s

theorem followAll_performUpTo (e : Engine σ) (act : Step → Store → Reply × Store) :
    ∀ (ss : List Step) (store : Store),
      Account.FollowAll (e.performUpTo act ss store).account ss
  | [], _ => trivial
  | s :: ss, store => by
      rw [performUpTo]
      dsimp only
      split
      · exact ⟨follows_perform e act s store, trivial⟩
      · exact ⟨follows_perform e act s store, followAll_performUpTo e act ss _⟩
termination_by structural ss => ss

end

end Engine
end Runbook
