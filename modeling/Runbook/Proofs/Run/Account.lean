import Runbook.Proofs.Run.Onward

/-!
# Accounts of steps

An *account* of a step says what became of it: its result, and the accounts of those of its children
that were run.  `Engine.Ran` gives the rules by which a step is run and its result recorded, from
one context and world to others.  A step that is not due and a step that is no group have an account
without further accounts.  A group that is due runs its children *up to* one that stops it, and this
one decides about its result.

What an account puts into the record is its *block*, in the order in which the results are recorded
(`Engine.Ran.results`).  No step has two results there (`Engine.Ran.keys_sublist`).  Its *chronicle*
lists the same results in the order in which the steps were begun, each later than the one before
(`Engine.Ran.chronological`).
-/

namespace Runbook

variable {σ : Type} {others : World σ → World σ → Prop}

/-! ## Trees of results -/

/-- The result of a step and the accounts of the steps in it. -/
inductive Account where
  /-- An account, given by its parts. -/
  | mk (own : StepResult) (inner : List Account)

namespace Account

/-- The result of the step. -/
def own : Account → StepResult
  | mk r _ => r

/-- The accounts of the steps in it. -/
def inner : Account → List Account
  | mk _ as => as

mutual

/-- The results as they are recorded, a step after the steps in it. -/
def block : Account → List StepResult
  | mk r as => blocks as ++ [r]
termination_by structural a => a

/-- The results of several accounts as they are recorded. -/
def blocks : List Account → List StepResult
  | [] => []
  | a :: as => block a ++ blocks as
termination_by structural as => as

end

mutual

/-- The results as the steps are begun, a step before the steps in it. -/
def chronicle : Account → List StepResult
  | mk r as => r :: chronicles as
termination_by structural a => a

/-- The results of several accounts as the steps are begun. -/
def chronicles : List Account → List StepResult
  | [] => []
  | a :: as => chronicle a ++ chronicles as
termination_by structural as => as

end

mutual

/-- Both orders list the same results. -/
theorem block_perm : ∀ a : Account, a.block.Perm a.chronicle
  | mk r as => by
      rw [block, chronicle]
      exact (List.perm_append_singleton _ _).trans ((blocks_perm as).cons r)
termination_by structural a => a

theorem blocks_perm : ∀ as : List Account, (blocks as).Perm (chronicles as)
  | [] => .refl _
  | a :: as => by
      rw [blocks, chronicles]
      exact (block_perm a).append (blocks_perm as)
termination_by structural as => as

end

theorem blocks_append : ∀ as bs : List Account, blocks (as ++ bs) = blocks as ++ blocks bs
  | [], _ => rfl
  | a :: as, bs => by
      rw [List.cons_append, blocks, blocks, blocks_append, List.append_assoc]

/-- The block of an account stands among those of several. -/
theorem block_sublist {a : Account} : ∀ {as : List Account}, a ∈ as → a.block.Sublist (blocks as)
  | b :: as, h => by
      rw [blocks]
      obtain rfl | h := List.mem_cons.mp h
      · exact List.sublist_append_left _ _
      · exact (block_sublist h).trans (List.sublist_append_right _ _)

end Account

/-! ## Children up to one that stops the group -/

/-- A result of the step stops what holds the step. -/
def Step.stops (s : Step) (r : StepResult) : Bool := r.isFailed && !s.continueOnError

/-- The accounts are those of the first steps, and none but the last of these stops the others. -/
structure UpTo (ss : List Step) (as : List Account) : Prop where
  /-- There are no more accounts than steps. -/
  length_le : as.length ≤ ss.length
  /-- The steps before the last one do not stop the others. -/
  goesOn : ∀ p ∈ (ss.zip as).dropLast, p.1.stops p.2.own = false

/-- The last step with an account, if it stops the others. -/
def culprit? (ss : List Step) (as : List Account) : Option Step :=
  (ss.zip as).getLast?.bind fun p => if p.1.stops p.2.own then some p.1 else none

namespace UpTo

variable {s : Step} {ss : List Step} {a : Account} {as : List Account}

theorem nil (ss : List Step) : UpTo ss [] where
  length_le := Nat.zero_le _
  goesOn := by simp

theorem single (s : Step) (ss : List Step) (a : Account) : UpTo (s :: ss) [a] where
  length_le := by simp
  goesOn := by simp

theorem cons (h : UpTo ss as) (ha : s.stops a.own = false) : UpTo (s :: ss) (a :: as) where
  length_le := Nat.succ_le_succ h.length_le
  goesOn := by
    intro p hp
    rw [List.zip_cons_cons] at hp
    cases hzip : ss.zip as with
    | nil => simp [hzip] at hp
    | cons q qs =>
      rw [hzip, List.dropLast_cons_cons, List.mem_cons] at hp
      obtain rfl | hp := hp
      · exact ha
      · exact h.goesOn p (hzip ▸ hp)

end UpTo

theorem culprit?_nil (ss : List Step) : culprit? ss [] = none := by simp [culprit?]

theorem culprit?_single {s : Step} {a : Account} (h : s.stops a.own = true) (ss : List Step) :
    culprit? (s :: ss) [a] = some s := by
  simp [culprit?, h]

theorem culprit?_cons {s : Step} {a : Account} (h : s.stops a.own = false) (ss : List Step)
    (as : List Account) : culprit? (s :: ss) (a :: as) = culprit? ss as := by
  rw [culprit?, culprit?, List.zip_cons_cons]
  cases hzip : ss.zip as with
  | nil => simp [h]
  | cons q qs => rw [List.getLast?_cons_cons]

/-! ## Steps that are begun -/

/-- The step is run rather than skipped. -/
def Step.isDue (s : Step) (store : Store) : Bool :=
  s.enabled && Condition.allHold s.conditions store

/-- The result of a step that was begun. -/
def Step.begun (s : Step) (now : Timestamp) : StepResult := .begun s.id s.name now

/-- The context when a step is begun. -/
def Context.enter (c : Context) (s : Step) : Context := { c with currentStep := some s.id }

/-- A step was begun at a time, and its conditions are looked at in a world. -/
def Begun (others : World σ → World σ → Prop) (w : World σ) (now : Timestamp) (v : World σ) :
    Prop :=
  ∃ u, World.stamp.Course others w (.returned now) u ∧ others u v

/-- The result of a step that did no work of its own, by the child that stopped it. -/
def Step.closed (s : Step) (culprit : Option Step) (began ended : Timestamp) : StepResult :=
  match culprit with
  | some child => (s.begun began).close .failed (some ("Child step failed: " ++ child.name)) ended
  | none => (s.begun began).close .completed none ended

/-- A result that was begun has come to its end. -/
structure StepResult.Closes (r own : StepResult) : Prop where
  /-- It is of the same step. -/
  stepId : own.stepId = r.stepId
  /-- It is of the same step. -/
  stepName : own.stepName = r.stepName
  /-- It was begun at the same time. -/
  started : own.started = r.started
  /-- Its status is terminal. -/
  terminal : own.status.isTerminal = true
  /-- It has ended. -/
  ended : own.ended.isSome = true

theorem StepResult.closes_close (r : StepResult) {status : Status}
    (h : status.isTerminal = true) (error : Option String) (now : Timestamp) :
    r.Closes (r.close status error now) :=
  ⟨rfl, rfl, rfl, h, rfl⟩

/-- What an executor hands back ends its step, finished or not. -/
theorem Outcome.closes_result (o : Outcome) (r : StepResult) (now : Timestamp) :
    r.Closes (o.result r now) := by
  rw [result]
  split
  · next h => exact ⟨rfl, rfl, rfl, h, rfl⟩
  · exact ⟨rfl, rfl, rfl, rfl, rfl⟩

theorem Step.started_closed (s : Step) (culprit : Option Step) (began ended : Timestamp) :
    (s.closed culprit began ended).started = began := by
  cases culprit <;> rfl

theorem Step.closes_closed (s : Step) (culprit : Option Step) (began ended : Timestamp) :
    (s.begun began).Closes (s.closed culprit began ended) := by
  cases culprit with
  | none => exact (s.begun began).closes_close rfl _ _
  | some child => exact (s.begun began).closes_close rfl _ _

namespace Engine

variable (e : Engine σ)

/-! ## Rules -/

mutual

/-- A step was run and its result recorded. -/
inductive Ran (others : World σ → World σ → Prop) :
    Step → Context → World σ → Account → Context → World σ → Prop where
  /-- A step that is not due is completed. -/
  | skipped {s : Step} {c c' : Context} {w v u w' : World σ} {began ended : Timestamp} :
      Begun others w began v → s.isDue v.store = false →
      World.stamp.Course others v (.returned ended) u →
      (e.record (s.closed none began ended) (c.enter s)).Course others u (.returned c') w' →
      Ran others s c w ⟨s.closed none began ended, []⟩ c' w'
  /-- A step that is no group is given to its executor. -/
  | executed {s : Step} {c c' : Context} {w v u w' : World σ} {began : Timestamp}
      {own : StepResult} :
      Begun others w began v → s.isDue v.store = true → s.isGroup = false →
      (e.dispatch s (c.enter s) (s.begun began)).Course others v (.returned own) u →
      (e.record own (c.enter s)).Course others u (.returned c') w' →
      Ran others s c w ⟨own, []⟩ c' w'
  /-- A group runs its first children, all of them unless the last of these stops it. -/
  | group {s : Step} {c c₁ c' : Context} {w v t u w' : World σ} {began ended : Timestamp}
      {as : List Account} :
      Begun others w began v → s.isDue v.store = true → s.isGroup = true →
      RanAll others (s.children.take as.length) (c.enter s) v as c₁ t → UpTo s.children as →
      (culprit? s.children as = none → as.length = s.children.length) →
      World.stamp.Course others t (.returned ended) u →
      (e.record (s.closed (culprit? s.children as) began ended) c₁).Course others u
        (.returned c') w' →
      Ran others s c w ⟨s.closed (culprit? s.children as) began ended, as⟩ c' w'

/-- Steps were run one after the other. -/
inductive RanAll (others : World σ → World σ → Prop) :
    List Step → Context → World σ → List Account → Context → World σ → Prop where
  /-- There are none. -/
  | nil {c : Context} {w : World σ} : RanAll others [] c w [] c w
  /-- The first one and then the others. -/
  | cons {s : Step} {ss : List Step} {c c₁ c' : Context} {w v w' : World σ} {a : Account}
      {as : List Account} :
      Ran others s c w a c₁ v → RanAll others ss c₁ v as c' w' →
      RanAll others (s :: ss) c w (a :: as) c' w'

end

/-! ## Results -/

theorem not_course_stamp {w w' : World σ} {m : Option String} :
    ¬ World.stamp.Course others w (.panicked m) w' := by
  intro h
  obtain ⟨_, _, _, hreturned⟩ := h.of_stamp
  cases hreturned

/-- A result is closed at the time of a stamp. -/
theorem course_close {r : StepResult} {status : Status} {error : Option String} {w w' : World σ}
    {ending : Ending StepResult} (h : (close r status error).Course others w ending w') :
    ∃ now, ending = .returned (r.close status error now) ∧
      World.stamp.Course others w (.returned now) w' := by
  rw [close, Activity.bind_eq] at h
  obtain ⟨now, v, hstamp, hdone⟩ | ⟨m, hpanic, -⟩ := h.of_bind
  · obtain ⟨rfl, rfl⟩ := hdone.of_done
    exact ⟨now, rfl, hstamp⟩
  · exact absurd hpanic not_course_stamp

/-- Whatever the executor does, its step comes to an end. -/
theorem course_dispatch {s : Step} {c : Context} {r : StepResult} {w w' : World σ}
    {ending : Ending StepResult} (h : (e.dispatch s c r).Course others w ending w') :
    ∃ own, ending = .returned own ∧ r.Closes own := by
  rw [dispatch] at h
  split at h
  · obtain ⟨now, rfl, -⟩ := course_close h
    exact ⟨_, rfl, r.closes_close rfl _ now⟩
  · rw [Activity.bind_eq] at h
    obtain ⟨outcome, v, -, h⟩ | ⟨m, hpanic, -⟩ := h.of_bind
    · split at h
      · rw [Activity.bind_eq] at h
        obtain ⟨now, u, -, hdone⟩ | ⟨m, hpanic, -⟩ := h.of_bind
        · exact ⟨_, hdone.of_done.1, Outcome.closes_result _ r now⟩
        · exact absurd hpanic not_course_stamp
      · obtain ⟨now, rfl, -⟩ := course_close h
        exact ⟨_, rfl, r.closes_close rfl _ now⟩
      · obtain ⟨now, rfl, -⟩ := course_close h
        exact ⟨_, rfl, r.closes_close rfl _ now⟩
    · obtain ⟨_, hreturned⟩ := hpanic.of_caught
      cases hreturned

theorem record_returned {r : StepResult} {c c' : Context} {w w' : World σ}
    (h : (e.record r c).Course others w (.returned c') w') : c' = c.record r := by
  rw [record, Activity.bind_eq] at h
  obtain ⟨_, _, _, hdone⟩ | ⟨_, _, hpanic⟩ := h.of_bind
  · injection hdone.of_done.1
  · cases hpanic

/-- A step that was run has come to its end, at a time it was begun at. -/
theorem Ran.closes {s : Step} {c c' : Context} {w w' : World σ} {a : Account}
    (h : e.Ran others s c w a c' w') :
    ∃ began v, Begun others w began v ∧ (s.begun began).Closes a.own := by
  cases h with
  | skipped hbegun _ _ _ => exact ⟨_, _, hbegun, s.closes_closed none _ _⟩
  | executed hbegun _ _ hdispatch _ =>
    obtain ⟨own, hown, hcloses⟩ := e.course_dispatch hdispatch
    injection hown with hown
    exact ⟨_, _, hbegun, hown ▸ hcloses⟩
  | group hbegun _ _ _ _ _ _ _ => exact ⟨_, _, hbegun, s.closes_closed _ _ _⟩

/-! ## The record -/

mutual

/-- A step changes nothing in a context but the step that it is at and the record, and to this it
adds its block. -/
theorem Ran.context {s : Step} {c c' : Context} {w w' : World σ} :
    ∀ {a : Account}, e.Ran others s c w a c' w' →
      ∃ i, c' = { c with currentStep := i, results := c.results ++ a.block }
  | .mk _ _, h => by
      cases h with
      | skipped _ _ _ hrecord => exact ⟨some s.id, e.record_returned hrecord⟩
      | executed _ _ _ _ hrecord => exact ⟨some s.id, e.record_returned hrecord⟩
      | group _ _ _ hran _ _ _ hrecord =>
        obtain ⟨i, rfl⟩ := RanAll.context hran
        refine ⟨i, (e.record_returned hrecord).trans ?_⟩
        rw [Context.record, Account.block, ← List.append_assoc]
        rfl
termination_by structural a => a

/-- Steps add their blocks, one after the other. -/
theorem RanAll.context {ss : List Step} {c c' : Context} {w w' : World σ} :
    ∀ {as : List Account}, e.RanAll others ss c w as c' w' →
      ∃ i, c' = { c with currentStep := i, results := c.results ++ Account.blocks as }
  | [], h => by
      cases h
      exact ⟨c.currentStep, by rw [Account.blocks, List.append_nil]⟩
  | a :: as, h => by
      cases h with
      | cons hfirst hrest =>
        obtain ⟨_, rfl⟩ := Ran.context hfirst
        obtain ⟨i, rfl⟩ := RanAll.context hrest
        exact ⟨i, by rw [Account.blocks, List.append_assoc]⟩
termination_by structural as => as

end

theorem Ran.results {s : Step} {c c' : Context} {w w' : World σ} {a : Account}
    (h : e.Ran others s c w a c' w') : c'.results = c.results ++ a.block := by
  obtain ⟨_, rfl⟩ := Ran.context e h
  rfl

end Engine

/-! ## Every step at most once -/

/-- By whom a result says it is. -/
def StepResult.key (r : StepResult) : String × String := (r.stepId, r.stepName)

/-- By whom results of the step are. -/
def Step.key (s : Step) : String × String := (s.id, s.name)

mutual

/-- The steps of a tree, a step after the steps in it. -/
def Step.postorder : Step → List Step
  | .mk i n d k e c cs ps ss => postorderAll ss ++ [.mk i n d k e c cs ps ss]
termination_by structural s => s

/-- The steps of several trees, one tree after the other. -/
def Step.postorderAll : List Step → List Step
  | [] => []
  | s :: ss => postorder s ++ postorderAll ss
termination_by structural ss => ss

end

theorem Step.postorder_eq (s : Step) : s.postorder = postorderAll s.children ++ [s] := by
  cases s
  rfl

theorem Step.postorderAll_take_sublist :
    ∀ (n : Nat) (ss : List Step), (postorderAll (ss.take n)).Sublist (postorderAll ss)
  | 0, ss => by
      rw [List.take_zero]
      exact List.nil_sublist _
  | _ + 1, [] => .refl _
  | n + 1, s :: ss => by
      rw [List.take_succ_cons, postorderAll, postorderAll]
      exact (List.Sublist.refl _).append (postorderAll_take_sublist n ss)

namespace Engine

variable (e : Engine σ)

theorem Ran.key_own {s : Step} {c c' : Context} {w w' : World σ} {a : Account}
    (h : e.Ran others s c w a c' w') : a.own.key = s.key := by
  obtain ⟨_, _, _, hcloses⟩ := Ran.closes e h
  exact Prod.ext hcloses.stepId hcloses.stepName

mutual

/-- The block of a step names steps of its tree, each at most once. -/
theorem Ran.keys_sublist {s : Step} {c c' : Context} {w w' : World σ} :
    ∀ {a : Account}, e.Ran others s c w a c' w' →
      (a.block.map (·.key)).Sublist (s.postorder.map (·.key))
  | .mk own as, h => by
      have hown : own.key = s.key := Ran.key_own e h
      have hinner : ((Account.blocks as).map (·.key)).Sublist
          ((Step.postorderAll s.children).map (·.key)) := by
        cases h with
        | skipped => exact List.nil_sublist _
        | executed => exact List.nil_sublist _
        | group _ _ _ hran _ _ _ _ =>
          exact (RanAll.keys_sublist hran).trans ((Step.postorderAll_take_sublist _ _).map _)
      rw [Account.block, Step.postorder_eq, List.map_append, List.map_append, List.map_singleton,
        List.map_singleton, hown]
      exact hinner.append (.refl _)
termination_by structural a => a

/-- The blocks of several steps name steps of their trees, each at most once. -/
theorem RanAll.keys_sublist {ss : List Step} {c c' : Context} {w w' : World σ} :
    ∀ {as : List Account}, e.RanAll others ss c w as c' w' →
      ((Account.blocks as).map (·.key)).Sublist ((Step.postorderAll ss).map (·.key))
  | [], _ => List.nil_sublist _
  | _ :: _, h => by
      cases h with
      | cons hfirst hrest =>
        rw [Account.blocks, Step.postorderAll, List.map_append, List.map_append]
        exact (Ran.keys_sublist hfirst).append (RanAll.keys_sublist hrest)
termination_by structural as => as

end

end Engine

/-! ## The chronicle -/

/-- The results were begun one after the other, between two points in time. -/
structure Chronological (s t : Timestamp) (rs : List StepResult) : Prop where
  /-- Each was begun before the next. -/
  increasing : rs.Pairwise fun r r' => r.started.Before r'.started
  /-- They were begun after the first point in time. -/
  after : ∀ r ∈ rs, s.Before r.started
  /-- They were begun not after the second point in time. -/
  notAfter : ∀ r ∈ rs, r.started.notAfter t = true

namespace Chronological

variable {s t u : Timestamp} {r : StepResult} {rs rs' : List StepResult}

theorem nil (s t : Timestamp) : Chronological s t [] where
  increasing := .nil
  after := by simp
  notAfter := by simp

theorem append (h : Chronological s t rs) (h' : Chronological t u rs')
    (hst : s.notAfter t = true) (htu : t.notAfter u = true) : Chronological s u (rs ++ rs') where
  increasing := List.pairwise_append.mpr ⟨h.increasing, h'.increasing, fun r hr r' hr' =>
    Timestamp.notAfter_trans_before (h.notAfter r hr) (h'.after r' hr')⟩
  after := List.forall_mem_append.mpr
    ⟨h.after, fun r hr => Timestamp.notAfter_trans_before hst (h'.after r hr)⟩
  notAfter := List.forall_mem_append.mpr
    ⟨fun r hr => Timestamp.notAfter_trans (h.notAfter r hr) htu, h'.notAfter⟩

theorem single (hs : s.Before r.started) (ht : r.started.notAfter t = true) :
    Chronological s t [r] where
  increasing := List.pairwise_singleton _ _
  after := List.forall_mem_singleton.mpr hs
  notAfter := List.forall_mem_singleton.mpr ht

theorem notAfter_right (h : Chronological s t rs) (htu : t.notAfter u = true) :
    Chronological s u rs :=
  ⟨h.increasing, h.after, fun r hr => Timestamp.notAfter_trans (h.notAfter r hr) htu⟩

end Chronological

/-- A step is begun later than the clock stood. -/
theorem Begun.after (hothers : ∀ w v, others w v → World.Onward w v) {w v : World σ}
    {began : Timestamp} (h : Begun others w began v) :
    w.Onward v ∧ w.clock.Before began ∧ began.notAfter v.clock = true := by
  obtain ⟨u, hstamp, huv⟩ := h
  obtain ⟨hbefore, rfl⟩ := hstamp.stamp_after hothers
  have huv := hothers _ _ huv
  exact ⟨(hstamp.onward hothers Activity.forward_stamp).trans huv, hbefore, huv.clock⟩

namespace Engine

variable (e : Engine σ)

mutual

/-- While a step is run, time goes on. -/
theorem Ran.onward (hothers : ∀ w v, others w v → World.Onward w v) {s : Step} {c c' : Context}
    {w w' : World σ} : ∀ {a : Account}, e.Ran others s c w a c' w' → w.Onward w'
  | .mk own as, h => by
      cases h with
      | skipped hbegun _ hstamp hrecord =>
        exact ((hbegun.after hothers).1.trans (hstamp.onward hothers Activity.forward_stamp)).trans
          (hrecord.onward hothers (e.forward_record _ _))
      | executed hbegun _ _ hdispatch hrecord =>
        exact ((hbegun.after hothers).1.trans
          (hdispatch.onward hothers (e.forward_dispatch _ _ _))).trans
          (hrecord.onward hothers (e.forward_record _ _))
      | group hbegun _ _ hran _ _ hstamp hrecord =>
        exact (((hbegun.after hothers).1.trans (RanAll.onward hothers hran)).trans
          (hstamp.onward hothers Activity.forward_stamp)).trans
          (hrecord.onward hothers (e.forward_record _ _))
termination_by structural a => a

theorem RanAll.onward (hothers : ∀ w v, others w v → World.Onward w v) {ss : List Step}
    {c c' : Context} {w w' : World σ} :
    ∀ {as : List Account}, e.RanAll others ss c w as c' w' → w.Onward w'
  | [], h => by
      cases h
      exact .refl _
  | _ :: _, h => by
      cases h with
      | cons hfirst hrest =>
        exact (Ran.onward hothers hfirst).trans (RanAll.onward hothers hrest)
termination_by structural as => as

end

mutual

/-- A step is begun before the steps in it, and these one after the other. -/
theorem Ran.chronological (hothers : ∀ w v, others w v → World.Onward w v) {s : Step}
    {c c' : Context} {w w' : World σ} :
    ∀ {a : Account}, e.Ran others s c w a c' w' → Chronological w.clock w'.clock a.chronicle
  | .mk own as, h => by
      rw [Account.chronicle, ← List.singleton_append]
      cases h with
      | skipped hbegun _ hstamp hrecord =>
        obtain ⟨-, hbefore, hnotAfter⟩ := hbegun.after hothers
        have hrest := (hstamp.onward hothers Activity.forward_stamp).trans
          (hrecord.onward hothers (e.forward_record _ _))
        exact (Chronological.single hbefore hnotAfter).append (.nil _ _)
          (Timestamp.notAfter_trans hbefore.notAfter hnotAfter) hrest.clock
      | executed hbegun _ _ hdispatch hrecord =>
        obtain ⟨-, hbefore, hnotAfter⟩ := hbegun.after hothers
        obtain ⟨_, hreturned, hcloses⟩ := e.course_dispatch hdispatch
        injection hreturned with hreturned
        have hstarted : own.started = _ := hreturned ▸ hcloses.started
        have hrest := (hdispatch.onward hothers (e.forward_dispatch _ _ _)).trans
          (hrecord.onward hothers (e.forward_record _ _))
        exact (Chronological.single (hstarted ▸ hbefore) (hstarted ▸ hnotAfter)).append (.nil _ _)
          (Timestamp.notAfter_trans hbefore.notAfter hnotAfter) hrest.clock
      | group hbegun _ _ hran _ _ hstamp hrecord =>
        obtain ⟨-, hbefore, hnotAfter⟩ := hbegun.after hothers
        have hrest := (hstamp.onward hothers Activity.forward_stamp).trans
          (hrecord.onward hothers (e.forward_record _ _))
        have hinner := (RanAll.chronological hothers hran).notAfter_right hrest.clock
        refine (Chronological.single ?_ ?_).append hinner
          (Timestamp.notAfter_trans hbefore.notAfter hnotAfter)
          (Timestamp.notAfter_trans (RanAll.onward e hothers hran).clock hrest.clock)
        · rw [Step.started_closed]
          exact hbefore
        · rw [Step.started_closed]
          exact hnotAfter
termination_by structural a => a

theorem RanAll.chronological (hothers : ∀ w v, others w v → World.Onward w v) {ss : List Step}
    {c c' : Context} {w w' : World σ} :
    ∀ {as : List Account}, e.RanAll others ss c w as c' w' →
      Chronological w.clock w'.clock (Account.chronicles as)
  | [], _ => .nil _ _
  | _ :: _, h => by
      cases h with
      | cons hfirst hrest =>
        exact (Ran.chronological hothers hfirst).append (RanAll.chronological hothers hrest)
          (Ran.onward e hothers hfirst).clock (RanAll.onward e hothers hrest).clock
termination_by structural as => as

end

end Engine
end Runbook
