import Runbook.Proofs.Run.Steady

/-!
# Steps put into a group

Consecutive steps may be put into a group of their own, in their place (`Step.Regrouped`), at the
top level or in a group at any depth.  The group passes on what stops it, so a sequential run comes
to the same: `Engine.grouping_transparent`.

The record gains the result of the group, right after those of the steps in it, if the run gets that
far.  And where one of these steps stops the group that held them before, this now names the new
group (`Account.Gains`).
-/

namespace Runbook

variable {σ : Type}

/-! ## Regrouped steps -/

namespace Step

/-- The step with other steps in it. -/
def withChildren : Step → List Step → Step
  | mk i n d k e c cs ps _, ss => mk i n d k e c cs ps ss

/-- The step is an enabled group without conditions whose failure stops what holds it. -/
structure Brackets (g : Step) : Prop where
  /-- It is a group. -/
  group : g.isGroup = true
  /-- It is enabled. -/
  enabled : g.enabled = true
  /-- It has no conditions. -/
  conditions : g.conditions = []
  /-- Its failure stops what holds it. -/
  stops : g.continueOnError = false

theorem Brackets.isDue {g : Step} (hg : g.Brackets) (store : Store) : g.isDue store = true := by
  rw [Step.isDue, hg.enabled, hg.conditions]
  rfl

/-- The group stops what holds it if it is stopped itself. -/
theorem Brackets.stops_summed {g : Step} (hg : g.Brackets) (culprit : Option Step) :
    g.stops (g.summed culprit) = culprit.isSome := by
  rw [Step.stops_summed, hg.stops, Bool.not_false, Bool.and_true]

/-- Consecutive steps have been put into the group `g`, in their place. -/
inductive Regrouped (g : Step) : List Step → List Step → Prop where
  /-- They come first. -/
  | here (post : List Step) : Regrouped g (g.children ++ post) (g :: post)
  /-- They are in the first step, which is a group. -/
  | inside {s : Step} {ss' : List Step} (post : List Step) :
      s.isGroup = true → Regrouped g s.children ss' →
      Regrouped g (s :: post) (s.withChildren ss' :: post)
  /-- They come after the first step. -/
  | after {ss ss' : List Step} (s : Step) :
      Regrouped g ss ss' → Regrouped g (s :: ss) (s :: ss')

variable (s : Step) (ss : List Step)

@[simp] theorem children_withChildren : (s.withChildren ss).children = ss := by
  cases s
  rfl

@[simp] theorem key_withChildren : (s.withChildren ss).key = s.key := by
  cases s
  rfl

@[simp] theorem name_withChildren : (s.withChildren ss).name = s.name := by
  cases s
  rfl

@[simp] theorem isGroup_withChildren : (s.withChildren ss).isGroup = s.isGroup := by
  cases s
  rfl

@[simp] theorem isDue_withChildren (store : Store) :
    (s.withChildren ss).isDue store = s.isDue store := by
  cases s
  rfl

theorem summed_withChildren (culprit : Option Step) :
    (s.withChildren ss).summed culprit = s.summed culprit :=
  congrArg StepResult.timeless (closed_congr (s.key_withChildren ss) rfl _ _)

@[simp] theorem stops_withChildren (r : StepResult) :
    (s.withChildren ss).stops r = s.stops r := by
  cases s
  rfl

end Step

/-! ## Accounts -/

/-- The same step has stopped the others, by its name, or the new group has stopped them in place of
one of the steps in it. -/
def Renamed (g : Step) (culprit culprit' : Option Step) : Prop :=
  culprit'.map Step.name = culprit.map Step.name ∨
    ∃ child ∈ g.children, culprit = some child ∧ culprit' = some g

theorem Renamed.isSome {g : Step} {culprit culprit' : Option Step} (h : Renamed g culprit culprit') :
    culprit'.isSome = culprit.isSome := by
  obtain hname | ⟨child, -, rfl, rfl⟩ := h
  · rw [← Option.isSome_map (f := Step.name), hname, Option.isSome_map]
  · rfl

/-- What accounts of steps, without times, become when some of the steps are put into the group
`g`. -/
inductive Account.Gains (g : Step) :
    List Step → List Step → List Account → List Account → Prop where
  /-- The group holds the accounts of the steps that were put into it, and has its own result. -/
  | here {post : List Step} {as : List Account} :
      Gains g (g.children ++ post) (g :: post) as
        (⟨g.summed (culprit? g.children (as.take g.children.length)),
          as.take g.children.length⟩ :: as.drop g.children.length)
  /-- They are in a step that is run.  Its message may name the group in place of one of them. -/
  | inside {s : Step} {ss' post : List Step} {inner inner' rest : List Account} :
      Gains g s.children ss' inner inner' →
      Renamed g (culprit? s.children inner) (culprit? ss' inner') →
      Gains g (s :: post) (s.withChildren ss' :: post)
        (⟨s.summed (culprit? s.children inner), inner⟩ :: rest)
        (⟨s.summed (culprit? ss' inner'), inner'⟩ :: rest)
  /-- They are in a step that is skipped. -/
  | skipped {s : Step} {ss' post : List Step} {rest : List Account} :
      Gains g (s :: post) (s.withChildren ss' :: post) (⟨s.summed none, []⟩ :: rest)
        (⟨s.summed none, []⟩ :: rest)
  /-- They come after a step that stops the others. -/
  | stopped {s : Step} {ss ss' : List Step} {a : Account} :
      s.stops a.own = true → Gains g (s :: ss) (s :: ss') [a] [a]
  /-- They come after a step that does not stop the others. -/
  | after {s : Step} {ss ss' : List Step} {a : Account} {as as' : List Account} :
      s.stops a.own = false → Gains g ss ss' as as' →
        Gains g (s :: ss) (s :: ss') (a :: as) (a :: as')

/-- The step that stops the others is one of them. -/
theorem mem_of_culprit? {ss : List Step} {as : List Account} {child : Step}
    (h : culprit? ss as = some child) : child ∈ ss := by
  obtain ⟨p, hp, hchild⟩ := Option.bind_eq_some_iff.mp h
  split at hchild
  · cases hchild
    exact (List.of_mem_zip (List.mem_of_getLast? hp)).1
  · cases hchild

/-! ## Performing regrouped steps -/

/-- What comes of steps of which some have been put into the group `g` is what came of the steps
before, apart from the accounts and from who stops the others. -/
structure Performance.Gains (g : Step) (ss ss' : List Step) (p p' : Performance (List Account)) :
    Prop where
  /-- The accounts hold that of the group. -/
  account : Account.Gains g ss ss' p.account p'.account
  /-- Executors are called for the same steps. -/
  calls : p'.calls = p.calls
  /-- The same variables are left. -/
  store : p'.store = p.store
  /-- The others are stopped by the same step, or by the group. -/
  culprit : Renamed g (culprit? ss p.account) (culprit? ss' p'.account)

namespace Engine

variable {e : Engine σ} {act : Step → Store → Reply × Store} {s : Step} {store : Store}

/-- Steps that are stopped are not followed by others. -/
theorem performUpTo_append_stops (post : List Step) {child : Step} :
    ∀ {ss : List Step} {store : Store},
      culprit? ss (e.performUpTo act ss store).account = some child →
        e.performUpTo act (ss ++ post) store = e.performUpTo act ss store ∧
          culprit? (ss ++ post) (e.performUpTo act ss store).account = some child
  | [], _, h => by
      rw [performUpTo, culprit?_nil] at h
      cases h
  | s :: ss, store, h => by
      rw [List.cons_append]
      cases hstops : s.stops (e.perform act s store).account.own with
      | true =>
        obtain ⟨hall, -⟩ := performUpTo_cons_stops hstops (ss ++ post)
        obtain ⟨hfirst, hculprit⟩ := performUpTo_cons_stops hstops ss
        rw [hall, hfirst, culprit?_single hstops]
        exact ⟨rfl, hculprit.symm.trans h⟩
      | false =>
        obtain ⟨hall, -⟩ := performUpTo_cons_goesOn hstops (ss ++ post)
        obtain ⟨hfirst, hculprit⟩ := performUpTo_cons_goesOn hstops ss
        obtain ⟨hrest, hchild⟩ := performUpTo_append_stops post (hculprit.symm.trans h)
        rw [hall, hfirst, culprit?_cons hstops, hrest]
        exact ⟨rfl, hchild⟩

/-- Steps that are not stopped are followed by others. -/
theorem performUpTo_append_goesOn (post : List Step) :
    ∀ {ss : List Step} {store : Store},
      culprit? ss (e.performUpTo act ss store).account = none →
        e.performUpTo act (ss ++ post) store =
            ⟨(e.performUpTo act ss store).account ++
                (e.performUpTo act post (e.performUpTo act ss store).store).account,
              (e.performUpTo act ss store).calls ++
                (e.performUpTo act post (e.performUpTo act ss store).store).calls,
              (e.performUpTo act post (e.performUpTo act ss store).store).store⟩ ∧
          culprit? (ss ++ post) (e.performUpTo act (ss ++ post) store).account =
            culprit? post (e.performUpTo act post (e.performUpTo act ss store).store).account ∧
          (e.performUpTo act ss store).account.length = ss.length
  | [], _, _ => ⟨rfl, rfl, rfl⟩
  | s :: ss, store, h => by
      rw [List.cons_append]
      cases hstops : s.stops (e.perform act s store).account.own with
      | true =>
        rw [(performUpTo_cons_stops hstops ss).2] at h
        cases h
      | false =>
        obtain ⟨hall, hculpritAll⟩ := performUpTo_cons_goesOn hstops (ss ++ post)
        obtain ⟨hfirst, hculprit⟩ := performUpTo_cons_goesOn hstops ss
        obtain ⟨hrest, hculpritRest, hlength⟩ :=
          performUpTo_append_goesOn post (hculprit.symm.trans h)
        rw [hculpritAll, hall, hfirst, hculpritRest, hrest]
        exact ⟨by simp, rfl, by simp [hlength]⟩

variable (e act)

/-- A step in place of another one that does the same, as far as what follows can tell. -/
theorem exists_performUpTo_cons {t : Step} (hname : t.name = s.name)
    (hcalls : (e.perform act t store).calls = (e.perform act s store).calls)
    (hstore : (e.perform act t store).store = (e.perform act s store).store)
    (hstops : t.stops (e.perform act t store).account.own =
      s.stops (e.perform act s store).account.own) (post : List Step) :
    ∃ rest calls left,
      e.performUpTo act (s :: post) store =
        ⟨(e.perform act s store).account :: rest, calls, left⟩ ∧
      e.performUpTo act (t :: post) store =
        ⟨(e.perform act t store).account :: rest, calls, left⟩ ∧
      (culprit? (t :: post) (e.performUpTo act (t :: post) store).account).map Step.name =
        (culprit? (s :: post) (e.performUpTo act (s :: post) store).account).map Step.name := by
  cases hown : s.stops (e.perform act s store).account.own with
  | true =>
    obtain ⟨hfirst, hculprit⟩ := performUpTo_cons_stops hown post
    obtain ⟨hfirst', hculprit'⟩ := performUpTo_cons_stops (hstops.trans hown) post
    rw [hcalls, hstore] at hfirst'
    refine ⟨[], _, _, hfirst, hfirst', ?_⟩
    rw [hculprit, hculprit', Option.map_some, Option.map_some, hname]
  | false =>
    obtain ⟨hfirst, hculprit⟩ := performUpTo_cons_goesOn hown post
    obtain ⟨hfirst', hculprit'⟩ := performUpTo_cons_goesOn (hstops.trans hown) post
    rw [hcalls, hstore] at hfirst'
    refine ⟨_, _, _, hfirst, hfirst', ?_⟩
    rw [hculprit, hculprit', hstore]

theorem length_le_of_followAll {as : List Account} {ss : List Step}
    (h : Account.FollowAll as ss) : as.length ≤ ss.length := by
  induction as generalizing ss with
  | nil => exact Nat.zero_le _
  | cons a as ih =>
    cases ss with
    | nil => exact h.elim
    | cons s ss => exact Nat.succ_le_succ (ih h.2)

/-- The new group comes first.  If a step in it stops the others, it stops those after it. -/
theorem gains_here {g : Step} (hg : g.Brackets) (post : List Step) (store : Store) :
    (e.performUpTo act (g.children ++ post) store).Gains g (g.children ++ post) (g :: post)
      (e.performUpTo act (g :: post) store) := by
  have hperform := e.perform_group act hg.group (hg.isDue store)
  have hlength := length_le_of_followAll (followAll_performUpTo e act g.children store)
  have hstops : g.stops (e.perform act g store).account.own =
      (culprit? g.children (e.performUpTo act g.children store).account).isSome := by
    rw [hperform]
    exact hg.stops_summed _
  cases hculprit : culprit? g.children (e.performUpTo act g.children store).account with
  | some child =>
    rw [hculprit] at hstops
    obtain ⟨hall, hculpritAll⟩ := performUpTo_append_stops post hculprit
    obtain ⟨hgroup, hculpritGroup⟩ := performUpTo_cons_stops hstops post
    refine ⟨?_, by rw [hall, hgroup, hperform], by rw [hall, hgroup, hperform], ?_⟩
    · have hgains : Account.Gains g (g.children ++ post) (g :: post)
          (e.performUpTo act g.children store).account _ := .here
      rw [List.take_of_length_le hlength, List.drop_eq_nil_of_le hlength] at hgains
      rwa [hall, hgroup, hperform]
    · rw [hculpritGroup, hall, hculpritAll]
      exact .inr ⟨child, mem_of_culprit? hculprit, rfl, rfl⟩
  | none =>
    rw [hculprit] at hstops
    obtain ⟨hall, hculpritAll, heq⟩ := performUpTo_append_goesOn post hculprit
    obtain ⟨hgroup, hculpritGroup⟩ := performUpTo_cons_goesOn hstops post
    refine ⟨?_, by rw [hall, hgroup, hperform], by rw [hall, hgroup, hperform], ?_⟩
    · have hgains : Account.Gains g (g.children ++ post) (g :: post)
          ((e.performUpTo act g.children store).account ++
            (e.performUpTo act post (e.performUpTo act g.children store).store).account) _ := .here
      rw [← heq, List.take_left, List.drop_left] at hgains
      rwa [hall, hgroup, hperform]
    · rw [hculpritGroup, hculpritAll, hperform]
      exact .inl rfl

/-- The new group is in a step that is skipped. -/
theorem gains_skipped {g : Step} (hdue : s.isDue store = false) (ss' post : List Step) :
    (e.performUpTo act (s :: post) store).Gains g (s :: post) (s.withChildren ss' :: post)
      (e.performUpTo act (s.withChildren ss' :: post) store) := by
  have hfirst := e.perform_skipped act hdue
  have hfirst' : e.perform act (s.withChildren ss') store = ⟨⟨s.summed none, []⟩, [], store⟩ := by
    rw [e.perform_skipped act ((s.isDue_withChildren ss' store).trans hdue), s.summed_withChildren]
  obtain ⟨rest, calls, left, hall, hall', hculprit⟩ :=
    e.exists_performUpTo_cons act (s.name_withChildren ss') (by rw [hfirst, hfirst'])
      (by rw [hfirst, hfirst']) (by rw [hfirst, hfirst', s.stops_withChildren]) post
  rw [hfirst] at hall
  rw [hfirst'] at hall'
  refine ⟨?_, by rw [hall, hall'], by rw [hall, hall'], .inl hculprit⟩
  rw [hall, hall']
  exact .skipped

/-- The new group is in a group that is run.  Whether this stops the others has not changed. -/
theorem gains_inside {g : Step} {ss' : List Step} (hgroup : s.isGroup = true)
    (hdue : s.isDue store = true)
    (h : (e.performUpTo act s.children store).Gains g s.children ss'
      (e.performUpTo act ss' store)) (post : List Step) :
    (e.performUpTo act (s :: post) store).Gains g (s :: post) (s.withChildren ss' :: post)
      (e.performUpTo act (s.withChildren ss' :: post) store) := by
  have hfirst := e.perform_group act hgroup hdue
  have hfirst' := e.perform_group act ((s.isGroup_withChildren ss').trans hgroup)
    ((s.isDue_withChildren ss' store).trans hdue)
  rw [s.summed_withChildren, s.children_withChildren] at hfirst'
  have hstops : (s.withChildren ss').stops
      (e.perform act (s.withChildren ss') store).account.own =
        s.stops (e.perform act s store).account.own := by
    rw [hfirst, hfirst', s.stops_withChildren, Account.own, Account.own, s.stops_summed,
      s.stops_summed, h.culprit.isSome]
  obtain ⟨rest, calls, left, hall, hall', hculprit⟩ :=
    e.exists_performUpTo_cons act (s.name_withChildren ss') (by rw [hfirst, hfirst', h.calls])
      (by rw [hfirst, hfirst', h.store]) hstops post
  rw [hfirst] at hall
  rw [hfirst'] at hall'
  refine ⟨?_, by rw [hall, hall'], by rw [hall, hall'], .inl hculprit⟩
  rw [hall, hall']
  exact .inside h.account h.culprit

/-- The new group comes after the first step, which may stop the others. -/
theorem gains_after {g : Step} {ss ss' : List Step}
    (h : ∀ store, (e.performUpTo act ss store).Gains g ss ss' (e.performUpTo act ss' store)) :
    (e.performUpTo act (s :: ss) store).Gains g (s :: ss) (s :: ss')
      (e.performUpTo act (s :: ss') store) := by
  cases hstops : s.stops (e.perform act s store).account.own with
  | true =>
    obtain ⟨hfirst, hculprit⟩ := performUpTo_cons_stops hstops ss
    obtain ⟨hfirst', hculprit'⟩ := performUpTo_cons_stops hstops ss'
    refine ⟨?_, by rw [hfirst, hfirst'], by rw [hfirst, hfirst'],
      .inl (by rw [hculprit, hculprit'])⟩
    rw [hfirst, hfirst']
    exact .stopped hstops
  | false =>
    obtain ⟨hfirst, hculprit⟩ := performUpTo_cons_goesOn hstops ss
    obtain ⟨hfirst', hculprit'⟩ := performUpTo_cons_goesOn hstops ss'
    have hrest := h (e.perform act s store).store
    refine ⟨?_, by rw [hfirst, hfirst', hrest.calls], by rw [hfirst, hfirst', hrest.store], ?_⟩
    · rw [hfirst, hfirst']
      exact .after hstops hrest.account
    · rw [hculprit, hculprit']
      exact hrest.culprit

/-- Steps perform the same when some of them are put into a group. -/
theorem gains_performUpTo {g : Step} (hg : g.Brackets) {ss ss' : List Step}
    (h : Step.Regrouped g ss ss') : ∀ store : Store,
      (e.performUpTo act ss store).Gains g ss ss' (e.performUpTo act ss' store) := by
  induction h with
  | here post => exact e.gains_here act hg post
  | @inside s ss' post hgroup _ ih =>
    intro store
    cases hdue : s.isDue store with
    | false => exact e.gains_skipped act hdue ss' post
    | true => exact e.gains_inside act hgroup hdue (ih store) post
  | after s _ ih => exact fun store => e.gains_after act ih

end Engine

/-! ## The record -/

/-- The result without its times and its message. -/
def StepResult.unworded (r : StepResult) : StepResult := { r.timeless with error := none }

theorem StepResult.unworded_timeless (rs : List StepResult) :
    (rs.map (·.timeless)).map (·.unworded) = rs.map (·.unworded) := by
  rw [List.map_map]
  rfl

theorem Step.unworded_summed (s : Step) {culprit culprit' : Option Step}
    (h : culprit'.isSome = culprit.isSome) :
    (s.summed culprit').unworded = (s.summed culprit).unworded := by
  cases culprit <;> cases culprit' <;> first | rfl | cases h

theorem Step.key_summed (s : Step) (culprit : Option Step) : (s.summed culprit).key = s.key := by
  cases culprit <;> rfl

/-- Up to its times and messages, the one record is the other one, or gains a result of the step
`g`. -/
def StepResult.GainOne (g : Step) (rs rs' : List StepResult) : Prop :=
  rs'.map (·.unworded) = rs.map (·.unworded) ∨
    ∃ before own after, own.key = g.key ∧ rs.map (·.unworded) = before ++ after ∧
      rs'.map (·.unworded) = before ++ own :: after

namespace StepResult.GainOne

variable {g : Step} {rs rs' more more' : List StepResult}

theorem append_right (h : GainOne g rs rs')
    (hmore : more'.map (·.unworded) = more.map (·.unworded)) :
    GainOne g (rs ++ more) (rs' ++ more') := by
  obtain hsame | ⟨before, own, after, hown, hrs, hrs'⟩ := h
  · exact .inl (by rw [List.map_append, List.map_append, hsame, hmore])
  · refine .inr ⟨before, own, after ++ more.map (·.unworded), hown, ?_, ?_⟩
    · rw [List.map_append, hrs, List.append_assoc]
    · rw [List.map_append, hrs', hmore, List.append_assoc, List.cons_append]

theorem append_left (h : GainOne g rs rs') (more : List StepResult) :
    GainOne g (more ++ rs) (more ++ rs') := by
  obtain hsame | ⟨before, own, after, hown, hrs, hrs'⟩ := h
  · exact .inl (by rw [List.map_append, List.map_append, hsame])
  · refine .inr ⟨more.map (·.unworded) ++ before, own, after, hown, ?_, ?_⟩
    · rw [List.map_append, hrs, List.append_assoc]
    · rw [List.map_append, hrs', List.append_assoc]

end StepResult.GainOne

namespace Account

/-- The record gains at most the result of the new group. -/
theorem Gains.gainOne {g : Step} {ss ss' : List Step} {as as' : List Account}
    (h : Gains g ss ss' as as') : StepResult.GainOne g (blocks as) (blocks as') := by
  induction h with
  | @here _ as =>
    have hsplit := blocks_append (as.take g.children.length) (as.drop g.children.length)
    rw [List.take_append_drop] at hsplit
    rw [hsplit, blocks, block, List.append_assoc]
    refine .inr ⟨_, (g.summed (culprit? g.children (as.take g.children.length))).unworded, _,
      g.key_summed _, List.map_append, ?_⟩
    rw [List.map_append]
    rfl
  | @inside s _ _ _ _ _ _ hrenamed ih =>
    rw [blocks, blocks, block, block]
    refine (ih.append_right ?_).append_right rfl
    exact congrArg (fun r => [r]) (s.unworded_summed hrenamed.isSome)
  | skipped => exact .inl rfl
  | stopped => exact .inl rfl
  | @after _ _ _ a _ _ _ _ ih => exact ih.append_left a.block

end Account

namespace Engine

variable {e : Engine σ} {act : Step → Store → Reply × Store}

/-! ## Runs -/

/-- A run of a sequence in which some steps have been put into the group `g` has come to the same as
a run of the sequence. -/
structure Transparent (e : Engine σ) (g : Step) (s s' : Sequence) (c : Context)
    (w : World (σ × List Step)) (c' : Context) (w' : World (σ × List Step)) : Prop where
  /-- Executors were called for the same steps in the same order. -/
  calls : w'.calls = w.calls
  /-- The same variables are left. -/
  store : w'.store = w.store
  /-- The status is the same. -/
  status : c'.status = c.status
  /-- Apart from times and messages, the record gains at most the result of the group. -/
  gainOne : StepResult.GainOne g c.results c'.results
  /-- It gains that result where the run comes to the group. -/
  record : (s.publish e.machine).refused = none → ∃ as as', Account.FollowAll as s.steps ∧
    c.results = Account.blocks as ∧ c'.results = Account.blocks as' ∧
      Account.Gains g s.steps s'.steps (Account.timelessAll as) (Account.timelessAll as')
  /-- If the variables are refused, both records are empty. -/
  refused : (s.publish e.machine).refused ≠ none → c.results = [] ∧ c'.results = []

/-- In a sequential run of a steady engine that is not cancelled it makes no difference whether
consecutive steps stand by themselves or in a group of their own: executors are called for the same
steps, the same variables are left, the status is the same, and the record only gains the result of
the group. -/
theorem grouping_transparent (hsteady : e.Steady World.Passing act) (hcalm : e.Calm)
    {s : Sequence} {g : Step} (hg : g.Brackets) {ss' : List Step}
    (hregrouped : Step.Regrouped g s.steps ss') {w v : World σ}
    {w' v' : World (σ × List Step)} {ending ending' : Ending Context}
    (hrun : e.watched.Runs World.Passing .sequential s w.watch ending w')
    (hrun' : e.watched.Runs World.Passing .sequential { s with steps := ss' } v.watch ending' v')
    (hw' : w'.cancelled = false) (hv' : v'.cancelled = false) :
    ∃ c c', ending = .returned c ∧ ending' = .returned c' ∧
      e.Transparent g s { s with steps := ss' } c w' c' v' := by
  obtain ⟨as, c, hreturned, hresults, haccount, hcalls, hstore, hstatus⟩ :=
    hsteady.exists_performsRun hcalm hrun hw'
  obtain ⟨as', c', hreturned', hresults', haccount', hcalls', hstore', hstatus'⟩ :=
    hsteady.exists_performsRun hcalm hrun' hv'
  have hmachine : e.watched.machine = e.machine := rfl
  have hpublish : Sequence.publish { s with steps := ss' } e.machine = s.publish e.machine := rfl
  refine ⟨c, c', hreturned, hreturned', ?_⟩
  rw [performRun, hmachine] at haccount hcalls hstore
  rw [performRun, hmachine, hpublish] at haccount' hcalls' hstore'
  rw [← finalStatus_timeless, finalStatus] at hstatus
  rw [← finalStatus_timeless, finalStatus, hpublish] at hstatus'
  by_cases hrefused : (s.publish e.machine).refused = none
  · simp only [hrefused, if_true, true_and] at haccount hcalls hstore hstatus
    simp only [hrefused, if_true, true_and] at haccount' hcalls' hstore' hstatus'
    obtain ⟨hgains, hsame, hleft, hrenamed⟩ := e.watched.gains_performUpTo act hg
      hregrouped (s.publish e.machine).store
    rw [← haccount, ← haccount'] at hgains hrenamed
    have hfollow : Account.FollowAll as s.steps := by
      refine Account.followAll_timeless ?_
      rw [haccount]
      exact followAll_performUpTo e.watched act s.steps _
    refine ⟨hcalls'.trans (hsame.trans hcalls.symm), hstore'.trans (hleft.trans hstore.symm),
      ?_, ?_, fun _ => ⟨as, as', hfollow, hresults, hresults', hgains⟩,
      fun hne => absurd hrefused hne⟩
    · rw [hstatus, hstatus']
      simp only [← Option.isNone_iff_eq_none, ← Option.not_isSome, hrenamed.isSome]
    · have hgain := hgains.gainOne
      rw [Account.blocks_timeless, Account.blocks_timeless, ← hresults, ← hresults'] at hgain
      rw [StepResult.GainOne, StepResult.unworded_timeless, StepResult.unworded_timeless] at hgain
      exact hgain
  · rw [if_neg hrefused] at haccount hcalls hstore haccount' hcalls' hstore'
    rw [if_neg fun h => hrefused h.1] at hstatus hstatus'
    have hnil : ∀ {bs : List Account}, Account.timelessAll bs = [] → bs = [] := by
      intro bs hbs
      rwa [Account.timelessAll_eq_map, List.map_eq_nil_iff] at hbs
    rw [hnil haccount] at hresults
    rw [hnil haccount'] at hresults'
    refine ⟨hcalls'.trans hcalls.symm, hstore'.trans hstore.symm, hstatus'.trans hstatus.symm, ?_,
      fun h => absurd h hrefused, fun _ => ⟨hresults, hresults'⟩⟩
    rw [hresults, hresults']
    exact .inl rfl

end Engine

/-- A group whose second step fails, and a step after it. -/
def Sequence.faltering : Sequence := .ofSteps
  [.plain "h" "H" .group
      [.setting "a" "A" "x" "one", .plain "b" "B" .custom [], .setting "c" "C" "x" "two"],
    .setting "d" "D" "y" "%x%"]

/-- The first two steps in the group are put into one of their own.  The record gains its result. -/
theorem Engine.grouping_transparent_handy :
    let s := Sequence.faltering
    let g := Step.plain "g" "G" .group [.setting "a" "A" "x" "one", .plain "b" "B" .custom []]
    let ss' := [Step.plain "h" "H" .group [g, .setting "c" "C" "x" "two"],
      .setting "d" "D" "y" "%x%"]
    ∃ act, handy.Steady World.Passing act ∧ handy.Calm ∧ g.Brackets ∧
      Step.Regrouped g s.steps ss' ∧ ∃ ending w' ending' v',
        handy.watched.Runs World.Passing .sequential s World.epoch.watch ending w' ∧
        handy.watched.Runs World.Passing .sequential { s with steps := ss' } World.epoch.watch
          ending' v' ∧
        w'.cancelled = false ∧ v'.cancelled = false ∧
        ∃ c c', ending = .returned c ∧ ending' = .returned c' ∧ c.results.length = 3 ∧
          c'.results.length = 4 ∧ handy.Transparent g s { s with steps := ss' } c w' c' v' := by
  intro s g ss'
  obtain ⟨act, hsteady⟩ := exists_steady_handy
  have hg : g.Brackets := ⟨rfl, rfl, rfl, rfl⟩
  have hregrouped : Step.Regrouped g s.steps ss' :=
    .inside (s := .plain "h" "H" .group _) _ rfl (.here [.setting "c" "C" "x" "two"])
  have hfirst := runs_of_run (e := handy.watched) (s := s) (w := World.epoch.watch)
    (by decide +kernel)
  have hsecond := runs_of_run (e := handy.watched) (s := { s with steps := ss' })
    (w := World.epoch.watch) (by decide +kernel)
  have hw' : (handy.watched.run s World.epoch.watch).2.cancelled = false := by decide +kernel
  have hv' : (handy.watched.run { s with steps := ss' } World.epoch.watch).2.cancelled = false := by
    decide +kernel
  obtain ⟨c, c', hreturned, hreturned', htransparent⟩ :=
    grouping_transparent hsteady handy_calm hg hregrouped hfirst hsecond hw' hv'
  have hlength : (handy.watched.run s World.epoch.watch).1.resultCount = 3 := by decide +kernel
  have hlength' : (handy.watched.run { s with steps := ss' } World.epoch.watch).1.resultCount = 4 := by
    decide +kernel
  rw [hreturned] at hlength
  rw [hreturned'] at hlength'
  exact ⟨act, hsteady, handy_calm, hg, hregrouped, _, _, _, _, hfirst, hsecond, hw', hv', c, c',
    hreturned, hreturned', hlength, hlength', htransparent⟩

end Runbook
