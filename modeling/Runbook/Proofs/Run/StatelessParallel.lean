import Runbook.Proofs.Run.Abreast
import Runbook.Proofs.Run.Parallel
import Runbook.Proofs.Run.Stateless

/-!
# Stateless engines in parallel

The branches of two parallel runs of a stateless engine that take the same turns in like worlds do
the like, turn by turn.  What they leave is sorted by the times at which steps were begun.  If times
that are related are in the same order, then both records are alike, so a parallel run has its like
from every like world: `Engine.Stateless.exists_parallel`.
-/

namespace Runbook

variable {σ : Type} {S : σ → σ → Prop} {T : Timestamp → Timestamp → Prop}

/-! ## Sorting -/

/-- Times that are related are in the same order. -/
def Timestamp.Ordered (T : Timestamp → Timestamp → Prop) : Prop :=
  ∀ s s' t t', T s s' → T t t' → s.notAfter t = s'.notAfter t'

/-- Like results stay alike when they are sorted by their start. -/
theorem sortedByStart_alike (hordered : Timestamp.Ordered T) {rs rs' : List StepResult}
    (h : List.Forall₂ (StepResult.Alike T) rs rs') :
    List.Forall₂ (StepResult.Alike T) (sortedByStart rs) (sortedByStart rs') := by
  obtain ⟨hlength, hzip⟩ := List.forall₂_iff_zip.mp h
  -- Both lists are sorted at once, as a list of pairs.
  have hfst : (rs.zip rs').map Prod.fst = rs := List.map_fst_zip (Nat.le_of_eq hlength)
  have hsnd : (rs.zip rs').map Prod.snd = rs' := List.map_snd_zip (Nat.le_of_eq hlength.symm)
  have hsame : ∀ p ∈ rs.zip rs', ∀ q ∈ rs.zip rs',
      p.1.started.notAfter q.1.started = p.2.started.notAfter q.2.started :=
    fun p hp q hq => hordered _ _ _ _ (hzip hp).started (hzip hq).started
  have hleft := List.map_mergeSort (l := rs.zip rs') (f := Prod.fst)
    (r := fun p q => p.1.started.notAfter q.1.started)
    (s := fun a b : StepResult => a.started.notAfter b.started) fun _ _ _ _ => rfl
  have hright := List.map_mergeSort (f := Prod.snd)
    (s := fun a b : StepResult => a.started.notAfter b.started) hsame
  rw [hfst] at hleft
  rw [hsnd] at hright
  rw [sortedByStart, sortedByStart, ← hleft, ← hright, List.forall₂_map_left_iff,
    List.forall₂_map_right_iff, List.forall₂_same]
  exact fun p hp => hzip (List.mem_mergeSort.mp hp)

/-! ## Branches -/

/-- Both branches have come to the like. -/
inductive BranchEnd.Alike (T : Timestamp → Timestamp → Prop) : BranchEnd → BranchEnd → Prop where
  /-- Both have come to their ends. -/
  | finished {rs rs' : List StepResult} : List.Forall₂ (StepResult.Alike T) rs rs' →
      Alike T (.finished rs) (.finished rs')
  /-- Neither was started. -/
  | skipped : Alike T .skipped .skipped
  /-- Both have broken off. -/
  | crashed (m : Option String) : Alike T (.crashed m) (.crashed m)

/-- The branches stand where others stand, and what is left of both are twins. -/
def Branches.Twin (T : Timestamp → Timestamp → Prop) (S : σ → σ → Prop) :
    Branches σ → Branches σ → Prop :=
  Gate.Abreast
    (fun next next' => ∀ c,
      (next c).Twin (World.Alike T S) (List.Forall₂ (StepResult.Alike T)) (next' c))
    (BranchEnd.Alike T)

/-- The branches stand where others stand, in like worlds. -/
structure Flight.Twin (T : Timestamp → Timestamp → Prop) (S : σ → σ → Prop) (x y : Flight σ) :
    Prop where
  /-- The branches. -/
  branches : Branches.Twin T S x.branches y.branches
  /-- The worlds. -/
  world : x.world.Alike T S y.world

namespace Engine.Stateless

open Activity (twin_stamp)

variable {e : Engine σ} {ss : List Step} {c c' : Context}

theorem twin_branch {U : Timestamp → Timestamp → Prop} (h : e.Stateless S)
    (hT : Timestamp.Paced T) (s : Step) (hc : c.Alike U c') :
    (e.branch s c).Twin (World.Alike T S) (List.Forall₂ (StepResult.Alike T)) (e.branch s c') :=
  (h.twin_runStep hT s hc.branch).bind fun _ _ hpq =>
    (h.twin_record hpq.1 hpq.2).bind fun _ _ hc₁ => .done hc₁.results

theorem twin_carryOn {b b' : Branches σ} (hb : Branches.Twin T S b b') (i : Nat)
    {work work' : Activity (World σ) (List StepResult)}
    (hwork : work.Twin (World.Alike T S) (List.Forall₂ (StepResult.Alike T)) work')
    {w v : World σ} (hwv : w.Alike T S v) (started started' : List Nat) :
    Flight.Twin T S ((carryOn b i work w).flight started)
      ((carryOn b' i work' v).flight started') := by
  obtain ⟨hpause, hworld⟩ := hwork.advance hwv
  rw [carryOn, carryOn]
  generalize work.advance (·.cancelled) w = p at hpause hworld
  generalize work'.advance (·.cancelled) v = p' at hpause hworld
  obtain ⟨pause, u⟩ := p
  obtain ⟨pause', u'⟩ := p'
  cases hpause with
  | done hrs => exact ⟨(hb.leave i (.finished hrs)).1, hworld⟩
  | panicked m => exact ⟨(hb.leave i (.crashed m)).1, hworld⟩
  | asleep hnext => exact ⟨hb.put (.inside hnext) i, hworld⟩

/-- The turns of a branch lead to the like. -/
theorem twin_afterTurn (h : e.Stateless S) (hT : Timestamp.Paced T) (hc : c.Alike T c')
    {x y : Flight σ} (hxy : x.Twin T S y) (i : Nat) :
    (e.afterTurn ss c x i).Twin T S (e.afterTurn ss c' y i) := by
  obtain ⟨hgate, hadmission, -⟩ := hxy.branches.call i y.world.cancelled BranchEnd.Alike.skipped
  have hcancelled := hxy.world.scene.cancelled
  rw [afterTurn, afterTurn, turn, turn, hcancelled]
  dsimp only
  generalize x.branches.call i y.world.cancelled .skipped = call at *
  generalize y.branches.call i y.world.cancelled .skipped = call' at *
  obtain ⟨gate, admission, granted⟩ := call
  obtain ⟨gate', admission', granted'⟩ := call'
  cases hadmission with
  | admitted =>
    cases ss[i]? with
    | none => exact ⟨hgate, hxy.world⟩
    | some s => exact twin_carryOn hgate i (h.twin_branch hT s hc) hxy.world _ _
  | inside hnext => exact twin_carryOn hgate i (hnext _) hxy.world _ _
  | held => exact ⟨hgate, hxy.world⟩
  | gone => exact ⟨hgate, hxy.world⟩

/-- Each state that a parallel run comes to has its like among those that it comes to from a like
world. -/
theorem exists_reaches (h : e.Stateless S) (hT : Timestamp.Paced T)
    {others others' : World σ → World σ → Prop}
    (hothers : World.MatchedBy others others' (World.Alike T S)) (hc : c.Alike T c') {bound : Nat}
    {w v : World σ} (hwv : w.Alike T S v) {x : Flight σ}
    (hx : e.Reaches others ss c bound w x) :
    ∃ y, e.Reaches others' ss c' bound v y ∧ x.Twin T S y := by
  induction hx with
  | start => exact ⟨_, .start, Gate.abreast_ofBound _ _, hwv⟩
  | turn i _ ih =>
    obtain ⟨y, hy, hxy⟩ := ih
    exact ⟨_, hy.turn i, h.twin_afterTurn hT hc hxy i⟩
  | others _ hu ih =>
    obtain ⟨y, hy, hxy⟩ := ih
    obtain ⟨u', hu', halike⟩ := hothers _ _ _ hxy.world hu
    exact ⟨_, hy.others hu', hxy.branches, halike⟩

/-! ## Putting the branches together -/

theorem twin_gather (hT : Timestamp.Paced T) (task : Nat) (s : Step) {b b' : BranchEnd}
    (h : b.Alike T b') :
    (gather task s b : Activity (World σ) (List StepResult)).Twin (World.Alike T S)
      (List.Forall₂ (StepResult.Alike T)) (gather task s b') := by
  cases h with
  | finished hrs => exact .done hrs
  | skipped => exact .done .nil
  | crashed m =>
    exact (twin_stamp hT).bind fun _ _ hbegan =>
      (twin_close hT (s.alike_begun hbegan) _ _).bind fun _ _ hr => .done (.cons hr .nil)

theorem twin_gatherAll (hT : Timestamp.Paced T) {bs bs' : List BranchEnd}
    (h : List.Forall₂ (BranchEnd.Alike T) bs bs') : ∀ (task : Nat) (ss : List Step),
    (gatherAll task (ss.zip bs) : Activity (World σ) (List StepResult)).Twin (World.Alike T S)
      (List.Forall₂ (StepResult.Alike T)) (gatherAll task (ss.zip bs')) := by
  induction h with
  | nil =>
    intro task ss
    rw [List.zip_nil_right]
    exact .done .nil
  | cons hb _ ih =>
    intro task ss
    cases ss with
    | nil => exact .done .nil
    | cons s ss =>
      exact (twin_gather hT task s hb).bind fun _ _ hrs =>
        (ih (task + 1) ss).bind fun _ _ hmore => .done (List.rel_append hrs hmore)

theorem hasFailures_eq (hc : c.Alike T c') : c.hasFailures = c'.hasFailures := by
  have hresults := hc.results
  rw [Context.hasFailures, Context.hasFailures]
  generalize c.results = rs, c'.results = rs' at hresults
  induction hresults with
  | nil => rfl
  | cons hr _ ih => rw [List.any_cons, List.any_cons, StepResult.isFailed_eq hr, ih]

theorem contains_skipped {bs bs' : List BranchEnd} (h : List.Forall₂ (BranchEnd.Alike T) bs bs') :
    bs.contains .skipped = bs'.contains .skipped := by
  induction h with
  | nil => rfl
  | cons hb _ ih =>
    rw [List.contains_cons, List.contains_cons, ih]
    cases hb <;> rfl

/-- Like results of branches that came to the like end runs alike, if the times at which steps were
begun are in the same order. -/
theorem twin_verdict {U : Timestamp → Timestamp → Prop} (h : e.Stateless S)
    (hT : Timestamp.Paced T) (hordered : Timestamp.Ordered U) (hc : c.Alike U c')
    {rs rs' : List StepResult} (hrs : List.Forall₂ (StepResult.Alike U) rs rs')
    {bs bs' : List BranchEnd} (hbs : List.Forall₂ (BranchEnd.Alike U) bs bs') :
    (e.finish (verdict { c with results := c.results ++ sortedByStart rs } bs)
      { c with results := c.results ++ sortedByStart rs }).Twin (World.Alike T S) (Context.Alike U)
        (e.finish (verdict { c' with results := c'.results ++ sortedByStart rs' } bs')
          { c' with results := c'.results ++ sortedByStart rs' }) := by
  have hjoined : Context.Alike U { c with results := c.results ++ sortedByStart rs }
      { c' with results := c'.results ++ sortedByStart rs' } :=
    { hc with results := List.rel_append hc.results (sortedByStart_alike hordered hrs) }
  rw [verdict, verdict, hasFailures_eq hjoined, contains_skipped hbs]
  exact h.twin_finish hT _ hjoined

theorem twin_join (h : e.Stateless S) (hT : Timestamp.Paced T) (hordered : Timestamp.Ordered T)
    (hc : c.Alike T c') {b b' : Branches σ} (hb : Branches.Twin T S b b') :
    (e.join ⟨ss, c, b⟩).Twin (World.Alike T S) (Context.Alike T) (e.join ⟨ss, c', b'⟩) :=
  (twin_gatherAll hT hb.outcomes 1 ss).bind fun _ _ hrs =>
    h.twin_verdict hT hordered hc hrs hb.outcomes

/-- A parallel run of a stateless engine has its like from every like world. -/
theorem exists_parallel (h : e.Stateless S) (hT : Timestamp.Paced T)
    (hordered : Timestamp.Ordered T) {others others' : World σ → World σ → Prop}
    (hothers : World.MatchedBy others others' (World.Alike T S)) {bound : Nat} {s : Sequence}
    {w v w' : World σ} (hwv : w.Alike T S v) {ending : Ending Context}
    (hrun : e.Parallel others bound s w ending w') :
    ∃ ending' v', e.Parallel others' bound s v ending' v' ∧ ending.Twin (Context.Alike T) ending' ∧
      w'.Alike T S v' := by
  cases hrun with
  | joined hbegin hx hover hjoin =>
    obtain ⟨_, v₀, hbegin', hstarted, hv₀⟩ :=
      Activity.Twin.course hothers hbegin (twin_begin hT s) hwv
    cases hstarted with
    | returned hstarted =>
    cases hstarted with
    | begun hc =>
    obtain ⟨y, hy, hxy⟩ := h.exists_reaches hT hothers hc hv₀ hx
    obtain ⟨ending', v', hjoin', htwin, hv'⟩ := Activity.Twin.course hothers hjoin
      (h.twin_join hT hordered hc hxy.branches) hxy.world
    exact ⟨ending', v', .joined hbegin' hy (hxy.branches.isEmpty ▸ hover) hjoin', htwin, hv'⟩
  | refused hbegin hconclude =>
    obtain ⟨_, v₀, hbegin', hstarted, hv₀⟩ :=
      Activity.Twin.course hothers hbegin (twin_begin hT s) hwv
    cases hstarted with
    | returned hstarted =>
    cases hstarted with
    | refused hc =>
    obtain ⟨ending', v', hconclude', htwin, hv'⟩ := Activity.Twin.course hothers hconclude
      (h.twin_conclude hc) hv₀
    exact ⟨ending', v', .refused hbegin' hconclude', htwin, hv'⟩

end Engine.Stateless
end Runbook
