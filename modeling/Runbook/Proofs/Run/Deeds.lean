import Runbook.Proofs.Run.Onward
import Runbook.Proofs.Store.History

/-!
# Deeds of activities

A *deed* is a write to a variable, with the time at which the step was begun that makes it.
`Activity.Does` says what an activity comes to, given the deeds that its own changes amount to.  It
leaves the variables alone otherwise, no variable it sets is locked, and it does its deeds in the
order in which their steps were begun: between the beginning of a step and its deed there is no
wait, so nobody else has begun a step meanwhile.

About a wait an activity assumes nothing: others may change variables then.  Among others who leave
them alone, a course leads to the store in which its deeds are replayed (`Activity.Does.of_course`),
and so does a turn up to the next wait (`Activity.Does.of_advance`).
-/

namespace Runbook

variable {σ α β : Type} {others : World σ → World σ → Prop}

/-- A write to a variable. -/
structure Deed where
  /-- When the step was begun that makes it. -/
  time : Timestamp
  /-- The name. -/
  name : String
  /-- The value. -/
  value : String
  deriving DecidableEq, Repr

/-- The name and the value. -/
def Deed.pair (d : Deed) : String × String := (d.name, d.value)

/-! ## Replays -/

namespace Store

/-- The store after writes, one after the other, of which some may be refused. -/
def replay (s : Store) (ws : Pairs) : Store := ws.foldl (fun s w => s.perform (.set w.1 w.2)) s

theorem replay_append (s : Store) (ws vs : Pairs) :
    s.replay (ws ++ vs) = (s.replay ws).replay vs :=
  List.foldl_append

theorem replay_singleton {s t : Store} {name value : String} (h : s.set name value = .ok t) :
    s.replay [(name, value)] = t := by
  rw [replay, List.foldl_cons, List.foldl_nil, perform, h]

end Store

/-- Others go onward and leave the variables of a run alone. -/
def World.Apart (w v : World σ) : Prop := w.Onward v ∧ v.store = w.store

theorem World.Apart.refl (w : World σ) : w.Apart w := ⟨.refl w, rfl⟩

theorem World.apart_pass (ms : Nat) (w : World σ) : w.Apart (pass ms w) := ⟨onward_pass ms w, rfl⟩

/-! ## Moments -/

/-- What is known where an activity stands. -/
structure Moment where
  /-- The variables. -/
  store : Store
  /-- Steps that were begun up to here do nothing any more. -/
  floor : Timestamp
  /-- The clock was looked at here. -/
  now : Timestamp

/-- The world is one of a moment. -/
structure Moment.Fits (m : Moment) (w : World σ) : Prop where
  /-- The variables are those that are known. -/
  store : w.store = m.store
  /-- Steps may still be begun. -/
  floor : m.floor.notAfter w.clock = true
  /-- The clock was not turned back. -/
  now : m.now.notAfter w.clock = true

/-- What a change of the world amounts to, and the moment after it. -/
inductive Moment.Changes (m : Moment) (w v : World σ) : List Deed → Moment → Prop where
  /-- Nothing, as far as variables go. -/
  | quiet : v.store = w.store → w.clock.notAfter v.clock = true →
      Changes m w v [] { m with now := v.clock }
  /-- A deed of a step that was begun. -/
  | deed {d : Deed} : m.floor.Before d.time → d.time.notAfter w.clock = true →
      w.store.set d.name d.value = .ok v.store → v.clock = w.clock →
      Changes m w v [d] ⟨v.store, d.time, v.clock⟩

/-- Between two worlds deeds were done, one after the other, and nothing else to variables.  Their
steps were begun between two points in time. -/
structure Wrote (floor : Timestamp) (w : World σ) (K : List Deed) (floor' : Timestamp)
    (w' : World σ) : Prop where
  /-- The variables are those of a replay. -/
  store : w'.store = w.store.replay (K.map Deed.pair)
  /-- The clock was not turned back. -/
  clock : w.clock.notAfter w'.clock = true
  /-- The points in time are in order. -/
  order : floor.notAfter floor' = true
  /-- Each step was begun before that of the next deed. -/
  increasing : K.Pairwise fun d d' => d.time.Before d'.time
  /-- They were begun after the first point in time. -/
  after : ∀ d ∈ K, floor.Before d.time
  /-- They were begun not after the second. -/
  notAfter : ∀ d ∈ K, d.time.notAfter floor' = true

namespace Wrote

variable {floor floor' floor'' : Timestamp} {w v w' : World σ} {K L : List Deed}

/-- Nothing was done. -/
theorem nil (hstore : w'.store = w.store) (hclock : w.clock.notAfter w'.clock = true) :
    Wrote floor w [] floor w' where
  store := hstore
  clock := hclock
  order := floor.notAfter_refl
  increasing := .nil
  after := by simp
  notAfter := by simp

theorem append (h : Wrote floor w K floor' v) (h' : Wrote floor' v L floor'' w') :
    Wrote floor w (K ++ L) floor'' w' where
  store := by rw [h'.store, h.store, List.map_append, Store.replay_append]
  clock := Timestamp.notAfter_trans h.clock h'.clock
  order := Timestamp.notAfter_trans h.order h'.order
  increasing := List.pairwise_append.mpr ⟨h.increasing, h'.increasing, fun d hd d' hd' =>
    Timestamp.notAfter_trans_before (h.notAfter d hd) (h'.after d' hd')⟩
  after := List.forall_mem_append.mpr
    ⟨h.after, fun d hd => Timestamp.notAfter_trans_before h.order (h'.after d hd)⟩
  notAfter := List.forall_mem_append.mpr
    ⟨fun d hd => Timestamp.notAfter_trans (h.notAfter d hd) h'.order, h'.notAfter⟩

/-- Others who leave the variables alone come first. -/
theorem of_others (hv : w.Apart v) (h : Wrote floor v K floor' w') :
    Wrote floor w K floor' w' :=
  (Wrote.nil hv.2 hv.1.clock).append h

end Wrote

namespace Moment

variable {m m' : Moment} {w v : World σ} {K : List Deed}

/-- While others leave the variables alone, the world is one of the same moment. -/
theorem Fits.beside (h : m.Fits w) (hv : w.Apart v) : m.Fits v where
  store := hv.2.trans h.store
  floor := Timestamp.notAfter_trans h.floor hv.1.clock
  now := Timestamp.notAfter_trans h.now hv.1.clock

/-- The clock is looked at. -/
theorem Fits.look (h : m.Fits w) : ({ m with now := w.clock } : Moment).Fits w :=
  ⟨h.store, h.floor, Timestamp.notAfter_refl _⟩

/-- In every world something is known. -/
theorem fits_self (w : World σ) : (⟨w.store, w.clock, w.clock⟩ : Moment).Fits w :=
  ⟨rfl, Timestamp.notAfter_refl _, Timestamp.notAfter_refl _⟩

/-- Nothing is known but the variables and the time. -/
theorem Fits.anew (h : m.Fits w) : (⟨w.store, m.floor, w.clock⟩ : Moment).Fits w :=
  ⟨rfl, h.floor, Timestamp.notAfter_refl _⟩

theorem Changes.fits (h : m.Changes w v K m') (hw : m.Fits w) : m'.Fits v := by
  cases h with
  | quiet hstore hclock =>
    exact ⟨hstore.trans hw.store, Timestamp.notAfter_trans hw.floor hclock,
      Timestamp.notAfter_refl _⟩
  | deed _ htime _ hclock =>
    exact ⟨rfl, hclock ▸ htime, Timestamp.notAfter_refl _⟩

theorem Changes.wrote (h : m.Changes w v K m') : Wrote m.floor w K m'.floor v := by
  cases h with
  | quiet hstore hclock => exact .nil hstore hclock
  | deed hfloor _ hset hclock =>
    refine ⟨(Store.replay_singleton hset).symm, ?_, hfloor.notAfter, List.pairwise_singleton _ _,
      List.forall_mem_singleton.mpr hfloor,
      List.forall_mem_singleton.mpr (Timestamp.notAfter_refl _)⟩
    rw [hclock]
    exact Timestamp.notAfter_refl _

end Moment

/-! ## Activities -/

namespace Activity

/-- The activity comes only to endings that `P` allows, after the deeds that its own changes amount
to and in the moment in which it ends. -/
def Does : (List Deed → Ending α → Moment → Prop) → Moment → Activity (World σ) α → Prop
  | P, m, done a => P [] (.returned a) m
  | P, m, panic e => P [] (.panicked e) m
  | P, m, look next => ∀ w, m.Fits w → (next w).Does P { m with now := w.clock }
  | P, m, update change next => ∀ w, m.Fits w → ∃ K m', m.Changes w (change w) K m' ∧
      next.Does (fun L => P (K ++ L)) m'
  | P, _, await _ next => ∀ m c, (next c).Does P m

theorem Does.mono : ∀ {x : Activity (World σ) α} {P Q : List Deed → Ending α → Moment → Prop}
    {m : Moment}, x.Does P m → (∀ K r m, P K r m → Q K r m) → x.Does Q m
  | done _, _, _, _, h, hPQ => hPQ _ _ _ h
  | panic _, _, _, _, h, hPQ => hPQ _ _ _ h
  | look _, _, _, _, h, hPQ => fun w hw => Does.mono (h w hw) hPQ
  | update _ _, _, _, _, h, hPQ => fun w hw => by
      obtain ⟨K, m', hchanges, hnext⟩ := h w hw
      exact ⟨K, m', hchanges, hnext.mono fun L => hPQ (K ++ L)⟩
  | await _ _, _, _, _, h, hPQ => fun m c => Does.mono (h m c) hPQ

/-- Of two activities in sequence the deeds of the first come first. -/
theorem Does.bind {f : α → Activity (World σ) β} :
    ∀ {x : Activity (World σ) α} {P : List Deed → Ending α → Moment → Prop}
      {Q : List Deed → Ending β → Moment → Prop} {m : Moment},
      x.Does P m → (∀ K a m', P K (.returned a) m' → (f a).Does (fun L => Q (K ++ L)) m') →
      (∀ K e m', P K (.panicked e) m' → Q K (.panicked e) m') → (x.bind f).Does Q m
  | done a, _, _, m, h, hf, _ => hf [] a m h
  | panic e, _, _, m, h, _, hpanic => hpanic [] e m h
  | look _, _, _, _, h, hf, hpanic => fun w hw => Does.bind (h w hw) hf hpanic
  | update _ _, _, Q, _, h, hf, hpanic => fun w hw => by
      obtain ⟨K, m', hchanges, hnext⟩ := h w hw
      refine ⟨K, m', hchanges, Does.bind hnext (fun L a m'' ha => ?_) fun L => hpanic (K ++ L)⟩
      exact (hf (K ++ L) a m'' ha).mono fun L' r m hr => List.append_assoc K L L' ▸ hr
  | await _ _, _, _, _, h, hf, hpanic => fun m c => Does.bind (h m c) hf hpanic

theorem Does.caught : ∀ {x : Activity (World σ) α} {P : List Deed → Ending α → Moment → Prop}
    {Q : List Deed → Ending (Except (Option String) α) → Moment → Prop} {m : Moment},
    x.Does P m → (∀ K a m', P K (.returned a) m' → Q K (.returned (.ok a)) m') →
      (∀ K e m', P K (.panicked e) m' → Q K (.returned (.error e)) m') → x.caught.Does Q m
  | done a, _, _, m, h, hdone, _ => hdone [] a m h
  | panic e, _, _, m, h, _, hpanic => hpanic [] e m h
  | look _, _, _, _, h, hdone, hpanic => fun w hw => Does.caught (h w hw) hdone hpanic
  | update _ _, _, _, _, h, hdone, hpanic => fun w hw => by
      obtain ⟨K, m', hchanges, hnext⟩ := h w hw
      exact ⟨K, m', hchanges, hnext.caught (fun L => hdone (K ++ L)) fun L => hpanic (K ++ L)⟩
  | await _ _, _, _, _, h, hdone, hpanic => fun m c => Does.caught (h m c) hdone hpanic

/-- A stamp is later than what is known of the time. -/
theorem does_stamp (m : Moment) : (World.stamp : Activity (World σ) Timestamp).Does
    (fun K r m' => K = [] ∧ ∃ now, r = .returned now ∧ m'.floor.Before now ∧ m'.now = now) m := by
  intro w hw
  have htick := World.onward_tick w
  refine ⟨[], _, .quiet rfl htick.clock, fun v hv => ⟨rfl, v.clock, rfl, ?_, rfl⟩⟩
  have hbefore : w.clock.Before w.tick.clock := Timestamp.before_later _ Nat.one_pos
  exact (Timestamp.notAfter_trans_before hw.floor hbefore).trans_notAfter hv.now

/-! ## Carrying on -/

/-- Among others who leave the variables alone, a course does its own deeds. -/
theorem Does.of_course (hothers : ∀ w v, others w v → w.Apart v)
    {x : Activity (World σ) α} {w w' : World σ} {r : Ending α} (h : x.Course others w r w') :
    ∀ {P : List Deed → Ending α → Moment → Prop} {m : Moment}, x.Does P m → m.Fits w →
      ∃ K m', P K r m' ∧ Wrote m.floor w K m'.floor w' := by
  induction h with
  | done => exact fun hx _ => ⟨[], _, hx, .nil rfl (Timestamp.notAfter_refl _)⟩
  | panic => exact fun hx _ => ⟨[], _, hx, .nil rfl (Timestamp.notAfter_refl _)⟩
  | look hv _ ih =>
    intro P m hx hw
    have hfits := hw.beside (hothers _ _ hv)
    obtain ⟨K, m', hP, hwrote⟩ := ih (hx _ hfits) hfits.look
    exact ⟨K, m', hP, hwrote.of_others (hothers _ _ hv)⟩
  | update hv _ ih =>
    intro P m hx hw
    have hfits := hw.beside (hothers _ _ hv)
    obtain ⟨K, m₁, hchanges, hnext⟩ := hx _ hfits
    obtain ⟨L, m', hP, hwrote⟩ := ih hnext (hchanges.fits hfits)
    exact ⟨K ++ L, m', hP, (hchanges.wrote.append hwrote).of_others (hothers _ _ hv)⟩
  | await hv _ ih =>
    intro P m hx hw
    obtain ⟨K, m', hP, hwrote⟩ := ih (hx _ _) (hw.beside (hothers _ _ hv)).anew
    exact ⟨K, m', hP, hwrote.of_others (hothers _ _ hv)⟩

/-- It does so from wherever it starts. -/
theorem exists_wrote (hothers : ∀ w v, others w v → w.Apart v) {x : Activity (World σ) α}
    {P : List Deed → Ending α → Moment → Prop} (hx : ∀ m, x.Does P m) {w w' : World σ}
    {r : Ending α} (h : x.Course others w r w') :
    ∃ K m', P K r m' ∧ Wrote w.clock w K m'.floor w' :=
  Does.of_course hothers h (hx _) (Moment.fits_self w)

/-- What the deeds up to the next wait, and those after it, allow. -/
def Rests (P : List Deed → Ending α → Moment → Prop) (K : List Deed) (m : Moment) :
    Pause (World σ) α → Prop
  | .done a => P K (.returned a) m
  | .panicked e => P K (.panicked e) m
  | .asleep _ next => ∀ m c, (next c).Does (fun L => P (K ++ L)) m

theorem Rests.append {P : List Deed → Ending α → Moment → Prop} {K L : List Deed} {m : Moment}
    {p : Pause (World σ) α} (h : Rests (fun L => P (K ++ L)) L m p) : Rests P (K ++ L) m p := by
  cases p with
  | done a => exact h
  | panicked e => exact h
  | asleep d next =>
    exact fun m c => (h m c).mono fun L' r m hr => List.append_assoc K L L' ▸ hr

/-- Carried on to its next wait an activity does its own deeds. -/
theorem Does.of_advance : ∀ {x : Activity (World σ) α}
    {P : List Deed → Ending α → Moment → Prop} {m : Moment} {w : World σ}, x.Does P m → m.Fits w →
      ∃ K m', Rests P K m' (x.advance (·.cancelled) w).1 ∧
        Wrote m.floor w K m'.floor (x.advance (·.cancelled) w).2 ∧
        m'.floor.notAfter (x.advance (·.cancelled) w).2.clock = true
  | done _, _, m, _, h, hw => ⟨[], m, h, .nil rfl (Timestamp.notAfter_refl _), hw.floor⟩
  | panic _, _, m, _, h, hw => ⟨[], m, h, .nil rfl (Timestamp.notAfter_refl _), hw.floor⟩
  | look next, _, m, w, h, hw =>
      Does.of_advance (x := next w) (m := { m with now := w.clock }) (h w hw) hw.look
  | update change next, P, m, w, h, hw => by
      obtain ⟨K, m₁, hchanges, hnext⟩ := h w hw
      obtain ⟨L, m', hrests, hwrote, hfloor⟩ := Does.of_advance hnext (hchanges.fits hw)
      exact ⟨K ++ L, m', hrests.append, hchanges.wrote.append hwrote, hfloor⟩
  | await d next, P, m, w, h, hw => by
      rw [advance]
      split
      · exact Does.of_advance (m := ⟨w.store, m.floor, w.clock⟩) (h _ true) hw.anew
      · exact ⟨[], m, h, .nil rfl (Timestamp.notAfter_refl _), hw.floor⟩

end Activity
end Runbook
