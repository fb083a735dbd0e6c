import Mathlib.Data.List.Basic
import Runbook.Builtin.Plan
import Runbook.Proofs.Run.Telling
import Runbook.Proofs.Store.Publishing
import Runbook.Proofs.Text.Integers

/-!
# Built-in executors write all or nothing

A built-in executor makes a plan from the variables and follows it.  Following a plan can go wrong
only before anything is written, so an executor that hands back an error or a failure leaves all
variables as they were (`Plan.leadsTo_of_course`).  If it completes its step it has written what
its plan says: one variable if it sets a variable or asks for a restart, and none if it runs a
process.

`Executor.allOrNothing` says what each of the four comes to.  Others may go on beside the executor
as long as they write no variables.
-/

namespace Runbook

open Runbook.Text

variable {σ : Type} {others : World σ → World σ → Prop}

/-! ## Writing one variable -/

namespace Store

/-- Two stores of which the second has a value for a variable, and is otherwise the first. -/
structure Assigns (s : Store) (name value : String) (t : Store) : Prop where
  /-- The variable was not locked. -/
  unlocked : s.isLocked name = false
  /-- It has the value, under every spelling of its name. -/
  get : ∀ m, keyOf m = keyOf name → t.contains m = true ∧ t.get m = value
  /-- Other variables are found as before. -/
  find? : ∀ key, key ≠ keyOf name → t.find? key = s.find? key
  /-- They are listed as before. -/
  entries : t.entries.filter (·.key ≠ keyOf name) = s.entries.filter (·.key ≠ keyOf name)
  /-- No variable was locked or unlocked. -/
  isLocked : ∀ m, t.isLocked m = s.isLocked m

theorem filter_writeEntries (key name value : String) (es : List Entry) :
    (writeEntries key name value es).filter (·.key ≠ key) = es.filter (·.key ≠ key) := by
  induction es with
  | nil => simp [writeEntries]
  | cons e es ih =>
    rw [writeEntries]
    by_cases h : e.key = key
    · simp [h]
    · rw [if_neg h, List.filter_cons, List.filter_cons, ih]

theorem set_eq_error {s : Store} {name value : String} {e : LockedVariable}
    (h : s.set name value = .error e) : s.isLocked name = true ∧ e = ⟨name⟩ := by
  rw [set] at h
  split_ifs at h with hlocked
  cases h
  exact ⟨hlocked, rfl⟩

/-- Setting a variable changes that variable and nothing else. -/
theorem assigns_of_set {s t : Store} {name value : String} (h : s.set name value = .ok t) :
    s.Assigns name value t := by
  obtain ⟨hunlocked, hwrite⟩ := set_eq_ok_iff.mp h
  refine ⟨hunlocked, fun m hm => ⟨?_, ?_⟩, fun key hkey => ?_, ?_, isLocked_of_set h⟩
  · rw [contains, hm, ← hwrite, find?_write, if_pos rfl]
    rfl
  · rw [get_of_set h, if_pos hm]
  · rw [← hwrite, find?_write, if_neg hkey]
  · rw [← hwrite]
    exact filter_writeEntries _ _ _ _

end Store

/-! ## Properties -/

namespace Step

variable {s : Step} {store : Store} {key : String}

/-- The property is given if it is there and does not expand to blanks. -/
theorem given?_eq_some_iff {t : String} : s.given? store key = some t ↔
    ∃ raw, s.property? key = some raw ∧ store.expand raw = t ∧ isBlankText t = false := by
  rw [given?, expanded?, Option.filter_eq_some_iff, Option.map_eq_some_iff, Bool.not_eq_true']
  exact ⟨fun ⟨⟨raw, hraw, ht⟩, hblank⟩ => ⟨raw, hraw, ht, hblank⟩,
    fun ⟨raw, hraw, ht, hblank⟩ => ⟨⟨raw, hraw, ht⟩, hblank⟩⟩

theorem given?_eq_none_iff : s.given? store key = none ↔
    ∀ raw, s.property? key = some raw → isBlankText (store.expand raw) = true := by
  rw [given?, expanded?, Option.filter_eq_none_iff]
  simp

/-- What is read for a property: the default if it is not given, or what it is read as. -/
theorem parsed_eq_ok {α : Type} {read : String → Option α} {default a : α}
    (h : s.parsed store key read default = .ok a) :
    s.given? store key = none ∧ a = default ∨
      ∃ t, s.given? store key = some t ∧ read (trim t) = some a := by
  rw [parsed] at h
  split at h
  · next hnone =>
    cases h
    exact .inl ⟨hnone, rfl⟩
  · next t hsome =>
    split at h
    · next b hread =>
      cases h
      exact .inr ⟨t, hsome, hread⟩
    · cases h

/-- The seconds before a restart that a step asks for. -/
inductive AsksDelay (s : Step) (store : Store) : Nat → Prop where
  /-- The default, if the step does not say. -/
  | unsaid : (∀ raw, s.property? "DelaySeconds" = some raw →
      isBlankText (store.expand raw) = true) → AsksDelay s store defaultDelay
  /-- The number of 32 bits that it says, perhaps with a plus sign, and blanks around it. -/
  | said {raw : String} {digits : List Char} {n : Nat} :
      s.property? "DelaySeconds" = some raw → isBlankText (store.expand raw) = false →
      (trimmed (store.expand raw).toList = digits ∨
        trimmed (store.expand raw).toList = '+' :: digits) →
      Writes digits n → n < 2 ^ 32 → AsksDelay s store n

theorem asksDelay_of_parsed {n : Nat} (h : s.parsed store "DelaySeconds"
    (fun t => readUnsigned? 10 maxWord32 t.toList) defaultDelay = .ok n) :
    s.AsksDelay store n := by
  obtain ⟨hnone, rfl⟩ | ⟨t, hsome, hread⟩ := parsed_eq_ok h
  · exact .unsaid (given?_eq_none_iff.mp hnone)
  · obtain ⟨raw, hraw, rfl, hblank⟩ := given?_eq_some_iff.mp hsome
    obtain ⟨hmax, digits, hdigits, hwrites⟩ := readUnsigned?_eq_some_iff.mp hread
    rw [trim, String.toList_ofList] at hdigits
    exact .said hraw hblank hdigits hwrites (Nat.lt_succ_of_le hmax)

end Step

/-! ## Following a plan -/

/-- What following a plan leads to: what is handed back, and the variables then. -/
inductive Plan.LeadsTo (before : Store) :
    Plan → Except ExecutionError Outcome → Store → Prop where
  /-- The step was refused. -/
  | refused {e : ExecutionError} : LeadsTo before (.refuse e) (.error e) before
  /-- The step has failed. -/
  | failed {m : String} {o : Outcome} : o.status = .failed → LeadsTo before (.fail m) (.ok o) before
  /-- A process was run, or could not be started. -/
  | process {spec : ProcessSpec} {more : Pairs} {o : Outcome} :
      o.status = .completed ∨ o.status = .failed →
      LeadsTo before (.process spec more) (.ok o) before
  /-- The variable is locked. -/
  | locked {name value : String} {outputs : Pairs} : before.isLocked name = true →
      LeadsTo before (.write name value outputs) (.error (.lockedVariable ⟨name⟩)) before
  /-- The variable was written. -/
  | written {name value : String} {outputs : Pairs} {o : Outcome} {after : Store} :
      before.Assigns name value after → o.status = .completed → o.outputs = outputs →
      LeadsTo before (.write name value outputs) (.ok o) after

section

variable (hothers : ∀ w v, others w v → v.store = w.store) {w w' : World σ}
  {r : Ending (Except ExecutionError Outcome)}

include hothers

theorem Execution.of_close {status : Status} {error : Option String} {outputs : Pairs}
    (h : (World.onScene (close status error outputs)).Course others w r w') :
    ∃ o, r = .returned (.ok o) ∧ o.status = status ∧ o.outputs = outputs ∧ w'.store = w.store := by
  obtain ⟨v, hv, hdone⟩ := Activity.Course.of_look h
  obtain ⟨rfl, rfl⟩ := hdone.of_done
  exact ⟨_, rfl, rfl, rfl, hothers _ _ hv⟩

/-- Whatever else was done before, the step is completed or has failed. -/
theorem Execution.ended_of_close {status : Status} {error : Option String} {outputs : Pairs}
    {before : Store} (h : (World.onScene (close status error outputs)).Course others w r w')
    (hbefore : w.store = before) (hstatus : status = .completed ∨ status = .failed) :
    ∃ o, r = .returned (.ok o) ∧ (o.status = .completed ∨ o.status = .failed) ∧
      w'.store = before := by
  obtain ⟨o, rfl, rfl, -, hstore⟩ := of_close hothers h
  exact ⟨o, rfl, hstatus, hstore.trans hbefore⟩

/-- Running a process hands back an outcome and leaves the variables alone. -/
theorem ProcessSpec.of_run {spec : ProcessSpec} {host : Host σ} {more : Pairs}
    (h : (World.onScene (spec.run host more)).Course others w r w') :
    ∃ o, r = .returned (.ok o) ∧ (o.status = .completed ∨ o.status = .failed) ∧
      w'.store = w.store := by
  obtain ⟨v, hv, h⟩ := Activity.Course.of_look h
  obtain ⟨u, hu, h⟩ := Activity.Course.of_update h
  have hstore : u.store = w.store := (hothers _ _ hu).trans (hothers _ _ hv)
  split at h
  · exact Execution.ended_of_close hothers h hstore (.inr rfl)
  · obtain ⟨x, hx, h⟩ := Activity.Course.of_await h
    have hstore : x.store = w.store := (hothers _ _ hx).trans hstore
    dsimp only at h
    split_ifs at h with hcancelled hexpired hsuccess
    · exact Execution.ended_of_close hothers h hstore (.inr rfl)
    · exact Execution.ended_of_close hothers h hstore (.inr rfl)
    · exact Execution.ended_of_close hothers h hstore (.inl rfl)
    · exact Execution.ended_of_close hothers h hstore (.inr rfl)

/-- Nothing goes wrong after something was written. -/
theorem Plan.leadsTo_of_course {host : Host σ} : ∀ {p : Plan},
    (World.onScene (p.follow host)).Course others w r w' →
      ∃ reply, r = .returned reply ∧ p.LeadsTo w.store reply w'.store
  | .refuse e, h => by
      obtain ⟨rfl, rfl⟩ := h.of_done
      exact ⟨_, rfl, .refused⟩
  | .fail m, h => by
      obtain ⟨o, rfl, hstatus, -, hstore⟩ := Execution.of_close hothers h
      exact ⟨_, rfl, hstore ▸ .failed hstatus⟩
  | .process spec more, h => by
      obtain ⟨o, rfl, hstatus, hstore⟩ := ProcessSpec.of_run hothers h
      exact ⟨_, rfl, hstore ▸ .process hstatus⟩
  | .write name value outputs, h => by
      obtain ⟨v, hv, h⟩ := Activity.Course.of_look h
      have hstore : v.store = w.store := hothers _ _ hv
      dsimp only at h
      split at h
      · next store hset =>
        obtain ⟨u, -, h⟩ := Activity.Course.of_update h
        obtain ⟨o, rfl, hstatus, houtputs, hafter⟩ := Execution.of_close hothers h
        refine ⟨_, rfl, .written ?_ hstatus houtputs⟩
        rw [hafter, ← hstore]
        exact Store.assigns_of_set hset
      · next e hset =>
        obtain ⟨rfl, rfl⟩ := h.of_done
        obtain ⟨hlocked, rfl⟩ := Store.set_eq_error hset
        exact ⟨_, rfl, hstore ▸ .locked hlocked⟩

end

/-! ## The built-in executors -/

/-- The plans that the built-in executors make. -/
inductive Kind.PlansBy : Kind → (Step → Store → Plan) → Prop where
  /-- Setting a variable. -/
  | setVariable : PlansBy .setVariable Step.setVariablePlan
  /-- Running a command line. -/
  | runCommandLine : PlansBy .runCommandLine Step.commandLinePlan
  /-- Running a script. -/
  | runPowerShell : PlansBy .runPowerShell Step.scriptPlan
  /-- Asking for a restart. -/
  | restartComputer : PlansBy .restartComputer Step.restartPlan

theorem Registry.exists_plan_of_mem {host : Host σ} {x : Executor σ} (h : x ∈ builtin host) :
    ∃ kind plan, Kind.PlansBy kind plan ∧ x = .ofPlan host kind plan := by
  simp only [builtin, List.mem_cons, List.not_mem_nil, or_false] at h
  obtain rfl | rfl | rfl | rfl := h
  · exact ⟨_, _, .setVariable, rfl⟩
  · exact ⟨_, _, .runCommandLine, rfl⟩
  · exact ⟨_, _, .runPowerShell, rfl⟩
  · exact ⟨_, _, .restartComputer, rfl⟩

/-- What a built-in executor for steps of a kind does with a step. -/
structure AllOrNothing (kind : Kind) (s : Step) (before : Store)
    (reply : Except ExecutionError Outcome) (after : Store) : Prop where
  /-- If it gives up it leaves the variables alone. -/
  refused : ∀ e, reply = .error e → after = before
  /-- Otherwise the step is completed, or it has failed and the variables are left alone. -/
  failed : ∀ o, reply = .ok o → o.status = .completed ∨ o.status = .failed ∧ after = before
  /-- Processes leave the variables alone. -/
  process : kind = .runCommandLine ∨ kind = .runPowerShell → after = before
  /-- A step that sets a variable names it, and the variable is the only output. -/
  setVariable : kind = .setVariable → ∀ o, reply = .ok o → o.status = .completed →
    ∃ raw, s.property? "VariableName" = some raw ∧ isBlankText (before.expand raw) = false ∧
      before.Assigns (trim (before.expand raw)) ((s.expanded? before "VariableValue").getD "")
        after ∧
      o.outputs = [(trim (before.expand raw), (s.expanded? before "VariableValue").getD "")]
  /-- A request for a restart is one variable, and the outputs tell the delay. -/
  restartComputer : kind = .restartComputer → ∀ o, reply = .ok o → o.status = .completed →
    before.Assigns restartVariable "true" after ∧ ∃ delay, s.AsksDelay before delay ∧
      o.outputs = [("RestartScheduled", "true"), ("RestartDelaySeconds", toString delay),
        ("RestartMessage", (s.given? before "Message").getD Step.defaultRestartMessage)]

namespace Plan

variable {p : Plan} {before after : Store} {reply : Except ExecutionError Outcome}

/-- The variables are left alone, or the step was completed by a write. -/
theorem LeadsTo.refused_or_failed (h : p.LeadsTo before reply after) :
    (∀ e, reply = .error e → after = before) ∧
      ∀ o, reply = .ok o → o.status = .completed ∨ o.status = .failed ∧ after = before := by
  cases h with
  | refused => exact ⟨fun _ _ => rfl, nofun⟩
  | locked => exact ⟨fun _ _ => rfl, nofun⟩
  | failed hstatus =>
    refine ⟨nofun, fun o ho => ?_⟩
    cases ho
    exact .inr ⟨hstatus, rfl⟩
  | process hstatus =>
    refine ⟨nofun, fun o ho => ?_⟩
    cases ho
    exact hstatus.imp_right fun hfailed => ⟨hfailed, rfl⟩
  | written _ hstatus _ =>
    refine ⟨nofun, fun o ho => ?_⟩
    cases ho
    exact .inl hstatus

/-- Plans other than writes leave the variables alone. -/
theorem LeadsTo.eq_of_ne_write (h : p.LeadsTo before reply after)
    (hp : ∀ name value outputs, p ≠ .write name value outputs) : after = before := by
  cases h with
  | refused => rfl
  | failed => rfl
  | process => rfl
  | locked => rfl
  | written => exact absurd rfl (hp _ _ _)

/-- A plan that does not run processes completes a step by a write. -/
theorem LeadsTo.exists_write (h : p.LeadsTo before reply after)
    (hp : ∀ spec more, p ≠ .process spec more) {o : Outcome} (ho : reply = .ok o)
    (hstatus : o.status = .completed) :
    ∃ name value, p = .write name value o.outputs ∧ before.Assigns name value after := by
  cases h with
  | refused => cases ho
  | locked => cases ho
  | failed hfailed =>
    cases ho
    rw [hstatus] at hfailed
    cases hfailed
  | process => exact absurd rfl (hp _ _)
  | written hassigns _ houtputs =>
    cases ho
    exact ⟨_, _, houtputs ▸ rfl, hassigns⟩

end Plan

namespace Step

variable {s : Step} {store : Store} {name value : String} {outputs : Pairs}

/-- A step that sets a variable writes the value that it gives, under the name that it gives. -/
theorem setVariablePlan_eq_write (h : s.setVariablePlan store = .write name value outputs) :
    ∃ t, s.given? store "VariableName" = some t ∧ name = trim t ∧
      value = (s.expanded? store "VariableValue").getD "" ∧ outputs = [(name, value)] := by
  rw [setVariablePlan] at h
  split at h
  · cases h
  · next t ht =>
    cases h
    exact ⟨t, ht, rfl, rfl, rfl⟩

theorem restartPlan_eq_write (h : s.restartPlan store = .write name value outputs) :
    name = restartVariable ∧ value = "true" ∧ ∃ delay, s.AsksDelay store delay ∧
      outputs = [("RestartScheduled", "true"), ("RestartDelaySeconds", toString delay),
        ("RestartMessage", (s.given? store "Message").getD defaultRestartMessage)] := by
  rw [restartPlan] at h
  split at h
  · cases h
  · next delay hdelay =>
    cases h
    exact ⟨rfl, rfl, delay, asksDelay_of_parsed hdelay, rfl⟩

theorem setVariablePlan_ne_process (spec : ProcessSpec) (more : Pairs) :
    s.setVariablePlan store ≠ .process spec more := by
  rw [setVariablePlan]
  split <;> exact Plan.noConfusion

theorem restartPlan_ne_process (spec : ProcessSpec) (more : Pairs) :
    s.restartPlan store ≠ .process spec more := by
  rw [restartPlan]
  split <;> exact Plan.noConfusion

end Step

/-- Following the plan of a built-in executor writes all or nothing. -/
theorem Kind.PlansBy.allOrNothing_of_leadsTo {kind : Kind} {plan : Step → Store → Plan}
    (hplan : kind.PlansBy plan) {s : Step} {before after : Store}
    {reply : Except ExecutionError Outcome} (h : (plan s before).LeadsTo before reply after) :
    AllOrNothing kind s before reply after := by
  obtain ⟨hrefused, hfailed⟩ := h.refused_or_failed
  refine ⟨hrefused, hfailed, ?_, ?_, ?_⟩
  · rintro (rfl | rfl)
    · cases hplan
      exact h.eq_of_ne_write (s.commandLinePlan_ne_write before)
    · cases hplan
      exact h.eq_of_ne_write (s.scriptPlan_ne_write before)
  · rintro rfl o ho hstatus
    cases hplan
    obtain ⟨name, value, hwrite, hassigns⟩ :=
      h.exists_write Step.setVariablePlan_ne_process ho hstatus
    obtain ⟨t, ht, rfl, rfl, houtputs⟩ := Step.setVariablePlan_eq_write hwrite
    obtain ⟨raw, hraw, rfl, hblank⟩ := Step.given?_eq_some_iff.mp ht
    exact ⟨raw, hraw, hblank, hassigns, houtputs⟩
  · rintro rfl o ho hstatus
    cases hplan
    obtain ⟨name, value, hwrite, hassigns⟩ :=
      h.exists_write Step.restartPlan_ne_process ho hstatus
    obtain ⟨rfl, rfl, hdelay⟩ := Step.restartPlan_eq_write hwrite
    exact ⟨hassigns, hdelay⟩

/-- Whatever the step, the variables and their locks, a built-in executor hands something back, and
has then written all or nothing. -/
theorem Executor.allOrNothing {host : Host σ} {x : Executor σ} (hx : x ∈ Registry.builtin host)
    (hothers : ∀ w v, others w v → v.store = w.store) {s : Step} {c : Context} {w w' : World σ}
    {r : Ending (Except ExecutionError Outcome)}
    (h : (World.onScene (x.execute s c)).Course others w r w') :
    ∃ reply, r = .returned reply ∧ AllOrNothing x.kind s w.store reply w'.store := by
  obtain ⟨kind, plan, hplan, rfl⟩ := Registry.exists_plan_of_mem hx
  obtain ⟨v, hv, h⟩ := Activity.Course.of_look h
  obtain ⟨reply, rfl, hleads⟩ := Plan.leadsTo_of_course hothers h
  have hstore : v.store = w.store := hothers _ _ hv
  refine ⟨reply, rfl, hplan.allOrNothing_of_leadsTo ?_⟩
  rw [← hstore]
  exact hleads

/-- A step whose name and value refer to variables, one of them the variable that it sets. -/
theorem Executor.allOrNothing_mention :
    let host : Host Unit := ⟨fun _ u => (.error "not found", u)⟩
    let s := Step.mk "s" "S" "" .setVariable true false []
      [("VariableName", " %N% "), ("VariableValue", "%path%;x")] []
    let w := { World.epoch with store := Store.after [.setLocked "N" "Path", .set "PATH" "a"] }
    ∃ o w', (World.onScene ((Executor.ofPlan host .setVariable Step.setVariablePlan).execute s
        (.new "run" "1" "one"))).Course (fun u v => v.store = u.store) w (.returned (.ok o)) w' ∧
      o.outputs = [("Path", "a;x")] ∧ w.store.Assigns "Path" "a;x" w'.store := by
  intro host s w
  have hplan : s.setVariablePlan w.store = .write "Path" "a;x" [("Path", "a;x")] := by
    decide +kernel
  have hcourse : (World.onScene ((Executor.ofPlan host .setVariable Step.setVariablePlan).execute s
      (.new "run" "1" "one"))).Course (fun u v => v.store = u.store) w
      (.returned (.ok ⟨.completed, none, [("Path", "a;x")], some ⟨0, 0⟩⟩))
      { w with store := w.store.write "Path" "a;x" } := by
    refine .look rfl ?_
    change (World.onScene ((s.setVariablePlan w.store).follow host)).Course _ _ _ _
    rw [hplan]
    exact .look rfl (.update rfl (.look rfl .done))
  obtain ⟨reply, hreply, hspec⟩ := Executor.allOrNothing List.mem_cons_self (fun _ _ => id) hcourse
  cases hreply
  obtain ⟨raw, hraw, -, hassigns, houtputs⟩ := hspec.setVariable rfl _ rfl rfl
  obtain ⟨hname, hvalue⟩ := Prod.mk.inj (List.cons.inj houtputs).1
  rw [← hname, ← hvalue] at hassigns
  exact ⟨_, _, hcourse, rfl, hassigns⟩

end Runbook
