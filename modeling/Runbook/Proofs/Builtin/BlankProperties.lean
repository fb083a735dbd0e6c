import Runbook.Proofs.Builtin.AllOrNothing

/-!
# Blank properties

Most properties count only if they do not expand to blanks: a command line, a directory, a time, the
codes of success, an interpreter, a delay, a message and the name of a variable.  To take such a
property off a step, if it is blank, is to change nothing that a built-in executor does with it.

The script of a step is the exception.  Its two inline forms are tried by presence, and only the one
that is found is asked whether it is blank, so a blank `Script` hides a `ScriptContent`.  To take it
off *uncovers* the other one.  `Step.samePlans_without_iff` says that this is the only way in which
blank properties count.
-/

namespace Runbook

open Runbook.Text

variable {σ : Type}

/-! ## Taking properties off -/

theorem Pairs.get?_filter (keep : String → Bool) (key : String) : ∀ ps : Pairs,
    get? (ps.filter fun p => keep p.1) key = if keep key then ps.get? key else none
  | [] => by simp [get?]
  | p :: ps => by
      rw [List.filter_cons, get?_cons]
      by_cases hkey : key = p.1
      · rw [if_pos hkey, ← hkey]
        cases hkeep : keep key with
        | false =>
          rw [if_neg (by simp), get?_filter keep key ps, hkeep]
          rfl
        | true => rw [if_pos rfl, get?_cons, if_pos hkey, if_pos rfl]
      · rw [if_neg hkey, ← get?_filter keep key ps]
        split
        · rw [get?_cons, if_neg hkey]
        · rfl

namespace Step

/-- The step with properties taken off. -/
def without (keys : List String) : Step → Step
  | mk i n d k e c cs ps ss => mk i n d k e c cs (ps.filter fun p => p.1 ∉ keys) ss

/-- The properties that are to count as absent if they are blank. -/
def mayBeBlank : List String :=
  ["CommandLine", "WorkingDirectory", "Timeout", "SuccessCodes", "Interpreter", "Script",
    "ScriptContent", "ScriptPath", "DelaySeconds", "Message", "VariableName"]

/-- A `Script` is taken off that hides a `ScriptContent`, and the difference is seen: there is no
path of a script, or a process is started. -/
structure Uncovers (s : Step) (store : Store) (keys : List String) : Prop where
  /-- The script is taken off. -/
  script : "Script" ∈ keys ∧ s.property? "Script" ≠ none
  /-- Another one is given. -/
  content : s.given? store "ScriptContent" ≠ none
  /-- Nothing goes wrong before it matters which of them it is. -/
  seen : s.given? store "ScriptPath" = none ∨ ∃ spec, s.processSpec store "" [] = .ok spec

/-- The built-in executors do the same with two steps, if the variables are those of a store: they
fail with one message, hand back one error, write one variable with one value and with the same
outputs, or start one process. -/
def SamePlans (s t : Step) (store : Store) : Prop :=
  ∀ kind plan, Kind.PlansBy kind plan → plan s store = plan t store

variable {s : Step} {store : Store} {keys : List String}

@[simp] theorem name_without : (s.without keys).name = s.name := by
  cases s
  rfl

theorem property?_without (key : String) :
    (s.without keys).property? key = if key ∈ keys then none else s.property? key := by
  obtain ⟨i, n, d, k, e, c, cs, ps, ss⟩ := s
  have hfilter := Pairs.get?_filter (fun key => key ∉ keys) key ps
  rw [property?, property?, without, properties, hfilter]
  by_cases hkey : key ∈ keys
  · simp [hkey]
  · simp [hkey, properties]

theorem expanded?_without (key : String) : (s.without keys).expanded? store key =
    if key ∈ keys then none else s.expanded? store key := by
  rw [expanded?, property?_without]
  split <;> rfl

section

variable (hblank : ∀ key ∈ keys, s.given? store key = none)

include hblank

/-- Whether a property is given does not change if blank ones are taken off. -/
theorem given?_without (key : String) :
    (s.without keys).given? store key = s.given? store key := by
  rw [given?, expanded?_without]
  split
  · next hkey => rw [hblank key hkey, Option.filter_none]
  · rfl

theorem parsed_without {α : Type} (key : String) (read : String → Option α) (default : α) :
    (s.without keys).parsed store key read default = s.parsed store key read default := by
  rw [parsed, given?_without hblank, name_without, parsed]

theorem successCodes_without : (s.without keys).successCodes store = s.successCodes store := by
  rw [successCodes, given?_without hblank, name_without, successCodes]

theorem processSpec_without (program : String) (arguments : List Argument) :
    (s.without keys).processSpec store program arguments =
      s.processSpec store program arguments := by
  rw [processSpec, given?_without hblank, parsed_without hblank, successCodes_without hblank,
    processSpec]

/-! ## Plans without scripts -/

theorem setVariablePlan_without (hvalue : "VariableValue" ∉ keys) :
    (s.without keys).setVariablePlan store = s.setVariablePlan store := by
  rw [setVariablePlan, given?_without hblank, expanded?_without, if_neg hvalue, setVariablePlan]

theorem commandLinePlan_without :
    (s.without keys).commandLinePlan store = s.commandLinePlan store := by
  simp only [commandLinePlan, given?_without hblank, processSpec_without hblank]

theorem restartPlan_without : (s.without keys).restartPlan store = s.restartPlan store := by
  rw [restartPlan, parsed_without hblank, given?_without hblank, restartPlan]

end

/-! ## Scripts -/

/-- The script of a step: the second inline form counts only if the first one is not there. -/
theorem script?_eq (s : Step) (store : Store) : s.script? store =
    ((if s.property? "Script" = none then s.given? store "ScriptContent"
      else s.given? store "Script").map .script).or ((s.given? store "ScriptPath").map .text) := by
  cases hscript : s.property? "Script" with
  | none =>
    rw [script?, expanded?, hscript, if_pos rfl, Option.map_none, Option.none_or]
    rfl
  | some raw =>
    have hhere : s.given? store "Script" =
        (some (store.expand raw)).filter fun t => !isBlankText t := by
      rw [given?, expanded?, hscript, Option.map_some]
    rw [script?, expanded?, hscript, if_neg (Option.some_ne_none raw), Option.map_some,
      Option.some_or, hhere]

theorem processSpec_eq (s : Step) (store : Store) :
    (∃ e, ∀ program arguments, s.processSpec store program arguments = .error e) ∨
      ∃ directory timeout codes, ∀ program arguments, s.processSpec store program arguments =
        .ok ⟨⟨program, arguments, directory⟩, timeout, codes⟩ := by
  cases htimeout : s.parsed store "Timeout"
      (fun t => readUnsigned? 10 maxWord64 t.toList) defaultTimeout with
  | error e => exact .inl ⟨e, fun _ _ => by rw [processSpec, htimeout]; rfl⟩
  | ok timeout =>
    cases hcodes : s.successCodes store with
    | error e => exact .inl ⟨e, fun _ _ => by rw [processSpec, htimeout, hcodes]; rfl⟩
    | ok codes => exact .inr ⟨_, timeout, codes, fun _ _ => by rw [processSpec, htimeout, hcodes]; rfl⟩

/-- An interpreter is told which script it is to run. -/
theorem interpreterArguments_inj {interpreter : String} {a b : Argument}
    (h : interpreterArguments interpreter a = interpreterArguments interpreter b) : a = b := by
  rw [interpreterArguments, interpreterArguments] at h
  exact List.singleton_inj.mp (List.append_cancel_left h)

section

variable (hblank : ∀ key ∈ keys, s.given? store key = none)

include hblank

/-- Unless a script is taken off that hides another one, the script stays. -/
theorem script?_without (h : "Script" ∈ keys → s.property? "Script" ≠ none →
    s.given? store "ScriptContent" = none) : (s.without keys).script? store = s.script? store := by
  simp only [script?_eq, given?_without hblank, property?_without]
  by_cases hscript : "Script" ∈ keys
  · rw [if_pos hscript, if_pos rfl, hblank "Script" hscript]
    split
    · rfl
    · next hthere => rw [h hscript hthere]
  · rw [if_neg hscript]

/-- And so does the plan that is made for the script. -/
theorem scriptPlan_without (h : ¬ s.Uncovers store keys) :
    (s.without keys).scriptPlan store = s.scriptPlan store := by
  by_cases hhidden : "Script" ∈ keys → s.property? "Script" ≠ none →
      s.given? store "ScriptContent" = none
  · simp only [scriptPlan, given?_without hblank, processSpec_without hblank,
      script?_without hblank hhidden]
  · push Not at hhidden
    obtain ⟨hscript, hthere, hcontent⟩ := hhidden
    -- The scripts differ, but neither comes to be started.
    have hseen : ¬(s.given? store "ScriptPath" = none ∨
        ∃ spec, s.processSpec store "" [] = .ok spec) :=
      fun hseen => h ⟨⟨hscript, hthere⟩, hcontent, hseen⟩
    push Not at hseen
    obtain ⟨hpath, hspec⟩ := hseen
    obtain ⟨path, hpath⟩ := Option.ne_none_iff_exists'.mp hpath
    obtain ⟨content, hcontent⟩ := Option.ne_none_iff_exists'.mp hcontent
    obtain ⟨e, he⟩ | ⟨directory, timeout, codes, hok⟩ := s.processSpec_eq store
    · simp only [scriptPlan, script?_eq, given?_without hblank, processSpec_without hblank,
        property?_without, if_pos hscript, if_neg hthere, hblank "Script" hscript, hpath, hcontent,
        he, Option.map_some, Option.map_none, Option.some_or, Option.none_or, if_true]
    · exact absurd (hok _ _) (hspec _)

theorem uncovers_scriptPlan (h : s.Uncovers store keys) :
    (s.without keys).scriptPlan store ≠ s.scriptPlan store := by
  obtain ⟨⟨hscript, hthere⟩, hcontent, hseen⟩ := h
  obtain ⟨content, hcontent⟩ := Option.ne_none_iff_exists'.mp hcontent
  have hafter : (s.without keys).script? store = some (.script content) := by
    simp only [script?_eq, given?_without hblank, property?_without, if_pos hscript, hcontent,
      Option.map_some, Option.some_or, if_true]
  have hbefore : s.script? store = (s.given? store "ScriptPath").map .text := by
    rw [script?_eq, if_neg hthere, hblank "Script" hscript, Option.map_none, Option.none_or]
  simp only [scriptPlan, hafter, hbefore, given?_without hblank, processSpec_without hblank]
  obtain ⟨e, he⟩ | ⟨directory, timeout, codes, hok⟩ := s.processSpec_eq store
  · obtain hpath | ⟨spec, hspec⟩ := hseen
    · rw [hpath, he]
      exact Plan.noConfusion
    · rw [he] at hspec
      cases hspec
  · cases hpath : s.given? store "ScriptPath" with
    | none =>
      rw [hok]
      exact Plan.noConfusion
    | some path =>
      simp only [hok, Option.map_some, Plan.ofSpec]
      intro heq
      injection heq with hspec
      injection hspec with hlaunch
      injection hlaunch with _ harguments
      exact absurd (interpreterArguments_inj harguments) Argument.noConfusion

end

/-! ## The executors -/

/-- Plans decide what the built-in executors do, among others who write no variables. -/
theorem SamePlans.courses {s t : Step} {store : Store} (h : s.SamePlans t store) {host : Host σ}
    {x : Executor σ} (hx : x ∈ Registry.builtin host) {others : World σ → World σ → Prop}
    (hothers : ∀ w v, others w v → v.store = w.store) {c : Context} {w w' : World σ}
    {r : Ending (Except ExecutionError Outcome)} (hw : w.store = store) :
    (World.onScene (x.execute s c)).Course others w r w' →
      (World.onScene (x.execute t c)).Course others w r w' := by
  obtain ⟨kind, plan, hplan, rfl⟩ := Registry.exists_plan_of_mem hx
  intro hcourse
  obtain ⟨v, hv, hfollow⟩ := Activity.Course.of_look hcourse
  have hstore : v.store = store := (hothers _ _ hv).trans hw
  refine .look hv ?_
  change (World.onScene ((plan s v.store).follow host)).Course others v r w' at hfollow
  change (World.onScene ((plan t v.store).follow host)).Course others v r w'
  rw [hstore] at hfollow ⊢
  rw [← h kind plan hplan]
  exact hfollow

theorem SamePlans.symm {s t : Step} {store : Store} (h : s.SamePlans t store) :
    t.SamePlans s store := fun kind plan hplan => (h kind plan hplan).symm

/-- Blank properties may be taken off a step exactly if that uncovers no script.  The built-in
executors then do what they do with the step as it is. -/
theorem samePlans_without_iff (s : Step) (store : Store) (keys : List String)
    (hkeys : ∀ key ∈ keys, key ∈ mayBeBlank)
    (hblank : ∀ key ∈ keys, ∀ raw, s.property? key = some raw →
      isBlankText (store.expand raw) = true) :
    ((s.without keys).SamePlans s store ↔ ¬ s.Uncovers store keys) ∧
      (¬ s.Uncovers store keys → ∀ (host : Host σ), ∀ x ∈ Registry.builtin host,
        ∀ others : World σ → World σ → Prop, (∀ w v, others w v → v.store = w.store) →
        ∀ (c : Context) (w w' : World σ) (r : Ending (Except ExecutionError Outcome)),
          w.store = store → ((World.onScene (x.execute (s.without keys) c)).Course others w r w' ↔
            (World.onScene (x.execute s c)).Course others w r w')) := by
  have hgiven : ∀ key ∈ keys, s.given? store key = none :=
    fun key hkey => given?_eq_none_iff.mpr (hblank key hkey)
  have hvalue : "VariableValue" ∉ keys := fun hkey => absurd (hkeys _ hkey) (by decide)
  have hsame : ¬ s.Uncovers store keys → (s.without keys).SamePlans s store := by
    intro huncovers kind plan hplan
    cases hplan with
    | setVariable => exact setVariablePlan_without hgiven hvalue
    | runCommandLine => exact commandLinePlan_without hgiven
    | runPowerShell => exact scriptPlan_without hgiven huncovers
    | restartComputer => exact restartPlan_without hgiven
  refine ⟨⟨fun h huncovers => ?_, hsame⟩, fun huncovers host x hx others hothers c w w' r hw => ?_⟩
  · exact uncovers_scriptPlan hgiven huncovers (h _ _ .runPowerShell)
  · have h := hsame huncovers
    exact ⟨h.courses hx hothers hw, h.symm.courses hx hothers hw⟩

/-- A time and a script that expand to blanks may be taken off a step with another script. -/
theorem samePlans_without_padded :
    let s := mk "s" "S" "" .runPowerShell true false []
      [("Script", "echo 1"), ("ScriptContent", ""), ("Timeout", "%T%"), ("Interpreter", "sh")] []
    let store := Store.after [.set "T" "  "]
    let keys := ["ScriptContent", "Timeout", "Message"]
    (s.without keys).SamePlans s store ∧ s.scriptPlan store =
      .process ⟨⟨"sh", [.script "echo 1"], none⟩, 3600, [0]⟩ [("ScriptExecuted", "true")] := by
  intro s store keys
  have hblank : ∀ key ∈ keys, ∀ raw, s.property? key = some raw →
      isBlankText (store.expand raw) = true := by
    have hgiven : ∀ key ∈ keys, s.given? store key = none := by decide +kernel
    exact fun key hkey => given?_eq_none_iff.mp (hgiven key hkey)
  have hiff := (@samePlans_without_iff Unit s store keys (by decide) hblank).1
  exact ⟨hiff.mpr fun h => absurd h.script.1 (by decide), by decide +kernel⟩

/-- Not every blank property may be taken off: a blank script hides another one. -/
theorem not_samePlans_hidden : ¬ ∀ (s : Step) (store : Store) (keys : List String),
    (∀ key ∈ keys, key ∈ mayBeBlank) →
    (∀ key ∈ keys, ∀ raw, s.property? key = some raw →
      isBlankText (store.expand raw) = true) → (s.without keys).SamePlans s store := by
  intro h
  let s := mk "s" "S" "" .runPowerShell true false []
    [("Script", ""), ("ScriptContent", "echo content"), ("Interpreter", "sh")] []
  have hgiven : ∀ key ∈ ["Script"], s.given? Store.empty key = none := by decide +kernel
  have hsame := h s Store.empty ["Script"] (by decide)
    (fun key hkey => given?_eq_none_iff.mp (hgiven key hkey)) _ _ .runPowerShell
  have hbefore : s.scriptPlan Store.empty = .fail "Script property is required" := by
    decide +kernel
  have hafter : (s.without ["Script"]).scriptPlan Store.empty =
      .process ⟨⟨"sh", [.script "echo content"], none⟩, 3600, [0]⟩ [("ScriptExecuted", "true")] := by
    decide +kernel
  rw [hbefore, hafter] at hsame
  cases hsame

end Step
end Runbook
