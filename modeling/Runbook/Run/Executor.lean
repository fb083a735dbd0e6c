import Runbook.Run.World
import Runbook.Store.Expand

/-!
# Executors

An executor does the work of the steps that it claims.  It hands back an outcome, or an error if it
could not do the work at all.  A registry is a list of executors, and the first that claims a step
gets it.

An outcome is what an executor adds to the result of its step.  Whose result it is and when the step
was begun are no part of it: they are taken to be those of the result that was begun for the step.
So executors that hand back the result of another step, or one that was begun at another time, are
not described here.
-/

namespace Runbook

/-- What an executor hands back, apart from the identity, the name and the start of its step. -/
structure Outcome where
  /-- How the step ended, if it did. -/
  status : Status
  /-- What went wrong. -/
  error : Option String
  /-- What the step puts out. -/
  outputs : Pairs
  /-- When it ended, if the executor says so. -/
  ended : Option Timestamp
  deriving DecidableEq, Repr

/-- Why a step could not be executed. -/
inductive ExecutionError where
  /-- No executor claims a step of this kind. -/
  | noExecutor (kind : Kind)
  /-- The executor of a step gave up. -/
  | executorFailure (step message : String)
  /-- The executor of a step panicked. -/
  | executorPanicked (step : String) (message : Option String)
  /-- A locked variable was written. -/
  | lockedVariable (e : LockedVariable)
  /-- A property of a step has no meaning. -/
  | invalidProperty (step property reason : String)
  /-- The system refused.  The built-in executors do not say so, others may. -/
  | system (message : String)
  deriving DecidableEq, Repr

/-- The wording of an error. -/
def ExecutionError.message : ExecutionError → String
  | noExecutor k => "No executor found for step type: " ++ k.name
  | executorFailure s m => "Step '" ++ s ++ "' failed: " ++ m
  | executorPanicked s m =>
      "Executor for step '" ++ s ++ "' panicked: " ++ m.getD "unknown panic"
  | lockedVariable e => e.message
  | invalidProperty s p r => "Invalid property '" ++ p ++ "' on step '" ++ s ++ "': " ++ r
  | system m => "IO error: " ++ m

/-- The work of an executor on a step. -/
abbrev Execution (σ : Type) := Activity (Scene σ) (Except ExecutionError Outcome)

/-- An executor for steps in surroundings of type `σ`. -/
structure Executor (σ : Type) where
  /-- The kind of steps it is for. -/
  kind : Kind
  /-- The steps it claims. -/
  claims : Step → Bool
  /-- Executes a step. -/
  execute : Step → Context → Execution σ

/-- An executor that claims every step of its kind. -/
def Executor.ofKind {σ : Type} (kind : Kind) (execute : Step → Context → Execution σ) :
    Executor σ :=
  ⟨kind, fun s => s.kind == kind, execute⟩

/-- Executors, the first of them first. -/
abbrev Registry (σ : Type) := List (Executor σ)

namespace Registry

variable {σ : Type}

/-- The executor of a step. -/
def resolve? (r : Registry σ) (s : Step) : Option (Executor σ) := List.find? (·.claims s) r

/-- The step has an executor. -/
def supports (r : Registry σ) (s : Step) : Bool := List.any r (·.claims s)

/-- The kinds that executors are for, each once. -/
def kinds (r : Registry σ) : List Kind :=
  List.foldl (fun ks e => if ks.contains e.kind then ks else ks ++ [e.kind]) [] r

theorem isSome_resolve? (r : Registry σ) (s : Step) : (r.resolve? s).isSome = r.supports s := by
  unfold resolve? supports
  induction r with
  | nil => rfl
  | cons e r ih => cases h : e.claims s <;> simp [h, ih]

end Registry

/-! ## Writing executors -/

namespace Execution

variable {σ : Type}

/-- Hands back an outcome that has ended. -/
def close (status : Status) (error : Option String) (outputs : Pairs) : Execution σ :=
  .look fun s => .done (.ok ⟨status, error, outputs, some s.clock⟩)

/-- The step is completed. -/
def completed (outputs : Pairs) : Execution σ := close .completed none outputs

/-- The step has failed. -/
def failed (message : String) (outputs : Pairs) : Execution σ :=
  close .failed (some message) outputs

/-- Gives up with an error. -/
def refuse (e : ExecutionError) : Execution σ := .done (.error e)

/-- Sets a variable and goes on, unless it is locked. -/
def setVariable (name value : String) (next : Execution σ) : Execution σ :=
  .look fun s =>
    match s.store.set name value with
    | .ok store => .update (fun s => { s with store := store }) next
    | .error e => refuse (.lockedVariable e)

end Execution

/-! ## Properties -/

namespace Step

/-- A property with the variables in it replaced. -/
def expanded? (s : Step) (store : Store) (key : String) : Option String :=
  (s.property? key).map store.expand

/-- An expanded property that is not blank. -/
def given? (s : Step) (store : Store) (key : String) : Option String :=
  (s.expanded? store key).filter fun v => !Text.isBlankText v

/-- A property read by `read`, or the default if it is not given. -/
def parsed {α : Type} (s : Step) (store : Store) (key : String) (read : String → Option α)
    (default : α) : Except ExecutionError α :=
  match s.given? store key with
  | none => .ok default
  | some raw =>
      match read (Text.trim raw) with
      | some a => .ok a
      | none => .error (.invalidProperty s.name key ("'" ++ raw ++ "' is not a valid value"))

end Step
end Runbook
