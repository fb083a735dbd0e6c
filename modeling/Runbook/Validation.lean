import Runbook.Sequence
import Runbook.Text.Blank
import Runbook.Text.Case

/-!
# Validation

What can be said about a task sequence without running it.  Errors are what keeps its identities and
names from being told apart or used; warnings are what will not work as it seems to be meant.

Variables are checked in the order of their declarations and steps in preorder.
-/

namespace Runbook

/-- An error of a sequence. -/
inductive Finding where
  /-- A variable has a name that one before it has too, up to capital forms. -/
  | duplicateVariable (name : String)
  /-- A step has the identity of one before it. -/
  | duplicateStep (id name : String)
  /-- A step has a blank name. -/
  | unnamedStep (id : String)
  /-- A condition of a step has a blank name of a variable. -/
  | unnamedCondition (step : String)
  /-- A variable has a blank name. -/
  | unnamedVariable
  deriving DecidableEq, Repr

/-- The wording of an error. -/
def Finding.message : Finding → String
  | duplicateVariable name => "Duplicate variable name: " ++ name
  | duplicateStep id name => "Duplicate step id '" ++ id ++ "' (step '" ++ name ++ "')"
  | unnamedStep id => "Step '" ++ id ++ "' has no name"
  | unnamedCondition step => "Step '" ++ step ++ "' has a condition with no variable name"
  | unnamedVariable => "Variable declared with an empty name"

/-- A warning about a sequence. -/
inductive Warning where
  /-- There are steps in a step that is no group. -/
  | idleChildren (step : String) (kind : Kind) (number : Nat)
  /-- A step lacks a property. -/
  | missingProperty (step : String) (kind : Kind) (key : String)
  /-- Nothing can execute a step. -/
  | noExecutor (step : String) (kind : Kind)
  /-- There are no steps. -/
  | noSteps
  deriving DecidableEq, Repr

/-- The wording of a warning. -/
def Warning.message : Warning → String
  | idleChildren step kind number =>
      "Step '" ++ step ++ "' is a " ++ kind.name ++ " step; its " ++ toString number ++
        " child step(s) will never run"
  | missingProperty step kind key =>
      "Step '" ++ step ++ "' (" ++ kind.name ++ ") is missing property '" ++ key ++ "'"
  | noExecutor step kind =>
      "No executor registered for step '" ++ step ++ "' of type " ++ kind.name
  | noSteps => "Task sequence defines no steps"

/-- What was found. -/
structure Report where
  /-- The errors. -/
  errors : List Finding
  /-- The warnings. -/
  warnings : List Warning
  deriving DecidableEq, Repr

/-- There is no error. -/
def Report.isValid (r : Report) : Bool := r.errors.isEmpty

namespace Sequence

/-- The errors of variables, given the capital forms of the names before them. -/
def variableErrors (seen : List String) : List Variable → List Finding
  | [] => []
  | v :: vs =>
      if Text.isBlankText v.name then .unnamedVariable :: variableErrors seen vs
      else
        let key := Text.upper v.name
        (if key ∈ seen then [.duplicateVariable v.name] else []) ++ variableErrors (key :: seen) vs

/-- The errors of a step, given the identities before it. -/
def errorsOfStep (seen : List String) (s : Step) : List Finding :=
  (if s.id ∈ seen then [.duplicateStep s.id s.name] else []) ++
    (if Text.isBlankText s.name then [.unnamedStep s.id] else []) ++
    (if s.conditions.any fun c => Text.isBlankText c.name then [.unnamedCondition s.name] else [])

/-- The errors of steps one after the other. -/
def stepErrors (seen : List String) : List Step → List Finding
  | [] => []
  | s :: ss => errorsOfStep seen s ++ stepErrors (s.id :: seen) ss

/-- The warnings about a step.  `supports` tells which steps can be executed, if that is known. -/
def warningsOfStep (supports : Option (Step → Bool)) (s : Step) : List Warning :=
  if s.isGroup then []
  else
    (if s.children.isEmpty then [] else [.idleChildren s.name s.kind s.children.length]) ++
      ((s.kind.requiredProperties.filter fun k => !s.properties.contains k).map
        (.missingProperty s.name s.kind)) ++
      (match supports with
        | some p => if p s then [] else [.noExecutor s.name s.kind]
        | none => [])

/-- Validates a sequence. -/
def validate (supports : Option (Step → Bool)) (s : Sequence) : Report :=
  ⟨variableErrors [] s.declarations ++ stepErrors [] s.allSteps,
    s.allSteps.flatMap (warningsOfStep supports) ++ if s.steps.isEmpty then [.noSteps] else []⟩

end Sequence
end Runbook
