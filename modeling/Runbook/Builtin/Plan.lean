import Runbook.Builtin.Process
import Runbook.Run.Published

/-!
# What built-in executors do

A built-in executor makes a plan from the properties of its step and the variables, and then follows
it.  A plan refuses the step, fails it, writes one variable, or starts one process.  So a variable
is written only when nothing can go wrong any more but the write itself.
-/

namespace Runbook

/-- What an executor is going to do. -/
inductive Plan where
  /-- Gives up with an error. -/
  | refuse (e : ExecutionError)
  /-- Fails with a message. -/
  | fail (message : String)
  /-- Writes a variable and completes with outputs. -/
  | write (name value : String) (outputs : Pairs)
  /-- Runs a process, with further outputs if it succeeds. -/
  | process (spec : ProcessSpec) (more : Pairs)
  deriving DecidableEq, Repr

namespace Plan

/-- The plan to run a process whose specification may be faulty. -/
def ofSpec (spec : Except ExecutionError ProcessSpec) (more : Pairs) : Plan :=
  match spec with
  | .ok p => process p more
  | .error e => refuse e

/-- Follows a plan. -/
def follow {σ : Type} (host : Host σ) : Plan → Execution σ
  | refuse e => Execution.refuse e
  | fail m => Execution.failed m []
  | write name value outputs => Execution.setVariable name value (Execution.completed outputs)
  | process spec more => spec.run host more

end Plan

namespace Step

variable (s : Step) (store : Store)

/-! ## Setting a variable -/

/-- Sets the variable that the step names. -/
def setVariablePlan : Plan :=
  match s.given? store "VariableName" with
  | none => .fail "VariableName property is required"
  | some raw =>
      let name := Text.trim raw
      let value := (s.expanded? store "VariableValue").getD ""
      .write name value [(name, value)]

/-! ## Running a command line -/

/-- Gives the command line to the shell. -/
def commandLinePlan : Plan :=
  match s.given? store "CommandLine" with
  | none => .fail "CommandLine property is required"
  | some line => .ofSpec (s.processSpec store "sh" [.text "-c", .text line]) []

/-! ## Running a script -/

/-- The interpreter of a step that names none. -/
def defaultInterpreter : String := "pwsh"

/-- What follows the last separator of a path, whichever way it leans. -/
def fileName (cs : List Char) : List Char :=
  (cs.reverse.takeWhile fun c => c != '/' && c != '\\').reverse

/-- A file name without the ending of programs. -/
def programStem (cs : List Char) : List Char :=
  if ".exe".toList.isSuffixOf cs then cs.take (cs.length - 4) else cs

/-- The interpreter is one that takes its options before the script. -/
def isPowerShell (interpreter : String) : Bool :=
  let stem := programStem (Text.lowerAscii (fileName interpreter.toList))
  stem == "pwsh".toList || stem == "powershell".toList

/-- The arguments of an interpreter for a script. -/
def interpreterArguments (interpreter : String) (script : Argument) : List Argument :=
  (if isPowerShell interpreter then
    ["-NoProfile", "-NonInteractive", "-ExecutionPolicy", "Bypass", "-File"].map .text
  else []) ++ [script]

/-- The script of a step: one given inline, or else the path of a file. -/
def script? : Option Argument :=
  let inline := ((s.expanded? store "Script").or (s.expanded? store "ScriptContent")).filter
    fun t => !Text.isBlankText t
  (inline.map .script).or ((s.given? store "ScriptPath").map .text)

/-- Gives the script to its interpreter. -/
def scriptPlan : Plan :=
  let interpreter := (s.given? store "Interpreter").getD defaultInterpreter
  match s.script? store with
  | none => .fail "Script property is required"
  | some script =>
      .ofSpec (s.processSpec store interpreter (interpreterArguments interpreter script))
        [("ScriptExecuted", "true")]

/-! ## Asking for a restart -/

/-- The seconds before a restart if the step does not say. -/
def defaultDelay : Nat := 5

/-- The message of a restart if the step does not say. -/
def defaultRestartMessage : String := "The computer will restart"

/-- Asks the host for a restart. -/
def restartPlan : Plan :=
  match s.parsed store "DelaySeconds"
      (fun t => Text.readUnsigned? 10 Text.maxWord32 t.toList) defaultDelay with
  | .error e => .refuse e
  | .ok delay =>
      let message := (s.given? store "Message").getD defaultRestartMessage
      .write restartVariable "true"
        [("RestartScheduled", "true"), ("RestartDelaySeconds", toString delay),
          ("RestartMessage", message)]

end Step

/-! ## The executors -/

/-- An executor that makes a plan and follows it. -/
def Executor.ofPlan {σ : Type} (host : Host σ) (kind : Kind) (plan : Step → Store → Plan) :
    Executor σ :=
  .ofKind kind fun s _ => .look fun scene => (plan s scene.store).follow host

/-- The built-in executors. -/
def Registry.builtin {σ : Type} (host : Host σ) : Registry σ :=
  [.ofPlan host .setVariable Step.setVariablePlan,
    .ofPlan host .runCommandLine Step.commandLinePlan,
    .ofPlan host .runPowerShell Step.scriptPlan,
    .ofPlan host .restartComputer Step.restartPlan]

end Runbook
