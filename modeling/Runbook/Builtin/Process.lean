import Runbook.Run.Executor
import Runbook.Text.Integer
import Runbook.Text.Utf8

/-!
# Processes

What it takes to start a process, how it comes to an end, and what that means for the step that
started it.  The system that runs processes is a parameter, the host.  A host may be unable to start
a program.  It is taken to be able to write temporary files and to read what processes write.

A process that ends by itself has an exit code, and the step is completed if the code is one of
those that count as success.  A process that outlasts its time is ended, and so is one whose run is
cancelled; the step fails in both cases.
-/

namespace Runbook

/-- An argument of a program. -/
inductive Argument where
  /-- The argument itself. -/
  | text (s : String)
  /-- The path of a temporary file with this content. -/
  | script (content : String)
  deriving DecidableEq, Repr

/-- A program to be started. -/
structure Launch where
  /-- The program. -/
  program : String
  /-- Its arguments. -/
  arguments : List Argument
  /-- The directory it works in, if not the current one. -/
  directory : Option String
  deriving DecidableEq, Repr

/-- A process and how it is judged. -/
structure ProcessSpec where
  /-- What is started. -/
  launch : Launch
  /-- The seconds it may take. -/
  timeout : Nat
  /-- The exit codes that count as success. -/
  successCodes : List Int
  deriving DecidableEq, Repr

/-- A process that has ended by itself. -/
structure ProcessEnd where
  /-- Its exit code. -/
  code : Int
  /-- What it wrote. -/
  output : List UInt8
  /-- What it complained about. -/
  complaint : List UInt8
  /-- The milliseconds it took. -/
  took : Nat
  deriving DecidableEq, Repr

/-- A system that runs processes in surroundings of type `σ`. -/
structure Host (σ : Type) where
  /-- Starts a program.  The outcome is what the process comes to if nothing ends it before, or the
  reason why it could not be started. -/
  start : Launch → σ → Except String ProcessEnd × σ

/-! ## What properties say about a process -/

/-- The seconds a process may take if the step does not say. -/
def defaultTimeout : Nat := 3600

/-- The parts of a text between commas and blanks. -/
def codeWords (cs : List Char) : List (List Char) :=
  (cs.splitBy fun a b => !isBreak a && !isBreak b).filter fun w => !w.any isBreak
where
  /-- A comma or a blank. -/
  isBreak (c : Char) : Bool := c == ',' || Text.isBlank c

/-- The exit codes that a text lists. -/
def readCodes (step : String) : List (List Char) → Except ExecutionError (List Int)
  | [] => .ok []
  | w :: ws =>
      match Text.readSigned? 10 Text.maxInt32 w with
      | none =>
          .error (.invalidProperty step "SuccessCodes"
            ("'" ++ String.ofList w ++ "' is not an exit code"))
      | some n => (readCodes step ws).map fun ns => n :: ns

/-- The exit codes that count as success, by default zero alone. -/
def Step.successCodes (s : Step) (store : Store) : Except ExecutionError (List Int) :=
  match s.given? store "SuccessCodes" with
  | none => .ok [0]
  | some raw => readCodes s.name (codeWords raw.toList)

/-- The process of a step, given what to start. -/
def Step.processSpec (s : Step) (store : Store) (program : String) (arguments : List Argument) :
    Except ExecutionError ProcessSpec := do
  let directory := s.given? store "WorkingDirectory"
  let timeout ← s.parsed store "Timeout"
    (fun t => Text.readUnsigned? 10 Text.maxWord64 t.toList) defaultTimeout
  let codes ← s.successCodes store
  return ⟨⟨program, arguments, directory⟩, timeout, codes⟩

/-! ## What an end means for the step -/

/-- Exit codes as messages list them. -/
def codesText (codes : List Int) : String :=
  "[" ++ String.intercalate ", " (codes.map toString) ++ "]"

/-- The outputs of a process that has ended by itself. -/
def ProcessEnd.outputs (p : ProcessEnd) : Pairs :=
  let code := [("ExitCode", toString p.code)]
  if p.output.isEmpty then code
  else code ++ [("Output", String.ofList (Text.trimEnd (Text.decodeLenient p.output)))]

/-- The message of a process whose exit code is no success. -/
def ProcessEnd.message (p : ProcessEnd) (codes : List Int) : String :=
  let complaint := Text.trim (String.ofList (Text.decodeLenient p.complaint))
  "Process exited with code " ++ toString p.code ++ " (expected one of: " ++ codesText codes ++
    ")" ++ (if complaint.isEmpty then "" else ": " ++ complaint)

/-- The process is killed when its time is over.  No time at all is always over. -/
def ProcessSpec.expires (p : ProcessSpec) (e : ProcessEnd) : Bool :=
  p.timeout == 0 || p.timeout * 1000 < e.took

/-- Runs a process.  A step that is completed has `more` outputs. -/
def ProcessSpec.run {σ : Type} (p : ProcessSpec) (host : Host σ) (more : Pairs) : Execution σ :=
  .look fun s =>
    let started := host.start p.launch s.surroundings
    .update (fun s => { s with surroundings := started.2 }) <|
      match started.1 with
      | .error reason =>
          Execution.failed ("Failed to start '" ++ p.launch.program ++ "': " ++ reason) []
      | .ok e =>
          .await ⟨some (if p.expires e then p.timeout * 1000 else e.took), true⟩ fun cancelled =>
            if cancelled then Execution.failed "Step cancelled before the process finished" []
            else if p.expires e then
              Execution.failed ("Process timed out after " ++ toString p.timeout ++ " seconds")
                [("ExitCode", "-1")]
            else if p.successCodes.contains e.code then Execution.completed (e.outputs ++ more)
            else Execution.failed (e.message p.successCodes) e.outputs

end Runbook
