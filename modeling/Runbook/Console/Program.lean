import Runbook.Builtin.Plan
import Runbook.Console.Assignment
import Runbook.Console.Invocation
import Runbook.Console.Settings
import Runbook.Console.Summary
import Runbook.Document.Codec
import Runbook.Overrides
import Runbook.Run.Parallel
import Runbook.Run.Saved
import Runbook.Shell.Machine
import Runbook.Validation

/-!
# The program

What the commands do on a machine.  Whatever is asked for, the settings are found and read first; a
file of settings that is not there is no fault.  A command prints, may write one file, and ends with
a complaint or without.

Variables of a run come from the settings and, with more weight, from the command line.  Both take
the place of variables that the document declares.

`Site.execute` carries out a command line that has been read, `Site.answer` one that has not.
-/

namespace Runbook.Console

/-- Where the program runs. -/
structure Site where
  /-- The machine with its files. -/
  machine : Machine
  /-- The environment variables. -/
  environment : Pairs
  /-- The name of the machine. -/
  hostName : String
  /-- What documents leave out, and the time. -/
  fresh : Fresh
  /-- The identity of a run. -/
  runId : String

/-! ## Complaints -/

/-- Why a command did not do what it was asked for. -/
inductive Complaint where
  /-- The settings cannot be read. -/
  | unreadableSettings (path : String)
  /-- The settings are none. -/
  | badSettings (path : String)
  /-- An environment variable is wrong. -/
  | badEnvironment (fault : EnvironmentFault)
  /-- An assignment is none. -/
  | badAssignment (fault : BadAssignment)
  /-- The document cannot be read. -/
  | unreadable (path : String)
  /-- The document holds no sequence. -/
  | unparsed (path : String) (error : DocumentError)
  /-- The record of the run cannot be written. -/
  | unwrittenRecord (path : String)
  /-- The document cannot be written. -/
  | unwritten (path : String)
  /-- The format is not known. -/
  | unrecognized (path : String)
  /-- The run was not completed. -/
  | unfinished (name : String) (status : Status)
  /-- The sequence is not valid. -/
  | invalid (name : String) (number : Nat)
  /-- The run broke off. -/
  | brokenOff
  deriving DecidableEq, Repr

/-- The wording of a complaint. -/
def Complaint.message : Complaint → String
  | unreadableSettings path => "Failed to read config file " ++ path
  | badSettings path => "Invalid config file " ++ path
  | badEnvironment fault => fault.message
  | badAssignment fault => fault.message
  | unreadable path => "Failed to read " ++ path
  | unparsed path _ => "Failed to parse task sequence " ++ path
  | unwrittenRecord path => "Failed to write output file " ++ path
  | unwritten path => "Failed to write " ++ path
  | unrecognized path => "No parser recognized " ++ path ++ " as a task sequence"
  | unfinished name status => endLine name status
  | invalid name number =>
      "Task sequence '" ++ name ++ "' has " ++ toString number ++ " validation error(s)"
  | brokenOff => "The run broke off"

/-- How the program ends. -/
structure Exit where
  /-- What it prints. -/
  printed : String
  /-- What it complains about. -/
  complaint : Option Complaint
  /-- The machine afterwards. -/
  machine : Machine

/-- The number that the program ends with. -/
def Exit.code (x : Exit) : Nat :=
  match x.complaint with
  | none => 0
  | some .brokenOff => 101
  | some _ => 1

namespace Site

variable (site : Site)

/-- Ends without a complaint. -/
def done (printed : String) : Exit := ⟨printed, none, site.machine⟩

/-- Ends with a complaint. -/
def complain (c : Complaint) : Exit := ⟨"", some c, site.machine⟩

/-! ## Settings -/

/-- The files of settings that are looked for. -/
def searched : List String :=
  ["taskseq.yaml", "taskseq.yml", ".taskseq.yaml", ".taskseq.yml"] ++
    ((site.environment.get? "HOME").map (· ++ "/.taskseq/config.yaml")).toList

/-- The file of settings that is read, if there is one. -/
def settingsPath? (given : Option String) : Option String :=
  (given.or (site.searched.find? site.machine.has)).filter site.machine.has

/-- The settings of a file. -/
def settingsOf (path : String) : Except Complaint Settings :=
  match site.machine.text? path with
  | none => .error (.unreadableSettings path)
  | some text =>
      match Settings.ofText? text with
      | some s => .ok s
      | none => .error (.badSettings path)

/-- The settings that hold here. -/
def settings (given : Option String) : Except Complaint Settings := do
  let s ← match site.settingsPath? given with
    | some path => site.settingsOf path
    | none => .ok Settings.default
  (s.withEnvironment site.environment.get?).mapError .badEnvironment

/-! ## Documents -/

/-- The text of a document. -/
def text (path : String) : Except Complaint String :=
  match site.machine.text? path with
  | some t => .ok t
  | none => .error (.unreadable path)

/-- The sequence of a document. -/
def sequence (path : String) (format : Option Format) : Except Complaint Sequence := do
  let t ← site.text path
  (Codecs.default.read site.fresh format t).mapError (.unparsed path)

/-! ## Commands -/

/-- The executors that are there. -/
def registry : Registry Machine := Registry.builtin (Machine.host id fun m _ => m)

/-- What runs a sequence here. -/
def engine : Engine Machine := ⟨registry, none, site.hostName, fun _ => site.runId⟩

/-- The world in which a run starts. -/
def world : World Machine := ⟨⟨Store.empty, false, site.fresh.now, site.machine⟩, []⟩

/-- The run of a sequence, at a number of branches if they are to run side by side. -/
def play (bound : Option Nat) (s : Sequence) : Ending Context × World Machine :=
  let mode := match bound with
    | some n => Mode.parallel n
    | none => .sequential
  site.engine.runIn (Engine.ampleTurns s) mode s site.world

/-- Runs a sequence.  The record of the run is written to a file, or else its summary is printed. -/
def run (bound : Option Nat) (output : Option String) (s : Sequence) : Exit :=
  match site.play bound s with
  | (.returned c, w) =>
      let verdict := if c.status = .completed then none else
        some (Complaint.unfinished c.sequenceName c.status)
      match output with
      | none => ⟨summaryText c, verdict, w.surroundings⟩
      | some path =>
          match w.surroundings.write? path (Json.pretty c.toData) with
          | some m => ⟨"", verdict, m⟩
          | none => ⟨"", some (.unwrittenRecord path), w.surroundings⟩
  | (_, w) => ⟨"", some .brokenOff, w.surroundings⟩

/-- Validates a sequence. -/
def validate (s : Sequence) : Exit :=
  let r := s.validate (some registry.supports)
  let found := r.warnings.map (fun w => "  warning: " ++ w.message) ++
    r.errors.map fun e => "  error: " ++ e.message
  if r.isValid then
    site.done (lines (found ++ ["✓ Task sequence '" ++ s.name ++ "' is valid",
      "  Steps: " ++ toString s.stepCount, "  Variables: " ++ toString s.declarations.length]))
  else ⟨lines found, some (.invalid s.name r.errors.length), site.machine⟩

/-- Writes a sequence in a format, to a file or else to the output. -/
def convert (target : Format) (output : Option String) (s : Sequence) : Exit :=
  let t := target.serialize s
  match output with
  | none => site.done (lines [t])
  | some path =>
      match site.machine.write? path t with
      | some m => ⟨"", none, m⟩
      | none => site.complain (.unwritten path)

/-- Tells the format of a document. -/
def detect (path text : String) : Exit :=
  match Codecs.default.detect text with
  | some f => site.done (lines [f.name])
  | none => site.complain (.unrecognized path)

/-- Ends as something does that may go wrong before it starts. -/
def either (r : Except Complaint Exit) : Exit :=
  match r with
  | .ok x => x
  | .error c => site.complain c

/-- The sequence of a run, with the variables of the settings and of assignments. -/
def prepared (s : Settings) (file : String) (assignments : List String) (format : Option Format) :
    Except Complaint Sequence := do
  let ps ← (Assignment.readAll assignments).mapError .badAssignment
  let document ← site.sequence file format
  return document.overrideAll (s.withVariables ps).presets

/-- Carries out a command. -/
def carryOut (s : Settings) (c : Command) : Exit :=
  site.either <|
    match c with
    | .run file parallel maxParallelism assignments format output =>
        let bound := if parallel || s.parallel then some (maxParallelism.getD s.maxParallelism)
          else none
        (site.prepared s file assignments format).map (site.run bound output)
    | .validate file format => (site.sequence file format).map site.validate
    | .convert file target format output =>
        (site.sequence file format).map (site.convert target output)
    | .detect file => (site.text file).map (site.detect file)

/-- Carries out a command line. -/
def execute (i : Invocation) : Exit :=
  site.either ((site.settings i.settings).map fun s => site.carryOut s i.command)

/-! ## Whole command lines -/

/-- The name and the version of the program. -/
def versionText : String := "taskseq 0.1.0"

/-- How the program answers a command line. -/
inductive Answer where
  /-- It explains itself. -/
  | help
  /-- It tells its version. -/
  | version
  /-- It refuses. -/
  | refused (r : Refusal)
  /-- It does what it is asked for. -/
  | ended (x : Exit)

/-- Answers the words of a command line. -/
def answer (ws : List String) : Answer :=
  match Invocation.ofWords ws with
  | .ok i => .ended (site.execute i)
  | .error .help => .help
  | .error .version => .version
  | .error r => .refused r

end Site
end Runbook.Console
