import Runbook.Text.Ascii
import Runbook.Text.Blank

/-!
# Kinds of steps

What a step does.  A kind is written by its name and read from its name or one of several aliases:
short names and the class names of an older product.  A name that is neither stands for a custom
step.

`ofName_name` says that the name of a kind is read back to it.
-/

namespace Runbook

/-- The kind of work of a step. -/
inductive Kind where
  /-- Holds other steps and runs them in order. -/
  | group
  | installOperatingSystem
  | applyWindowsImage
  | applyFfuImage
  | installApplication
  | installDriver
  | captureUserState
  | restoreUserState
  | runCommandLine
  | runPowerShell
  | setVariable
  | restartComputer
  | formatAndPartition
  /-- Everything else. -/
  | custom
  deriving DecidableEq, Repr, Inhabited

namespace Kind

/-- Every kind, in the order in which they are listed. -/
def all : List Kind :=
  [group, installOperatingSystem, applyWindowsImage, applyFfuImage, installApplication,
    installDriver, captureUserState, restoreUserState, runCommandLine, runPowerShell, setVariable,
    restartComputer, formatAndPartition, custom]

/-- The kind of a step that names none. -/
def default : Kind := custom

/-- The name under which a kind is written. -/
def name : Kind → String
  | group => "Group"
  | installOperatingSystem => "InstallOperatingSystem"
  | applyWindowsImage => "ApplyWindowsImage"
  | applyFfuImage => "ApplyFFUImage"
  | installApplication => "InstallApplication"
  | installDriver => "InstallDriver"
  | captureUserState => "CaptureUserState"
  | restoreUserState => "RestoreUserState"
  | runCommandLine => "RunCommandLine"
  | runPowerShell => "RunPowerShell"
  | setVariable => "SetVariable"
  | restartComputer => "RestartComputer"
  | formatAndPartition => "FormatAndPartition"
  | custom => "Custom"

/-- The further names under which kinds are read. -/
def aliases : List (String × Kind) :=
  [("installos", installOperatingSystem),
    ("applyimage", applyWindowsImage),
    ("applyffu", applyFfuImage),
    ("restart", restartComputer),
    ("SMS_TaskSequence_Group", group),
    ("SMS_TaskSequence_RunCommandLineAction", runCommandLine),
    ("SMS_TaskSequence_RunPowerShellScriptAction", runPowerShell),
    ("SMS_TaskSequence_SetVariableAction", setVariable),
    ("SMS_TaskSequence_RebootAction", restartComputer),
    ("SMS_TaskSequence_ApplyOperatingSystemAction", applyWindowsImage),
    ("SMS_TaskSequence_ApplyDriverPackageAction", installDriver),
    ("SMS_TaskSequence_InstallApplicationAction", installApplication),
    ("SMS_TaskSequence_CaptureUserStateAction", captureUserState),
    ("SMS_TaskSequence_RestoreUserStateAction", restoreUserState),
    ("SMS_TaskSequence_PartitionDiskAction", formatAndPartition)]

/-- All names with their kinds. -/
def spellings : List (String × Kind) := (all.map fun k => (k.name, k)) ++ aliases

/-- The kind a name stands for, blanks around it and the case of its letters aside. -/
def ofName (s : String) : Kind :=
  let wanted := Text.trim s
  ((spellings.find? fun p => Text.sameLetters p.1 wanted).map (·.2)).getD custom

/-- The properties a step of a kind has to carry. -/
def requiredProperties : Kind → List String
  | installOperatingSystem => ["ImagePath", "ImageIndex"]
  | applyWindowsImage => ["WimPath", "ImageIndex", "TargetDrive"]
  | applyFfuImage => ["FFUPath", "TargetDisk"]
  | installApplication => ["ApplicationName", "InstallCommand"]
  | installDriver => ["DriverPath"]
  | captureUserState => ["StorePath"]
  | restoreUserState => ["StorePath"]
  | runCommandLine => ["CommandLine"]
  | runPowerShell => ["Script"]
  | setVariable => ["VariableName"]
  | formatAndPartition => ["DiskNumber"]
  | _ => []

theorem ofName_name (k : Kind) : ofName k.name = k := by cases k <;> decide

end Kind
end Runbook
