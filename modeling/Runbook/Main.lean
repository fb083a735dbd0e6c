import Runbook.Console.Identity
import Runbook.Console.Program

/-!
# The command line

The outermost layer.  It looks up the files and the environment variables that the words of the
command line can be about, lets `Site.answer` answer, prints and writes what comes of it.
-/

namespace Runbook.Console

/-- The text for somebody who asks how to use the program. -/
def usageText : String :=
  lines ["Execute declarative task sequences written in XML, JSON, or YAML", "",
    "Usage: taskseq [OPTIONS] <COMMAND>", "", "Commands:",
    "  run       Execute a task sequence",
    "  validate  Parse and validate a task sequence without executing it",
    "  convert   Convert a task sequence to another format",
    "  detect    Report which format claims a document",
    "  help      Print this message", "", "Options:",
    "  -v, --verbose          Enable verbose output",
    "  -c, --config <CONFIG>  Path to configuration file",
    "      --no-color         Disable colored output",
    "  -h, --help             Print help",
    "  -V, --version          Print version"]

/-- The environment variables that the program looks at. -/
def environmentNames : List String :=
  ["HOME", "TASKSEQ_LOG_LEVEL", "TASKSEQ_LOG_FORMAT", "TASKSEQ_MAX_PARALLELISM",
    "TASKSEQ_PARALLEL"]

/-- The environment variables that are set. -/
def readEnvironment : IO Pairs := do
  let found ← environmentNames.mapM fun n => do return (← IO.getEnv n).map (n, ·)
  return found.filterMap id

/-- Puts what is at a path into a machine. -/
def loadPath (m : Machine) (path : String) : IO Machine := do
  let place := Files.place m.folder path
  let absolute := (← IO.currentDir) / path
  if ← absolute.isDir then return { m with files := m.files.addFolder place }
  try
    let bytes ← IO.FS.readBinFile absolute
    return { m with files := m.files.addFile place bytes.toList }
  catch _ => return m

/-- The folder that a path is in. -/
def folderOf (path : String) : String :=
  String.intercalate "/" (path.splitOn "/").dropLast

/-- The file that a command writes. -/
def Command.output? : Command → Option String
  | run _ _ _ _ _ output => output
  | convert _ _ _ output => output
  | _ => none

/-- The document that a command is about. -/
def Command.file : Command → String
  | run file _ _ _ _ _ => file
  | validate file _ => file
  | convert file _ _ _ => file
  | detect file => file

/-- The paths that a command line is about. -/
def Invocation.paths (i : Invocation) : List String :=
  i.command.file :: i.settings.toList ++
    i.command.output?.toList.flatMap fun p => [folderOf p, p].filter (· != "")

/-- The time, which is that of a file made just now. -/
def readClock : IO Timestamp := do
  let (_, path) ← IO.FS.createTempFile
  let time := (← path.metadata).modified
  IO.FS.removeFile path
  return ⟨time.sec, time.nsec.toNat⟩

/-- The name of the machine. -/
def readHostName : IO String := do
  try
    return Text.trim (← IO.FS.readFile "/etc/hostname")
  catch _ => return "localhost"

/-- A number of 128 bits that is drawn at random. -/
def drawSeed : IO Nat := do
  return (← IO.getRandomBytes 16).toList.foldl (fun n b => n * 256 + b.toNat) 0

/-- The place where the program runs, with the files at some paths. -/
def readSite (paths : Site → List String) : IO Site := do
  let current ← IO.currentDir
  let folder := Files.place [] current.toString
  let fresh := drawn (← drawSeed) (← readClock)
  let site : Site := ⟨Machine.new folder [], ← readEnvironment, ← readHostName, fresh,
    identityText (← drawSeed)⟩
  let machine ← (paths site).foldlM loadPath site.machine
  return { site with machine := machine }

/-- Writes a file that a command has changed. -/
def saveOutput (before after : Machine) (path : String) : IO Unit := do
  match after.content? path with
  | some bytes =>
      if before.content? path != some bytes then
        IO.FS.writeBinFile ((← IO.currentDir) / path) ⟨bytes.toArray⟩
  | none => return ()

end Runbook.Console

open Runbook.Console in
/-- Answers a command line. -/
def main (args : List String) : IO UInt32 := do
  let invocation := Invocation.ofWords args
  let output := invocation.toOption.bind (·.command.output?)
  let site ← readSite fun site =>
    site.searched ++ (invocation.toOption.map (·.paths)).getD []
  match site.answer args with
  | .help =>
      IO.print usageText
      return 0
  | .version =>
      IO.println Site.versionText
      return 0
  | .refused r =>
      IO.eprintln ("error: " ++ r.message)
      return 2
  | .ended x =>
      IO.print x.printed
      for path in output.toList do
        saveOutput site.machine x.machine path
      for c in x.complaint.toList do
        IO.eprintln ("Error: " ++ c.message)
      return x.code.toUInt32
