import Runbook.Pairs
import Runbook.Shell.Command
import Runbook.Shell.Files
import Runbook.Text.Blank

/-!
# Shell sessions

The state of a shell: its files, variables and arguments, what is left of its input, and where each
of its two outputs goes.  What is written is kept in buffers, one for each output of the process and
one more for each command whose output is read by the shell itself.

`Flow` says how control goes on after a command.
-/

namespace Runbook.Shell

/-- Where an output goes. -/
inductive Target where
  /-- Into a buffer. -/
  | buffer (index : Nat)
  /-- To the end of a file. -/
  | file (place : FilePlace)
  /-- Nowhere. -/
  | nowhere
  deriving DecidableEq, Repr

/-- How control goes on after a command. -/
inductive Flow where
  /-- With the next command. -/
  | next
  /-- Behind so many loops. -/
  | leave (loops : Nat)
  /-- With the next turn of a loop, so many of them around. -/
  | again (loops : Nat)
  /-- Behind the function. -/
  | back
  /-- Not at all: the shell exits. -/
  | exit
  /-- Not at all: the process was killed. -/
  | killed
  /-- Never: the process does not end. -/
  | endless
  deriving DecidableEq, Repr

/-- The state of a shell. -/
structure Session where
  /-- The files. -/
  files : Files
  /-- The current folder. -/
  folder : FilePlace
  /-- The variables. -/
  bindings : Pairs
  /-- The functions. -/
  functions : List (String × Command)
  /-- The name of the shell or of its script. -/
  name : String
  /-- The arguments. -/
  arguments : List String
  /-- The exit code of the last command. -/
  status : Nat
  /-- A command that fails ends the shell. -/
  strict : Bool
  /-- The milliseconds that have passed. -/
  elapsed : Nat
  /-- The input that was not read yet. -/
  input : List UInt8
  /-- Where output goes. -/
  output : Target
  /-- Where complaints go. -/
  complaints : Target
  /-- The buffers, each with what was written last first. -/
  buffers : List (List UInt8)

namespace Session

/-- A session that has just begun. -/
def new (files : Files) (folder : FilePlace) (name : String) (arguments : List String) : Session :=
  ⟨files, folder, [], [], name, arguments, 0, false, 0, [], .buffer 0, .buffer 1, [[], []]⟩

/-- Writes bytes to a target. -/
def writeTo (s : Session) (t : Target) (bytes : List UInt8) : Session :=
  match t with
  | .nowhere => s
  | .buffer n => { s with buffers := s.buffers.modify n fun b => bytes.reverse ++ b }
  | .file p =>
      let before := match s.files.find? p with
        | some (.file b) => b
        | _ => []
      { s with files := s.files.put p (.file (before ++ bytes)) }

/-- Writes bytes. -/
def writeBytes (s : Session) (bytes : List UInt8) : Session := s.writeTo s.output bytes

/-- Writes text. -/
def write (s : Session) (t : String) : Session := s.writeBytes (Text.utf8Bytes t.toList)

/-- Complains. -/
def complain (s : Session) (t : String) : Session :=
  s.writeTo s.complaints (Text.utf8Bytes (t ++ "\n").toList)

/-- Ends a command with an exit code. -/
def ending (s : Session) (code : Nat) : Flow × Session := (.next, { s with status := code })

/-- Ends a command with a complaint and an exit code. -/
def refuse (s : Session) (t : String) (code : Nat) : Flow × Session := (s.complain t).ending code

/-- The bytes of a buffer in the order in which they were written. -/
def content (s : Session) (n : Nat) : List UInt8 := ((s.buffers[n]?).getD []).reverse

/-- The value of a parameter, if it is set. -/
def parameter? (s : Session) (name : String) : Option String :=
  match name with
  | "?" => some (toString s.status)
  | "#" => some (toString s.arguments.length)
  | "$" => some "2024"
  | "0" => some s.name
  | "-" => some ""
  | "!" => none
  | "*" => some (String.intercalate " " s.arguments)
  | "@" => some (String.intercalate " " s.arguments)
  | "PWD" => some (Files.text s.folder)
  | _ =>
      match name.toNat? with
      | some n => s.arguments[n - 1]?
      | none => s.bindings.get? name

/-- Sets a variable. -/
def assign (s : Session) (name value : String) : Session :=
  { s with bindings := Pairs.insert s.bindings name value }

/-- The next line of the input, without its end, and whether it had one. -/
def readLine (s : Session) : Option (String × Bool) × Session :=
  if s.input.isEmpty then (none, s)
  else
    let l := s.input.takeWhile (· != 10)
    let rest := s.input.dropWhile (· != 10)
    (some (String.ofList (Text.decodeLenient l), !rest.isEmpty), { s with input := rest.tail })

/-- The place a text of a path leads to. -/
def place (s : Session) (path : String) : FilePlace := Files.place s.folder path

end Session
end Runbook.Shell
