import Runbook.Builtin.Process
import Runbook.Shell.Evaluation

/-!
# A machine that runs processes

A machine has files and a folder that processes start in, and a shell and its tools are installed on
it.  It is a host for steps that start processes.
-/

namespace Runbook

/-- Files and the current folder. -/
structure Machine where
  /-- The files. -/
  files : Files
  /-- The folder that processes start in. -/
  folder : FilePlace
  deriving DecidableEq, Repr

namespace Machine

open Shell

/-- The folders that every machine has. -/
def standardFolders : List FilePlace :=
  [["bin"], ["dev"], ["etc"], ["home"], ["root"], ["tmp"], ["usr"], ["usr", "bin"], ["var"]]

/-- A machine with a folder and the files in it. -/
def new (folder : FilePlace) (files : List (String × List UInt8)) : Machine :=
  let fs := (standardFolders ++ [folder]).foldl Files.addFolder Files.empty
  ⟨files.foldl (fun fs f => fs.addFile (Files.place folder f.1) f.2) fs, folder⟩

/-- There is a file or folder at a path. -/
def has (m : Machine) (path : String) : Bool :=
  ((m.files.locate? m.folder path).bind m.files.find?).isSome

/-- The content of the file at a path. -/
def content? (m : Machine) (path : String) : Option (List UInt8) :=
  match (m.files.locate? m.folder path).bind m.files.find? with
  | some (.file content) => some content
  | _ => none

/-- The text of the file at a path. -/
def text? (m : Machine) (path : String) : Option String :=
  ((m.content? path).bind Text.decodeStrict?).map String.ofList

/-- Writes a text to the file at a path. -/
def write? (m : Machine) (path text : String) : Option Machine :=
  match m.files.locate? m.folder path with
  | some p =>
      if m.files.isFolder p then none
      else some { m with files := m.files.put p (.file (Text.utf8Bytes text.toList)) }
  | none => none

/-- The turns a process may take before it counts as endless. -/
def turns : Nat := 20000

/-- The milliseconds of a process that does not end. -/
def forever : Nat := Nat.pow 2 80

/-- The path of the file that an inline script is put into. -/
def scriptPlace : FilePlace := ["tmp", "taskseq-script.ps1"]

/-- Why a program cannot be started, by the number of the error. -/
def reason (number : Nat) : String :=
  (match number with
    | 2 => "No such file or directory"
    | 8 => "Exec format error"
    | 13 => "Permission denied"
    | _ => "Not a directory") ++ " (os error " ++ toString number ++ ")"

/-- The number of the error that keeps a program from being started, if there is one. -/
def obstacle? (files : Files) (folder : FilePlace) (program : String) : Option Nat :=
  match files.find? folder with
  | none => some 2
  | some (.file _) => some 20
  | some .folder =>
      match findProgram files folder program with
      | .missing => some 2
      | .forbidden => some 13
      | .script content =>
          match interpreter? content with
          | none => some 8
          | some (interpreter, _) =>
              match findProgram files folder interpreter with
              | .missing => some 2
              | _ => none
      | _ => none

/-- An argument as a text. -/
def argument : Argument → String
  | .text s => s
  | .script _ => Files.text scriptPlace

/-- The script among arguments. -/
def inlineScript? (args : List Argument) : Option String :=
  args.findSome? fun a => match a with
    | .script content => some content
    | .text _ => none

/-- Runs a program to its end. -/
def start (l : Launch) (m : Machine) : Except String ProcessEnd × Machine :=
  let folder := (l.directory.map (Files.place m.folder)).getD m.folder
  let args := l.arguments.map argument
  if (l.program :: l.directory.getD "" :: args).any (·.contains '\x00') then
    (.error "nul byte found in provided data", m)
  else
    match obstacle? m.files folder l.program with
    | some n => (.error (reason n), m)
    | none =>
        let files := match inlineScript? l.arguments with
          | some t => m.files.put scriptPlace (.file (Text.utf8Bytes t.toList))
          | none => m.files
        match Shell.start turns l.program args (Session.new files folder l.program args) with
        | .error n => (.error (reason n), m)
        | .ok (flow, s) =>
            let code : Int := if flow = .killed then -1 else s.status
            let took := if flow = .endless then forever else s.elapsed + 1
            (.ok ⟨code, s.content 0, s.content 1, took⟩,
              { m with files := s.files.remove scriptPlace })

/-- A host for surroundings that hold a machine. -/
def host {σ : Type} (get : σ → Machine) (put : Machine → σ → σ) : Host σ :=
  ⟨fun l s =>
    let (r, m) := start l (get s)
    (r, put m s)⟩

end Machine
end Runbook
