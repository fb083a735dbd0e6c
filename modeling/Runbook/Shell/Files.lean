import Runbook.Text.Utf8

/-!
# A tree of files

Files and folders by their paths.  A path is a list of names from the root.  The text of a path is
read against a current folder.
-/

namespace Runbook

/-- What a path leads to. -/
inductive FileNode where
  /-- A file with its bytes. -/
  | file (content : List UInt8)
  /-- A folder. -/
  | folder
  deriving DecidableEq, Repr

/-- A path from the root. -/
abbrev FilePlace := List String

/-- Files and folders. -/
structure Files where
  /-- What there is, each path once. -/
  entries : List (FilePlace × FileNode)
  deriving DecidableEq, Repr

namespace Files

/-- Nothing but the root. -/
def empty : Files := ⟨[([], .folder)]⟩

/-- What a path leads to. -/
def find? (fs : Files) (p : FilePlace) : Option FileNode := fs.entries.lookup p

/-- Puts something at a path. -/
def put (fs : Files) (p : FilePlace) (n : FileNode) : Files :=
  ⟨if (fs.find? p).isSome then fs.entries.map fun e => if e.1 = p then (p, n) else e
    else fs.entries ++ [(p, n)]⟩

/-- Removes what is at a path and beneath it. -/
def remove (fs : Files) (p : FilePlace) : Files :=
  ⟨fs.entries.filter fun e => !p.isPrefixOf e.1⟩

/-- The path leads to a folder. -/
def isFolder (fs : Files) (p : FilePlace) : Bool := fs.find? p == some .folder

/-- Makes a folder and those above it, where there is nothing yet. -/
def addFolder (fs : Files) (p : FilePlace) : Files :=
  ((List.range (p.length + 1)).map p.take).foldl
    (fun fs q => if (fs.find? q).isSome then fs else fs.put q .folder) fs

/-- Puts a file, with the folders above it. -/
def addFile (fs : Files) (p : FilePlace) (content : List UInt8) : Files :=
  (fs.addFolder p.dropLast).put p (.file content)

/-- The names in a folder, sorted. -/
def names (fs : Files) (p : FilePlace) : List String :=
  (fs.entries.filterMap fun e =>
    match e.1.getLast? with
    | some name => if e.1.dropLast = p then some name else none
    | none => none).mergeSort fun a b => decide (a ≤ b)

/-- Follows the parts of a written path. -/
def follow : FilePlace → List String → FilePlace
  | start, [] => start
  | start, part :: parts =>
      if part = "" ∨ part = "." then follow start parts
      else if part = ".." then follow start.dropLast parts
      else follow (start ++ [part]) parts

/-- The parts of a written path. -/
def parts (s : String) : List String := (s.splitOn "/")

/-- The path of a text, seen from a folder. -/
def place (current : FilePlace) (s : String) : FilePlace :=
  follow (if s.startsWith "/" then [] else current) (parts s)

/-- Follows the parts of a written path, as long as there is a folder on the way. -/
def reach? (fs : Files) : FilePlace → List String → Option FilePlace
  | start, [] => some start
  | start, part :: parts =>
      if !fs.isFolder start then none
      else if part = "" ∨ part = "." then fs.reach? start parts
      else if part = ".." then fs.reach? start.dropLast parts
      else fs.reach? (start ++ [part]) parts

/-- The path of a text, seen from a folder, if only its last part may be missing. -/
def locate? (fs : Files) (current : FilePlace) (s : String) : Option FilePlace :=
  fs.reach? (if s.startsWith "/" then [] else current) (parts s)

/-- The text of a path. -/
def text (p : FilePlace) : String := "/" ++ String.intercalate "/" p

end Files
end Runbook
