import Runbook.Shell.Pattern
import Runbook.Shell.Session

/-!
# From pieces of words to fields

The parts of a word come to pieces: characters that are kept together, values that fall apart at
blanks, and boundaries.  Pieces make fields, and a field that is a pattern stands for the names that
match it, if there are any.
-/

namespace Runbook.Shell

/-- What a part of a word comes to. -/
inductive Piece where
  /-- Characters that are kept together.  Quoted ones make a field even if there are none. -/
  | keep (quoted : Bool) (cs : List Char)
  /-- Characters that fall apart at blanks. -/
  | split (cs : List Char)
  /-- The end of a field. -/
  | boundary
  deriving DecidableEq, Repr

/-- The fields so far, the last one first, and the field that is being made. -/
structure Fields where
  /-- The fields that are complete. -/
  complete : List (List Marked)
  /-- The field that is not. -/
  current : Option (List Marked)

namespace Fields

/-- No field yet. -/
def empty : Fields := ⟨[], none⟩

/-- Ends the field that is being made. -/
def close (f : Fields) : Fields :=
  match f.current with
  | some c => ⟨c :: f.complete, none⟩
  | none => f

/-- Adds characters to the field that is being made. -/
def add (f : Fields) (ms : List Marked) : Fields :=
  { f with current := some (f.current.getD [] ++ ms) }

/-- Adds a character of a value.  A blank among the separators ends a field, and any other separator
ends one even if it is empty. -/
def putChar (separators : List Char) (f : Fields) (c : Char) : Fields :=
  if separators.contains c then
    if c = ' ' ∨ c = '\t' ∨ c = '\n' then f.close else (f.add []).close
  else f.add [(c, false)]

/-- Adds a piece. -/
def put (separators : List Char) (f : Fields) : Piece → Fields
  | .keep quoted cs => if quoted || !cs.isEmpty then f.add (marked quoted cs) else f
  | .split cs => cs.foldl (putChar separators) f
  | .boundary => f.close

/-- The fields of pieces. -/
def ofPieces (separators : List Char) (ps : List Piece) : List (List Marked) :=
  ((ps.foldl (put separators) empty).close).complete.reverse

end Fields

/-- The characters of a field or pattern without their marks. -/
def unmarked (ms : List Marked) : String := String.ofList (ms.map (·.1))

/-- The characters of pieces, kept together. -/
def Piece.chars : Piece → List Char
  | keep _ cs => cs
  | split cs => cs
  | boundary => [' ']

/-- The text of pieces that make one field. -/
def Piece.text (ps : List Piece) : String := String.ofList (ps.flatMap Piece.chars)

/-- The characters of pieces with their marks, as a pattern. -/
def Piece.pattern (ps : List Piece) : List Marked :=
  ps.flatMap fun p => match p with
    | keep q cs => marked q cs
    | split cs => marked false cs
    | boundary => [(' ', true)]

/-! ## Names that match -/

/-- The parts of a field between slashes. -/
def slashParts (ms : List Marked) : List (List Marked) :=
  ms.foldr (fun m ps =>
    if m.1 = '/' then [] :: ps
    else
      match ps with
      | [] => [[m]]
      | p :: ps => (m :: p) :: ps) [[]]

/-- The written paths that match parts, from places that were reached. -/
def matching (files : Files) : List (List Marked) → List (String × FilePlace) →
    List (String × FilePlace)
  | [], found => found
  | part :: parts, found =>
      matching files parts (found.flatMap fun (t, p) =>
        let names :=
          if isPattern part then
            (files.names p).filter fun n =>
              isMatch part n.toList && (!n.startsWith "." || (part.head?.map (·.1)) == some '.')
          else [unmarked part]
        (names.map fun n =>
          (t ++ n ++ (if parts.isEmpty then "" else "/"), Files.place p n)).filter fun r =>
            if parts.isEmpty then (files.find? r.2).isSome else files.isFolder r.2)

/-- The arguments a field stands for. -/
def globbed (s : Session) (ms : List Marked) : List String :=
  if isPattern ms then
    let (start, parts) : (String × FilePlace) × List (List Marked) := match slashParts ms with
      | [] :: ps => (("/", []), ps)
      | ps => (("", s.folder), ps)
    match matching s.files parts [start] with
    | [] => [unmarked ms]
    | found => found.map (·.1)
  else [unmarked ms]

/-! ## Taking off a part of a value -/

/-- A value without the part at its front that matches. -/
def stripFront (longest : Bool) (pattern : List Marked) (cs : List Char) : List Char :=
  let lengths := List.range (cs.length + 1)
  let tried := if longest then lengths.reverse else lengths
  match tried.find? fun n => isMatch pattern (cs.take n) with
  | some n => cs.drop n
  | none => cs

/-- A value without the part at its end that matches. -/
def stripEnd (longest : Bool) (pattern : List Marked) (cs : List Char) : List Char :=
  let lengths := List.range (cs.length + 1)
  let tried := if longest then lengths else lengths.reverse
  match tried.find? fun n => isMatch pattern (cs.drop n) with
  | some n => cs.take n
  | none => cs

end Runbook.Shell
