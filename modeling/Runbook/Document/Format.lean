import Runbook.Text.Ascii
import Runbook.Text.Blank

/-!
# Document formats

A task sequence is written in one of three formats.  A format is named by a word, and the extension
of a file tells it.
-/

namespace Runbook

/-- The format of a document. -/
inductive Format where
  | xml
  | json
  | yaml
  deriving DecidableEq, Repr, Inhabited

namespace Format

/-- Every format, in the order in which a text is tried. -/
def all : List Format := [xml, json, yaml]

/-- The name of a format. -/
def name : Format → String
  | xml => "XML"
  | json => "JSON"
  | yaml => "YAML"

/-- The usual extension of a file. -/
def extension : Format → String
  | xml => "xml"
  | json => "json"
  | yaml => "yaml"

/-- The format of a word in small letters. -/
def ofWord? (w : String) : Option Format :=
  if w = "xml" then some xml
  else if w = "json" then some json
  else if w = "yaml" ∨ w = "yml" then some yaml
  else none

/-- The format a text names, blanks around it and the case of its letters aside. -/
def ofText? (s : String) : Option Format := ofWord? (Text.lower (Text.trim s))

/-- The pieces of a path between slashes, empty ones and single points left out.  A point at the
start of a path counts as a piece. -/
def pathPieces (path : List Char) : List (List Char) :=
  let all := path.splitOn '/'
  all.zipIdx.filterMap fun p =>
    if p.1 = [] ∨ (p.1 = ['.'] ∧ p.2 ≠ 0) then none else some p.1

/-- The last piece of a path, if it names a file. -/
def fileName? (path : String) : Option (List Char) :=
  match (pathPieces path.toList).getLast? with
  | some n => if n = ['.', '.'] ∨ n = ['.'] then none else some n
  | none => none

/-- What follows the last point of a file name, unless the name starts with that point. -/
def extension? (path : String) : Option String :=
  (fileName? path).bind fun n =>
    let after := (n.reverse.takeWhile (· != '.')).reverse
    if n.length ≤ after.length + 1 then none else some (String.ofList after)

/-- The format that the extension of a path tells. -/
def ofPath? (path : String) : Option Format :=
  (extension? path).bind fun e => ofWord? (Text.lower e)

end Format
end Runbook
