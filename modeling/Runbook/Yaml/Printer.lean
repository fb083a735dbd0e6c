import Runbook.Binary64.Shortest
import Runbook.Data
import Runbook.Text.Utf8
import Runbook.Yaml.Style

/-!
# Writing YAML

Records and lists are written as blocks, indented by two blanks, and on one line only if they are
empty.  The items of a list that is the value of a field stand below the key without further
indentation.  A key of several lines or of more than 128 bytes stands behind a question mark, and
its value behind a colon on a line of its own.

The functions give the characters of a node and whether the last line is left open, since a block of
text ends its own last line.
-/

namespace Runbook.Yaml

/-- Characters, and whether the last line is left open. -/
abbrev Written := List Char × Bool

/-- Goes to the start of a line at an indentation. -/
def lineStart (isOpen : Bool) (indent : Nat) : List Char :=
  (if isOpen then ['\n'] else []) ++ List.replicate indent ' '

/-- A value that is no list and no record. -/
def scalarWritten (indent : Nat) : Data → Written
  | .null => ("null".toList, true)
  | .bool b => ((toString b).toList, true)
  | .int n => ((toString n).toList, true)
  | .real x => (x.text.toList, true)
  | .text s => textChars indent s.toList
  | _ => ([], true)

/-- The key can stand before its colon on one line. -/
def isSimpleKey : Data → Bool
  | .text s =>
      !s.toList.any isBreak && (Text.utf8Bytes s.toList).length ≤ 128
  | _ => true

/-- A field at an indentation, given what its value looks like behind a key and behind a mark. -/
def fieldWritten (indent : Nat) (key : Data) (asValue asItem : Unit → Written) : Written :=
  let k := scalarWritten (indent + 2) key
  if isSimpleKey key then
    let v := asValue ()
    (k.1 ++ ':' :: v.1, v.2)
  else
    let v := asItem ()
    ('?' :: ' ' :: k.1 ++ lineStart k.2 indent ++ ':' :: ' ' :: v.1, v.2)

mutual

/-- A node behind the key of a field at an indentation. -/
def valueWritten (indent : Nat) : Data → Written
  | .list [] => (" []".toList, true)
  | .record [] => (" \x7b\x7d".toList, true)
  | .list items => itemsWritten indent (lineStart true indent) true items
  | .record fields => fieldsWritten (indent + 2) (lineStart true (indent + 2)) true fields
  | .tagged _ d => valueWritten indent d
  | d =>
      let w := scalarWritten (indent + 2) d
      (' ' :: w.1, w.2)
termination_by structural d => d

/-- A node behind the mark of an item at an indentation, and a blank. -/
def itemWritten (indent : Nat) : Data → Written
  | .list [] => ("[]".toList, true)
  | .record [] => ("\x7b\x7d".toList, true)
  | .list items => itemsWritten (indent + 2) [] true items
  | .record fields => fieldsWritten (indent + 2) [] true fields
  | .tagged _ d => itemWritten indent d
  | d => scalarWritten (indent + 2) d
termination_by structural d => d

/-- Items at an indentation, the first one after `lead`.  `isOpen` is the state of the line before
them. -/
def itemsWritten (indent : Nat) (lead : List Char) (isOpen : Bool) : List Data → Written
  | [] => ([], isOpen)
  | d :: ds =>
      let w := itemWritten indent d
      let r := itemsWritten indent (lineStart w.2 indent) w.2 ds
      (lead ++ '-' :: ' ' :: w.1 ++ r.1, r.2)
termination_by structural ds => ds

/-- Fields at an indentation, the first one after `lead`.  `isOpen` is the state of the line before
them. -/
def fieldsWritten (indent : Nat) (lead : List Char) (isOpen : Bool) :
    List (Data × Data) → Written
  | [] => ([], isOpen)
  | (k, v) :: fs =>
      let w := fieldWritten indent k (fun _ => valueWritten indent v)
        (fun _ => itemWritten indent v)
      let r := fieldsWritten indent (lineStart w.2 indent) w.2 fs
      (lead ++ w.1 ++ r.1, r.2)
termination_by structural fs => fs

end

/-- A document. -/
def documentWritten : Data → Written
  | .list [] => ("[]".toList, true)
  | .record [] => ("\x7b\x7d".toList, true)
  | .list items => itemsWritten 0 [] true items
  | .record fields => fieldsWritten 0 [] true fields
  | .tagged _ d => documentWritten d
  | d => scalarWritten 2 d

/-- The text of a document, which ends with a line end. -/
def print (d : Data) : String :=
  let w := documentWritten d
  String.ofList (w.1 ++ if w.2 then ['\n'] else [])

end Runbook.Yaml
