import Runbook.Data
import Runbook.Document.Error
import Runbook.Pairs

/-!
# How generic data is taken

The fields of a document are read from generic data in the same way whether the data was written
as JSON or as YAML, up to a few points that a *dialect* settles: how a null and a floating point
number are called in messages, whether a short record may be written as the list of its values, and
whether a null counts as an empty list or record.

Tags are looked through wherever a certain kind of value is wanted.
-/

namespace Runbook

/-- The points in which the readings of two notations differ. -/
structure Dialect where
  /-- What a null is called. -/
  nullName : String
  /-- How a floating point number is shown. -/
  realText : Binary64 → String
  /-- The values of a record may be given as a list. -/
  positional : Bool
  /-- A null is an empty list or record. -/
  nullIsEmpty : Bool

namespace Dialect

/-- The reading of JSON data. -/
def json : Dialect := ⟨"null", Binary64.text, true, false⟩

/-- The reading of YAML data. -/
def yaml : Dialect := ⟨"unit value", Binary64.spelled, false, true⟩

/-- A value as messages show it. -/
def shown (dl : Dialect) : Data → String
  | .null => dl.nullName
  | .bool b => "boolean `" ++ toString b ++ "`"
  | .int n => "integer `" ++ toString n ++ "`"
  | .real x => "floating point `" ++ dl.realText x ++ "`"
  | .text s => "string " ++ Text.quotedForMessage s
  | .list _ => "sequence"
  | .record _ => "map"
  | .tagged _ v => shown dl v
termination_by structural d => d

/-- Refuses a value where something else is expected. -/
def refuse {α : Type} (dl : Dialect) (d : Data) (expected : String) : Except ShapeFault α :=
  .error (.wrongKind (dl.shown d) expected)

/-- A text. -/
def text (dl : Dialect) (d : Data) : Except ShapeFault String :=
  match d.untagged with
  | .text s => .ok s
  | _ => dl.refuse d "a string"

/-- A truth value. -/
def flag (dl : Dialect) (d : Data) : Except ShapeFault Bool :=
  match d.untagged with
  | .bool b => .ok b
  | _ => dl.refuse d "a boolean"

/-- A point in time. -/
def time (dl : Dialect) (d : Data) : Except ShapeFault Timestamp :=
  match d.untagged with
  | .text s =>
      match Timestamp.readRelaxed s.toList with
      | .ok t => .ok t
      | .error flaw => .error (.badTime flaw)
  | _ => dl.refuse d "an RFC 3339 formatted date and time string"

/-- The items of a list. -/
def items (dl : Dialect) (d : Data) : Except ShapeFault (List Data) :=
  match d.untagged with
  | .list ds => .ok ds
  | .null => if dl.nullIsEmpty then .ok [] else dl.refuse d "a sequence"
  | _ => dl.refuse d "a sequence"

/-- The fields of a record. -/
def fields (dl : Dialect) (d : Data) (expected : String) :
    Except ShapeFault (List (Data × Data)) :=
  match d.untagged with
  | .record fs => .ok fs
  | .null => if dl.nullIsEmpty then .ok [] else dl.refuse d expected
  | _ => dl.refuse d expected

/-- The name of a field. -/
def fieldName (dl : Dialect) (key : Data) : Except ShapeFault String :=
  match key.untagged with
  | .text s => .ok s
  | _ => dl.refuse key "field identifier"

/-- Texts by their keys.  A value that is no scalar, or has a tag, counts as the empty text. -/
def texts (dl : Dialect) (d : Data) : Except ShapeFault Pairs := do
  let fs ← dl.fields d "a map"
  fs.mapM fun f => do
    let key ← dl.text f.1
    .ok (key, f.2.scalarText?.getD "")

end Dialect

/-- Reads a field that may be there only once. -/
def once {α : Type} (before : Option α) (field : String) (reading : Except ShapeFault α) :
    Except ShapeFault (Option α) :=
  if before.isSome then .error (.repeated field) else reading.map some

end Runbook
