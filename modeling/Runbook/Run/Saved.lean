import Runbook.Json.Printer
import Runbook.Json.Tree
import Runbook.Run.Context
import Runbook.Timestamp.Text

/-!
# Saved records

Results and contexts are saved as JSON, and read back.

A record is read field by field, so the first thing that is wrong decides whether the text is no
JSON or JSON of another shape.  Fields that are not known are passed over.  A record may also be
written as a list of its fields in order, and a status as a record with a single empty field.
-/

namespace Runbook

/-- Why a saved record cannot be read. -/
inductive SavedFlaw where
  /-- The text is no JSON. -/
  | malformed
  /-- The text is JSON of another shape. -/
  | misshapen
  deriving DecidableEq, Repr

namespace Saved

open Json (Tree)

/-- A value that was read, or what is wrong with it. -/
abbrev Reading (α : Type) := Except SavedFlaw α

/-! ## Writing -/

/-- A text or nothing. -/
def ofText? (s : Option String) : Data := (s.map Data.text).getD .null

/-- A point in time. -/
def ofTime (t : Timestamp) : Data := .text t.text

/-- A point in time or nothing. -/
def ofTime? (t : Option Timestamp) : Data := (t.map ofTime).getD .null

/-- Pairs as a record. -/
def ofPairs (ps : Pairs) : Data := .record (ps.map fun p => (.text p.1, .text p.2))

/-- A record of named values. -/
def ofFields (fs : List (String × Data)) : Data := .record (fs.map fun f => (.text f.1, f.2))

/-! ## Reading -/

/-- What is wrong with a tree that is not of the kind that is wanted. -/
def flaw : Tree → SavedFlaw
  | .broken => .malformed
  | .unreadable => .malformed
  | _ => .misshapen

/-- A text. -/
def toText : Tree → Reading String
  | .text s => .ok s
  | t => .error (flaw t)

/-- Something that may be null. -/
def orNull {α : Type} (f : Tree → Reading α) : Tree → Reading (Option α)
  | .null => .ok none
  | t => (f t).map some

/-- A point in time. -/
def toTime : Tree → Reading Timestamp
  | .text s => (Timestamp.readRelaxed s.toList).mapError fun _ => .misshapen
  | t => .error (flaw t)

/-- The status of a name. -/
def statusNamed (s : String) : Reading Status :=
  match Status.ofName? s with
  | some t => .ok t
  | none => .error .misshapen

/-- A status. -/
def toStatus : Tree → Reading Status
  | .text s => statusNamed s
  | .record ((k, v) :: more) closed => do
      let s ← statusNamed k
      match v with
      | .null => if more.isEmpty && closed then .ok s else .error .malformed
      | v => .error (flaw v)
  | .list _ _ => .error .malformed
  | _ => .error .malformed

/-- The pairs of a record with text values. -/
def pairsOf : List (String × Tree) → Pairs → Reading Pairs
  | [], ps => .ok ps
  | (k, v) :: fs, ps => do
      let s ← toText v
      pairsOf fs (Pairs.insert ps k s)

/-- Pairs. -/
def toPairs : Tree → Reading Pairs
  | .record fs closed => do
      let ps ← pairsOf fs []
      if closed then .ok ps else .error .malformed
  | t => .error (flaw t)

/-- The values of a list. -/
def itemsOf {α : Type} (f : Tree → Reading α) : List Tree → Reading (List α)
  | [] => .ok []
  | t :: ts => do
      let a ← f t
      let as ← itemsOf f ts
      return a :: as

/-- A list. -/
def toList {α : Type} (f : Tree → Reading α) : Tree → Reading (List α)
  | .list items closed => do
      let as ← itemsOf f items
      if closed then .ok as else .error .malformed
  | t => .error (flaw t)

/-- Reads the first value of a field.  A second one is one too many. -/
def onlyOnce {α : Type} (seen : Option α) (f : Tree → Reading α) (t : Tree) : Reading (Option α) :=
  if seen.isSome then .error .misshapen else (f t).map some

/-- Passes over a value. -/
def skip (t : Tree) : Reading Unit := if t.isWhole then .ok () else .error .malformed

/-- A field that must be there. -/
def required {α : Type} (a : Option α) : Reading α :=
  match a with
  | some a => .ok a
  | none => .error .misshapen

/-- Reads a record or a list of its fields, `take` reading one field into what was read before.  The
result tells whether it was a list. -/
def toFields {δ : Type} (names : List String) (take : δ → String → Tree → Reading δ) (start : δ) :
    Tree → Reading (δ × Bool)
  | .record fs closed => do
      let d ← fs.foldlM (fun d f => take d f.1 f.2) start
      if closed then .ok (d, false) else .error .malformed
  | .list items closed => do
      let d ← (names.zip items).foldlM (fun d f => take d f.1 f.2) start
      if closed && items.length ≤ names.length then .ok (d, true) else .error .malformed
  | t => .error (flaw t)

/-- A field that may be left out of a record, but not of a list. -/
def optional {α : Type} (positional : Bool) (a : Option (Option α)) : Reading (Option α) :=
  match a with
  | some a => .ok a
  | none => if positional then .error .misshapen else .ok none

/-- The value of a whole text. -/
def ofText {α : Type} (f : Tree → Reading α) (s : String) : Reading α := do
  let (t, ends) := Tree.ofText s.toList
  let a ← f t
  if ends then .ok a else .error .malformed

end Saved

/-! ## Results -/

namespace StepResult

open Json (Tree)
open Saved

/-- A saved result. -/
def toData (r : StepResult) : Data :=
  ofFields [("stepId", .text r.stepId), ("stepName", .text r.stepName),
    ("status", .text r.status.name), ("startTime", ofTime r.started),
    ("endTime", ofTime? r.ended), ("errorMessage", ofText? r.error),
    ("outputVariables", ofPairs r.outputs)]

/-- The fields of a result read so far. -/
structure Draft where
  /-- The identity of the step. -/
  stepId : Option String
  /-- The name of the step. -/
  stepName : Option String
  /-- The status. -/
  status : Option Status
  /-- The start. -/
  started : Option Timestamp
  /-- The end. -/
  ended : Option (Option Timestamp)
  /-- The message. -/
  error : Option (Option String)
  /-- The outputs. -/
  outputs : Option Pairs

/-- The names of the fields, in order. -/
def fieldNames : List String :=
  ["stepId", "stepName", "status", "startTime", "endTime", "errorMessage", "outputVariables"]

/-- Reads a field of a result. -/
def Draft.take (d : Draft) (key : String) (t : Tree) : Reading Draft :=
  match key with
  | "stepId" => (onlyOnce d.stepId toText t).map fun v => { d with stepId := v }
  | "stepName" => (onlyOnce d.stepName toText t).map fun v => { d with stepName := v }
  | "status" => (onlyOnce d.status toStatus t).map fun v => { d with status := v }
  | "startTime" => (onlyOnce d.started toTime t).map fun v => { d with started := v }
  | "endTime" => (onlyOnce d.ended (orNull toTime) t).map fun v => { d with ended := v }
  | "errorMessage" => (onlyOnce d.error (orNull toText) t).map fun v => { d with error := v }
  | "outputVariables" => (onlyOnce d.outputs toPairs t).map fun v => { d with outputs := v }
  | _ => (skip t).map fun _ => d

/-- The result in a tree. -/
def ofTree (t : Tree) : Reading StepResult := do
  let (d, positional) ← toFields fieldNames Draft.take ⟨none, none, none, none, none, none, none⟩ t
  return ⟨← required d.stepId, ← required d.stepName, ← required d.status, ← required d.started,
    ← optional positional d.ended, ← optional positional d.error, d.outputs.getD []⟩

/-- Reads a saved result. -/
def ofText (s : String) : Except SavedFlaw StepResult := Saved.ofText ofTree s

end StepResult

/-! ## Contexts -/

namespace Context

open Json (Tree)
open Saved

/-- A saved context. -/
def toData (c : Context) : Data :=
  ofFields [("executionId", .text c.runId), ("taskSequenceId", .text c.sequenceId),
    ("taskSequenceName", .text c.sequenceName), ("status", .text c.status.name),
    ("startTime", ofTime? c.started), ("endTime", ofTime? c.ended),
    ("variables", ofPairs c.published), ("currentStepId", ofText? c.currentStep),
    ("stepResults", .list (c.results.map StepResult.toData))]

/-- The fields of a context read so far. -/
structure Draft where
  /-- The identity of the run. -/
  runId : Option String
  /-- The identity of the sequence. -/
  sequenceId : Option String
  /-- The name of the sequence. -/
  sequenceName : Option String
  /-- The status. -/
  status : Option Status
  /-- The start. -/
  started : Option (Option Timestamp)
  /-- The end. -/
  ended : Option (Option Timestamp)
  /-- The variables. -/
  published : Option Pairs
  /-- The current step. -/
  currentStep : Option (Option String)
  /-- The results. -/
  results : Option (List StepResult)

/-- The names of the fields, in order. -/
def fieldNames : List String :=
  ["executionId", "taskSequenceId", "taskSequenceName", "status", "startTime", "endTime",
    "variables", "currentStepId", "stepResults"]

/-- Reads a field of a context. -/
def Draft.take (d : Draft) (key : String) (t : Tree) : Reading Draft :=
  match key with
  | "executionId" => (onlyOnce d.runId toText t).map fun v => { d with runId := v }
  | "taskSequenceId" => (onlyOnce d.sequenceId toText t).map fun v => { d with sequenceId := v }
  | "taskSequenceName" =>
      (onlyOnce d.sequenceName toText t).map fun v => { d with sequenceName := v }
  | "status" => (onlyOnce d.status toStatus t).map fun v => { d with status := v }
  | "startTime" => (onlyOnce d.started (orNull toTime) t).map fun v => { d with started := v }
  | "endTime" => (onlyOnce d.ended (orNull toTime) t).map fun v => { d with ended := v }
  | "variables" => (onlyOnce d.published toPairs t).map fun v => { d with published := v }
  | "currentStepId" =>
      (onlyOnce d.currentStep (orNull toText) t).map fun v => { d with currentStep := v }
  | "stepResults" =>
      (onlyOnce d.results (Saved.toList StepResult.ofTree) t).map fun v => { d with results := v }
  | _ => (skip t).map fun _ => d

/-- The context in a tree. -/
def ofTree (t : Tree) : Reading Context := do
  let (d, positional) ←
    toFields fieldNames Draft.take ⟨none, none, none, none, none, none, none, none, none⟩ t
  return ⟨← required d.runId, ← required d.sequenceId, ← required d.sequenceName,
    ← required d.status, ← optional positional d.started, ← optional positional d.ended,
    ← required d.published, ← optional positional d.currentStep, ← required d.results⟩

/-- Reads a saved context. -/
def ofText (s : String) : Except SavedFlaw Context := Saved.ofText ofTree s

end Context
end Runbook
