import Runbook.Document.Dialect
import Runbook.Document.Fresh
import Runbook.Sequence

/-!
# Task sequences in generic data

A task sequence is a record, and so are its variables, its steps and their conditions.  The fields
of a record are taken in the order in which they stand, and the first one that does not fit decides
the outcome.  A field may stand there only once, under whichever of its names, and what is left out
has a default.  Fields without a meaning are passed over, except in a step: there a scalar without
a meaning is a *loose* property.  The properties that a step declares come after the loose ones, and
replace those with the same key.

A record is read into a *draft*, in which every field may still be missing.  `Step.ofData` and its
companions follow the tree of the data.
-/

namespace Runbook

/-! ## Variables -/

/-- The fields of a variable. -/
inductive VariableField where
  | name
  | value
  | readOnly
  | secret
  deriving DecidableEq, Repr

/-- The field of a name. -/
def VariableField.ofName? (n : String) : Option VariableField :=
  [("name", name), ("value", value), ("isReadOnly", readOnly), ("readOnly", readOnly),
    ("readonly", readOnly), ("isSecret", secret), ("secret", secret)].lookup n

/-- A variable that is being read. -/
structure VariableDraft where
  /-- The name. -/
  name : Option String := none
  /-- The value. -/
  value : Option String := none
  /-- The mark of a read-only variable. -/
  readOnly : Option Bool := none
  /-- The mark of a secret variable. -/
  secret : Option Bool := none

namespace VariableDraft

/-- Takes a field. -/
def take (dl : Dialect) (v : VariableDraft) : VariableField → Data → Except ShapeFault VariableDraft
  | .name, d => (once v.name "name" (dl.text d)).map fun x => { v with name := x }
  | .value, d => (once v.value "value" (dl.text d)).map fun x => { v with value := x }
  | .readOnly, d =>
      (once v.readOnly "isReadOnly" (dl.flag d)).map fun x => { v with readOnly := x }
  | .secret, d => (once v.secret "isSecret" (dl.flag d)).map fun x => { v with secret := x }

/-- Takes fields by their names. -/
def takeAll (dl : Dialect) (v : VariableDraft) :
    List (Data × Data) → Except ShapeFault VariableDraft
  | [] => .ok v
  | (k, d) :: fs => do
      let name ← dl.fieldName k
      match VariableField.ofName? name with
      | some f => takeAll dl (← v.take dl f d) fs
      | none => takeAll dl v fs

/-- The variable, once a name is there. -/
def finish (v : VariableDraft) (missing : ShapeFault) : Except ShapeFault Variable :=
  match v.name with
  | some n => .ok ⟨n, v.value.getD "", v.readOnly.getD false, v.secret.getD false⟩
  | none => .error missing

end VariableDraft

/-- What a variable is called in messages. -/
def Variable.shapeName : String := "struct TaskSequenceVariable"

/-- The fault of a list with more values than a record has fields. -/
def tooManyItems (length : Nat) : ShapeFault := .wrongLength length "fewer elements in array"

/-- A variable from the list of its values. -/
def Variable.ofItems (dl : Dialect) (ds : List Data) : Except ShapeFault Variable := do
  let order : List VariableField := [.name, .value, .readOnly, .secret]
  let draft ← (order.zip ds).foldlM (fun v p => v.take dl p.1 p.2) ({} : VariableDraft)
  let v ← draft.finish (.wrongLength 0 (Variable.shapeName ++ " with 4 elements"))
  if order.length < ds.length then .error (tooManyItems ds.length) else .ok v

/-- A variable. -/
def Variable.ofData (dl : Dialect) (d : Data) : Except ShapeFault Variable :=
  match d.untagged, dl.positional with
  | .list ds, true => Variable.ofItems dl ds
  | _, _ => do
      let fs ← dl.fields d Variable.shapeName
      (← ({} : VariableDraft).takeAll dl fs).finish (.missing "name")

/-! ## Conditions -/

/-- The fields of a condition. -/
inductive ConditionField where
  | name
  | operator
  | value
  deriving DecidableEq, Repr

/-- The field of a name. -/
def ConditionField.ofName? (n : String) : Option ConditionField :=
  [("variableName", name), ("variable", name), ("operator", operator), ("value", value)].lookup n

/-- A condition that is being read. -/
structure ConditionDraft where
  /-- The name of the variable. -/
  name : Option String := none
  /-- The comparison. -/
  operator : Option Operator := none
  /-- What the value is compared with. -/
  value : Option String := none

/-- An operator. -/
def Operator.ofData (dl : Dialect) (d : Data) : Except ShapeFault Operator := do
  let s ← dl.text d
  match Operator.ofText? s with
  | some o => .ok o
  | none => .error (.unknownOperator s)

namespace ConditionDraft

/-- Takes a field. -/
def take (dl : Dialect) (c : ConditionDraft) :
    ConditionField → Data → Except ShapeFault ConditionDraft
  | .name, d => (once c.name "variableName" (dl.text d)).map fun x => { c with name := x }
  | .operator, d =>
      (once c.operator "operator" (Operator.ofData dl d)).map fun x => { c with operator := x }
  | .value, d => (once c.value "value" (dl.text d)).map fun x => { c with value := x }

/-- Takes fields by their names. -/
def takeAll (dl : Dialect) (c : ConditionDraft) :
    List (Data × Data) → Except ShapeFault ConditionDraft
  | [] => .ok c
  | (k, d) :: fs => do
      let name ← dl.fieldName k
      match ConditionField.ofName? name with
      | some f => takeAll dl (← c.take dl f d) fs
      | none => takeAll dl c fs

/-- The condition, once the name of a variable is there. -/
def finish (c : ConditionDraft) (missing : ShapeFault) : Except ShapeFault Condition :=
  match c.name with
  | some n => .ok ⟨n, c.operator.getD Operator.default, c.value.getD ""⟩
  | none => .error missing

end ConditionDraft

/-- What a condition is called in messages. -/
def Condition.shapeName : String := "struct TaskSequenceCondition"

/-- A condition from the list of its values. -/
def Condition.ofItems (dl : Dialect) (ds : List Data) : Except ShapeFault Condition := do
  let order : List ConditionField := [.name, .operator, .value]
  let draft ← (order.zip ds).foldlM (fun c p => c.take dl p.1 p.2) ({} : ConditionDraft)
  let c ← draft.finish (.wrongLength 0 (Condition.shapeName ++ " with 3 elements"))
  if order.length < ds.length then .error (tooManyItems ds.length) else .ok c

/-- A condition. -/
def Condition.ofData (dl : Dialect) (d : Data) : Except ShapeFault Condition :=
  match d.untagged, dl.positional with
  | .list ds, true => Condition.ofItems dl ds
  | _, _ => do
      let fs ← dl.fields d Condition.shapeName
      (← ({} : ConditionDraft).takeAll dl fs).finish (.missing "variableName")

/-! ## Steps -/

/-- The fields of a step. -/
inductive StepField where
  | id
  | name
  | description
  | kind
  | enabled
  | continueOnError
  | conditions
  | properties
  | children
  deriving DecidableEq, Repr

/-- The field of a name. -/
def StepField.ofName? (n : String) : Option StepField :=
  [("id", id), ("name", name), ("description", description), ("type", kind), ("kind", kind),
    ("enabled", enabled), ("continueOnError", continueOnError), ("conditions", conditions),
    ("properties", properties), ("childSteps", children), ("children", children),
    ("steps", children)].lookup n

/-- A step that is being read. -/
structure StepDraft where
  /-- The identity. -/
  id : Option String := none
  /-- The name. -/
  name : Option String := none
  /-- The description. -/
  description : Option String := none
  /-- The kind. -/
  kind : Option Kind := none
  /-- The mark of a step that is run. -/
  enabled : Option Bool := none
  /-- The mark of a step whose failure does not count. -/
  continueOnError : Option Bool := none
  /-- The conditions. -/
  conditions : Option (List Condition) := none
  /-- The declared properties. -/
  properties : Option Pairs := none
  /-- The steps in it. -/
  children : Option (List Step) := none
  /-- The values of the fields without a meaning: their texts, if they are scalars. -/
  loose : List (String × Option String) := []

namespace StepDraft

/-- Takes a field.  `kids` is what the value reads as where steps are wanted. -/
def take (dl : Dialect) (s : StepDraft) (d : Data) (kids : Except ShapeFault (List Step)) :
    StepField → Except ShapeFault StepDraft
  | .id => (once s.id "id" (dl.text d)).map fun x => { s with id := x }
  | .name => (once s.name "name" (dl.text d)).map fun x => { s with name := x }
  | .description =>
      (once s.description "description" (dl.text d)).map fun x => { s with description := x }
  | .kind =>
      (once s.kind "type" ((dl.text d).map Kind.ofName)).map fun x => { s with kind := x }
  | .enabled => (once s.enabled "enabled" (dl.flag d)).map fun x => { s with enabled := x }
  | .continueOnError =>
      (once s.continueOnError "continueOnError" (dl.flag d)).map
        fun x => { s with continueOnError := x }
  | .conditions =>
      (once s.conditions "conditions"
        ((dl.items d).bind fun ds => ds.mapM (Condition.ofData dl))).map
        fun x => { s with conditions := x }
  | .properties =>
      (once s.properties "properties" (dl.texts d)).map fun x => { s with properties := x }
  | .children => (once s.children "childSteps" kids).map fun x => { s with children := x }

/-- Takes a field without a meaning. -/
def takeLoose (s : StepDraft) (name : String) (d : Data) : Except ShapeFault StepDraft :=
  if d.hasTag then .error .taggedField
  else .ok { s with loose := Pairs.insert s.loose name d.scalarText? }

/-- The properties: the loose scalars, overlaid with the declared ones. -/
def allProperties (s : StepDraft) : Pairs :=
  Pairs.insertAll (s.loose.filterMap fun p => p.2.map (p.1, ·)) (s.properties.getD [])

/-- The step, with what is missing filled in. -/
def finish (fresh : Fresh) (place : Place) (s : StepDraft) : Step :=
  .mk (s.id.getD (fresh.id place)) (s.name.getD "") (s.description.getD "")
    (s.kind.getD Kind.default) (s.enabled.getD true) (s.continueOnError.getD false)
    (s.conditions.getD []) s.allProperties (s.children.getD [])

end StepDraft

/-- What a step is called in messages. -/
def Step.shapeName : String := "struct StepDocument"

mutual

/-- A step at a place. -/
def Step.ofData (dl : Dialect) (fresh : Fresh) (place : Place) : Data → Except ShapeFault Step
  | .record fs => (draftOf dl fresh place {} fs).map (StepDraft.finish fresh place)
  | .null =>
      if dl.nullIsEmpty then .ok (StepDraft.finish fresh place {})
      else dl.refuse .null Step.shapeName
  | .tagged _ d => Step.ofData dl fresh place d
  | d => dl.refuse d Step.shapeName
termination_by structural d => d

/-- The draft of a step after further fields. -/
def draftOf (dl : Dialect) (fresh : Fresh) (place : Place) (s : StepDraft) :
    List (Data × Data) → Except ShapeFault StepDraft
  | [] => .ok s
  | (k, d) :: fs =>
      match dl.fieldName k with
      | .error e => .error e
      | .ok name =>
          let taken := match StepField.ofName? name with
            | some f => s.take dl d (stepsOfData dl fresh place d) f
            | none => s.takeLoose name d
          match taken with
          | .error e => .error e
          | .ok s => draftOf dl fresh place s fs
termination_by structural fs => fs

/-- The steps of a list, for the step or sequence at a place. -/
def stepsOfData (dl : Dialect) (fresh : Fresh) (place : Place) :
    Data → Except ShapeFault (List Step)
  | .list ds => stepsOfItems dl fresh place 0 ds
  | .null => if dl.nullIsEmpty then .ok [] else dl.refuse .null "a sequence"
  | .tagged _ d => stepsOfData dl fresh place d
  | d => dl.refuse d "a sequence"
termination_by structural d => d

/-- The steps of items, the first of them at a position. -/
def stepsOfItems (dl : Dialect) (fresh : Fresh) (place : Place) (position : Nat) :
    List Data → Except ShapeFault (List Step)
  | [] => .ok []
  | d :: ds =>
      match Step.ofData dl fresh (place ++ [position]) d with
      | .error e => .error e
      | .ok s => (stepsOfItems dl fresh place (position + 1) ds).map (s :: ·)
termination_by structural ds => ds

end

/-! ## Sequences -/

/-- The fields of a sequence. -/
inductive SequenceField where
  | id
  | name
  | description
  | version
  | created
  | modified
  | declarations
  | steps
  deriving DecidableEq, Repr

/-- The field of a name. -/
def SequenceField.ofName? (n : String) : Option SequenceField :=
  [("id", id), ("name", name), ("description", description), ("version", version),
    ("createdDate", created), ("modifiedDate", modified), ("variables", declarations),
    ("steps", steps)].lookup n

/-- A sequence that is being read. -/
structure SequenceDraft where
  /-- The identity. -/
  id : Option String := none
  /-- The name. -/
  name : Option String := none
  /-- The description. -/
  description : Option String := none
  /-- The version. -/
  version : Option String := none
  /-- When it was created. -/
  created : Option Timestamp := none
  /-- When it was last changed. -/
  modified : Option Timestamp := none
  /-- The declared variables. -/
  declarations : Option (List Variable) := none
  /-- The steps. -/
  steps : Option (List Step) := none

namespace SequenceDraft

/-- Takes a field. -/
def take (dl : Dialect) (fresh : Fresh) (s : SequenceDraft) (d : Data) :
    SequenceField → Except ShapeFault SequenceDraft
  | .id => (once s.id "id" (dl.text d)).map fun x => { s with id := x }
  | .name => (once s.name "name" (dl.text d)).map fun x => { s with name := x }
  | .description =>
      (once s.description "description" (dl.text d)).map fun x => { s with description := x }
  | .version => (once s.version "version" (dl.text d)).map fun x => { s with version := x }
  | .created => (once s.created "createdDate" (dl.time d)).map fun x => { s with created := x }
  | .modified => (once s.modified "modifiedDate" (dl.time d)).map fun x => { s with modified := x }
  | .declarations =>
      (once s.declarations "variables"
        ((dl.items d).bind fun ds => ds.mapM (Variable.ofData dl))).map
        fun x => { s with declarations := x }
  | .steps =>
      (once s.steps "steps" (stepsOfData dl fresh [] d)).map fun x => { s with steps := x }

/-- Takes fields by their names. -/
def takeAll (dl : Dialect) (fresh : Fresh) (s : SequenceDraft) :
    List (Data × Data) → Except ShapeFault SequenceDraft
  | [] => .ok s
  | (k, d) :: fs => do
      let name ← dl.fieldName k
      match SequenceField.ofName? name with
      | some f => takeAll dl fresh (← s.take dl fresh d f) fs
      | none => takeAll dl fresh s fs

/-- The sequence, with what is missing filled in. -/
def finish (fresh : Fresh) (s : SequenceDraft) : Sequence :=
  ⟨s.id.getD (fresh.id []), s.name.getD Sequence.defaultName, s.description.getD "",
    s.version.getD Sequence.defaultVersion, s.created.getD fresh.now, s.modified.getD fresh.now,
    s.declarations.getD [], s.steps.getD []⟩

end SequenceDraft

/-- A task sequence. -/
def Sequence.ofData (dl : Dialect) (fresh : Fresh) (d : Data) : Except ShapeFault Sequence := do
  let fs ← dl.fields d "struct TaskSequence"
  .ok ((← ({} : SequenceDraft).takeAll dl fresh fs).finish fresh)

/-- The record has a field that only a task sequence is expected to have. -/
def Sequence.isRoot (d : Data) : Bool :=
  match d.untagged with
  | .record fs => Data.hasField fs "name" || Data.hasField fs "steps"
  | _ => false

end Runbook
