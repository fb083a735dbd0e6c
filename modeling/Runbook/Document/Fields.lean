import Runbook.Data
import Runbook.Sequence
import Runbook.Timestamp.Text

/-!
# Task sequences as generic data

The layout in which a task sequence is written as JSON or YAML.  The fields have a fixed order.  A
step leaves out an empty description and empty lists and properties, all else is always written.
-/

namespace Runbook

/-- A field with a text for its key. -/
def field (key : String) (d : Data) : Data × Data := (.text key, d)

/-- A variable as data. -/
def Variable.toData (v : Variable) : Data :=
  .record [field "name" (.text v.name), field "value" (.text v.value),
    field "isReadOnly" (.bool v.readOnly), field "isSecret" (.bool v.secret)]

/-- A condition as data. -/
def Condition.toData (c : Condition) : Data :=
  .record [field "variableName" (.text c.name), field "operator" (.text c.operator.name),
    field "value" (.text c.value)]

/-- Properties as data. -/
def Pairs.toData (ps : Pairs) : Data := .record (ps.map fun p => field p.1 (.text p.2))

/-- A field that is left out if it is empty. -/
def nonEmpty (empty : Bool) (f : Data × Data) : List (Data × Data) := if empty then [] else [f]

mutual

/-- A step as data. -/
def Step.toData : Step → Data
  | .mk id name description kind enabled continueOnError conditions properties children =>
      .record ([field "id" (.text id), field "name" (.text name)] ++
        nonEmpty description.isEmpty (field "description" (.text description)) ++
        [field "type" (.text kind.name), field "enabled" (.bool enabled),
          field "continueOnError" (.bool continueOnError)] ++
        nonEmpty conditions.isEmpty
          (field "conditions" (.list (conditions.map Condition.toData))) ++
        nonEmpty properties.isEmpty (field "properties" (Pairs.toData properties)) ++
        nonEmpty children.isEmpty (field "childSteps" (.list (stepsToData children))))
termination_by structural s => s

/-- Steps as data. -/
def stepsToData : List Step → List Data
  | [] => []
  | s :: ss => Step.toData s :: stepsToData ss
termination_by structural ss => ss

end

/-- A task sequence as data. -/
def Sequence.toData (s : Sequence) : Data :=
  .record [field "id" (.text s.id), field "name" (.text s.name),
    field "description" (.text s.description), field "version" (.text s.version),
    field "createdDate" (.text s.created.text), field "modifiedDate" (.text s.modified.text),
    field "variables" (.list (s.declarations.map Variable.toData)),
    field "steps" (.list (stepsToData s.steps))]

end Runbook
