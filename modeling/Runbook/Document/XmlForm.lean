import Runbook.Document.Error
import Runbook.Document.Fresh
import Runbook.Sequence
import Runbook.Xml.Element
import Runbook.Xml.Layout

/-!
# Task sequences in XML

The root is an element `TaskSequence` or `sequence`.  The names of elements and attributes are taken
without regard to the case of ASCII letters.  The steps of a sequence or a step are the elements in
its element `steps`; without one they are the elements `step` and `group` directly in it.  An
element in `steps` is a step whatever it is called: its name is its kind, unless an attribute gives
one.

The properties of a step are the attributes without a meaning, overlaid with the elements in its
element `properties`.

`Sequence.toLayout` is the written form.
-/

namespace Runbook

open Runbook.Text Runbook.Xml

/-! ## Reading values -/

/-- A truth value, blanks around it aside. -/
def readFlag (field : String) (raw : Option String) (ifAbsent : Bool) :
    Except DocumentError Bool :=
  match raw with
  | none => .ok ifAbsent
  | some s =>
      if sameLetters (trim s) "true" then .ok true
      else if sameLetters (trim s) "false" then .ok false
      else .error (.invalidValue field (trim s))

/-- A point in time, blanks around it aside. -/
def readTime (field : String) (raw : Option String) (ifAbsent : Timestamp) :
    Except DocumentError Timestamp :=
  match raw with
  | none => .ok ifAbsent
  | some s =>
      match Timestamp.readStrict (trimmed s.toList) with
      | .ok t => .ok t
      | .error _ => .error (.invalidValue field s)

/-- The description: that of the element `description`, or that of the attribute. -/
def descriptionOf (e : Element) : String :=
  match e.child? "description" with
  | some d => d.leafText
  | none => (e.attribute? "description").getD ""

/-! ## Variables, conditions and properties -/

/-- A variable. -/
def Variable.ofElement (e : Element) : Except DocumentError Variable := do
  match e.attribute? "name" with
  | none => .error (.missingAttribute e.name "name")
  | some name =>
      let readOnly ← readFlag "variable readonly" (e.attribute? "readonly") false
      let secret ← readFlag "variable secret" (e.attribute? "secret") false
      .ok ⟨name, (e.attribute? "value").getD e.leafText, readOnly, secret⟩

/-- A condition. -/
def Condition.ofElement (e : Element) : Except DocumentError Condition :=
  match (e.attribute? "variable").or (e.attribute? "variableName") with
  | none => .error (.missingAttribute e.name "variable")
  | some name =>
      let value := (e.attribute? "value").getD ""
      match e.attribute? "operator" with
      | none => .ok ⟨name, Operator.default, value⟩
      | some raw =>
          match Operator.ofText? raw with
          | some o => .ok ⟨name, o, value⟩
          | none => .error (.unknownOperator raw)

/-- The conditions of a step. -/
def conditionsOf (e : Element) : Except DocumentError (List Condition) :=
  match e.child? "conditions" with
  | some block => (block.childrenNamed "condition").mapM Condition.ofElement
  | none => .ok []

/-- The attributes of a step that have a meaning. -/
def stepAttributes : List String :=
  ["id", "name", "type", "description", "enabled", "continueOnError"]

/-- The key of a declared property: the name of its element, or the attribute `name` of an element
`property`. -/
def propertyKey (e : Element) : String :=
  if e.name = "property" then (e.attribute? "name").getD e.name else e.name

/-- The properties of a step. -/
def propertiesOf (e : Element) : Pairs :=
  let loose := e.attributes.filter fun a => !stepAttributes.any fun known => sameLetters known a.1
  let declared := match e.child? "properties" with
    | some block => block.children.map fun p => (propertyKey p, p.leafText)
    | none => []
  Pairs.insertAll (Pairs.ofList loose) declared

/-! ## Steps -/

/-- The step of an element, given what the elements in it read as. -/
def stepOf (fresh : Fresh) (place : Place) (e : Element)
    (children : Except DocumentError (List Step)) : Except DocumentError Step := do
  let conditions ← conditionsOf e
  let children ← children
  let enabled ← readFlag "step enabled" (e.attribute? "enabled") true
  let continueOnError ← readFlag "step continueOnError" (e.attribute? "continueOnError") false
  .ok (.mk ((e.attribute? "id").getD (fresh.id place)) ((e.attribute? "name").getD "")
    (descriptionOf e) (Kind.ofName ((e.attribute? "type").getD e.name)) enabled continueOnError
    conditions (propertiesOf e) children)

mutual

/-- The step of an element at a place. -/
def Step.ofElement (fresh : Fresh) (place : Place) : Element → Except DocumentError Step
  | .mk name attributes children text =>
      stepOf fresh place (.mk name attributes children text)
        (match blockSteps? fresh place children with
          | some steps => steps
          | none => looseSteps fresh place 0 children)
termination_by structural e => e

/-- The steps of the first element `steps`, if there is one. -/
def blockSteps? (fresh : Fresh) (place : Place) :
    List Element → Option (Except DocumentError (List Step))
  | [] => none
  | e :: es =>
      if sameLetters e.name "steps" then some (contentSteps fresh place e)
      else blockSteps? fresh place es
termination_by structural es => es

/-- Everything in an element as steps. -/
def contentSteps (fresh : Fresh) (place : Place) : Element → Except DocumentError (List Step)
  | .mk _ _ children _ => stepsOfElements fresh place 0 children
termination_by structural e => e

/-- Elements as steps, the first of them at a position. -/
def stepsOfElements (fresh : Fresh) (place : Place) (position : Nat) :
    List Element → Except DocumentError (List Step)
  | [] => .ok []
  | e :: es =>
      match Step.ofElement fresh (place ++ [position]) e with
      | .error x => .error x
      | .ok s => (stepsOfElements fresh place (position + 1) es).map (s :: ·)
termination_by structural es => es

/-- The elements `step` and `group` as steps. -/
def looseSteps (fresh : Fresh) (place : Place) (position : Nat) :
    List Element → Except DocumentError (List Step)
  | [] => .ok []
  | e :: es =>
      if sameLetters e.name "step" || sameLetters e.name "group" then
        match Step.ofElement fresh (place ++ [position]) e with
        | .error x => .error x
        | .ok s => (looseSteps fresh place (position + 1) es).map (s :: ·)
      else looseSteps fresh place position es
termination_by structural es => es

end

/-! ## Sequences -/

/-- The names of the root. -/
def rootNames : List String := ["TaskSequence", "sequence"]

/-- The element may be the root of a task sequence. -/
def isSequenceRoot (e : Element) : Bool := rootNames.any fun n => sameLetters e.name n

/-- The declared variables. -/
def variablesOf (e : Element) : Except DocumentError (List Variable) :=
  match (e.child? "variables").or (e.child? "globalVarList") with
  | some block =>
      (block.children.filter fun c =>
        sameLetters c.name "variable" || sameLetters c.name "property").mapM Variable.ofElement
  | none => .ok []

/-- A task sequence. -/
def Sequence.ofElement (fresh : Fresh) (e : Element) : Except DocumentError Sequence :=
  if !isSequenceRoot e then
    .error (.wrongRoot ("expected <TaskSequence> or <sequence>, found <" ++ e.name ++ ">"))
  else do
    let declarations ← variablesOf e
    let steps ← (blockSteps? fresh [] e.children).getD (looseSteps fresh [] 0 e.children)
    let created ← readTime "created" (e.attribute? "created") fresh.now
    let modified ← readTime "modified" (e.attribute? "modified") fresh.now
    .ok ⟨(e.attribute? "id").getD (fresh.id []),
      (e.attribute? "name").getD Sequence.defaultName, descriptionOf e,
      (e.attribute? "version").getD Sequence.defaultVersion, created, modified, declarations, steps⟩

/-! ## Writing -/

/-- The key can be the name of an element of its own. -/
def isElementName (key : String) : Bool :=
  match key.toList with
  | [] => false
  | c :: cs =>
      (isAsciiLetter c || c == '_') &&
        cs.all (fun d => isAsciiLetter d || isDigit d || d == '_' || d == '-' || d == '.') &&
        !("xml".toList.isPrefixOf (lowerAscii (c :: cs))) && key != "property"

/-- A property. -/
def propertyLayout (p : String × String) : Layout :=
  if isElementName p.1 then .leaf p.1 [] p.2 else .leaf "property" [("name", p.1)] p.2

/-- A condition. -/
def Condition.toLayout (c : Condition) : Layout :=
  .leaf "condition" [("variable", c.name), ("operator", c.operator.name), ("value", c.value)] ""

/-- A variable. -/
def Variable.toLayout (v : Variable) : Layout :=
  .leaf "variable" [("name", v.name), ("value", v.value), ("readonly", toString v.readOnly),
    ("secret", toString v.secret)] ""

/-- A block that is left out if nothing is in it. -/
def blockIfAny (name : String) (content : List Layout) : List Layout :=
  if content.isEmpty then [] else [.block name [] content]

/-- A description that is left out if it is empty. -/
def descriptionLayout (d : String) : List Layout :=
  if d.isEmpty then [] else [.leaf "description" [] d]

mutual

/-- A step. -/
def Step.toLayout : Step → Layout
  | .mk id name description kind enabled continueOnError conditions properties children =>
      .block "step" [("id", id), ("name", name), ("type", kind.name),
        ("enabled", toString enabled), ("continueOnError", toString continueOnError)]
        (descriptionLayout description ++
          blockIfAny "properties" (properties.map propertyLayout) ++
          blockIfAny "conditions" (conditions.map Condition.toLayout) ++
          blockIfAny "steps" (stepsToLayout children))
termination_by structural s => s

/-- Steps. -/
def stepsToLayout : List Step → List Layout
  | [] => []
  | s :: ss => Step.toLayout s :: stepsToLayout ss
termination_by structural ss => ss

end

/-- A task sequence. -/
def Sequence.toLayout (s : Sequence) : Layout :=
  .block "TaskSequence" [("id", s.id), ("name", s.name), ("version", s.version),
    ("created", s.created.text), ("modified", s.modified.text)]
    (descriptionLayout s.description ++
      [.block "variables" [] (s.declarations.map Variable.toLayout),
        .block "steps" [] (stepsToLayout s.steps)])

end Runbook
