import Runbook.Text.Ascii
import Runbook.Text.Blank

/-!
# Conditions

A condition compares the value of one variable with a given text, or asks whether the variable is
there.  The operators are read from symbols and from names in any case, and written by their
names.
-/

namespace Runbook

/-- How a condition compares. -/
inductive Operator where
  | equals
  | notEquals
  | greaterThan
  | lessThan
  | contains
  /-- Asks only whether the variable is there. -/
  | present
  deriving DecidableEq, Repr, Inhabited

namespace Operator

/-- The operator of a condition that names none. -/
def default : Operator := equals

/-- The name under which an operator is written. -/
def name : Operator → String
  | equals => "Equals"
  | notEquals => "NotEquals"
  | greaterThan => "GreaterThan"
  | lessThan => "LessThan"
  | contains => "Contains"
  | present => "Exists"

/-- The texts an operator is read from, in small letters. -/
def spellings : List (String × Operator) :=
  [("=", equals), ("==", equals), ("!=", notEquals), ("<>", notEquals), (">", greaterThan),
    ("<", lessThan), ("equals", equals), ("eq", equals), ("notequals", notEquals),
    ("ne", notEquals), ("greaterthan", greaterThan), ("gt", greaterThan), ("lessthan", lessThan),
    ("lt", lessThan), ("contains", contains), ("exists", present)]

/-- The operator a text stands for, blanks around it and the case of its letters aside. -/
def ofText? (s : String) : Option Operator := spellings.lookup (Text.lower (Text.trim s))

theorem ofText?_name (o : Operator) : ofText? o.name = some o := by cases o <;> decide

end Operator

/-- A comparison on one variable. -/
structure Condition where
  /-- The name of the variable. -/
  name : String
  /-- The comparison. -/
  operator : Operator
  /-- What the value is compared with. -/
  value : String
  deriving DecidableEq, Repr

/-- The condition in words. -/
def Condition.display (c : Condition) : String :=
  match c.operator with
  | .present => c.name ++ " Exists"
  | o => c.name ++ " " ++ o.name ++ " '" ++ c.value ++ "'"

end Runbook
