import Runbook.Document.Format
import Runbook.Text.Printable
import Runbook.Timestamp.Text

/-!
# What can be wrong with a document

A text may be no document of its format at all, have the wrong root, or hold a value where another
kind of value belongs.  Each cause is a constructor; the wording is in the functions `message`.
-/

namespace Runbook

/-- Why generic data is no task sequence. -/
inductive ShapeFault where
  /-- A value of another kind than expected. -/
  | wrongKind (found expected : String)
  /-- A field that has to be there is not. -/
  | missing (field : String)
  /-- A field is there twice, perhaps under two names. -/
  | repeated (field : String)
  /-- A list of fields has the wrong number of items. -/
  | wrongLength (length : Nat) (expected : String)
  /-- A condition has an operator that does not exist. -/
  | unknownOperator (text : String)
  /-- A text is no timestamp. -/
  | badTime (flaw : Timestamp.Flaw)
  /-- A loose field has a tagged value. -/
  | taggedField
  deriving DecidableEq, Repr

/-- The wording of an operator that does not exist. -/
def unknownOperatorMessage (text : String) : String :=
  "Unknown condition operator: '" ++ text ++ "'"

/-- The wording of a fault. -/
def ShapeFault.message : ShapeFault → String
  | wrongKind found expected => "invalid type: " ++ found ++ ", expected " ++ expected
  | missing field => "missing field `" ++ field ++ "`"
  | repeated field => "duplicate field `" ++ field ++ "`"
  | wrongLength n expected => "invalid length " ++ toString n ++ ", expected " ++ expected
  | unknownOperator text => unknownOperatorMessage text
  | badTime flaw => flaw.message
  | taggedField => "untagged and internally tagged enums do not support enum input"

/-- Why a text is no task sequence. -/
inductive DocumentError where
  /-- The file could not be read. -/
  | unreadable (reason : String)
  /-- The text is not well-formed. -/
  | malformed (format : Format)
  /-- The text holds more than one YAML document. -/
  | severalDocuments
  /-- A value is not what belongs in its place. -/
  | misshapen (format : Format) (fault : ShapeFault)
  /-- The root is not that of a task sequence. -/
  | wrongRoot (reason : String)
  /-- A truth value or a timestamp that is none. -/
  | invalidValue (field value : String)
  /-- A condition has an operator that does not exist. -/
  | unknownOperator (text : String)
  /-- An element lacks an attribute. -/
  | missingAttribute (element name : String)
  /-- No codec claims the text. -/
  | unrecognized
  deriving DecidableEq, Repr

/-- The wording of an error, as far as it is fixed. -/
def DocumentError.message : DocumentError → String
  | unreadable reason => "Failed to read task sequence file: " ++ reason
  | malformed format => "Failed to parse " ++ format.name
  | severalDocuments => "Failed to parse YAML: deserializing from YAML containing more than one " ++
      "document is not supported"
  | misshapen format fault => "Failed to parse " ++ format.name ++ ": " ++ fault.message
  | wrongRoot reason => "Invalid document root: " ++ reason
  | invalidValue field value => "Invalid value '" ++ value ++ "' for " ++ field
  | unknownOperator text => unknownOperatorMessage text
  | missingAttribute element name =>
      "Missing required attribute '" ++ name ++ "' on <" ++ element ++ ">"
  | unrecognized => "No registered parser recognizes this document"

end Runbook
