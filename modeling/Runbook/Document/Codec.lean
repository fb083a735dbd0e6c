import Runbook.Document.Fields
import Runbook.Document.Shape
import Runbook.Document.XmlForm
import Runbook.Json.Printer
import Runbook.Json.Tree
import Runbook.Yaml.Load
import Runbook.Yaml.Printer

/-!
# Documents

A codec reads and writes task sequences in one format.  Its *probe* tells, without reading a
document to the end, whether a text is one of this format: XML with the right root, or a JSON or
YAML record with a name or steps.

A list of codecs reads a text with the first one whose probe claims it.  If that one then fails, no
other is tried.  `parse` is this reading and `parseAs` the one with a given format.
-/

namespace Runbook

/-! ## One format -/

/-- The tree of an XML text. -/
def xmlRoot (text : String) : Except DocumentError Xml.Element :=
  match Xml.Element.ofText text.toList with
  | .ok e => .ok e
  | .error .malformed => .error (.malformed .xml)
  | .error flaw => .error (.wrongRoot flaw.message)

/-- The data of a JSON text. -/
def jsonData (text : String) : Except DocumentError Data :=
  match Json.read? text.toList with
  | some d => .ok d
  | none => .error (.malformed .json)

/-- The data of a YAML text. -/
def yamlData (text : String) : Except DocumentError Data :=
  match Yaml.read text.toList with
  | .ok d => .ok d
  | .error .malformed => .error (.malformed .yaml)
  | .error .severalDocuments => .error .severalDocuments

/-- A task sequence from data with the right root. -/
def Sequence.ofRoot (format : Format) (dl : Dialect) (rootFault : String) (fresh : Fresh)
    (d : Data) : Except DocumentError Sequence :=
  if Sequence.isRoot d then
    match Sequence.ofData dl fresh d with
    | .ok s => .ok s
    | .error fault => .error (.misshapen format fault)
  else .error (.wrongRoot rootFault)

namespace Format

/-- The text is a document of this format, as far as its root tells. -/
def claims : Format → String → Bool
  | xml, text =>
      match xmlRoot text with
      | .ok e => isSequenceRoot e
      | .error _ => false
  | json, text =>
      match jsonData text with
      | .ok d => Sequence.isRoot d
      | .error _ => false
  | yaml, text =>
      match yamlData text with
      | .ok d => Sequence.isRoot d
      | .error _ => false

/-- Reads a document of this format. -/
def parse (fresh : Fresh) : Format → String → Except DocumentError Sequence
  | xml, text => (xmlRoot text).bind (Sequence.ofElement fresh)
  | json, text =>
      (jsonData text).bind
        (Sequence.ofRoot .json Dialect.json "expected an object with 'name' or 'steps'" fresh)
  | yaml, text =>
      (yamlData text).bind
        (Sequence.ofRoot .yaml Dialect.yaml "expected a mapping with 'name' or 'steps'" fresh)

/-- Writes a document in this format. -/
def serialize : Format → Sequence → String
  | xml, s => Xml.Layout.document s.toLayout
  | json, s => Json.pretty s.toData
  | yaml, s => Yaml.print s.toData

end Format

/-! ## Several formats -/

/-- The formats that are read, in the order in which they are tried. -/
abbrev Codecs := List Format

namespace Codecs

/-- All formats.  YAML comes last, since most JSON is YAML too. -/
def default : Codecs := Format.all

/-- The first format that claims a text. -/
def detect (cs : Codecs) (text : String) : Option Format := List.find? (·.claims text) cs

/-- Reads a document with the format that claims it. -/
def parse (cs : Codecs) (fresh : Fresh) (text : String) : Except DocumentError Sequence :=
  match cs.detect text with
  | some f => f.parse fresh text
  | none => .error .unrecognized

/-- Reads a document of a given format. -/
def parseAs (cs : Codecs) (fresh : Fresh) (f : Format) (text : String) :
    Except DocumentError Sequence :=
  if f ∈ cs then f.parse fresh text else .error .unrecognized

/-- Reads a document of a given format, or with the format that claims it. -/
def read (cs : Codecs) (fresh : Fresh) (format : Option Format) (text : String) :
    Except DocumentError Sequence :=
  match format with
  | some f => cs.parseAs fresh f text
  | none => cs.parse fresh text

/-- Reads a file, given its bytes if it could be opened. -/
def readBytes (cs : Codecs) (fresh : Fresh) (format : Option Format) :
    Option (List UInt8) → Except DocumentError Sequence
  | none => .error (.unreadable "No such file or directory (os error 2)")
  | some bytes =>
      match Text.decodeStrict? bytes with
      | some cs' => cs.read fresh format (String.ofList cs')
      | none => .error (.unreadable "stream did not contain valid UTF-8")

/-- Writes a document in a given format. -/
def serialize (cs : Codecs) (s : Sequence) (f : Format) : Except DocumentError String :=
  if f ∈ cs then .ok (f.serialize s) else .error .unrecognized

end Codecs
end Runbook
