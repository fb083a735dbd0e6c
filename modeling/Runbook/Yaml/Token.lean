/-!
# Tokens of YAML

The marks and texts a YAML text consists of.  Besides what is written, tokens stand for what the
indentation says: where a block of items or fields starts and where it ends.
-/

namespace Runbook.Yaml

/-- A token. -/
inductive Token where
  /-- The text ends. -/
  | streamEnd
  /-- A directive with a version of the notation. -/
  | version (major minor : Nat)
  /-- A directive that gives a meaning to the start of tags. -/
  | tagDirective (handle lead : List Char)
  /-- A document starts. -/
  | documentStart
  /-- A document ends. -/
  | documentEnd
  /-- A list starts, by indentation. -/
  | blockList
  /-- A record starts, by indentation. -/
  | blockRecord
  /-- A list or record ends, by indentation. -/
  | blockEnd
  /-- `[` -/
  | listStart
  /-- `]` -/
  | listEnd
  /-- An opening brace. -/
  | recordStart
  /-- A closing brace. -/
  | recordEnd
  /-- `-` before an item. -/
  | item
  /-- A comma. -/
  | comma
  /-- A key follows. -/
  | key
  /-- A value follows. -/
  | value
  /-- A reference to a node. -/
  | reference (name : List Char)
  /-- A name for a node. -/
  | anchor (name : List Char)
  /-- A tag: its handle and the rest of it. -/
  | tag (handle rest : List Char)
  /-- A text, and whether it is written without quotes and the like. -/
  | scalar (text : List Char) (plain : Bool)
  /-- From here on the text is no YAML. -/
  | broken
  deriving DecidableEq, Repr

end Runbook.Yaml
