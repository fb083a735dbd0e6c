import Runbook.Data
import Runbook.Pairs
import Runbook.Text.Blank
import Runbook.Text.Case
import Runbook.Yaml.Node.OfTokens
import Runbook.Yaml.Printer
import Runbook.Yaml.Scalar

/-!
# Settings

What a run is set up with, apart from its command line: how many branches run at a time and whether
they do, variables that are given to every run, and how much is told of it and in which layout.

Settings come from a YAML text, in which everything may be left out, and environment variables take
the place of four of them.  The text is read by its nodes and not as generic data: wherever a text
is wanted the characters of any scalar will do, so `level: 5` and `level: null` are levels.  Fields
without a meaning are passed over, whatever they hold.

`Settings.ofText?` reads, `Settings.withEnvironment` lets the environment have its say, and
`Settings.toText` writes.
-/

namespace Runbook.Console

/-- The settings of the program. -/
structure Settings where
  /-- The number of branches that run at a time. -/
  maxParallelism : Nat := 4
  /-- The steps at the top run side by side. -/
  parallel : Bool := false
  /-- The variables of every run. -/
  presets : Pairs := []
  /-- How much is told. -/
  level : String := "info"
  /-- The layout in which it is told. -/
  layout : String := "pretty"
  deriving DecidableEq, Repr

/-! ## Reading nodes -/

/-- The nodes that references lead to. -/
abbrev Targets := List (Nat × Yaml.Node)

namespace Targets

open Yaml (Node)

variable (ts : Targets)

/-- The node that is meant. -/
def meant (n : Node) : Option Node :=
  match n with
  | .reference target => ts.lookup target
  | n => some n

/-- The characters of a scalar, if it is written plainly. -/
def plain? (n : Node) : Option (List Char) :=
  match ts.meant n with
  | some (.scalar _ cs true) => some cs
  | _ => none

/-- A text. -/
def text? (n : Node) : Option String :=
  match ts.meant n with
  | some (.scalar _ cs _) => some (String.ofList cs)
  | _ => none

/-- A truth value. -/
def flag? (n : Node) : Option Bool := (ts.plain? n).bind Yaml.flag?

/-- A number of 64 bits. -/
def number? (n : Node) : Option Nat := (ts.plain? n).bind (Yaml.unsigned? Text.maxWord64)

/-- The fields of a record.  Nothing at all is an empty record. -/
def fields? (n : Node) : Option (List (Node × Node)) :=
  match ts.meant n with
  | some (.record _ fs) => some fs
  | some (.scalar _ [] true) => some []
  | _ => none

/-- Texts by their keys. -/
def texts? (n : Node) : Option Pairs := do
  let fs ← ts.fields? n
  let ps ← fs.mapM fun f => do return (← ts.text? f.1, ← ts.text? f.2)
  return Pairs.ofList ps

/-- Sets what may be set only once. -/
def once {α : Type} (before value : Option α) : Option (Option α) :=
  if before.isSome then none else value.map some

end Targets

/-! ## Reading settings -/

/-- The settings of what is told, which are being read. -/
structure LoggingDraft where
  /-- How much is told. -/
  level : Option String := none
  /-- The layout. -/
  layout : Option String := none

/-- Takes a field of the settings of what is told. -/
def LoggingDraft.take (ts : Targets) (l : LoggingDraft) (f : Yaml.Node × Yaml.Node) :
    Option LoggingDraft := do
  match ← ts.text? f.1 with
  | "level" => return { l with level := ← Targets.once l.level (ts.text? f.2) }
  | "format" => return { l with layout := ← Targets.once l.layout (ts.text? f.2) }
  | _ => return l

/-- Settings that are being read. -/
structure SettingsDraft where
  /-- The number of branches. -/
  maxParallelism : Option Nat := none
  /-- The steps at the top run side by side. -/
  parallel : Option Bool := none
  /-- The variables. -/
  presets : Option Pairs := none
  /-- What is told. -/
  logging : Option LoggingDraft := none

/-- Takes a field. -/
def SettingsDraft.take (ts : Targets) (s : SettingsDraft) (f : Yaml.Node × Yaml.Node) :
    Option SettingsDraft := do
  match ← ts.text? f.1 with
  | "max_parallelism" =>
      return { s with maxParallelism := ← Targets.once s.maxParallelism (ts.number? f.2) }
  | "parallel" => return { s with parallel := ← Targets.once s.parallel (ts.flag? f.2) }
  | "variables" => return { s with presets := ← Targets.once s.presets (ts.texts? f.2) }
  | "logging" =>
      let logging := (ts.fields? f.2).bind fun fs => fs.foldlM (LoggingDraft.take ts) {}
      return { s with logging := ← Targets.once s.logging logging }
  | _ => return s

namespace Settings

/-- The settings without a text. -/
def default : Settings := {}

/-- The settings of a draft, with what is missing filled in. -/
def ofDraft (d : SettingsDraft) : Settings :=
  let l := d.logging.getD {}
  ⟨d.maxParallelism.getD default.maxParallelism, d.parallel.getD default.parallel,
    d.presets.getD default.presets, l.level.getD default.level, l.layout.getD default.layout⟩

/-- The settings of a document. -/
def ofNode? (root : Yaml.Node) : Option Settings := do
  let ts : Targets := root.targets
  let fs ← ts.fields? root
  let d ← fs.foldlM (SettingsDraft.take ts) {}
  return ofDraft d

/-- The settings of a text. -/
def ofText? (s : String) : Option Settings :=
  match Yaml.Node.Stream.ofTokens (Yaml.Token.ofChars s.toList) with
  | .empty => some default
  | .single root => ofNode? root
  | _ => none

end Settings

/-! ## The environment -/

/-- What is wrong with an environment variable. -/
inductive EnvironmentFault where
  /-- The number of branches is none. -/
  | badNumber (given : String)
  /-- The answer is neither yes nor no. -/
  | badFlag (given : String)
  deriving DecidableEq, Repr

/-- The wording of a fault. -/
def EnvironmentFault.message : EnvironmentFault → String
  | badNumber given => "TASKSEQ_MAX_PARALLELISM must be a number, got '" ++ given ++ "'"
  | badFlag given => "TASKSEQ_PARALLEL must be true or false, got '" ++ given ++ "'"

/-- The number of an environment variable. -/
def environmentNumber (given : String) : Except EnvironmentFault Nat :=
  match Text.readUnsigned? 10 Text.maxWord64 (Text.trimmed given.toList) with
  | some n => .ok n
  | none => .error (.badNumber given)

/-- The truth value of an environment variable. -/
def environmentFlag (given : String) : Except EnvironmentFault Bool :=
  let word := Text.lowerFull (Text.trim given)
  if word ∈ ["1", "true", "yes", "on"] then .ok true
  else if word ∈ ["0", "false", "no", "off", ""] then .ok false
  else .error (.badFlag word)

namespace Settings

/-- The settings after the environment variables, in a fixed order. -/
def withEnvironment (environment : String → Option String) (s : Settings) :
    Except EnvironmentFault Settings := do
  let n ← match environment "TASKSEQ_MAX_PARALLELISM" with
    | some given => environmentNumber given
    | none => .ok s.maxParallelism
  let p ← match environment "TASKSEQ_PARALLEL" with
    | some given => environmentFlag given
    | none => .ok s.parallel
  return ⟨n, p, s.presets, (environment "TASKSEQ_LOG_LEVEL").getD s.level,
    (environment "TASKSEQ_LOG_FORMAT").getD s.layout⟩

/-- The settings with further variables, which replace those with the same name. -/
def withVariables (s : Settings) (ps : Pairs) : Settings :=
  { s with presets := Pairs.insertAll s.presets ps }

/-! ## Writing -/

/-- Settings as data. -/
def toData (s : Settings) : Data :=
  .record [(.text "max_parallelism", .int s.maxParallelism), (.text "parallel", .bool s.parallel),
    (.text "variables", .record (s.presets.map fun p => (.text p.1, .text p.2))),
    (.text "logging", .record [(.text "level", .text s.level), (.text "format", .text s.layout)])]

/-- The text of settings. -/
def toText (s : Settings) : String := Yaml.print s.toData

end Settings
end Runbook.Console
