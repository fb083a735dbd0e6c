import Runbook.Console.Switch
import Runbook.Document.Format
import Runbook.Text.Integer

/-!
# Command lines

A command line is read word by word.  What a word is depends on its first characters: two hyphens
alone end the switches, two hyphens begin a long name, which may have its value behind an equals
sign, and one hyphen begins letters, the last of which may have its value behind it.  Every other
word is the value of the slot before it, or a command, or the file that the command is about.

A value is looked at only when the next word, or the end, shows that it is complete, but a word that
belongs nowhere is refused before that.  So of two things that are wrong it is usually the first
that is told, and an unknown word if that is one of them.

The words after a command are read on their own.  Switches that may stand anywhere may stand both
before and after the command; of two files of settings the one after it counts.

`Invocation.ofWords` gives what is asked for, or the `Refusal`.
-/

namespace Runbook.Console

/-! ## What is asked for -/

/-- What to do with a document. -/
inductive Command where
  /-- Run the sequence. -/
  | run (file : String) (parallel : Bool) (maxParallelism : Option Nat)
      (assignments : List String) (format : Option Format) (output : Option String)
  /-- Validate the sequence. -/
  | validate (file : String) (format : Option Format)
  /-- Convert the sequence. -/
  | convert (file : String) (target : Format) (format : Option Format) (output : Option String)
  /-- Tell the format. -/
  | detect (file : String)
  deriving DecidableEq, Repr

/-- A whole command line. -/
structure Invocation where
  /-- The command with its switches. -/
  command : Command
  /-- More is to be told. -/
  verbose : Bool
  /-- No colors are to be used. -/
  noColor : Bool
  /-- The file of settings. -/
  settings : Option String
  deriving DecidableEq, Repr

/-- Why a command line is not carried out. -/
inductive Refusal where
  /-- A word where a command belongs. -/
  | unknownCommand (word : String)
  /-- A word that belongs nowhere. -/
  | unknownWord (word : String)
  /-- A slot without a value. -/
  | noValue (slot : Slot)
  /-- The path of a file is empty. -/
  | emptyPath
  /-- A value that is no format. -/
  | badFormat (slot : Slot) (value : String)
  /-- A value that is no number, or too large a one. -/
  | badNumber (slot : Slot) (value : String)
  /-- A value for a switch that takes none. -/
  | uselessValue (flag : Flag) (value : String)
  /-- A switch that is there twice. -/
  | repeated (switch : Switch)
  /-- The file is missing, or the format to write. -/
  | incomplete
  /-- There is no command. -/
  | noCommand
  /-- There is nothing at all. -/
  | nothing
  /-- The program is asked to explain itself. -/
  | help
  /-- The program is asked for its version. -/
  | version
  deriving DecidableEq, Repr

/-! ## Values -/

/-- What the switches and the file of a place have been set to. -/
structure Draft where
  /-- More is to be told. -/
  verbose : Bool := false
  /-- No colors are to be used. -/
  noColor : Bool := false
  /-- The steps run side by side. -/
  parallel : Bool := false
  /-- The file of settings. -/
  settings : Option String := none
  /-- The number of branches at a time. -/
  maxParallelism : Option Nat := none
  /-- The assignments, in order. -/
  assignments : List String := []
  /-- The format of the document. -/
  format : Option Format := none
  /-- The file to write. -/
  output : Option String := none
  /-- The format to write. -/
  target : Option Format := none
  /-- The document. -/
  file : Option String := none
  deriving DecidableEq, Repr

/-- The path of a file. -/
def pathOf (value : String) : Except Refusal String :=
  if value.isEmpty then .error .emptyPath else .ok value

/-- A format by its plain name. -/
def formatOf (slot : Slot) (value : String) : Except Refusal Format :=
  match Format.all.find? (·.extension == value) with
  | some f => .ok f
  | none => .error (.badFormat slot value)

/-- A number of 64 bits. -/
def numberOf (slot : Slot) (value : String) : Except Refusal Nat :=
  match Text.readUnsigned? 10 Text.maxWord64 value.toList with
  | some n => .ok n
  | none => .error (.badNumber slot value)

namespace Draft

/-- Sets what may be set only once. -/
def set {α : Type} (before : Option α) (switch : Switch) (value : Except Refusal α) :
    Except Refusal (Option α) :=
  if before.isSome then .error (.repeated switch) else value.map some

/-- Raises a flag. -/
def raise (d : Draft) (f : Flag) : Except Refusal Draft :=
  let once (before : Bool) (after : Draft) : Except Refusal Draft :=
    if before then .error (.repeated (.flag f)) else .ok after
  match f with
  | .verbose => once d.verbose { d with verbose := true }
  | .noColor => once d.noColor { d with noColor := true }
  | .parallel => once d.parallel { d with parallel := true }
  | .help => .error .help
  | .version => .error .version

/-- Fills a slot. -/
def fill (d : Draft) (s : Slot) (value : String) : Except Refusal Draft :=
  match s with
  | .settings =>
      (set d.settings (.slot s) (pathOf value)).map fun x => { d with settings := x }
  | .maxParallelism =>
      (set d.maxParallelism (.slot s) (numberOf s value)).map fun x =>
        { d with maxParallelism := x }
  | .assignment => .ok { d with assignments := d.assignments ++ [value] }
  | .format => (set d.format (.slot s) (formatOf s value)).map fun x => { d with format := x }
  | .output => (set d.output (.slot s) (pathOf value)).map fun x => { d with output := x }
  | .target => (set d.target (.slot s) (formatOf s value)).map fun x => { d with target := x }

/-- The command of a draft. -/
def command (d : Draft) : Verb → Except Refusal Command
  | .run =>
      match d.file with
      | some f => .ok (.run f d.parallel d.maxParallelism d.assignments d.format d.output)
      | none => .error .incomplete
  | .validate =>
      match d.file with
      | some f => .ok (.validate f d.format)
      | none => .error .incomplete
  | .convert =>
      match d.file, d.target with
      | some f, some t => .ok (.convert f t d.format d.output)
      | _, _ => .error .incomplete
  | .detect =>
      match d.file with
      | some f => .ok (.detect f)
      | none => .error .incomplete

end Draft

/-! ## Words -/

/-- What a word is by its first characters. -/
inductive WordForm where
  /-- The end of the switches. -/
  | separator
  /-- A long name, perhaps with a value. -/
  | long (name : List Char) (value : Option (List Char))
  /-- Letters. -/
  | letters (cs : List Char)
  /-- None of these. -/
  | plain
  deriving DecidableEq, Repr

/-- The form of a word. -/
def WordForm.of : List Char → WordForm
  | ['-', '-'] => separator
  | '-' :: '-' :: r => long (r.takeWhile (· != '=')) ((r.dropWhile (· != '=')).tail?)
  | ['-'] => plain
  | '-' :: r => letters r
  | _ => plain

/-- What was read last and has not been looked at. -/
inductive Pending where
  /-- Nothing. -/
  | clear
  /-- A slot whose value is to come. -/
  | waiting (s : Slot)
  /-- A slot and its value. -/
  | value (s : Slot) (text : String)
  /-- The document. -/
  | file (path : String)
  deriving DecidableEq, Repr

/-- The state of reading. -/
structure Reading where
  /-- What has been looked at. -/
  draft : Draft
  /-- What has not. -/
  pending : Pending
  deriving DecidableEq, Repr

namespace Reading

/-- The state before the first word. -/
def start : Reading := ⟨{}, .clear⟩

/-- The next word is the value of a slot, if it does not look like a switch. -/
def awaits? (r : Reading) : Option Slot :=
  match r.pending with
  | .waiting s => some s
  | _ => none

/-- Looks at what was read last. -/
def settle (r : Reading) : Except Refusal Draft :=
  match r.pending with
  | .clear => .ok r.draft
  | .waiting s => .error (.noValue s)
  | .value s t => r.draft.fill s t
  | .file t => (pathOf t).map fun p => { r.draft with file := some p }

/-- Raises a flag. -/
def raise (r : Reading) (f : Flag) : Except Refusal Reading := do
  let d ← r.settle
  let d ← d.raise f
  return ⟨d, .clear⟩

/-- Fills a slot with a value that came with it, or leaves it waiting. -/
def fill (r : Reading) (s : Slot) (value : Option (List Char)) : Except Refusal Reading := do
  let d ← r.settle
  match value with
  | some v =>
      let d ← d.fill s (String.ofList v)
      return ⟨d, .clear⟩
  | none => return ⟨d, .waiting s⟩

/-- Takes a long name. -/
def takeLong (scope : Scope) (r : Reading) (name : List Char) (value : Option (List Char)) :
    Except Refusal Reading :=
  match scope.ofLong? (String.ofList name), value with
  | some (.flag f), none => r.raise f
  | some (.flag f), some v => .error (.uselessValue f (String.ofList v))
  | some (.slot s), v => r.fill s v
  | none, _ => .error (.unknownWord ("--" ++ String.ofList name))

/-- The value behind a letter, without an equals sign before it. -/
def attached : List Char → Option (List Char)
  | [] => none
  | '=' :: v => some v
  | v => some v

/-- Takes letters. -/
def takeLetters (scope : Scope) : Reading → List Char → Except Refusal Reading
  | r, [] => .ok r
  | r, c :: cs =>
      match scope.ofLetter? c with
      | some (.flag f) =>
          match r.raise f with
          | .ok r => takeLetters scope r cs
          | .error e => .error e
      | some (.slot s) => r.fill s (attached cs)
      | none => .error (.unknownWord ("-" ++ c.toString))

/-- There is a document already. -/
def hasFile (r : Reading) : Bool :=
  r.draft.file.isSome ||
    match r.pending with
    | .file _ => true
    | _ => false

/-- Takes a word that is neither a switch nor its value.  `ended` says that it stands behind the end
of the switches. -/
def takePlain (scope : Scope) (ended : Bool) (r : Reading) (word : String) :
    Except Refusal Reading :=
  match scope with
  | none =>
      .error (if ended && ((Verb.ofName? word).isSome || word == "help") then .unknownWord word
        else .unknownCommand word)
  | some _ =>
      if r.hasFile then .error (.unknownWord word)
      else r.settle.map fun d => ⟨d, .file word⟩

/-- What the program is asked to explain. -/
def explained : List String → Refusal
  | [] => .help
  | [w] => if (Verb.ofName? w).isSome || w == "help" then .help else .unknownCommand w
  | w :: v :: _ => .unknownCommand (if (Verb.ofName? w).isSome || w == "help" then v else w)

/-- Reads words up to a command, which is handed back with the words after it. -/
def words (scope : Scope) : (ended : Bool) → Reading → List String →
    Except Refusal (Reading × Option (Verb × List String))
  | _, r, [] => .ok (r, none)
  | true, r, w :: ws =>
      match r.takePlain scope true w with
      | .ok r => words scope true r ws
      | .error e => .error e
  | false, r, w :: ws =>
      let verb := if scope.isNone && r.awaits?.isNone then Verb.ofName? w else none
      match verb with
      | some v => .ok (r, some (v, ws))
      | none =>
          if scope.isNone && r.awaits?.isNone && w == "help" then .error (explained ws)
          else if WordForm.of w.toList = .separator then words scope true r ws
          else
            let next := match WordForm.of w.toList, r.awaits? with
              | .long name value, _ => r.takeLong scope name value
              | .letters cs, _ => r.takeLetters scope cs
              | _, some s => .ok ⟨r.draft, .value s w⟩
              | _, none => r.takePlain scope false w
            match next with
            | .ok r => words scope false r ws
            | .error e => .error e

end Reading

/-- What the words of a command line ask for. -/
def Invocation.ofWords (ws : List String) : Except Refusal Invocation := do
  let (r, rest) ← Reading.start.words none false ws
  match rest with
  | some (verb, more) =>
      let (s, _) ← Reading.start.words (some verb) false more
      let inner ← s.settle
      let command ← inner.command verb
      let outer ← r.settle
      return ⟨command, outer.verbose || inner.verbose, outer.noColor || inner.noColor,
        inner.settings.or outer.settings⟩
  | none =>
      let outer ← r.settle
      if outer = {} then throw .nothing else throw .noCommand

/-! ## Wording -/

/-- A switch as it is written. -/
def Switch.shown (s : Switch) : String := "--" ++ s.long

/-- The wording of a refusal. -/
def Refusal.message : Refusal → String
  | unknownCommand w => "unrecognized subcommand '" ++ w ++ "'"
  | unknownWord w => "unexpected argument '" ++ w ++ "' found"
  | noValue s => "a value is required for '" ++ (Switch.slot s).shown ++ "' but none was supplied"
  | emptyPath => "a value is required for a path but none was supplied"
  | badFormat s v => "invalid value '" ++ v ++ "' for '" ++ (Switch.slot s).shown ++ "'"
  | badNumber s v =>
      "invalid value '" ++ v ++ "' for '" ++ (Switch.slot s).shown ++ "': not a number in range"
  | uselessValue f v =>
      "unexpected value '" ++ v ++ "' for '" ++ (Switch.flag f).shown ++
        "' found; no more were expected"
  | repeated s => "the argument '" ++ s.shown ++ "' cannot be used multiple times"
  | incomplete => "the following required arguments were not provided"
  | noCommand => "'taskseq' requires a subcommand but one was not provided"
  | nothing => "a subcommand is required"
  | help => "help"
  | version => "version"

end Runbook.Console
