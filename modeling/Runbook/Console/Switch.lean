/-!
# Commands and switches

The words of a command line.  There are four commands.  A *flag* says something by being there; a
*slot* takes a value.  Both are switches, which have a long name and perhaps a letter.

Some switches may stand anywhere, others only after their command.  The place of a word is therefore
part of its meaning: the letter `V` asks for the version before a command, and assigns a variable
after `run`.
-/

namespace Runbook.Console

/-- What the program is asked to do. -/
inductive Verb where
  /-- Run a sequence. -/
  | run
  /-- Tell what is wrong with a sequence. -/
  | validate
  /-- Write a sequence in another format. -/
  | convert
  /-- Tell the format of a document. -/
  | detect
  deriving DecidableEq, Repr

namespace Verb

/-- The commands. -/
def all : List Verb := [run, validate, convert, detect]

/-- The word for a command. -/
def name : Verb → String
  | run => "run"
  | validate => "validate"
  | convert => "convert"
  | detect => "detect"

/-- The command of a word. -/
def ofName? (s : String) : Option Verb := all.find? (·.name == s)

theorem ofName?_name (v : Verb) : ofName? v.name = some v := by cases v <;> decide

end Verb

/-- A switch without a value. -/
inductive Flag where
  /-- Tell more of what is done. -/
  | verbose
  /-- Use no colors. -/
  | noColor
  /-- Run the steps at the top side by side. -/
  | parallel
  /-- Explain the command line. -/
  | help
  /-- Tell the version. -/
  | version
  deriving DecidableEq, Repr

/-- A switch with a value. -/
inductive Slot where
  /-- The file of settings. -/
  | settings
  /-- The number of branches that run at a time. -/
  | maxParallelism
  /-- A variable and its value.  This slot may be filled more than once. -/
  | assignment
  /-- The format of the document. -/
  | format
  /-- The file to write. -/
  | output
  /-- The format to write. -/
  | target
  deriving DecidableEq, Repr

/-- A switch. -/
inductive Switch where
  | flag (f : Flag)
  | slot (s : Slot)
  deriving DecidableEq, Repr

namespace Switch

/-- The long name of a switch. -/
def long : Switch → String
  | flag .verbose => "verbose"
  | flag .noColor => "no-color"
  | flag .parallel => "parallel"
  | flag .help => "help"
  | flag .version => "version"
  | slot .settings => "config"
  | slot .maxParallelism => "max-parallelism"
  | slot .assignment => "var"
  | slot .format => "format"
  | slot .output => "output"
  | slot .target => "to"

/-- The letter of a switch. -/
def letter? : Switch → Option Char
  | flag .verbose => some 'v'
  | flag .noColor => none
  | flag .parallel => none
  | flag .help => some 'h'
  | flag .version => some 'V'
  | slot .settings => some 'c'
  | slot .maxParallelism => none
  | slot .assignment => some 'V'
  | slot .format => some 'f'
  | slot .output => some 'o'
  | slot .target => none

end Switch

/-- Where a word stands: before any command, or after one. -/
abbrev Scope := Option Verb

namespace Scope

/-- The switches that may stand anywhere. -/
def everywhere : List Switch := [.flag .verbose, .slot .settings, .flag .noColor, .flag .help]

/-- The switches that may stand there. -/
def switches : Scope → List Switch
  | none => everywhere ++ [.flag .version]
  | some .run =>
      everywhere ++ [.flag .parallel, .slot .maxParallelism, .slot .assignment, .slot .format,
        .slot .output]
  | some .validate => everywhere ++ [.slot .format]
  | some .convert => everywhere ++ [.slot .target, .slot .format, .slot .output]
  | some .detect => everywhere

/-- The switch of a long name. -/
def ofLong? (s : Scope) (name : String) : Option Switch := s.switches.find? (·.long == name)

/-- The switch of a letter. -/
def ofLetter? (s : Scope) (c : Char) : Option Switch := s.switches.find? (·.letter? == some c)

/-- No two switches of a place have the same letter. -/
theorem ofLetter?_letter (s : Scope) {w : Switch} {c : Char} (h : w ∈ s.switches)
    (hc : w.letter? = some c) : s.ofLetter? c = some w := by
  rcases s with _ | v
  · simp only [switches, everywhere, List.cons_append, List.nil_append, List.mem_cons,
      List.not_mem_nil, or_false] at h
    rcases h with rfl | rfl | rfl | rfl | rfl <;> simp [Switch.letter?] at hc <;> subst hc <;> rfl
  · cases v <;>
      simp only [switches, everywhere, List.cons_append, List.nil_append, List.mem_cons,
        List.not_mem_nil, or_false] at h
    · rcases h with rfl | rfl | rfl | rfl | rfl | rfl | rfl | rfl | rfl <;>
        simp [Switch.letter?] at hc <;> subst hc <;> rfl
    · rcases h with rfl | rfl | rfl | rfl | rfl <;> simp [Switch.letter?] at hc <;> subst hc <;> rfl
    · rcases h with rfl | rfl | rfl | rfl | rfl | rfl | rfl <;>
        simp [Switch.letter?] at hc <;> subst hc <;> rfl
    · rcases h with rfl | rfl | rfl | rfl <;> simp [Switch.letter?] at hc <;> subst hc <;> rfl

end Scope
end Runbook.Console
