import Runbook.Sequence
import Runbook.Store

/-!
# Publishing

A run starts from a store of its own making.  Four built-in variables come first and are locked;
then every declared variable is set in turn.  A declared variable with the name of a built-in one
is refused, and publishing stops there.
-/

namespace Runbook

/-- The name of the variable that holds the identity of the sequence. -/
def sequenceIdVariable : String := "TaskSequenceID"

/-- The name of the variable that holds the name of the sequence. -/
def sequenceNameVariable : String := "TaskSequenceName"

/-- The name of the variable that holds the version of the sequence. -/
def sequenceVersionVariable : String := "TaskSequenceVersion"

/-- The name of the variable that holds the name of the machine. -/
def machineVariable : String := "_SMSTSMachineName"

/-- The name of the variable by which a step asks for a restart. -/
def restartVariable : String := "_SMSTSRebootRequested"

/-- What publishing has come to. -/
structure Published where
  /-- The store. -/
  store : Store
  /-- The declared variables that were set. -/
  declared : Pairs
  /-- The declared variable that was refused, if one was. -/
  refused : Option LockedVariable
  deriving DecidableEq, Repr

namespace Sequence

/-- The built-in variables of a sequence on a machine. -/
def builtins (s : Sequence) (machine : String) : List (String × String) :=
  [(sequenceIdVariable, s.id), (sequenceNameVariable, s.name),
    (sequenceVersionVariable, s.version), (machineVariable, machine)]

/-- The store with nothing but the built-in variables. -/
def builtinStore (s : Sequence) (machine : String) : Store :=
  (s.builtins machine).foldl (fun store p => store.setLocked p.1 p.2) Store.empty

/-- Sets declared variables in turn. -/
def publishAll : List Variable → Store → Pairs → Published
  | [], store, set => ⟨store, set, none⟩
  | v :: vs, store, set =>
      match store.set v.name v.value with
      | .ok store => publishAll vs store (Pairs.insert set v.name v.value)
      | .error e => ⟨store, set, some e⟩

/-- Publishes the variables of a sequence. -/
def publish (s : Sequence) (machine : String) : Published :=
  publishAll s.declarations (s.builtinStore machine) []

end Sequence
end Runbook
