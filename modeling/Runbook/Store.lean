import Runbook.Pairs
import Runbook.Text.Case

/-!
# The variable store

The variables of a run.  A name denotes a variable up to its capital form, so two spellings whose
capital forms agree are the same variable.  A variable keeps the spelling and the position of its
first write.  It can be locked, and a locked variable refuses every later write except another
locking one.  Which ones are locked is kept beside the variables, by their capital forms.

`find?_write` says what a look-up finds after a write.
-/

namespace Runbook

/-- A variable of the store. -/
structure Entry where
  /-- The capital form of its name. -/
  key : String
  /-- The spelling of its first write. -/
  name : String
  /-- Its value. -/
  value : String
  deriving DecidableEq, Repr

/-- The variables, in order of their first write, and which of them are locked. -/
structure Store where
  /-- One entry for each variable. -/
  entries : List Entry
  /-- The keys under which later writes are refused. -/
  readOnly : List String
  deriving DecidableEq, Repr, Inhabited

/-- A write to a locked variable, under the name it was tried with. -/
structure LockedVariable where
  /-- The name as it was given. -/
  name : String
  deriving DecidableEq, Repr

/-- The wording of a refused write. -/
def LockedVariable.message (e : LockedVariable) : String :=
  "Variable '" ++ e.name ++ "' is read-only and cannot be modified"

namespace Store

/-- The key under which a name is kept. -/
def keyOf (name : String) : String := Text.upper name

/-- The store without variables. -/
def empty : Store := ⟨[], []⟩

/-- The entry of a key. -/
def find? (s : Store) (key : String) : Option Entry := s.entries.find? (·.key = key)

/-- Entries with the value of a key replaced, or a new entry at the end. -/
def writeEntries (key name value : String) : List Entry → List Entry
  | [] => [⟨key, name, value⟩]
  | e :: es =>
      if e.key = key then { e with value := value } :: es
      else e :: writeEntries key name value es

/-- Writes a variable without asking whether it is locked. -/
def write (s : Store) (name value : String) : Store :=
  { s with entries := writeEntries (keyOf name) name value s.entries }

/-- The value of a variable, empty if there is none. -/
def get (s : Store) (name : String) : String := ((s.find? (keyOf name)).map (·.value)).getD ""

/-- The variable is there. -/
def contains (s : Store) (name : String) : Bool := (s.find? (keyOf name)).isSome

/-- Later writes to the variable are refused. -/
def isLocked (s : Store) (name : String) : Bool := keyOf name ∈ s.readOnly

/-- Sets a variable, unless it is locked. -/
def set (s : Store) (name value : String) : Except LockedVariable Store :=
  if s.isLocked name then .error ⟨name⟩ else .ok (s.write name value)

/-- Sets a variable and locks it. -/
def setLocked (s : Store) (name value : String) : Store :=
  { s.write name value with readOnly := s.readOnly.insert (keyOf name) }

/-- The number of variables. -/
def size (s : Store) : Nat := s.entries.length

/-- The variables under the spelling of their first write. -/
def snapshot (s : Store) : Pairs := Pairs.ofList (s.entries.map fun e => (e.name, e.value))

/-- What a look-up finds in written entries. -/
theorem find?_writeEntries (es : List Entry) (key name value j : String) :
    (writeEntries key name value es).find? (·.key = j) =
      if j = key then
        some (match es.find? (·.key = key) with
          | some e => { e with value := value }
          | none => ⟨key, name, value⟩)
      else es.find? (·.key = j) := by
  induction es with
  | nil =>
    by_cases h : j = key
    · simp [writeEntries, h]
    · simp [writeEntries, h, Ne.symm h]
  | cons e es ih =>
    by_cases he : e.key = key
    · by_cases h : j = key
      · subst h
        simp [writeEntries, he]
      · have : ¬ key = j := fun hk => h hk.symm
        simp [writeEntries, he, h, this]
    · by_cases hj : e.key = j
      · have : ¬ j = key := fun hk => he (hj.trans hk)
        simp [writeEntries, hj, this]
      · simp [writeEntries, he, hj, ih]

/-- What a look-up finds after a write. -/
theorem find?_write (s : Store) (name value j : String) :
    (s.write name value).find? j =
      if j = keyOf name then
        some (match s.find? (keyOf name) with
          | some e => { e with value := value }
          | none => ⟨keyOf name, name, value⟩)
      else s.find? j := find?_writeEntries s.entries _ _ _ _

/-- A write locks nothing. -/
@[simp] theorem readOnly_write (s : Store) (name value : String) :
    (s.write name value).readOnly = s.readOnly := rfl

end Store
end Runbook
