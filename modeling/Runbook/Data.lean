import Runbook.Binary64.Shortest

/-!
# Generic data

The tree of values that a JSON or YAML text stands for.  Records keep the order of their fields,
and their keys may be any values, as YAML allows.  A tag is a name in front of a value.

`same` is the equality that decides whether a record has a key twice: numbers of different kinds
differ, and the order of the fields of a record does not count.
-/

namespace Runbook

/-- A value. -/
inductive Data where
  /-- Nothing. -/
  | null
  /-- A truth value. -/
  | bool (b : Bool)
  /-- A whole number. -/
  | int (n : Int)
  /-- A floating point number. -/
  | real (x : Binary64)
  /-- A text. -/
  | text (s : String)
  /-- A list of values. -/
  | list (items : List Data)
  /-- Keys with their values. -/
  | record (fields : List (Data × Data))
  /-- A value with a tag. -/
  | tagged (tag : String) (value : Data)
  deriving Repr, Inhabited

namespace Data

mutual

/-- Equality of values. -/
def same : Data → Data → Bool
  | null, null => true
  | bool a, bool b => a == b
  | int a, int b => a == b
  | real a, real b => (a == .nan && b == .nan) || Binary64.compare? a b == some .eq
  | text a, text b => a == b
  | list as, list bs => sameItems as bs
  | record as, record bs => as.length == bs.length && sameFields as bs
  | tagged s a, tagged t b => s == t && same a b
  | _, _ => false
termination_by structural a => a

/-- Equality of lists of values. -/
def sameItems : List Data → List Data → Bool
  | [], [] => true
  | a :: as, b :: bs => same a b && sameItems as bs
  | _, _ => false
termination_by structural as => as

/-- Every field on the left has an equal one on the right. -/
def sameFields : List (Data × Data) → List (Data × Data) → Bool
  | [], _ => true
  | (k, v) :: fs, gs => (gs.any fun g => same k g.1 && same v g.2) && sameFields fs gs
termination_by structural fs => fs

end

mutual

/-- There is a tag somewhere in the value. -/
def hasTag : Data → Bool
  | tagged _ _ => true
  | list items => anyTag items
  | record fields => anyFieldTag fields
  | _ => false
termination_by structural d => d

/-- There is a tag somewhere in the values. -/
def anyTag : List Data → Bool
  | [] => false
  | d :: ds => hasTag d || anyTag ds
termination_by structural ds => ds

/-- There is a tag somewhere in the keys or values. -/
def anyFieldTag : List (Data × Data) → Bool
  | [] => false
  | (k, v) :: fs => hasTag k || hasTag v || anyFieldTag fs
termination_by structural fs => fs

end

/-- The text of a truth value, a number or a text. -/
def scalarText? : Data → Option String
  | bool b => some (toString b)
  | int n => some (toString n)
  | real x => some x.text
  | text s => some s
  | _ => none

/-- The value without the tags in front of it. -/
def untagged : Data → Data
  | tagged _ v => v.untagged
  | d => d
termination_by structural d => d

/-- The value of a text key. -/
def field? (fields : List (Data × Data)) (key : String) : Option Data :=
  (fields.find? fun f => f.1.same (text key)).map (·.2)

/-- The key of a field is a given text. -/
def hasField (fields : List (Data × Data)) (key : String) : Bool := (field? fields key).isSome

end Data
end Runbook
