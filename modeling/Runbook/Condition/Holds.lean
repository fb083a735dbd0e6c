import Runbook.Binary64.Reading
import Runbook.Condition
import Runbook.Store
import Runbook.Text.Blank

/-!
# When a condition holds

Equality and containment compare capital forms.  The two order operators compare as numbers if
both texts, blanks around them aside, read as numbers other than `nan`.  Otherwise they compare the
capital forms code point by code point.
-/

namespace Runbook.Condition

open Runbook.Text

/-- The number a text stands for, blanks around it aside. -/
def number? (s : String) : Option Binary64 :=
  (Binary64.read? (trimmed s.toList)).filter (· ≠ .nan)

/-- The order of two texts code point by code point. -/
def compareChars : List Char → List Char → Ordering
  | [], [] => .eq
  | [], _ :: _ => .lt
  | _ :: _, [] => .gt
  | a :: as, b :: bs => (compare a.toNat b.toNat).then (compareChars as bs)

/-- The order of two capital forms. -/
def compareText (a b : String) : Ordering :=
  compareChars (upperChars a.toList) (upperChars b.toList)

/-- The order of a value and the text it is compared with. -/
def order (actual expected : String) : Ordering :=
  match number? actual, number? expected with
  | some x, some y => (Binary64.compare? x y).getD (compareText actual expected)
  | _, _ => compareText actual expected

/-- A piece occurs in a text. -/
def occursIn (piece : List Char) : List Char → Bool
  | [] => piece.isEmpty
  | c :: cs => piece.isPrefixOf (c :: cs) || occursIn piece cs

/-- The condition holds in a store. -/
def holds (c : Condition) (s : Store) : Bool :=
  let actual := s.get c.name
  match c.operator with
  | .present => s.contains c.name
  | .equals => upper actual == upper c.value
  | .notEquals => upper actual != upper c.value
  | .greaterThan => order actual c.value == .gt
  | .lessThan => order actual c.value == .lt
  | .contains => occursIn (upperChars c.value.toList) (upperChars actual.toList)

/-- Every condition holds. -/
def allHold (cs : List Condition) (s : Store) : Bool := cs.all (·.holds s)

end Runbook.Condition
