import Runbook.Binary64.Reading
import Runbook.Data
import Runbook.Text.Integer

/-!
# What a plain text stands for

A plain text is a null, a truth value, a number or itself.  Whole numbers are written in base ten,
or in base sixteen, eight or two after `0x`, `0o` or `0b`; digits after a leading zero are a text.
A whole number beyond 64 bits is refused as long as 128 bits hold it, and a floating point number
beyond that.

`resolve?` gives the value, and nothing where a number is refused.  `isNull`, `flag?`, `whole?` and
`real?` are the readings it is made of, which the tags for these kinds of values ask for one by one.
-/

namespace Runbook.Yaml

open Runbook.Text

/-- A text for nothing. -/
def isNull (cs : List Char) : Bool :=
  ["null", "Null", "NULL", "~"].any fun w => w.toList == cs

/-- A truth value. -/
def flag? (cs : List Char) : Option Bool :=
  if ["true", "True", "TRUE"].any fun w => w.toList == cs then some true
  else if ["false", "False", "FALSE"].any fun w => w.toList == cs then some false
  else none

/-- A sign. -/
def isSign (c : Char) : Bool := c == '+' || c == '-'

/-- The text starts with a sign. -/
def startsWithSign (cs : List Char) : Bool := (cs.head?.map isSign).getD false

/-- Several digits of which the first is a zero, perhaps after a sign. -/
def isPaddedNumber (cs : List Char) : Bool :=
  let ds := if startsWithSign cs then cs.tail else cs
  match ds with
  | '0' :: d :: r => (d :: r).all isDigit
  | _ => false

/-- The bases other than ten, with the letter that announces them. -/
def bases : List (Char × Nat) := [('x', 16), ('o', 8), ('b', 2)]

/-- A whole number of at most `max` in a base that is announced. -/
def basedUnsigned? (max : Nat) : List Char → Option Nat
  | '0' :: b :: r =>
      (bases.lookup b).bind fun base =>
        if startsWithSign r then none else readUnsigned? base max r
  | _ => none

/-- A whole number of at most `max`, perhaps after a plus sign. -/
def unsigned? (max : Nat) (cs : List Char) : Option Nat :=
  let body := match cs with
    | '+' :: r => r
    | _ => cs
  match basedUnsigned? max body with
  | some n => some n
  | none =>
      if startsWithSign body || isPaddedNumber cs then none else readUnsigned? 10 max body

/-- A number below zero, or any number of base ten, that is at least `-(max + 1)` and at most
`max`. -/
def signed? (max : Nat) (cs : List Char) : Option Int :=
  let based := match cs with
    | '-' :: '0' :: b :: r =>
        (bases.lookup b).bind fun base => readSigned? base max ('-' :: r)
    | _ => none
  match based with
  | some n => some n
  | none => if isPaddedNumber cs then none else readSigned? 10 max cs

/-- A whole number of 64 bits. -/
def whole? (cs : List Char) : Option Int :=
  ((unsigned? maxWord64 cs).map Int.ofNat).or (signed? maxInt64 cs)

/-- A whole number that 128 bits hold. -/
def isWide (cs : List Char) : Bool :=
  (unsigned? (Nat.pow 2 128 - 1) cs).isSome || (signed? (Nat.pow 2 127 - 1) cs).isSome

/-- A floating point number. -/
def real? (cs : List Char) : Option Binary64 :=
  let is (ws : List String) (cs : List Char) := ws.any fun w => w.toList == cs
  let body := match cs with
    | '+' :: r => r
    | _ => cs
  if startsWithSign body && cs.head? == some '+' then none
  else if is [".inf", ".Inf", ".INF"] body then some (.infinite false)
  else if is ["-.inf", "-.Inf", "-.INF"] cs then some (.infinite true)
  else if is [".nan", ".NaN", ".NAN"] cs then some .nan
  else (Binary64.read? body).filter (·.isFinite)

/-- The value of a plain text.  Nothing for a whole number that is too large. -/
def resolve? (cs : List Char) : Option Data :=
  if cs.isEmpty || isNull cs then some .null
  else
    match flag? cs, whole? cs with
    | some b, _ => some (.bool b)
    | none, some n => some (.int n)
    | none, none =>
        if isWide cs then none
        else
          match if isPaddedNumber cs then none else real? cs with
          | some x => some (.real x)
          | none => some (.text (String.ofList cs))

end Runbook.Yaml
