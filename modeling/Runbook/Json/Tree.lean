import Runbook.Binary64.Reading
import Runbook.Data
import Runbook.Text.Integer

/-!
# JSON as far as it goes

`Tree.ofText` reads a text as JSON up to the first place where it is none.  That place is a `broken`
leaf, and the lists and records it lies in are left open.  A reader that asks for fields one by one
can then tell whether it finds fault with a value before the text itself breaks.

Two kinds of leaves can be passed over but not read: a number too large to be held and a string
with half of a surrogate pair.  They are `unreadable`.

A number with a fraction or an exponent is read from at most twenty digits: the digits that fit
into 64 bits, as a floating point number, multiplied or divided by a power of ten that is one too.
So it may be off the nearest number by a last place.
-/

namespace Runbook.Json

open Runbook.Text

/-- A JSON value, as far as the text goes. -/
inductive Tree where
  /-- The word `null`. -/
  | null
  /-- A truth value. -/
  | bool (b : Bool)
  /-- A whole number. -/
  | int (n : Int)
  /-- A floating point number. -/
  | real (x : Binary64)
  /-- A string. -/
  | text (s : String)
  /-- A list, and whether it is closed. -/
  | list (items : List Tree) (closed : Bool)
  /-- Fields, and whether they are closed. -/
  | record (fields : List (String × Tree)) (closed : Bool)
  /-- A value that can only be passed over. -/
  | unreadable
  /-- No JSON. -/
  | broken
  deriving Repr, Inhabited

/-- The blanks of JSON. -/
def isGap (c : Char) : Bool := c == ' ' || c == '\n' || c == '\t' || c == '\r'

/-! ## Strings -/

/-- Four hexadecimal digits. -/
def hexCode? : List Char → Option (Nat × List Char)
  | a :: b :: c :: d :: cs => (natOfDigits 16 0 [a, b, c, d]).map fun n => (n, cs)
  | _ => none

/-- The character of an escape other than a code. -/
def escaped? : Char → Option Char
  | '"' => some '"'
  | '\\' => some '\\'
  | '/' => some '/'
  | 'b' => some '\x08'
  | 'f' => some '\x0c'
  | 'n' => some '\n'
  | 'r' => some '\r'
  | 't' => some '\t'
  | _ => none

/-- The outcome of reading a string: its text, nothing in its place if it cannot be read, and what
follows its closing quote. -/
abbrev StringPart := Option (Option (List Char) × List Char)

/-- Puts characters in front of a string that was read. -/
def StringPart.cons (c : Option Char) (p : StringPart) : StringPart :=
  p.map fun q => (match c, q.1 with
    | some c, some cs => some (c :: cs)
    | _, _ => none, q.2)

/-- The first half of a surrogate pair. -/
def isHighHalf (n : Nat) : Bool := 0xD800 ≤ n && n ≤ 0xDBFF

/-- The second half of a surrogate pair. -/
def isLowHalf (n : Nat) : Bool := 0xDC00 ≤ n && n ≤ 0xDFFF

/-- The rest of a string after its opening quote.  `fuel` bounds the number of characters. -/
def readString : (fuel : Nat) → List Char → StringPart
  | 0, _ => none
  | _, [] => none
  | fuel + 1, c :: cs =>
      if c = '"' then some (some [], cs)
      else if c.toNat < 32 then none
      else if c = '\\' then
        match cs with
        | 'u' :: r =>
            match hexCode? r with
            | none => none
            | some (n, r) =>
                if isHighHalf n then
                  match r with
                  | '\\' :: 'u' :: r' =>
                      match hexCode? r' with
                      | none => none
                      | some (m, r'') =>
                          if isLowHalf m then
                            StringPart.cons
                              (some (Char.ofNat (0x10000 + (n - 0xD800) * 1024 + (m - 0xDC00))))
                              (readString fuel r'')
                          else StringPart.cons none (readString fuel r)
                  | _ => StringPart.cons none (readString fuel r)
                else if isLowHalf n then StringPart.cons none (readString fuel r)
                else StringPart.cons (some (Char.ofNat n)) (readString fuel r)
        | e :: r =>
            match escaped? e with
            | some d => StringPart.cons (some d) (readString fuel r)
            | none => none
        | [] => none
      else StringPart.cons (some c) (readString fuel cs)

/-! ## Numbers -/

/-- Digits taken into a significand of 64 bits as long as they fit: the significand, the number of
digits taken, and what follows. -/
def takeDigits (significand taken : Nat) : List Char → Nat × Nat × List Char
  | [] => (significand, taken, [])
  | c :: cs =>
      if isDigit c then
        let s := significand * 10 + (c.toNat - '0'.toNat)
        if maxWord64 < s then (significand, taken, c :: cs) else takeDigits s (taken + 1) cs
      else (significand, taken, c :: cs)

/-- A floating point number times a power of ten that is one itself, or divided by it.  Nothing if
it is too large. -/
def scale (x : Binary64) (e : Int) : Option Binary64 :=
  let u := match x with
    | .finite _ u => u
    | _ => 0
  let power (n : Nat) : Nat := match Binary64.ofDecimal false 1 n with
    | .finite _ p => p
    | _ => 1
  if u = 0 then some x
  else if 0 ≤ e then
    if 308 < e then none
    else (some (Binary64.roundRatio false (u * power e.toNat) (Binary64.one * Binary64.one))).filter
      (·.isFinite)
  else
    let n := (-e).toNat
    if n ≤ 308 then some (Binary64.roundRatio false u (power n))
    else
      -- two divisions, and after the second no number of 64 bits is left but zero
      match Binary64.roundRatio false u (power 308) with
      | .finite _ v =>
          if n ≤ 616 then some (Binary64.roundRatio false v (power (n - 308)))
          else some (.finite false 0)
      | y => some y

/-- A number from its sign, significand and exponent. -/
def realLeaf (negative : Bool) (significand : Nat) (e : Int) : Tree :=
  match scale (Binary64.ofDecimal false significand 0) e with
  | some (.finite _ u) => .real (.finite negative u)
  | _ => .unreadable

/-- The greatest exponent that is read digit by digit. -/
def maxExponent : Nat := 2147483647

/-- An exponent after its letter, and the number it completes. -/
def readExponent (negative : Bool) (significand : Nat) (start : Int) (cs : List Char) :
    Tree × List Char :=
  let (minus, ds) := Binary64.readSign cs
  let digits := ds.takeWhile isDigit
  if digits = [] then (.broken, ds)
  else
    let rest := ds.dropWhile isDigit
    let n := Binary64.digitsNat 0 digits
    if maxExponent < n then
      (if significand ≠ 0 ∧ ¬ minus then .unreadable else .real (.finite negative 0), rest)
    else (realLeaf negative significand (start + (if minus then -(n : Int) else n)), rest)

/-- What follows the digits of a number: an exponent, or nothing. -/
def afterDigits (negative : Bool) (significand : Nat) (e : Int) : List Char → Tree × List Char
  | [] => (realLeaf negative significand e, [])
  | c :: cs =>
      if c = 'e' ∨ c = 'E' then readExponent negative significand e cs
      else (realLeaf negative significand e, c :: cs)

/-- The digits after a point. -/
def readFraction (negative : Bool) (significand : Nat) (e : Int) (cs : List Char) :
    Tree × List Char :=
  let (s, taken, rest) := takeDigits significand 0 cs
  if cs.takeWhile isDigit = [] then (.broken, cs)
  else afterDigits negative s (e - taken) (rest.dropWhile isDigit)

/-- A whole number, if 64 bits hold it; a negative zero and a number below the least are floating
point numbers. -/
def wholeLeaf (negative : Bool) (n : Nat) : Tree :=
  if negative then
    if n = 0 ∨ maxInt64 + 1 < n then realLeaf true n 0 else .int (-(n : Int))
  else .int n

/-- What follows the whole part of a number. -/
def afterWhole (negative : Bool) (significand : Nat) (dropped : Nat) (cs : List Char) :
    Tree × List Char :=
  match cs with
  | '.' :: r => readFraction negative significand dropped r
  | c :: r =>
      if c = 'e' ∨ c = 'E' then readExponent negative significand dropped r
      else if dropped = 0 then (wholeLeaf negative significand, cs)
      else (realLeaf negative significand dropped, cs)
  | [] =>
      if dropped = 0 then (wholeLeaf negative significand, [])
      else (realLeaf negative significand dropped, [])

/-- A number after its sign. -/
def readNumber (negative : Bool) : List Char → Tree × List Char
  | '0' :: cs =>
      if (cs.head?.map isDigit).getD false then (.broken, cs) else afterWhole negative 0 0 cs
  | c :: cs =>
      if isDigit c then
        let (s, _, rest) := takeDigits 0 0 (c :: cs)
        afterWhole negative s (rest.takeWhile isDigit).length (rest.dropWhile isDigit)
      else (.broken, c :: cs)
  | [] => (.broken, [])

/-! ## Values -/

/-- A word, if the text starts with it. -/
def readWord (word : String) (t : Tree) (cs : List Char) : Tree × List Char :=
  match dropLead word.toList cs with
  | some r => (t, r)
  | none => (.broken, cs)

/-- Nothing of the value is missing. -/
def Tree.isWhole : Tree → Bool
  | .broken => false
  | .list _ closed => closed
  | .record _ closed => closed
  | _ => true

mutual

/-- A value and what follows it.  Every step takes up a character, so `fuel` is their number. -/
def readValue : (fuel : Nat) → List Char → Tree × List Char
  | 0, cs => (.broken, cs)
  | fuel + 1, cs =>
      match cs.dropWhile isGap with
      | [] => (.broken, [])
      | '"' :: r =>
          match readString (r.length + 1) r with
          | some (some s, r) => (.text (String.ofList s), r)
          | some (none, r) => (.unreadable, r)
          | none => (.broken, r)
      | '[' :: r =>
          match r.dropWhile isGap with
          | ']' :: r => (.list [] true, r)
          | r =>
              let (items, closed, r) := readItems fuel r
              (.list items closed, r)
      | '\x7b' :: r =>
          match r.dropWhile isGap with
          | '\x7d' :: r => (.record [] true, r)
          | r =>
              let (fields, closed, r) := readFields fuel r
              (.record fields closed, r)
      | 't' :: r => readWord "rue" (.bool true) r
      | 'f' :: r => readWord "alse" (.bool false) r
      | 'n' :: r => readWord "ull" .null r
      | '-' :: r => readNumber true r
      | r => readNumber false r

/-- The items of a list after its bracket, whether it is closed, and what follows. -/
def readItems : (fuel : Nat) → List Char → List Tree × Bool × List Char
  | 0, cs => ([], false, cs)
  | fuel + 1, cs =>
      let (t, r) := readValue fuel cs
      if t.isWhole then
        match r.dropWhile isGap with
        | ',' :: r =>
            let (ts, closed, r) := readItems fuel r
            (t :: ts, closed, r)
        | ']' :: r => ([t], true, r)
        | r => ([t], false, r)
      else ([t], false, r)

/-- The fields of a record after its brace, whether it is closed, and what follows. -/
def readFields : (fuel : Nat) → List Char → List (String × Tree) × Bool × List Char
  | 0, cs => ([], false, cs)
  | fuel + 1, cs =>
      match cs.dropWhile isGap with
      | '"' :: r =>
          match readString (r.length + 1) r with
          | some (some k, r) =>
              let key := String.ofList k
              match r.dropWhile isGap with
              | ':' :: r =>
                  let (t, r) := readValue fuel r
                  if t.isWhole then
                    match r.dropWhile isGap with
                    | ',' :: r =>
                        let (fs, closed, r) := readFields fuel r
                        ((key, t) :: fs, closed, r)
                    | '\x7d' :: r => ([(key, t)], true, r)
                    | r => ([(key, t)], false, r)
                  else ([(key, t)], false, r)
              | r => ([(key, .broken)], false, r)
          | _ => ([], false, r)
      | r => ([], false, r)

end

/-- The tree of a text, and whether nothing but blanks follows it. -/
def Tree.ofText (cs : List Char) : Tree × Bool :=
  let (t, r) := readValue (2 * cs.length + 2) cs
  (t, r.all isGap)

/-! ## Whole trees -/

/-- Lists and records may be nested that deep. -/
def maxDepth : Nat := 127

/-- A field put into fields that are sorted by their keys, replacing one with the same key. -/
def insertField (k : String) (v : Data) : List (Data × Data) → List (Data × Data)
  | [] => [(.text k, v)]
  | (.text j, w) :: fs =>
      if k = j then (.text k, v) :: fs
      else if k < j then (.text k, v) :: (.text j, w) :: fs
      else (.text j, w) :: insertField k v fs
  | f :: fs => f :: insertField k v fs

mutual

/-- The value of a tree, if it is whole, readable and not nested too deeply.  Fields are sorted by
their keys, and the last of several with one key counts. -/
def Tree.data? (room : Nat) : Tree → Option Data
  | .null => some .null
  | .bool b => some (.bool b)
  | .int n => some (.int n)
  | .real x => some (.real x)
  | .text s => some (.text s)
  | .list items closed =>
      if closed ∧ 0 < room then (itemsData? (room - 1) items).map .list else none
  | .record fields closed =>
      if closed ∧ 0 < room then (fieldsData? (room - 1) [] fields).map .record else none
  | .unreadable => none
  | .broken => none
termination_by structural t => t

/-- The values of the items of a list. -/
def itemsData? (room : Nat) : List Tree → Option (List Data)
  | [] => some []
  | t :: ts =>
      match t.data? room, itemsData? room ts with
      | some d, some ds => some (d :: ds)
      | _, _ => none
termination_by structural ts => ts

/-- The fields of a record after those before, sorted. -/
def fieldsData? (room : Nat) (before : List (Data × Data)) :
    List (String × Tree) → Option (List (Data × Data))
  | [] => some before
  | (k, t) :: fs =>
      match t.data? room with
      | some d => fieldsData? room (insertField k d before) fs
      | none => none
termination_by structural fs => fs

end

/-- The value of a JSON text. -/
def read? (cs : List Char) : Option Data :=
  match Tree.ofText cs with
  | (t, true) => t.data? maxDepth
  | _ => none

end Runbook.Json
