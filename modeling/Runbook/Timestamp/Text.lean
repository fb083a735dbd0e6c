import Runbook.Timestamp
import Runbook.Text.Blank
import Runbook.Text.Ascii

/-!
# Timestamps in text

The written form is that of RFC 3339 in UTC with a `Z`.  The fraction has as few of none, three,
six or nine digits as hold it, and a year outside four digits has a sign.

There are two readings.  The strict one takes the form of the standard and nothing around it.  The
relaxed one allows blanks between the parts, single digits, signed years of any length, the word
`UTC`, and blanks or several colons within the offset.  Both name the first thing that is wrong:
text that ends too early, a character that does not fit, a number out of its range, text left over,
or a time that no offset leads to.
-/

namespace Runbook.Timestamp

open Runbook.Text

/-! ## Writing -/

/-- A number with at least `width` digits. -/
def padded (width n : Nat) : String :=
  let ds := Nat.toDigits 10 n
  String.ofList (List.replicate (width - ds.length) '0' ++ ds)

/-- The fraction of a second, in groups of three digits. -/
def fractionText (nanos : Nat) : String :=
  if nanos = 0 then ""
  else if nanos % 1000000 = 0 then "." ++ padded 3 (nanos / 1000000)
  else if nanos % 1000 = 0 then "." ++ padded 6 (nanos / 1000)
  else "." ++ padded 9 nanos

/-- A year: four digits, or a sign and at least four. -/
def yearText (y : Int) : String :=
  if 0 ≤ y ∧ y ≤ 9999 then padded 4 y.toNat
  else if 0 ≤ y then "+" ++ padded 4 y.toNat
  else "-" ++ padded 4 (-y).toNat

/-- The written form. -/
def text (t : Timestamp) : String :=
  let d := Date.ofDays t.day
  let s := t.secondOfDay
  let leap := if perSecond ≤ t.nanos then 1 else 0
  yearText d.year ++ "-" ++ padded 2 d.month ++ "-" ++ padded 2 d.day ++ "T" ++
    padded 2 (s / 3600) ++ ":" ++ padded 2 (s / 60 % 60) ++ ":" ++ padded 2 (s % 60 + leap) ++
    fractionText (t.nanos - leap * perSecond) ++ "Z"

/-! ## What can be wrong -/

/-- Why a text is no timestamp. -/
inductive Flaw where
  /-- The text ends too early. -/
  | tooShort
  /-- A character does not fit. -/
  | misfit
  /-- A number is out of its range. -/
  | outOfRange
  /-- Text is left over. -/
  | tooLong
  /-- No time has this local form at this offset. -/
  | impossible
  deriving DecidableEq, Repr

/-- The wording of a flaw. -/
def Flaw.message : Flaw → String
  | .tooShort => "premature end of input"
  | .misfit => "input contains invalid characters"
  | .outOfRange => "input is out of range"
  | .tooLong => "trailing input"
  | .impossible => "no possible date and time matching input"

/-! ## Reading the parts -/

/-- A reading of the front of a text: a value and the text left. -/
abbrev Part (α : Type) := List Char → Except Flaw (α × List Char)

/-- The bound of the numbers that are accumulated while reading. -/
def accumulated : Nat := 9223372036854775807

/-- Digits after `seen` of them, at most `room` more.  Fewer than `least` are a misfit. -/
def moreDigits (least : Nat) : (room : Option Nat) → (seen value : Nat) → Part Nat
  | some 0, _, value, cs => .ok (value, cs)
  | _, _, value, [] => .ok (value, [])
  | room, seen, value, c :: cs =>
      if isDigit c then
        let v := value * 10 + (c.toNat - '0'.toNat)
        if accumulated < v then .error .outOfRange
        else moreDigits least (room.map (· - 1)) (seen + 1) v cs
      else if seen < least then .error .misfit
      else .ok (value, c :: cs)
termination_by _ _ _ cs => cs.length

/-- The number of bytes a text takes up, where only its size against a small bound matters. -/
def byteCount (cs : List Char) : Nat := cs.foldr (fun c n => c.utf8Size + n) 0

/-- A number of at least `least` and at most `most` digits. -/
def number (least : Nat) (most : Option Nat) : Part Nat := fun cs =>
  if byteCount cs < least then .error .tooShort else moreDigits least most 0 0 cs

/-- A number between two bounds. -/
def within (low high : Nat) (p : Part Nat) : Part Nat := fun cs => do
  let (n, rest) ← p cs
  if low ≤ n ∧ n ≤ high then .ok (n, rest) else .error .outOfRange

/-- One given character. -/
def mark (c : Char) : Part Unit
  | [] => .error .tooShort
  | d :: rest => if d = c then .ok ((), rest) else .error .misfit

/-- The digits of a fraction.  Digits after the ninth are passed over. -/
def fractionDigits : Part Nat := fun cs => do
  let (n, rest) ← number 1 (some 9) cs
  let seen := cs.length - rest.length
  .ok (n * Nat.pow 10 (9 - seen), rest.dropWhile isDigit)

/-- A fraction, if a point announces one. -/
def fraction : Part Nat
  | '.' :: cs => fractionDigits cs
  | cs => .ok (0, cs)

/-- The letter or blank between date and time. -/
def divider : Part Unit
  | [] => .error .tooShort
  | c :: rest => if c = 't' ∨ c = 'T' ∨ c = ' ' then .ok ((), rest) else .error .misfit

/-- Two ASCII digits, given the reason when the second cannot follow. -/
def twoDigits (isFirst : Char → Bool) : Part Nat
  | a :: b :: rest =>
      if isDigit a && isDigit b then
        if isFirst a then .ok ((a.toNat - 48) * 10 + (b.toNat - 48), rest)
        else .error .outOfRange
      else .error .misfit
  | [c] => if byteCount [c] < 2 then .error .tooShort else .error .misfit
  | [] => .error .tooShort

/-- An offset from UTC in seconds: `Z`, or a sign, hours, what `between` takes, and minutes. -/
def offset (between : Part Unit) : Part Int
  | [] => .error .tooShort
  | c :: rest =>
      if c = 'Z' ∨ c = 'z' then .ok (0, rest)
      else if c = '+' ∨ c = '-' ∨ c = '−' then do
        let (h, rest) ← twoDigits (fun _ => true) rest
        let ((), rest) ← between rest
        let (m, rest) ← twoDigits (· ≤ '5') rest
        let n : Int := h * 3600 + m * 60
        .ok (if c = '+' then n else -n, rest)
      else .error .misfit

/-- Colons and blanks, any number of them. -/
def colonsOrBlanks : Part Unit := fun cs => .ok ((), cs.dropWhile fun c => c == ':' || isBlank c)

/-! ## The parts put together -/

/-- The fields of a timestamp as they are written. -/
structure Fields where
  /-- The year. -/
  year : Int
  /-- The month. -/
  month : Nat
  /-- The day of the month. -/
  day : Nat
  /-- The hour. -/
  hour : Nat
  /-- The minute. -/
  minute : Nat
  /-- The second, sixty in a leap second. -/
  second : Nat
  /-- The fraction in nanoseconds. -/
  nano : Nat
  /-- Seconds that local time is ahead of UTC. -/
  ahead : Int

/-- The point in time that fields name. -/
def ofFields (f : Fields) : Except Flaw Timestamp :=
  let date : Date := ⟨f.year, f.month, f.day⟩
  if !date.isValid then .error .outOfRange
  else if f.ahead ≤ -86400 ∨ 86400 ≤ f.ahead then .error .outOfRange
  else
    let leap := if f.second = 60 then 1 else 0
    let seconds : Int :=
      date.toDays * perDay + f.hour * 3600 + f.minute * 60 + (f.second - leap : Nat) - f.ahead
    if isHeld seconds then .ok ⟨seconds, f.nano + leap * perSecond⟩ else .error .impossible

/-- The strict reading. -/
def readStrict (cs : List Char) : Except Flaw Timestamp := do
  let (year, cs) ← number 4 (some 4) cs
  let ((), cs) ← mark '-' cs
  let (month, cs) ← within 1 12 (number 2 (some 2)) cs
  let ((), cs) ← mark '-' cs
  let (day, cs) ← within 1 31 (number 2 (some 2)) cs
  let ((), cs) ← divider cs
  let (hour, cs) ← within 0 23 (number 2 (some 2)) cs
  let ((), cs) ← mark ':' cs
  let (minute, cs) ← within 0 59 (number 2 (some 2)) cs
  let ((), cs) ← mark ':' cs
  let (second, cs) ← within 0 60 (number 2 (some 2)) cs
  let (nano, cs) ← fraction cs
  let (ahead, cs) ← offset (mark ':') cs
  if ahead ≤ -86400 ∨ 86400 ≤ ahead then .error .outOfRange
  else if cs ≠ [] then .error .tooLong
  else ofFields ⟨year, month, day, hour, minute, second, nano, ahead⟩

/-- The greatest year that a reading takes before it is held against the calendar. -/
def maxFieldYear : Nat := 2147483647

/-- A year: up to four digits, or a sign and any number of them. -/
def relaxedYear : Part Int := fun cs =>
  match trimStart cs with
  | '-' :: r => do
      let (n, rest) ← number 1 none r
      if n ≤ maxFieldYear + 1 then .ok (-(n : Int), rest) else .error .outOfRange
  | '+' :: r => do
      let (n, rest) ← number 1 none r
      if n ≤ maxFieldYear then .ok ((n : Int), rest) else .error .outOfRange
  | r => do
      let (n, rest) ← number 1 (some 4) r
      .ok ((n : Int), rest)

/-- One or two digits after blanks. -/
def relaxedField (low high : Nat) : Part Nat := fun cs =>
  within low high (number 1 (some 2)) (trimStart cs)

/-- A given character after blanks. -/
def relaxedMark (c : Char) : Part Unit := fun cs => mark c (trimStart cs)

/-- An offset after blanks, or the word `UTC`. -/
def relaxedOffset : Part Int := fun cs =>
  match trimStart cs with
  | a :: b :: c :: rest =>
      if lowerAscii [a, b, c] = ['u', 't', 'c'] then .ok (0, rest)
      else offset colonsOrBlanks (a :: b :: c :: rest)
  | cs => offset colonsOrBlanks cs

/-- The relaxed reading. -/
def readRelaxed (cs : List Char) : Except Flaw Timestamp := do
  let (year, cs) ← relaxedYear cs
  let ((), cs) ← relaxedMark '-' cs
  let (month, cs) ← relaxedField 1 12 cs
  let ((), cs) ← relaxedMark '-' cs
  let (day, cs) ← relaxedField 1 31 cs
  let ((), cs) ← divider cs
  let (hour, cs) ← relaxedField 0 23 cs
  let ((), cs) ← relaxedMark ':' cs
  let (minute, cs) ← relaxedField 0 59 cs
  let ((), cs) ← relaxedMark ':' cs
  let (second, cs) ← relaxedField 0 60 cs
  let (nano, cs) ← fraction cs
  let (ahead, cs) ← relaxedOffset cs
  if trimStart cs ≠ [] then .error .tooLong
  else ofFields ⟨year, month, day, hour, minute, second, nano, ahead⟩

end Runbook.Timestamp
