import Runbook.Text.Integer
import Runbook.Yaml.Cursor
import Runbook.Yaml.Scalar

/-!
# Ways to write a text in YAML

A text is written plainly where it then reads as itself and holds no mark of the notation.  Of
several lines it is written as a block, unless blanks before a line end or hidden characters stand
against it.  A text that would be taken for something else is put in single quotes, and what single
quotes cannot hold in double ones.
-/

namespace Runbook.Yaml

/-- A way to write a text. -/
inductive Style where
  | plain
  | singleQuoted
  | doubleQuoted
  | block
  deriving DecidableEq, Repr

/-! ## What is in a text -/

/-- A character that is written as it is. -/
def isShown (c : Char) : Bool :=
  let n := c.toNat
  n == 10 || (0x20 ≤ n && n ≤ 0x7E) || (0xA0 ≤ n && n ≤ 0xFFFD && n != 0xFEFF) || 0x10000 ≤ n

/-- A blank, a line end, the end of the text, or the character zero. -/
def isGapOrEnd : Option Char → Bool
  | some c => isSpace c || isBreak c || c.toNat == 0
  | none => true

/-- A character that cannot start a plain text, given the one after it. -/
def isBadStart (c : Char) (next : Option Char) : Bool :=
  "#,[]\x7b\x7d&*!|>'\"%@`".toList.contains c ||
    ((c == '?' || c == ':' || c == '-') && isGapOrEnd next)

/-- Within a text, a colon before a gap or a number sign behind one. -/
def hasInnerMark (before : Char) : List Char → Bool
  | [] => false
  | c :: cs =>
      (c == ':' && isGapOrEnd cs.head?) || (c == '#' && isGapOrEnd (some before)) ||
        hasInnerMark c cs

/-- The text has marks that keep it from being plain. -/
def hasMarks : List Char → Bool
  | [] => false
  | c :: cs =>
      (c :: cs).take 3 == ['-', '-', '-'] || (c :: cs).take 3 == ['.', '.', '.'] ||
        isBadStart c cs.head? || hasInnerMark c cs

/-- Somewhere a character that passes one test is followed by one that passes another. -/
def hasNeighbours (p q : Char → Bool) : List Char → Bool
  | c :: d :: cs => (p c && q d) || hasNeighbours p q (d :: cs)
  | _ => false

/-- A blank. -/
def isBlankChar (c : Char) : Bool := c == ' '

/-- The text starts or ends with a blank or line end. -/
def hasLooseEnds (cs : List Char) : Bool :=
  let loose (c : Option Char) : Bool := (c.map fun c => isBlankChar c || isBreak c).getD false
  loose cs.head? || loose cs.getLast?

/-- Only double quotes can hold the text: a hidden character is in it, or a line ends with a
blank. -/
def needsEscapes (cs : List Char) : Bool :=
  !cs.all isShown || hasNeighbours isBlankChar isBreak cs

/-! ## The way that is taken -/

/-- Written plainly, the text would not read as itself everywhere: digits after a leading zero are
a number to some readers. -/
def isTakenOtherwise (cs : List Char) : Bool :=
  isPaddedNumber cs ||
    match resolve? cs with
    | some (.text _) => false
    | _ => true

/-- The way a text is written. -/
def Style.ofText (cs : List Char) : Style :=
  let quoted : Style :=
    if needsEscapes cs || hasNeighbours isBreak isBlankChar cs then .doubleQuoted
    else .singleQuoted
  if cs.contains '\n' then
    if needsEscapes cs || cs.getLast? == some ' ' then .doubleQuoted else .block
  else if isTakenOtherwise cs || hasLooseEnds cs || needsEscapes cs || cs.any isBreak ||
      hasMarks cs then quoted
  else .plain

/-! ## Written texts -/

/-- The letter of an escape that has one. -/
def escapeLetter? (c : Char) : Option Char :=
  match c.toNat with
  | 0 => some '0'
  | 7 => some 'a'
  | 8 => some 'b'
  | 9 => some 't'
  | 10 => some 'n'
  | 11 => some 'v'
  | 12 => some 'f'
  | 13 => some 'r'
  | 0x1B => some 'e'
  | 0x22 => some '"'
  | 0x5C => some '\\'
  | 0x85 => some 'N'
  | 0xA0 => some '_'
  | 0x2028 => some 'L'
  | 0x2029 => some 'P'
  | _ => none

/-- A number in capital hexadecimal digits of a fixed width. -/
def hexCapital (width n : Nat) : List Char :=
  let ds := (Nat.toDigits 16 n).map Char.toUpper
  List.replicate (width - ds.length) '0' ++ ds

/-- A character within double quotes. -/
def doubleQuotedChar (c : Char) : List Char :=
  if !isShown c || isBreak c || c == '"' || c == '\\' then
    match escapeLetter? c with
    | some l => ['\\', l]
    | none =>
        let n := c.toNat
        if n ≤ 0xFF then '\\' :: 'x' :: hexCapital 2 n
        else if n ≤ 0xFFFF then '\\' :: 'u' :: hexCapital 4 n
        else '\\' :: 'U' :: hexCapital 8 n
  else [c]

/-- A text in double quotes. -/
def doubleQuoted (cs : List Char) : List Char := '"' :: cs.flatMap doubleQuotedChar ++ ['"']

/-- Characters with the lines after the first one indented, except for empty ones.  `fresh` says
that a line starts. -/
def indented (indent : Nat) (write : Char → List Char) (fresh : Bool) : List Char → List Char
  | [] => []
  | c :: cs =>
      if isBreak c then c :: indented indent write true cs
      else
        (if fresh then List.replicate indent ' ' else []) ++ write c ++
          indented indent write false cs

/-- The text ends with a line end. -/
def endsWithBreak (cs : List Char) : Bool := (cs.getLast?.map isBreak).getD false

/-- A text in single quotes.  Further lines, and the closing quote, are indented. -/
def singleQuoted (indent : Nat) (cs : List Char) : List Char :=
  let write (c : Char) : List Char := if c == '\'' then ['\'', '\''] else [c]
  '\'' :: indented indent write false cs ++
    (if endsWithBreak cs then List.replicate indent ' ' else []) ++ ['\'']

/-- The head of a block: its mark, the indentation if the text starts with a blank or line end, and
how the end of the text is to be taken. -/
def blockHead (cs : List Char) : List Char :=
  let starts := (cs.head?.map fun c => isBlankChar c || isBreak c).getD false
  let chomp : List Char :=
    if !endsWithBreak cs then ['-']
    else if cs.length = 1 ∨ endsWithBreak cs.dropLast then ['+']
    else []
  '|' :: (if starts then ['2'] else []) ++ chomp

/-- A text as a block. -/
def blockChars (indent : Nat) (cs : List Char) : List Char :=
  blockHead cs ++ '\n' :: indented indent (fun c => [c]) true cs

/-- A written text, and whether a line is left open behind it. -/
def textChars (indent : Nat) (cs : List Char) : List Char × Bool :=
  match Style.ofText cs with
  | .plain => (cs, true)
  | .singleQuoted => (singleQuoted indent cs, true)
  | .doubleQuoted => (doubleQuoted cs, true)
  | .block => (blockChars indent cs, !endsWithBreak cs)

end Runbook.Yaml
