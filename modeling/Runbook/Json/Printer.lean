import Runbook.Binary64.Shortest
import Runbook.Data

/-!
# Writing JSON

Two layouts of the same values: `compact` without blanks, and `pretty` with one item or field to a
line and an indentation of two blanks.  In strings the quote, the backslash and the control
characters are escaped, five of them by a letter and the others by their code.
-/

namespace Runbook.Json

/-- A hexadecimal digit. -/
def hexDigit (n : Nat) : Char := (Nat.toDigits 16 n).headD '0'

/-- A character within a string. -/
def stringChar (c : Char) : List Char :=
  if c = '"' then ['\\', '"']
  else if c = '\\' then ['\\', '\\']
  else if c = '\x08' then ['\\', 'b']
  else if c = '\x0c' then ['\\', 'f']
  else if c = '\n' then ['\\', 'n']
  else if c = '\r' then ['\\', 'r']
  else if c = '\t' then ['\\', 't']
  else if c.toNat < 32 then
    ['\\', 'u', '0', '0', hexDigit (c.toNat / 16), hexDigit (c.toNat % 16)]
  else [c]

/-- A string in quotes. -/
def quoted (s : String) : List Char := '"' :: s.toList.flatMap stringChar ++ ['"']

/-- A value that is no list and no record.  Tags are left out. -/
def scalarChars : Data → List Char
  | .null => "null".toList
  | .bool true => "true".toList
  | .bool false => "false".toList
  | .int n => (toString n).toList
  | .real x => if x.isFinite then x.text.toList else "null".toList
  | .text s => quoted s
  | _ => []

/-- A key.  Keys other than texts are written as texts. -/
def keyChars : Data → List Char
  | .text s => quoted s
  | d => quoted (String.ofList (scalarChars d))

/-- Pieces with a separator between them. -/
def joined (sep : List Char) (pieces : List (List Char)) : List Char :=
  (pieces.intersperse sep).flatten

mutual

/-- A value without blanks. -/
def compactChars : Data → List Char
  | .list items => '[' :: joined [','] (compactItems items) ++ [']']
  | .record fields => '\x7b' :: joined [','] (compactFields fields) ++ ['\x7d']
  | .tagged _ v => compactChars v
  | d => scalarChars d
termination_by structural d => d

/-- The items of a list without blanks. -/
def compactItems : List Data → List (List Char)
  | [] => []
  | d :: ds => compactChars d :: compactItems ds
termination_by structural ds => ds

/-- The fields of a record without blanks. -/
def compactFields : List (Data × Data) → List (List Char)
  | [] => []
  | (k, v) :: fs => (keyChars k ++ ':' :: compactChars v) :: compactFields fs
termination_by structural fs => fs

end

/-- A line end and the blanks of an indentation. -/
def newLine (depth : Nat) : List Char := '\n' :: List.replicate (2 * depth) ' '

mutual

/-- A value over several lines, at a depth. -/
def prettyChars (depth : Nat) : Data → List Char
  | .list items =>
      if items.isEmpty then ['[', ']']
      else '[' :: joined [','] (prettyItems (depth + 1) items) ++ newLine depth ++ [']']
  | .record fields =>
      if fields.isEmpty then ['\x7b', '\x7d']
      else '\x7b' :: joined [','] (prettyFields (depth + 1) fields) ++ newLine depth ++ ['\x7d']
  | .tagged _ v => prettyChars depth v
  | d => scalarChars d
termination_by structural d => d

/-- The items of a list, each on a line of its own. -/
def prettyItems (depth : Nat) : List Data → List (List Char)
  | [] => []
  | d :: ds => (newLine depth ++ prettyChars depth d) :: prettyItems depth ds
termination_by structural ds => ds

/-- The fields of a record, each on a line of its own. -/
def prettyFields (depth : Nat) : List (Data × Data) → List (List Char)
  | [] => []
  | (k, v) :: fs =>
      (newLine depth ++ keyChars k ++ ':' :: ' ' :: prettyChars depth v) :: prettyFields depth fs
termination_by structural fs => fs

end

/-- The text of a value without blanks. -/
def compact (d : Data) : String := String.ofList (compactChars d)

/-- The text of a value over several lines. -/
def pretty (d : Data) : String := String.ofList (prettyChars 0 d)

end Runbook.Json
