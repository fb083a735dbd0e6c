import Runbook.Text.Integer
import Runbook.Text.Utf8
import Runbook.Yaml.Cursor
import Runbook.Yaml.Token

/-!
# Names, tags and directives of YAML

The smaller tokens: anchors and aliases, tags with their handles, and the two directives.  Each
reader starts behind the character that announces the token.
-/

namespace Runbook.Yaml

open Runbook.Text

/-! ## Names -/

/-- A character that may follow the name of an anchor without a blank. -/
def endsName (c : Char) : Bool :=
  c == '?' || c == ':' || c == ',' || c == ']' || c == '\x7d' || c == '%' || c == '@' || c == '`'

/-- The name of an anchor or reference. -/
def anchorName (c : Cursor) : Option (List Char × Cursor) :=
  let (name, c) := c.span isWord
  if name.isEmpty then none
  else if c.gapAhead 0 || (c.head?.map endsName).getD false then some (name, c)
  else none

/-! ## Tags -/

/-- A character of a tag, those of flow collections aside. -/
def isTagChar (c : Char) : Bool :=
  isWord c || c == ';' || c == '/' || c == '?' || c == ':' || c == '@' || c == '&' || c == '=' ||
    c == '+' || c == '$' || c == '.' || c == '!' || c == '~' || c == '*' || c == '\'' ||
    c == '(' || c == ')' || c == '%'

/-- The byte of an escape after its percent sign. -/
def escapedByte (c : Cursor) : Option (UInt8 × Cursor) :=
  let digits := c.rest.take 2
  if digits.length = 2 then (readNat? 16 digits).map fun n => (n.toUInt8, c.steps 2) else none

/-- The escaped bytes of one character, which is as long as its first byte says. -/
def escapedBytes : (fuel : Nat) → Cursor → Option (List UInt8 × Cursor)
  | 0, c => some ([], c)
  | fuel + 1, c =>
      if c.at? '%' then
        match escapedByte c.step with
        | none => none
        | some (b, c) =>
            if b.toNat / 64 = 2 then (escapedBytes fuel c).map fun p => (b :: p.1, p.2) else none
      else none

/-- An escaped character of a tag. -/
def escapedChar (c : Cursor) : Option (Char × Cursor) :=
  match escapedByte c.step with
  | none => none
  | some (b, c) =>
      let n := b.toNat
      let follow := if n < 0x80 then some 0 else if n / 32 = 6 then some 1
        else if n / 16 = 14 then some 2 else if n / 8 = 30 then some 3 else none
      match follow with
      | none => none
      | some k =>
          match escapedBytes k c with
          | none => none
          | some (bs, c) =>
              match decodeStrict? (b :: bs) with
              | some [d] => some (d, c)
              | _ => none

/-- The characters of a tag.  Inside pointed brackets and directives the marks of flow collections
are among them. -/
def tagChars (wide : Bool) : (fuel : Nat) → Cursor → Option (List Char × Cursor)
  | 0, _ => none
  | fuel + 1, c =>
      match c.head? with
      | none => some ([], c)
      | some d =>
          if d == '%' then
            match escapedChar c with
            | none => none
            | some (e, c) => (tagChars wide fuel c).map fun p => (e :: p.1, p.2)
          else if isTagChar d || (wide && (d == ',' || d == '[' || d == ']')) then
            (tagChars wide fuel c.step).map fun p => (d :: p.1, p.2)
          else some ([], c)

/-- The handle of a tag: an exclamation mark, perhaps a name, and perhaps a second mark. -/
def tagHandle (c : Cursor) : Option (List Char × Cursor) :=
  if c.at? '!' then
    let (name, c) := c.step.span isWord
    if c.at? '!' then some ('!' :: name ++ ['!'], c.step) else some ('!' :: name, c)
  else none

/-- A tag has to end here. -/
def tagEnds (inFlow : Bool) (c : Cursor) : Bool := c.gapAhead 0 || (inFlow && c.at? ',')

/-- A tag that is written out in pointed brackets. -/
def verbatimTag (c : Cursor) : Option (Token × Cursor) :=
  match tagChars true (c.rest.length + 1) c with
  | some (rest, c) => if rest.isEmpty || !c.at? '>' then none else some (.tag [] rest, c.step)
  | none => none

/-- A tag with a handle.  A handle without a second mark is the start of the rest. -/
def handledTag (c : Cursor) : Option (Token × Cursor) :=
  match tagHandle c with
  | none => none
  | some (handle, c) =>
      match tagChars false (c.rest.length + 1) c with
      | none => none
      | some (rest, c) =>
          if 2 ≤ handle.length ∧ handle.getLast? = some '!' then
            if rest.isEmpty then none else some (.tag handle rest, c)
          else
            let whole := handle.tail ++ rest
            some (if whole.isEmpty then .tag [] ['!'] else .tag ['!'] whole, c)

/-- A tag, its mark included. -/
def readTag (inFlow : Bool) (c : Cursor) : Option (Token × Cursor) :=
  let found := if c.ahead? 1 == some '<' then verbatimTag (c.steps 2) else handledTag c
  match found with
  | some (t, c) => if tagEnds inFlow c then some (t, c) else none
  | none => none

/-! ## Directives -/

/-- A number of a version: at most nine digits. -/
def versionNumber (c : Cursor) : Option (Nat × Cursor) :=
  let (digits, c) := c.span isDigit
  if digits.isEmpty || 9 < digits.length then none
  else (readNat? 10 digits).map fun n => (n, c)

/-- The value of a directive with a version. -/
def versionDirective (c : Cursor) : Option (Token × Cursor) :=
  match versionNumber c.skipSpaces with
  | none => none
  | some (major, c) =>
      if c.at? '.' then (versionNumber c.step).map fun p => (.version major p.1, p.2) else none

/-- The value of a directive for tags. -/
def tagDirective (c : Cursor) : Option (Token × Cursor) :=
  match tagHandle c.skipSpaces with
  | none => none
  | some (handle, c) =>
      if (handle != ['!'] && handle.getLast? != some '!') || !c.atSpace then none
      else
        let c := c.skipSpaces
        match tagChars true (c.rest.length + 1) c with
        | none => none
        | some (lead, c) =>
            if lead.isEmpty || !c.gapAhead 0 then none else some (.tagDirective handle lead, c)

/-- A directive after its percent sign, up to the start of the next line. -/
def readDirective (c : Cursor) : Option (Token × Cursor) :=
  let (name, c) := c.span isWord
  if name.isEmpty || !c.gapAhead 0 then none
  else
    let found :=
      if name = "YAML".toList then versionDirective c
      else if name = "TAG".toList then tagDirective c
      else none
    match found with
    | none => none
    | some (t, c) =>
        let c := c.skipSpaces.skipComment
        if c.atLineEnd then some (t, c.lineEnd.2) else none

end Runbook.Yaml
