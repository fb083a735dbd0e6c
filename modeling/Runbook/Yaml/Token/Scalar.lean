import Runbook.Text.Integer
import Runbook.Yaml.Cursor

/-!
# Texts within YAML

A text is written plainly, in single or double quotes, or as a block of lines.  Within the first
three, a line end with the blanks around it is *folded*: one line end counts as a blank, of several
the first is dropped.  A block keeps its line ends or folds them, and the end of it is cut as its
head says.

Every reader takes fuel; the length of the text that is left is always enough.
-/

namespace Runbook.Yaml

/-! ## Gaps between words -/

/-- Blanks and line ends between words. -/
structure Gap where
  /-- A line end is among them. -/
  folded : Bool
  /-- The blanks, as long as there is no line end. -/
  blanks : List Char
  /-- The first line end. -/
  first : List Char
  /-- The further line ends. -/
  later : List Char

namespace Gap

/-- Nothing yet. -/
def empty : Gap := ⟨false, [], [], []⟩

/-- Nothing yet, behind an escaped line end. -/
def escaped : Gap := ⟨true, [], [], []⟩

/-- What a gap is read as. -/
def text (g : Gap) : List Char :=
  if g.folded then
    if g.first = ['\n'] then (if g.later = [] then [' '] else g.later) else g.first ++ g.later
  else g.blanks

/-- Reads blanks and line ends.  A tab on a further line left of column `least` is refused. -/
def read (least : Int) : (fuel : Nat) → Gap → Cursor → Option (Gap × Cursor)
  | 0, _, _ => none
  | fuel + 1, g, c =>
      match c.head? with
      | none => some (g, c)
      | some d =>
          if isSpace d then
            if g.folded then
              if d == '\t' && c.column < least then none else read least fuel g c.step
            else read least fuel { g with blanks := g.blanks ++ [d] } c.step
          else if isBreak d then
            let (b, c) := c.lineEnd
            if g.folded then read least fuel { g with later := g.later ++ b } c
            else read least fuel ⟨true, [], b, []⟩ c
          else some (g, c)

end Gap

/-! ## Plain texts -/

/-- A character that cannot follow a colon in a flow collection. -/
def isFlowMark (c : Char) : Bool := c == ',' || c == '[' || c == ']' || c == '\x7b' || c == '\x7d'

/-- The characters of a plain text up to the next gap, and whether it goes on behind that gap.
Nothing if a colon stands where it may not. -/
def plainWord (inFlow : Bool) : (fuel : Nat) → Cursor → Option (List Char × Cursor)
  | 0, _ => none
  | fuel + 1, c =>
      match c.head? with
      | none => some ([], c)
      | some d =>
          if isSpace d || isBreak d then some ([], c)
          else if inFlow && d == ':' &&
              ((c.ahead? 1).map fun e => isFlowMark e || e == '?').getD false then none
          else if (d == ':' && c.gapAhead 1) || (inFlow && isFlowMark d) then some ([], c)
          else (plainWord inFlow fuel c.step).map fun p => (d :: p.1, p.2)

/-- A plain text, the place behind it, and whether a line end was passed after its last word. -/
def plainText (inFlow : Bool) (indent : Int) :
    (fuel : Nat) → Gap → Cursor → Option (List Char × Bool × Cursor)
  | 0, _, _ => none
  | fuel + 1, gap, c =>
      if c.atDocumentMarker || c.at? '#' then some ([], gap.folded, c)
      else
        match plainWord inFlow (c.rest.length + 1) c with
        | none => none
        | some (word, c) =>
            let before := if word.isEmpty then [] else gap.text
            -- without a word, the gap before stays open
            let open' := if word.isEmpty then gap else Gap.empty
            if c.atSpace || c.atBreak then
              match Gap.read (indent + 1) (c.rest.length + 1) open' c with
              | none => none
              | some (gap, c) =>
                  if !inFlow && c.column < indent + 1 then some (before ++ word, gap.folded, c)
                  else
                    (plainText inFlow indent fuel gap c).map
                      fun p => (before ++ word ++ p.1, p.2)
            else some (before ++ word, open'.folded, c)

/-! ## Quoted texts -/

/-- The character of an escape that stands for one character. -/
def escaped? : Char → Option Char
  | '0' => some '\x00'
  | 'a' => some '\x07'
  | 'b' => some '\x08'
  | 't' => some '\t'
  | '\t' => some '\t'
  | 'n' => some '\n'
  | 'v' => some '\x0b'
  | 'f' => some '\x0c'
  | 'r' => some '\r'
  | 'e' => some '\x1b'
  | ' ' => some ' '
  | '"' => some '"'
  | '/' => some '/'
  | '\\' => some '\\'
  | 'N' => some '\u0085'
  | '_' => some '\u00a0'
  | 'L' => some '\u2028'
  | 'P' => some '\u2029'
  | _ => none

/-- The number of hexadecimal digits of an escape that has some. -/
def codeLength? : Char → Option Nat
  | 'x' => some 2
  | 'u' => some 4
  | 'U' => some 8
  | _ => none

/-- The character of a code point, surrogates excepted. -/
def ofCode? (n : Nat) : Option Char :=
  if h : n.isValidChar then some (Char.ofNatAux n h) else none

/-- An escape within double quotes, after its backslash. -/
def escapeSequence (c : Cursor) : Option (Char × Cursor) :=
  match c.head? with
  | none => none
  | some d =>
      match escaped? d, codeLength? d with
      | some e, _ => some (e, c.step)
      | none, some n =>
          let digits := c.step.rest.take n
          if digits.length = n then
            ((Text.readNat? 16 digits).bind ofCode?).map fun e => (e, c.step.steps n)
          else none
      | none, none => none

/-- The characters of a quoted text up to the next gap or quote, and whether an escaped line end
was passed. -/
def quotedWord (single : Bool) : (fuel : Nat) → Cursor → Option (List Char × Bool × Cursor)
  | 0, _ => none
  | fuel + 1, c =>
      match c.head? with
      | none => some ([], false, c)
      | some d =>
          if isSpace d || isBreak d then some ([], false, c)
          else if single && d == '\'' then
            if c.ahead? 1 == some '\'' then
              (quotedWord single fuel (c.steps 2)).map fun p => ('\'' :: p.1, p.2)
            else some ([], false, c)
          else if !single && d == '"' then some ([], false, c)
          else if !single && d == '\\' then
            if ((c.ahead? 1).map isBreak).getD false then some ([], true, c.step.lineEnd.2)
            else
              match escapeSequence c.step with
              | none => none
              | some (e, c) => (quotedWord single fuel c).map fun p => (e :: p.1, p.2)
          else (quotedWord single fuel c.step).map fun p => (d :: p.1, p.2)

/-- A quoted text after its opening quote, and the place behind its closing one. -/
def quotedText (single : Bool) : (fuel : Nat) → Cursor → Option (List Char × Cursor)
  | 0, _ => none
  | fuel + 1, c =>
      if c.atDocumentMarker || c.rest.isEmpty then none
      else
        match quotedWord single (c.rest.length + 1) c with
        | none => none
        | some (word, joined, c) =>
            if c.at? (if single then '\'' else '"') then some (word, c.step)
            else
              let gap := if joined then Gap.escaped else Gap.empty
              match Gap.read 0 (c.rest.length + 1) gap c with
              | none => none
              | some (gap, c) =>
                  (quotedText single fuel c).map fun p => (word ++ gap.text ++ p.1, p.2)

/-! ## Blocks of lines -/

/-- How the end of a block is cut. -/
inductive Chomp where
  /-- All line ends are dropped. -/
  | strip
  /-- One line end is kept. -/
  | clip
  /-- All line ends are kept. -/
  | keep
  deriving DecidableEq, Repr

/-- The head of a block: how its end is cut and by how much it is indented, if it says so. -/
structure BlockHead where
  /-- How the end is cut. -/
  chomp : Chomp
  /-- The columns by which the block is indented further. -/
  increment : Option Nat

/-- A mark for cutting the end. -/
def chompMark? : Option Char → Option Chomp
  | some '+' => some .keep
  | some '-' => some .strip
  | _ => none

/-- A digit for the indentation: nothing for a zero. -/
def incrementMark (c : Cursor) : Option (Option Nat × Cursor) :=
  match c.head? with
  | some d =>
      if d == '0' then none
      else if Text.isDigit d then some (some (d.toNat - '0'.toNat), c.step)
      else some (none, c)
  | none => some (none, c)

/-- The marks of a head, in either order. -/
def blockMarks (c : Cursor) : Option (BlockHead × Cursor) :=
  match chompMark? c.head? with
  | some chomp => (incrementMark c.step).map fun p => (⟨chomp, p.1⟩, p.2)
  | none =>
      (incrementMark c).map fun p =>
        match p.1, chompMark? p.2.head? with
        | some n, some chomp => (⟨chomp, some n⟩, p.2.step)
        | n, _ => (⟨.clip, n⟩, p.2)

/-- The place is left of a column.  Without a column it always is. -/
def leftOf (c : Cursor) (indent : Option Nat) : Bool :=
  match indent with
  | some n => c.column < n
  | none => true

/-- Behind the spaces left of a column.  Without a column, all spaces. -/
def skipIndent (indent : Option Nat) : (fuel : Nat) → Cursor → Cursor
  | 0, c => c
  | fuel + 1, c =>
      if c.at? ' ' && leftOf c indent then skipIndent indent fuel c.step
      else c

/-- Empty lines of a block: their line ends, the greatest column of spaces on them, and the place
behind the indentation of the line that follows.  A tab within the indentation is refused. -/
def emptyLines (indent : Option Nat) :
    (fuel : Nat) → (widest : Nat) → Cursor → Option (List Char × Nat × Cursor)
  | 0, _, _ => none
  | fuel + 1, widest, c =>
      let c := skipIndent indent (c.rest.length + 1) c
      let widest := max widest c.column
      if c.at? '\t' && leftOf c indent then none
      else if c.atBreak then
        let (b, c) := c.lineEnd
        (emptyLines indent fuel widest c).map fun p => (b ++ p.1, p.2)
      else some ([], widest, c)

/-- What stands between two lines of a block: the end of the first one and those of the empty lines
after it.  Where lines are folded, one line end between two lines that do not start with a blank
is a blank, or nothing if empty lines follow. -/
def lineJoint (literal : Bool) (first later : List Char) (blankBefore blankAfter : Bool) :
    List Char :=
  if !literal && first == ['\n'] && !blankBefore && !blankAfter then
    if later = [] then [' '] else later
  else first ++ later

/-- The lines of a block from a column on.  `first` and `later` are the line ends before. -/
def blockLines (literal : Bool) (head : Chomp) (indent : Nat) :
    (fuel : Nat) → (first later : List Char) → (blankBefore : Bool) → Cursor →
      Option (List Char × Cursor)
  | 0, _, _, _, _ => none
  | fuel + 1, first, later, blankBefore, c =>
      if c.column == indent && !c.rest.isEmpty then
        let blank := c.atSpace
        let joint := lineJoint literal first later blankBefore blank
        let (line, c) := c.span fun d => !isBreak d
        let (b, c) := c.lineEnd
        match emptyLines (some indent) (c.rest.length + 1) 0 c with
        | none => none
        | some (bs, _, c) =>
            (blockLines literal head indent fuel b bs blank c).map
              fun p => (joint ++ line ++ p.1, p.2)
      else
        some ((if head == .strip then [] else first) ++ (if head == .keep then later else []), c)

/-- A block after its mark, for the indentation around it. -/
def blockText (literal : Bool) (around : Int) (c : Cursor) : Option (List Char × Cursor) :=
  match blockMarks c with
  | none => none
  | some (head, c) =>
      let c := c.skipSpaces.skipComment
      if !c.atLineEnd then none
      else
        let c := c.lineEnd.2
        let given := head.increment.map fun n => if 0 ≤ around then around.toNat + n else n
        match emptyLines given (c.rest.length + 1) 0 c with
        | none => none
        | some (bs, widest, c) =>
            let indent := given.getD (max (max widest (around + 1).toNat) 1)
            blockLines literal head.chomp indent (c.rest.length + 1) [] bs false c

end Runbook.Yaml
