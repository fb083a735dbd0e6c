/-!
# A place in a YAML text

YAML gives a meaning to columns and lines, so reading it means carrying a place along.  A `Cursor`
holds the text that is left together with the number of characters, lines and columns passed.

Line ends are those of the standard: line feed, carriage return, both together, next line, and the
line and paragraph separators.  All but the last two are read as a line feed.
-/

namespace Runbook.Yaml

/-- A line end. -/
def isBreak (c : Char) : Bool :=
  c == '\n' || c == '\r' || c == '\u0085' || c == '\u2028' || c == '\u2029'

/-- A blank within a line. -/
def isSpace (c : Char) : Bool := c == ' ' || c == '\t'

/-- A character of names of anchors, directives and tag handles. -/
def isWord (c : Char) : Bool :=
  ('0' ≤ c && c ≤ '9') || ('A' ≤ c && c ≤ 'Z') || ('a' ≤ c && c ≤ 'z') || c == '_' || c == '-'

/-- A character that a text may hold at all. -/
def isAllowed (c : Char) : Bool :=
  let n := c.toNat
  n == 9 || n == 10 || n == 13 || (0x20 ≤ n && n ≤ 0x7E) || n == 0x85 ||
    (0xA0 ≤ n && n ≤ 0xFFFD) || 0x10000 ≤ n

/-- The text that is left, and how far reading has come. -/
structure Cursor where
  /-- The text that is left. -/
  rest : List Char
  /-- Characters passed. -/
  index : Nat
  /-- Lines passed. -/
  line : Nat
  /-- Characters passed on this line. -/
  column : Nat

namespace Cursor

/-- The start of a text. -/
def start (cs : List Char) : Cursor := ⟨cs, 0, 0, 0⟩

/-- The next character. -/
def head? (c : Cursor) : Option Char := c.rest.head?

/-- The character that many characters ahead. -/
def ahead? (c : Cursor) (n : Nat) : Option Char := c.rest[n]?

/-- The next character is a given one. -/
def at? (c : Cursor) (d : Char) : Bool := c.head? == some d

/-- The text ends, or a line end or blank stands, that many characters ahead. -/
def gapAhead (c : Cursor) (n : Nat) : Bool :=
  match c.ahead? n with
  | some d => isSpace d || isBreak d
  | none => true

/-- The text or the line ends here. -/
def atLineEnd (c : Cursor) : Bool :=
  match c.head? with
  | some d => isBreak d
  | none => true

/-- A blank stands here. -/
def atSpace (c : Cursor) : Bool := (c.head?.map isSpace).getD false

/-- A line end stands here. -/
def atBreak (c : Cursor) : Bool := (c.head?.map isBreak).getD false

/-- Behind the next character, which is on the same line. -/
def step (c : Cursor) : Cursor := ⟨c.rest.tail, c.index + 1, c.line, c.column + 1⟩

/-- Behind several characters of a line. -/
def steps (c : Cursor) (n : Nat) : Cursor := ⟨c.rest.drop n, c.index + n, c.line, c.column + n⟩

/-- Behind a line end, with what it is read as.  At the end of the text there is none. -/
def lineEnd (c : Cursor) : List Char × Cursor :=
  match c.rest with
  | '\r' :: '\n' :: r => (['\n'], ⟨r, c.index + 2, c.line + 1, 0⟩)
  | d :: r =>
      if isBreak d then
        (if d = '\u2028' ∨ d = '\u2029' then [d] else ['\n'], ⟨r, c.index + 1, c.line + 1, 0⟩)
      else ([], c)
  | [] => ([], c)

/-- The characters up to one that fails a test, none of them a line end, and what follows. -/
def span (c : Cursor) (p : Char → Bool) : List Char × Cursor :=
  let taken := c.rest.takeWhile p
  (taken, c.steps taken.length)

/-- Behind the blanks here. -/
def skipSpaces (c : Cursor) : Cursor := (c.span isSpace).2

/-- Behind a comment, if one starts here. -/
def skipComment (c : Cursor) : Cursor :=
  if c.at? '#' then (c.span fun d => !isBreak d).2 else c

/-- A line here starts with three given characters and nothing else on its first word. -/
def atMarker (c : Cursor) (d : Char) : Bool :=
  c.column == 0 && c.rest.take 3 == [d, d, d] && c.gapAhead 3

/-- A document starts or ends here. -/
def atDocumentMarker (c : Cursor) : Bool := c.atMarker '-' || c.atMarker '.'

end Cursor
end Runbook.Yaml
