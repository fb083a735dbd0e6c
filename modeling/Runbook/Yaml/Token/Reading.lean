import Runbook.Yaml.Token.Scalar
import Runbook.Yaml.Token.Tag

/-!
# The tokens of a text

A text is read once from left to right.  Outside of flow collections the column of a token decides:
one further right than the enclosing block opens a block, one further left closes blocks.

That something is a key shows only at the colon behind it.  So the start of everything that can be a
key is remembered, one for each level of flow collections, and when the colon comes, the token for
the key is put in at that place.  A key has to be on one line and at most 1024 characters long.

`Token.ofChars` gives the tokens up to the first place where the text is no YAML, which is marked by
`Token.broken`.
-/

namespace Runbook.Yaml

/-- The start of something that can be a key. -/
structure KeyStart where
  /-- The number of tokens before it. -/
  position : Nat
  /-- Its first character. -/
  index : Nat
  /-- Its line. -/
  line : Nat
  /-- Its column. -/
  column : Nat
  /-- It has to be a key, as it stands where the fields of a block stand. -/
  required : Bool

/-- The state of reading. -/
structure Reading where
  /-- The place in the text. -/
  cursor : Cursor
  /-- The tokens so far, the last one first. -/
  tokens : List Token
  /-- The column of the innermost block, `-1` if there is none. -/
  indent : Int
  /-- The columns of the blocks around it. -/
  around : List Int
  /-- What may be a key, for the innermost flow collection and those around it. -/
  keys : List (Option KeyStart)
  /-- A key may start here. -/
  keyAllowed : Bool

namespace Reading

/-- The start of a text. -/
def start (cs : List Char) : Reading := ⟨Cursor.start cs, [], -1, [], [none], true⟩

/-- Reading is within a flow collection. -/
def inFlow (r : Reading) : Bool := 1 < r.keys.length

/-- One more token. -/
def push (r : Reading) (t : Token) : Reading := { r with tokens := t :: r.tokens }

/-- At another place. -/
def goto (r : Reading) (c : Cursor) : Reading := { r with cursor := c }

/-- A key may or may not start next. -/
def allow (r : Reading) (b : Bool) : Reading := { r with keyAllowed := b }

/-- Puts a token behind the first so many. -/
def insertAt (r : Reading) (position : Nat) (t : Token) : Reading :=
  let later := r.tokens.length - position
  { r with tokens := r.tokens.take later ++ t :: r.tokens.drop later }

/-- Closes the blocks right of a column. -/
def closeBlocks (column : Int) : Int → List Int → List Token → Int × List Int × List Token
  | indent, [], ts => if column < indent then (-1, [], .blockEnd :: ts) else (indent, [], ts)
  | indent, i :: is, ts =>
      if column < indent then closeBlocks column i is (.blockEnd :: ts) else (indent, i :: is, ts)

/-- Closes the blocks right of a column, outside of flow collections. -/
def unroll (r : Reading) (column : Int) : Reading :=
  if r.inFlow then r
  else
    let (indent, around, tokens) := closeBlocks column r.indent r.around r.tokens
    { r with indent := indent, around := around, tokens := tokens }

/-- Opens a block at a column right of the innermost one, outside of flow collections.  `position`
is where its token belongs, the end if there is none. -/
def roll (r : Reading) (column : Nat) (position : Option Nat) (t : Token) : Reading :=
  if r.inFlow || (column : Int) ≤ r.indent then r
  else
    let r := { r with indent := column, around := r.indent :: r.around }
    match position with
    | some p => r.insertAt p t
    | none => r.push t

/-- Forgets what may be a key on this level.  It is an error if it had to be one. -/
def forgetKey (r : Reading) : Option Reading :=
  match r.keys with
  | some k :: ks => if k.required then none else some { r with keys := none :: ks }
  | _ => some r

/-- Remembers that a key may start here. -/
def rememberKey (r : Reading) : Option Reading :=
  if r.keyAllowed then
    r.forgetKey.map fun r =>
      let c := r.cursor
      let k : KeyStart := ⟨r.tokens.length, c.index, c.line, c.column,
        !r.inFlow && r.indent == c.column⟩
      { r with keys := some k :: r.keys.tail }
  else some r

/-- A remembered start is too far back for a key. -/
def isStale (c : Cursor) (k : KeyStart) : Bool := k.line < c.line || k.index + 1024 < c.index

/-- Forgets what is too far back.  It is an error if it had to be a key. -/
def dropStale (r : Reading) : Option Reading :=
  let stale := r.keys.filterMap fun k => k.filter (isStale r.cursor)
  if stale.any (·.required) then none
  else some { r with keys := r.keys.map fun k => k.filter fun k => !isStale r.cursor k }

/-- Behind blanks, comments and line ends.  A tab counts as a blank only where no key may start. -/
def skipGap : (fuel : Nat) → Reading → Reading
  | 0, r => r
  | fuel + 1, r =>
      let c := if r.cursor.index == 0 && r.cursor.at? '\ufeff' then r.cursor.step else r.cursor
      let tabs := r.inFlow || !r.keyAllowed
      let c := (c.span fun d => d == ' ' || (tabs && d == '\t')).2.skipComment
      if c.atBreak then
        skipGap fuel { r with cursor := c.lineEnd.2, keyAllowed := r.keyAllowed || !r.inFlow }
      else { r with cursor := c }

/-! ## One token -/

/-- A mark of one character that leaves it open whether a key follows. -/
def mark (r : Reading) (t : Token) (allowed : Bool) : Option Reading :=
  r.forgetKey.map fun r => ((r.goto r.cursor.step).push t).allow allowed

/-- A token that can be the start of a key. -/
def keyLike (r : Reading) (token : Cursor → Option (Token × Cursor)) : Option Reading :=
  r.rememberKey.bind fun r =>
    (token r.cursor).map fun p => ((r.goto p.2).push p.1).allow false

/-- A mark at the start of a line, where all blocks end. -/
def atTop (r : Reading) (token : Cursor → Option (Token × Cursor)) : Option Reading :=
  (r.unroll (-1)).forgetKey.bind fun r =>
    (token r.cursor).map fun p => ((r.goto p.2).push p.1).allow false

/-- The end of the text. -/
def finish (r : Reading) : Option Reading :=
  (r.unroll (-1)).forgetKey.map fun r => (r.push .streamEnd).allow false

/-- The opening of a flow collection. -/
def openFlow (r : Reading) (t : Token) : Option Reading :=
  r.rememberKey.map fun r =>
    (({ r with keys := none :: r.keys }.goto r.cursor.step).push t).allow true

/-- The closing of a flow collection. -/
def closeFlow (r : Reading) (t : Token) : Option Reading :=
  r.forgetKey.map fun r =>
    let keys := if r.inFlow then r.keys.tail else r.keys
    (({ r with keys := keys }.goto r.cursor.step).push t).allow false

/-- The mark of an item. -/
def itemMark (r : Reading) : Option Reading :=
  if r.inFlow then r.mark .item true
  else if r.keyAllowed then (r.roll r.cursor.column none .blockList).mark .item true
  else none

/-- The mark of a key. -/
def keyMark (r : Reading) : Option Reading :=
  if r.inFlow then r.mark .key false
  else if r.keyAllowed then (r.roll r.cursor.column none .blockRecord).mark .key true
  else none

/-- The colon before a value, which makes a key of what was remembered. -/
def valueMark (r : Reading) : Option Reading :=
  let behind (r : Reading) (allowed : Bool) := ((r.goto r.cursor.step).push .value).allow allowed
  match r.keys with
  | some k :: ks =>
      let r := { r with keys := none :: ks }.insertAt k.position .key
      some (behind (r.roll k.column (some k.position) .blockRecord) false)
  | _ =>
      if r.inFlow then some (behind r false)
      else if r.keyAllowed then some (behind (r.roll r.cursor.column none .blockRecord) true)
      else none

/-- A block of lines. -/
def blockScalar (r : Reading) (literal : Bool) : Option Reading :=
  r.forgetKey.bind fun r =>
    (blockText literal r.indent r.cursor.step).map fun p =>
      ((r.goto p.2).push (.scalar p.1 false)).allow true

/-- A quoted text. -/
def quotedScalar (r : Reading) (single : Bool) : Option Reading :=
  r.keyLike fun c =>
    (quotedText single (c.rest.length + 1) c.step).map fun p => (.scalar p.1 false, p.2)

/-- A plain text.  If it ends with a line, a key may follow. -/
def plainScalar (r : Reading) : Option Reading :=
  r.rememberKey.bind fun r =>
    let c := r.cursor
    (plainText r.inFlow r.indent (c.rest.length + 1) Gap.empty c).map fun p =>
      ((r.goto p.2.2).push (.scalar p.1 true)).allow p.2.1

/-- A character with which no plain text starts. -/
def isIndicator (c : Char) : Bool :=
  "-?:,[]\x7b\x7d#&*!|>'\"%@`".toList.contains c

/-- A plain text starts here. -/
def startsPlain (r : Reading) (d : Char) : Bool :=
  !(isSpace d || isIndicator d) ||
    (d == '-' && !((r.cursor.ahead? 1).map isSpace).getD false) ||
    (!r.inFlow && (d == '?' || d == ':') && !r.cursor.gapAhead 1)

/-- Reads the token at the place of reading, which is its first character. -/
def take (r : Reading) (d : Char) : Option Reading :=
  let c := r.cursor
  if c.column == 0 && d == '%' then r.atTop fun c => readDirective c.step
  else if c.atMarker '-' then r.atTop fun c => some (.documentStart, c.steps 3)
  else if c.atMarker '.' then r.atTop fun c => some (.documentEnd, c.steps 3)
  else if d == '[' then r.openFlow .listStart
  else if d == '\x7b' then r.openFlow .recordStart
  else if d == ']' then r.closeFlow .listEnd
  else if d == '\x7d' then r.closeFlow .recordEnd
  else if d == ',' then r.mark .comma true
  else if d == '-' && c.gapAhead 1 then r.itemMark
  else if d == '?' && (r.inFlow || c.gapAhead 1) then r.keyMark
  else if d == ':' && (r.inFlow || c.gapAhead 1) then r.valueMark
  else if d == '*' then r.keyLike fun c => (anchorName c.step).map fun p => (.reference p.1, p.2)
  else if d == '&' then r.keyLike fun c => (anchorName c.step).map fun p => (.anchor p.1, p.2)
  else if d == '!' then r.keyLike (readTag r.inFlow)
  else if d == '|' && !r.inFlow then r.blockScalar true
  else if d == '>' && !r.inFlow then r.blockScalar false
  else if d == '\'' then r.quotedScalar true
  else if d == '"' then r.quotedScalar false
  else if r.startsPlain d then r.plainScalar
  else none

/-- Reads the next token, whatever is before it. -/
def next (r : Reading) : Option Reading :=
  (skipGap (r.cursor.rest.length + 1) r).dropStale.bind fun r =>
    let r := r.unroll r.cursor.column
    match r.cursor.head? with
    | none => r.finish
    | some d => r.take d

/-- Reads tokens to the end of the text. -/
def all : (fuel : Nat) → Reading → List Token
  | 0, r => (Token.broken :: r.tokens).reverse
  | fuel + 1, r =>
      match r.next with
      | none => (Token.broken :: r.tokens).reverse
      | some r => if r.tokens.head? = some .streamEnd then r.tokens.reverse else all fuel r

end Reading

/-- The tokens of a text. -/
def Token.ofChars (cs : List Char) : List Token :=
  if cs.all isAllowed then Reading.all (cs.length + 1) (Reading.start cs) else [.broken]

end Runbook.Yaml
