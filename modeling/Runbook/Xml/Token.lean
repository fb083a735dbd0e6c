import Runbook.Xml.Entity

/-!
# Tokens of an XML text

A text is a sequence of character data and tags.  `Token.scan` cuts it into tokens and stops at the
first place that is no XML, which it marks by a last token `broken`.

What lies between `<` and `>` is told apart by its first character.  A start tag ends at the first
`>` outside quotes.  An end tag and a processing instruction end at the first `>`, or at the end of
the text if there is none.  A comment ends at `-->`, a CDATA section at `]]>`, and a document type
at the first `>` before which as many `<` as `>` have been opened.
-/

namespace Runbook.Xml

open Runbook.Text

/-- The blanks that separate the parts of a tag. -/
def isGap (c : Char) : Bool := c == ' ' || c == '\t' || c == '\n' || c == '\r'

/-- An attribute: its full name and its value as written. -/
abbrev RawAttribute := List Char × List Char

/-- A piece of an XML text. -/
inductive Token where
  /-- A start tag with its full name and what follows the name. -/
  | start (name rest : List Char)
  /-- A tag of an element without content. -/
  | empty (name rest : List Char)
  /-- An end tag with its full name. -/
  | stop (name : List Char)
  /-- Character data as written. -/
  | text (raw : List Char)
  /-- The content of a CDATA section. -/
  | cdata (content : List Char)
  /-- A comment, a declaration, a processing instruction or a document type. -/
  | aside
  /-- The text is no XML from here on. -/
  | broken
  deriving Repr, DecidableEq

namespace Token

/-- Text up to a character that satisfies `p`, and what follows that character; all the text if
there is none. -/
def upTo (p : Char → Bool) (cs : List Char) : List Char × List Char :=
  (cs.takeWhile (!p ·), (cs.dropWhile (!p ·)).drop 1)

theorem upTo_length (p : Char → Bool) (cs : List Char) : (upTo p cs).2.length ≤ cs.length := by
  simp only [upTo, List.length_drop]
  have := (List.dropWhile_sublist (l := cs) (fun c => !p c)).length_le
  omega

/-- The inside of a tag up to the `>` outside quotes, and what follows.  `quote` is the open quote
mark, if one is open. -/
def tagEnd (quote : Option Char) : List Char → Option (List Char × List Char)
  | [] => none
  | c :: cs =>
      match quote with
      | none =>
          if c = '>' then some ([], cs)
          else
            (tagEnd (if c = '\'' ∨ c = '"' then some c else none) cs).map fun p => (c :: p.1, p.2)
      | some q => (tagEnd (if c = q then none else some q) cs).map fun p => (c :: p.1, p.2)

theorem tagEnd_length {q : Option Char} {cs a r : List Char} (h : tagEnd q cs = some (a, r)) :
    r.length ≤ cs.length := by
  induction cs generalizing q a with
  | nil => simp [tagEnd] at h
  | cons c cs ih =>
    cases q with
    | none =>
      simp only [tagEnd] at h
      split at h
      · simp only [Option.some.injEq, Prod.mk.injEq] at h
        simp [← h.2]
      · simp only [Option.map_eq_some_iff] at h
        obtain ⟨p, hp, he⟩ := h
        simp only [Prod.mk.injEq] at he
        have := ih (q := _) (a := p.1) (by rw [hp, ← he.2])
        simp only [List.length_cons]
        omega
    | some q =>
      simp only [tagEnd, Option.map_eq_some_iff] at h
      obtain ⟨p, hp, he⟩ := h
      simp only [Prod.mk.injEq] at he
      have := ih (q := _) (a := p.1) (by rw [hp, ← he.2])
      simp only [List.length_cons]
      omega

/-- The text before the first `>` at which `done` holds of the text so far, which is kept in
reverse, and what follows. -/
def markEnd (done : List Char → Bool) (before : List Char) :
    List Char → Option (List Char × List Char)
  | [] => none
  | c :: cs =>
      if c = '>' ∧ done before then some (before.reverse, cs)
      else markEnd done (c :: before) cs

theorem markEnd_length {done : List Char → Bool} {b cs a r : List Char}
    (h : markEnd done b cs = some (a, r)) : r.length ≤ cs.length := by
  induction cs generalizing b with
  | nil => simp [markEnd] at h
  | cons c cs ih =>
    simp only [markEnd] at h
    split at h
    · simp only [Option.some.injEq, Prod.mk.injEq] at h
      simp [← h.2]
    · have := ih h
      simp only [List.length_cons]
      omega

/-- The end of a comment: two dashes before the mark. -/
def endsComment : List Char → Bool
  | '-' :: '-' :: _ => true
  | _ => false

/-- The end of a CDATA section: two brackets before the mark. -/
def endsCdata : List Char → Bool
  | ']' :: ']' :: _ => true
  | _ => false

/-- The end of a document type: as many marks opened as closed. -/
def endsDoctype (before : List Char) : Bool :=
  before.countP (· == '<') == before.countP (· == '>')

/-- Capital letters aside, the text starts with `lead`, which is in small letters; what follows. -/
def dropLeadAnyCase (lead cs : List Char) : Option (List Char) :=
  if lowerAscii (cs.take lead.length) = lead then some (cs.drop lead.length) else none

/-- The token after `<!`, and what follows it. -/
def afterBang : List Char → Option (Token × List Char)
  | '-' :: '-' :: cs => (markEnd endsComment [] cs).map fun p => (aside, p.2)
  | '[' :: cs =>
      match markEnd endsCdata [] ('[' :: cs) with
      | none => none
      | some (inside, r) =>
          (dropLeadAnyCase "[cdata[".toList inside).map fun content =>
            (cdata (content.take (content.length - 2)), r)
  | c :: cs =>
      if c = 'D' ∨ c = 'd' then
        match markEnd endsDoctype [] (c :: cs) with
        | none => none
        | some (inside, r) =>
            match dropLeadAnyCase "doctype".toList inside with
            | some content => if content.all isGap then none else some (aside, r)
            | none => none
      else none
  | [] => none

theorem afterBang_length {cs r : List Char} {t : Token} (h : afterBang cs = some (t, r)) :
    r.length ≤ cs.length := by
  unfold afterBang at h
  split at h
  · simp only [Option.map_eq_some_iff, Prod.mk.injEq] at h
    obtain ⟨p, hp, _, rfl⟩ := h
    have := markEnd_length (a := p.1) (r := p.2) (by rw [hp])
    simp only [List.length_cons]
    omega
  · split at h
    · simp at h
    · rename_i hm
      simp only [Option.map_eq_some_iff, Prod.mk.injEq] at h
      obtain ⟨_, _, _, rfl⟩ := h
      exact markEnd_length hm
  · split at h
    · split at h
      · simp at h
      · rename_i hm
        split at h
        · split at h
          · simp at h
          · simp only [Option.some.injEq, Prod.mk.injEq] at h
            rw [← h.2]
            exact markEnd_length hm
        · simp at h
    · simp at h
  · simp at h

/-- The token of an end tag, blanks at its end aside. -/
def ofStop (inside : List Char) : Token :=
  stop (if inside.all isGap then inside else (inside.reverse.dropWhile isGap).reverse)

/-- The token of a processing instruction, given what follows `<?`: it ends in a question mark. -/
def ofInstruction (inside : List Char) : Token :=
  if 2 ≤ inside.length ∧ inside.getLast? = some '?' then aside else broken

/-- The token of a start tag, given what is between the marks. -/
def ofStart (inside : List Char) : Token :=
  let name := inside.takeWhile (!isGap ·)
  if inside.getLast? = some '/' then
    let body := inside.dropLast
    let name := body.take name.length
    empty name (body.drop name.length)
  else start name (inside.drop name.length)

/-- The tokens of a text. -/
def scan : List Char → List Token
  | [] => []
  | '<' :: cs =>
      match cs with
      | [] => []
      | '!' :: r =>
          match h : afterBang r with
          | none => [broken]
          | some (t, r') =>
              have := afterBang_length h
              t :: scan r'
      | '/' :: r =>
          let p := upTo (· == '>') r
          have := upTo_length (· == '>') r
          ofStop p.1 :: scan p.2
      | '?' :: r =>
          let p := upTo (· == '>') r
          have := upTo_length (· == '>') r
          ofInstruction p.1 :: scan p.2
      | c :: r =>
          match h : tagEnd none (c :: r) with
          | none => [broken]
          | some (inside, r') =>
              have := tagEnd_length h
              ofStart inside :: scan r'
  | c :: cs =>
      let body := cs.takeWhile (· != '<')
      let rest := cs.dropWhile (· != '<')
      have := (List.dropWhile_sublist (l := cs) (fun c => c != '<')).length_le
      text (c :: body) :: scan rest
termination_by cs => cs.length
decreasing_by all_goals simp_all; try omega

theorem scan_nil : scan [] = [] := by rw [scan]

/-- The tokens of a text, a byte order mark at its start aside. -/
def ofText : List Char → List Token
  | '\ufeff' :: cs => scan cs
  | cs => scan cs

end Token

/-! ## Attributes -/

/-- The next attribute of a tag: nothing at the end of the tag, or a flaw. -/
inductive NextAttribute where
  /-- No attribute is left. -/
  | done
  /-- What is left is no attribute. -/
  | flawed
  /-- An attribute and what follows it. -/
  | found (name value rest : List Char)

/-- Reads one attribute: a name, an equals sign and a quoted value, with blanks between. -/
def nextAttribute (cs : List Char) : NextAttribute :=
  match cs.dropWhile isGap with
  | [] => .done
  | c :: cs =>
      let isEnd := fun d : Char => d == '=' || isGap d
      let name := c :: cs.takeWhile (!isEnd ·)
      match (cs.dropWhile (!isEnd ·)).dropWhile isGap with
      | '=' :: r =>
          match r.dropWhile isGap with
          | q :: r =>
              if q = '"' ∨ q = '\'' then
                match r.dropWhile (· != q) with
                | _ :: rest => .found name (r.takeWhile (· != q)) rest
                | [] => .flawed
              else .flawed
          | [] => .flawed
      | _ => .flawed

/-- The attributes of a tag after those read before, no name twice, or nothing if the tag is
flawed.  Every attribute takes up characters, so `fuel` is their number. -/
def readAttributes : (fuel : Nat) → List RawAttribute → List Char → Option (List RawAttribute)
  | 0, _, _ => none
  | fuel + 1, before, cs =>
      match nextAttribute cs with
      | .done => some before
      | .flawed => none
      | .found name value rest =>
          if before.any (·.1 == name) then none
          else readAttributes fuel (before ++ [(name, value)]) rest

/-- The attributes of a tag, given what follows its name. -/
def attributes? (rest : List Char) : Option (List RawAttribute) :=
  readAttributes (rest.length + 1) [] rest

/-- A name without the part before its first colon. -/
def localName (name : List Char) : List Char :=
  if name.contains ':' then (name.dropWhile (· != ':')).drop 1 else name

/-- An attribute that declares a namespace. -/
def declaresNamespace (name : List Char) : Bool :=
  name == "xmlns".toList || "xmlns:".toList.isPrefixOf name

end Runbook.Xml
