import Mathlib.Data.List.Forall2
import Runbook.Proofs.Xml.Pieces
import Runbook.Proofs.Xml.Tree

/-!
# Marked-up texts

A `Markup` is what a text is written as, with all that leaves no trace in its tree: the pieces
between the tags, and the two ways to write an element.  `Content` relates a list of them to the
elements and the character data they hold, and is at once the grammar: what is related is well
formed.

The reader goes through tokens with a stack of open elements, and character data that stands side
by side is one token to it.  So its state after a piece of content is described up to the grouping
of character data (`Open.Alike`), on which no outcome depends.  `Content.outcome` then says what
content does to the innermost open element.
-/

namespace Runbook.Xml

open Runbook.Text

/-! ## Markup -/

/-- What a text is made of. -/
inductive Markup where
  /-- A piece that is no tag. -/
  | piece (p : Piece)
  /-- An element in one tag, given what is between `<` and `/>`. -/
  | single (tag : List Char)
  /-- An element between two tags, given what is between `<` and `>` in the first one and what
  follows the name in the second one. -/
  | pair (tag : List Char) (content : List Markup) (gap : List Char)

/-- The full name in a tag. -/
def tagName (tag : List Char) : List Char := tag.takeWhile (!isGap ·)

/-- What follows the name in a tag. -/
def tagRest (tag : List Char) : List Char := tag.dropWhile (!isGap ·)

/-- What is between the marks of a start tag. -/
structure StartTag (inside : List Char) : Prop where
  /-- It ends at the first mark outside of quotes. -/
  ends : Token.tagEnd none (inside ++ ['>']) = some (inside, [])
  /-- It does not start like another kind of tag. -/
  lead : ∀ c ∈ inside.head?, c ≠ '!' ∧ c ≠ '/' ∧ c ≠ '?'

/-- An end tag with a name and what follows it. -/
structure EndTag (name gap : List Char) : Prop where
  /-- It ends at the first mark. -/
  ends : '>' ∉ name ++ gap
  /-- Its name is the given one. -/
  names : Token.ofStop (name ++ gap) = .stop name

/-- The element of a tag, if its attributes are sound. -/
def Element.ofTag? (tag : List Char) (children : List Element) (text : List Char) :
    Option Element :=
  (Element.attributesOf? (tagRest tag)).map fun attributes =>
    .mk (String.ofList (localName (tagName tag))) attributes children (String.ofList text)

namespace Markup

/-- The markup is an element. -/
def isElement : Markup → Bool
  | piece _ => false
  | single _ => true
  | pair _ _ _ => true

mutual

/-- The characters of markup. -/
def chars : Markup → List Char
  | piece p => p.chars
  | single tag => '<' :: (tag ++ ['/', '>'])
  | pair tag content gap =>
      '<' :: (tag ++ '>' :: (contentChars content ++
        '<' :: '/' :: (tagName tag ++ (gap ++ ['>']))))
termination_by structural m => m

/-- The characters of content. -/
def contentChars : List Markup → List Char
  | [] => []
  | m :: ms => chars m ++ contentChars ms
termination_by structural ms => ms

end

/-- Well-formed content, with the elements and the character data directly in it. -/
inductive Content : List Markup → List Element → List Char → Prop where
  /-- Nothing. -/
  | nil : Content [] [] []
  /-- A piece, which holds character data at most. -/
  | piece {p : Piece} {t u : List Char} {ms : List Markup} {es : List Element} :
      p.Formed → p.data? = some t → Content ms es u → Content (.piece p :: ms) es (t ++ u)
  /-- An element without content. -/
  | single {tag u : List Char} {e : Element} {ms : List Markup} {es : List Element} :
      StartTag (tag ++ ['/']) → Element.ofTag? tag [] [] = some e → Content ms es u →
      Content (.single tag :: ms) (e :: es) u
  /-- An element with content. -/
  | pair {tag gap text u : List Char} {content ms : List Markup} {children es : List Element}
      {e : Element} :
      StartTag tag → tag.getLast? ≠ some '/' → EndTag (tagName tag) gap →
      Content content children text → Element.ofTag? tag children text = some e →
      Content ms es u → Content (.pair tag content gap :: ms) (e :: es) u

end Markup

/-! ## Tags -/

namespace Token

/-- The open quote mark after a character of a tag. -/
def quoteAfter (q : Option Char) (c : Char) : Option Char :=
  match q with
  | none => if c = '\'' ∨ c = '"' then some c else none
  | some q => if c = q then none else some q

theorem tagEnd_cons {q : Option Char} {c : Char} (h : ¬ (q = none ∧ c = '>')) (cs : List Char) :
    tagEnd q (c :: cs) = (tagEnd (quoteAfter q c) cs).map fun p => (c :: p.1, p.2) := by
  cases q with
  | none =>
    have hc : c ≠ '>' := fun he => h ⟨rfl, he⟩
    rw [tagEnd, if_neg hc]
    rfl
  | some q => rfl

/-- The first character of a tag ends it or belongs to it. -/
theorem tagEnd_cons_eq_some_iff {q : Option Char} {c : Char} {cs inside r : List Char} :
    tagEnd q (c :: cs) = some (inside, r) ↔
      ((q = none ∧ c = '>') ∧ inside = [] ∧ r = cs) ∨
      (¬ (q = none ∧ c = '>') ∧
        ∃ as, inside = c :: as ∧ tagEnd (quoteAfter q c) cs = some (as, r)) := by
  by_cases h : q = none ∧ c = '>'
  · obtain ⟨rfl, rfl⟩ := h
    simp [tagEnd, eq_comm]
  · rw [tagEnd_cons h, Option.map_eq_some_iff]
    simp [h, and_comm, eq_comm]

/-- A tag ends behind its inside, whatever follows. -/
theorem tagEnd_append {q : Option Char} {inside : List Char}
    (h : tagEnd q (inside ++ ['>']) = some (inside, [])) (cs : List Char) :
    tagEnd q (inside ++ cs) = (tagEnd none cs).map fun p => (inside ++ p.1, p.2) := by
  induction inside generalizing q with
  | nil =>
    obtain ⟨⟨rfl, -⟩, -⟩ | ⟨-, _, ⟨⟩, -⟩ := tagEnd_cons_eq_some_iff.mp h
    exact Option.map_id'.symm
  | cons c inside ih =>
    obtain ⟨-, ⟨⟩, -⟩ | ⟨hc, _, ⟨⟩, hrest⟩ := tagEnd_cons_eq_some_iff.mp h
    rw [List.cons_append, tagEnd_cons hc, ih hrest, Option.map_map]
    rfl

/-- A tag, back from what is between its marks. -/
theorem tagEnd_eq_some {q : Option Char} {cs inside r : List Char}
    (h : tagEnd q cs = some (inside, r)) :
    cs = inside ++ '>' :: r ∧ tagEnd q (inside ++ ['>']) = some (inside, []) := by
  induction cs generalizing q inside with
  | nil => cases h
  | cons c cs ih =>
    obtain ⟨⟨rfl, rfl⟩, rfl, rfl⟩ | ⟨hc, as, rfl, hrest⟩ := tagEnd_cons_eq_some_iff.mp h
    · exact ⟨rfl, by simp [tagEnd]⟩
    · obtain ⟨rfl, hends⟩ := ih hrest
      exact ⟨rfl, tagEnd_cons_eq_some_iff.mpr (.inr ⟨hc, as, rfl, hends⟩)⟩

/-- A tag without its slash ends where it did. -/
theorem tagEnd_of_slash {q : Option Char} {inside : List Char} (hq : q ≠ some '/')
    (h : tagEnd q (inside ++ ['/', '>']) = some (inside ++ ['/'], [])) :
    tagEnd q (inside ++ ['>']) = some (inside, []) := by
  induction inside generalizing q with
  | nil =>
    obtain ⟨⟨-, hc⟩, -⟩ | ⟨-, _, ⟨⟩, hrest⟩ := tagEnd_cons_eq_some_iff.mp h
    · cases hc
    · obtain ⟨⟨hnone, -⟩, -⟩ | ⟨-, _, ⟨⟩, -⟩ := tagEnd_cons_eq_some_iff.mp hrest
      cases q with
      | none => simp [tagEnd]
      | some q =>
        have hne : ¬ '/' = q := fun he => hq (congrArg some he.symm)
        simp [quoteAfter, hne] at hnone
  | cons c inside ih =>
    obtain ⟨-, ⟨⟩, -⟩ | ⟨hc, _, ⟨⟩, hrest⟩ := tagEnd_cons_eq_some_iff.mp h
    refine tagEnd_cons_eq_some_iff.mpr (.inr ⟨hc, inside, rfl, ih ?_ hrest⟩)
    cases q with
    | none =>
      rw [quoteAfter]
      split
      · next hquote =>
        rintro ⟨⟩
        exact absurd hquote (by decide)
      · exact (Option.some_ne_none _).symm
    | some q =>
      rw [quoteAfter]
      split
      · exact (Option.some_ne_none _).symm
      · exact hq

end Token

theorem tagName_append_tagRest (tag : List Char) : tagName tag ++ tagRest tag = tag :=
  List.takeWhile_append_dropWhile

theorem isGap_of_mem_tagName {tag : List Char} {c : Char} (h : c ∈ tagName tag) :
    isGap c = false := by
  simpa using List.mem_takeWhile_imp h

theorem take_tagName (tag : List Char) : tag.take (tagName tag).length = tagName tag :=
  (congrArg (List.take _) (tagName_append_tagRest tag).symm).trans List.take_left

theorem drop_tagName (tag : List Char) : tag.drop (tagName tag).length = tagRest tag :=
  (congrArg (List.drop _) (tagName_append_tagRest tag).symm).trans List.drop_left

/-- The token of a tag before content. -/
theorem Token.ofStart_of_getLast? {tag : List Char} (h : tag.getLast? ≠ some '/') :
    ofStart tag = .start (tagName tag) (tagRest tag) := by
  simp only [ofStart, if_neg h]
  exact congrArg (start (tagName tag)) (drop_tagName tag)

/-- The token of the tag of an element without content. -/
theorem Token.ofStart_slash (tag : List Char) :
    ofStart (tag ++ ['/']) = .empty (tagName tag) (tagRest tag) := by
  have hname : tag.take ((tag ++ ['/']).takeWhile (!isGap ·)).length = tagName tag := by
    rw [List.takeWhile_append]
    split
    · next hall =>
      -- The slash is at once behind the name.
      have hsame : tagName tag = tag := (List.takeWhile_prefix _).eq_of_length hall
      rw [hsame]
      exact List.take_of_length_le (by simp)
    · exact take_tagName tag
  simp only [ofStart, List.getLast?_concat, if_true, List.dropLast_concat, hname, drop_tagName]

theorem StartTag.scan {inside : List Char} (h : StartTag inside) (cs : List Char) :
    Token.scan ('<' :: (inside ++ '>' :: cs)) = Token.ofStart inside :: Token.scan cs := by
  refine Token.scan_tag_of_head (fun c hc => ?_) ?_
  · cases inside with
    | nil =>
      cases hc
      decide
    | cons d inside => exact h.lead c hc
  · rw [Token.tagEnd_append h.ends]
    simp [Token.tagEnd]

theorem EndTag.scan {name gap : List Char} (h : EndTag name gap) (cs : List Char) :
    Token.scan ('<' :: '/' :: (name ++ (gap ++ '>' :: cs))) = .stop name :: Token.scan cs := by
  rw [Token.scan_slash, ← List.append_assoc, Token.upTo_append h.ends, h.names]

/-! ## References -/

theorem splitReference_append {cs n r : List Char} (h : splitReference cs = some (n, r))
    (ds : List Char) : splitReference (cs ++ ds) = some (n, r ++ ds) := by
  induction cs generalizing n with
  | nil => cases h
  | cons c cs ih =>
    rw [splitReference] at h
    rw [List.cons_append, splitReference]
    split at h
    · next hc =>
      cases h
      rw [if_pos hc]
    · next hc =>
      split at h
      · cases h
      · next hamp =>
        obtain ⟨p, hp, he⟩ := Option.map_eq_some_iff.mp h
        cases he
        rw [if_neg hc, if_neg hamp, ih hp]
        rfl

theorem unescape?_of_splitReference {cs n r : List Char} (h : splitReference cs = some (n, r)) :
    unescape? ('&' :: cs) = (ofReference? n).bind fun c => (unescape? r).map (c :: ·) := by
  rw [unescape?, if_pos rfl]
  split
  · next hnone => cases h.symm.trans hnone
  · next hsome =>
    cases h.symm.trans hsome
    cases ofReference? n with
    | none => rfl
    | some c => cases unescape? r <;> rfl

/-- Character data with whole references is read by itself. -/
theorem unescape?_append {cs t : List Char} (h : unescape? cs = some t) (ds : List Char) :
    unescape? (cs ++ ds) = (unescape? ds).map (t ++ ·) := by
  induction cs using unescape?.induct generalizing t with
  | case1 =>
    rw [unescape?] at h
    cases h
    exact Option.map_id'.symm
  | case2 cs hnone =>
    rw [unescape?, if_pos rfl] at h
    split at h
    · cases h
    · next hsome => cases hnone.symm.trans hsome
  | case3 cs n r hsplit _ c u hu hc ih =>
    rw [unescape?_of_splitReference hsplit, hc, hu] at h
    cases h
    rw [List.cons_append, unescape?_of_splitReference (splitReference_append hsplit ds), hc, ih hu]
    cases unescape? ds <;> rfl
  | case4 cs n r hsplit _ hflaw _ =>
    rw [unescape?_of_splitReference hsplit] at h
    obtain ⟨c, hc, h⟩ := Option.bind_eq_some_iff.mp h
    obtain ⟨u, hu, -⟩ := Option.map_eq_some_iff.mp h
    exact (hflaw c u hc hu).elim
  | case5 c cs hc ih =>
    rw [unescape?, if_neg hc] at h
    obtain ⟨u, hu, rfl⟩ := Option.map_eq_some_iff.mp h
    rw [List.cons_append, unescape?, if_neg hc, ih hu, Option.map_map]
    rfl

/-! ## Readings up to the grouping of character data -/

namespace Element

/-- Two open elements are the same, if the pieces of character data are put together. -/
structure Open.Alike (o p : Open) : Prop where
  /-- The full names are the same. -/
  fullName : o.fullName = p.fullName
  /-- The local names are the same. -/
  name : o.name = p.name
  /-- The attributes are the same. -/
  attributes : o.attributes = p.attributes
  /-- The children are the same. -/
  children : o.children = p.children
  /-- The character data is the same. -/
  text : o.text.reverse.flatten = p.text.reverse.flatten

theorem Open.Alike.refl (o : Open) : Alike o o := ⟨rfl, rfl, rfl, rfl, rfl⟩

theorem Open.Alike.close {o p : Open} (h : Alike o p) : o.close = p.close := by
  rw [Open.close, Open.close, h.name, h.attributes, h.children, h.text]

theorem Open.Alike.attach {o p : Open} (h : Alike o p) (e : Element) :
    Alike { o with children := e :: o.children } { p with children := e :: p.children } :=
  ⟨h.fullName, h.name, h.attributes, congrArg (e :: ·) h.children, h.text⟩

theorem Open.Alike.addText {o p : Open} (h : Alike o p) (t : List Char) :
    Alike { o with text := t :: o.text } { p with text := t :: p.text } :=
  ⟨h.fullName, h.name, h.attributes, h.children, by simp [h.text]⟩

theorem Open.alike_text {o : Open} {ts us : List (List Char)}
    (h : ts.reverse.flatten = us.reverse.flatten) :
    Alike { o with text := ts } { o with text := us } := ⟨rfl, rfl, rfl, rfl, h⟩

namespace Reading

/-- What comes out of a reading that goes on with tokens up to the end of the text. -/
def outcome (r : Reading) (ts : List Token) : Except Flaw Element := (r.takeAll ts).bind finish

theorem outcome_cons (r : Reading) (t : Token) (ts : List Token) :
    r.outcome (t :: ts) = (r.take t).bind (·.outcome ts) := by
  rw [outcome, takeAll]
  cases r.take t <;> rfl

/-- An outcome does not depend on the grouping of character data. -/
theorem outcome_congr {os ps : List Open} (h : List.Forall₂ Open.Alike os ps)
    (root : Option Element) (ts : List Token) :
    (Reading.mk os root).outcome ts = (Reading.mk ps root).outcome ts := by
  induction ts generalizing os ps root with
  | nil =>
    cases h with
    | nil => rfl
    | cons ho _ => exact congrArg (fun n => Except.error (Flaw.unclosed n)) ho.name
  | cons t ts ih =>
    have hattach (os ps : List Open) (h : List.Forall₂ Open.Alike os ps) (e : Element) :
        ((Reading.mk os root).attach e).bind (·.outcome ts) =
          ((Reading.mk ps root).attach e).bind (·.outcome ts) := by
      cases h with
      | nil => rfl
      | cons ho hs => exact ih (.cons (ho.attach e) hs) root
    have haddText (t : List Char) : ((Reading.mk os root).addText t).outcome ts =
        ((Reading.mk ps root).addText t).outcome ts := by
      cases h with
      | nil => rfl
      | cons ho hs => exact ih (.cons (ho.addText t) hs) root
    rw [outcome_cons, outcome_cons]
    cases t with
    | start name rest =>
      rw [take, take]
      cases Open.ofTag? name rest with
      | none => rfl
      | some o => exact ih (.cons (.refl o) h) root
    | empty name rest =>
      rw [take, take]
      cases Open.ofTag? name rest with
      | none => rfl
      | some o => exact hattach os ps h o.close
    | stop name =>
      rw [take, take]
      cases h with
      | nil => rfl
      | @cons o p os ps ho hs =>
        dsimp only
        rw [← ho.fullName, ← ho.close]
        split
        · exact hattach os ps hs o.close
        · rfl
    | text raw =>
      rw [take, take]
      have hempty : os.isEmpty = ps.isEmpty := by cases h <;> rfl
      dsimp only
      rw [← hempty]
      split
      · exact ih h root
      · cases unescape? raw with
        | none => rfl
        | some t => exact haddText t
    | cdata content => exact haddText content
    | aside => exact ih h root
    | broken => rfl

/-- The same for the innermost open element alone. -/
theorem outcome_text_congr (o : Open) (os : List Open) (root : Option Element)
    {ts us : List (List Char)} (h : ts.reverse.flatten = us.reverse.flatten) (rest : List Token) :
    (Reading.mk ({ o with text := ts } :: os) root).outcome rest =
      (Reading.mk ({ o with text := us } :: os) root).outcome rest :=
  outcome_congr (.cons (Open.alike_text h) (List.forall₂_same.mpr fun p _ => .refl p)) root rest

/-! ## What content does to an open element -/

section

variable (o : Open) (os : List Open) (root : Option Element)

/-- The character data up to the next tag or the like, be it empty. -/
theorem outcome_run (cs : List Char) :
    (Reading.mk (o :: os) root).outcome (Token.scan cs) =
      (Reading.mk (o :: os) root).outcome
        (.text (cs.takeWhile (· != '<')) :: Token.scan (cs.dropWhile (· != '<'))) := by
  have hempty (ts : List Token) : (Reading.mk (o :: os) root).outcome (.text [] :: ts) =
      (Reading.mk (o :: os) root).outcome ts := by
    have htake : (Reading.mk (o :: os) root).take (.text []) =
        .ok ⟨{ o with text := [] :: o.text } :: os, root⟩ := by
      simp [take, unescape?, addText]
    rw [outcome_cons, htake]
    exact outcome_text_congr o os root (by simp) ts
  cases cs with
  | nil => exact (hempty _).symm
  | cons c cs =>
    by_cases hc : c = '<'
    · subst hc
      rw [List.takeWhile_cons_of_neg (by decide), List.dropWhile_cons_of_neg (by decide), hempty]
    · have hkeep : (c != '<') = true := bne_iff_ne.mpr hc
      rw [Token.scan_run hc, List.takeWhile_cons, List.dropWhile_cons, if_pos hkeep,
        if_pos hkeep]

/-- Character data with whole references, whatever follows it. -/
theorem outcome_text {raw t : List Char} (hraw : '<' ∉ raw) (ht : unescape? raw = some t)
    (cs : List Char) :
    (Reading.mk (o :: os) root).outcome (Token.scan (raw ++ cs)) =
      (Reading.mk ({ o with text := t :: o.text } :: os) root).outcome (Token.scan cs) := by
  have hkeep : ∀ c ∈ raw, (c != '<') = true := by
    intro c hc
    exact bne_iff_ne.mpr fun he => hraw (he ▸ hc)
  rw [outcome_run, outcome_run, List.takeWhile_append_of_pos hkeep,
    List.dropWhile_append_of_pos hkeep, outcome_cons, outcome_cons, take, take]
  dsimp only [List.isEmpty_cons]
  rw [unescape?_append ht]
  cases unescape? (cs.takeWhile (· != '<')) with
  | none => rfl
  | some u => exact outcome_text_congr o os root (by simp) _

/-- A piece adds its character data. -/
theorem outcome_piece {p : Piece} {t : List Char} (hp : p.Formed) (ht : p.data? = some t)
    (cs : List Char) :
    (Reading.mk (o :: os) root).outcome (Token.scan (p.chars ++ cs)) =
      (Reading.mk ({ o with text := t :: o.text } :: os) root).outcome (Token.scan cs) := by
  have haside (ts : List Token) : (Reading.mk (o :: os) root).outcome ts =
      (Reading.mk ({ o with text := [] :: o.text } :: os) root).outcome ts :=
    outcome_text_congr o os root (by simp) ts
  cases p with
  | text raw => exact outcome_text o os root hp ht cs
  | cdata k c =>
    cases ht
    rw [Token.scan_piece hp id, outcome_cons]
    rfl
  | comment b =>
    cases ht
    rw [Token.scan_piece hp id, outcome_cons]
    exact haside _
  | instruction b =>
    cases ht
    rw [Token.scan_piece hp id, outcome_cons]
    exact haside _
  | doctype inside =>
    cases ht
    rw [Token.scan_piece hp id, outcome_cons]
    exact haside _

end

theorem ofTag?_eq_some {tag text : List Char} {children : List Element} {e : Element}
    (h : Element.ofTag? tag children text = some e) :
    ∃ attributes, e = .mk (String.ofList (localName (tagName tag))) attributes children
        (String.ofList text) ∧
      Open.ofTag? (tagName tag) (tagRest tag) =
        some ⟨tagName tag, String.ofList (localName (tagName tag)), attributes, [], []⟩ := by
  obtain ⟨attributes, has, rfl⟩ := Option.map_eq_some_iff.mp h
  exact ⟨attributes, rfl, by rw [Open.ofTag?, has]; rfl⟩

/-- An element without content is put where it stands. -/
theorem outcome_single {tag : List Char} {e : Element} (htag : StartTag (tag ++ ['/']))
    (he : Element.ofTag? tag [] [] = some e) (r : Reading) (cs : List Char) :
    r.outcome (Token.scan ((Markup.single tag).chars ++ cs)) =
      (r.attach e).bind (·.outcome (Token.scan cs)) := by
  have hchars : (Markup.single tag).chars ++ cs = '<' :: ((tag ++ ['/']) ++ '>' :: cs) := by
    simp [Markup.chars]
  obtain ⟨attributes, rfl, ho⟩ := ofTag?_eq_some he
  rw [hchars, htag.scan, Token.ofStart_slash, outcome_cons, take, ho]
  rfl

/-- An element with content is put where it stands, if its content is put into it. -/
theorem outcome_pair {tag gap text : List Char} {content : List Markup} {children : List Element}
    {e : Element} (htag : StartTag tag) (hslash : tag.getLast? ≠ some '/')
    (hstop : EndTag (tagName tag) gap) (he : Element.ofTag? tag children text = some e)
    (hcontent : ∀ (o : Open) (os : List Open) (root : Option Element) (cs : List Char),
      (Reading.mk (o :: os) root).outcome (Token.scan (Markup.contentChars content ++ cs)) =
        (Reading.mk ({ o with
          children := children.reverse ++ o.children
          text := text :: o.text } :: os) root).outcome (Token.scan cs))
    (r : Reading) (cs : List Char) :
    r.outcome (Token.scan ((Markup.pair tag content gap).chars ++ cs)) =
      (r.attach e).bind (·.outcome (Token.scan cs)) := by
  have hchars : (Markup.pair tag content gap).chars ++ cs =
      '<' :: (tag ++ '>' :: (Markup.contentChars content ++
        '<' :: '/' :: (tagName tag ++ (gap ++ '>' :: cs)))) := by simp [Markup.chars]
  obtain ⟨attributes, rfl, ho⟩ := ofTag?_eq_some he
  rw [hchars, htag.scan, Token.ofStart_of_getLast? hslash, outcome_cons, take, ho]
  change (Reading.mk (⟨tagName tag, _, attributes, [], []⟩ :: r.stack) r.root).outcome _ = _
  rw [hcontent, hstop.scan, outcome_cons, take]
  simp [Open.close]

end Reading
end Element

open Element Element.Reading

/-- Content puts its elements and its character data into the innermost open element. -/
theorem Markup.Content.outcome {ms : List Markup} {es : List Element} {t : List Char}
    (h : Content ms es t) (o : Open) (os : List Open) (root : Option Element) (cs : List Char) :
    (Reading.mk (o :: os) root).outcome (Token.scan (contentChars ms ++ cs)) =
      (Reading.mk ({ o with
        children := es.reverse ++ o.children
        text := t :: o.text } :: os) root).outcome (Token.scan cs) := by
  induction h generalizing o os root cs with
  | nil => exact outcome_text_congr o os root (by simp) _
  | @piece p t u ms es hp ht _ ih =>
    rw [contentChars, Markup.chars, List.append_assoc, outcome_piece o os root hp ht, ih]
    exact outcome_text_congr { o with children := es.reverse ++ o.children } os root (by simp) _
  | @single tag u e ms es htag he _ ih =>
    rw [contentChars, List.append_assoc, outcome_single htag he]
    simp only [attach, Except.bind]
    rw [ih]
    simp
  | @pair tag gap text u content ms children es e htag hslash hstop _ he _ ihcontent ih =>
    rw [contentChars, List.append_assoc, outcome_pair htag hslash hstop he ihcontent]
    simp only [attach, Except.bind]
    rw [ih]
    simp

end Runbook.Xml
