import Runbook.Proofs.Xml.Markup

/-!
# Texts with a tree

A text has a tree if and only if it is a marked-up document: an element between pieces that are no
tags.  `Document.ofText` reads a document as its element, and `exists_document` finds the document
of a text with a tree.  For the second, `Fits` describes the rest of a text behind open elements, by
what each of them still has to come before its end tag.

The reader is lenient at the end of a text.  It does without the last mark of an end tag or of a
processing instruction, and passes over an opening mark that nothing follows.  `SameEnd` relates
such a text to a whole one.
-/

namespace Runbook.Xml

open Runbook.Text Element Element.Reading Markup

/-! ## Documents -/

/-- What a text is written as: an element, and pieces before and after it. -/
structure Document where
  /-- The pieces before the root. -/
  before : List Piece
  /-- The root. -/
  root : Markup
  /-- The pieces after the root. -/
  after : List Piece

/-- The characters of pieces. -/
def Piece.allChars (ps : List Piece) : List Char := ps.flatMap chars

/-- The characters of a document. -/
def Document.chars (d : Document) : List Char :=
  Piece.allChars d.before ++ (d.root.chars ++ Piece.allChars d.after)

/-- A well-formed document, with the element that is its root. -/
structure Document.Writes (d : Document) (e : Element) : Prop where
  /-- The pieces before the root are formed. -/
  before : ∀ p ∈ d.before, p.Formed
  /-- The root is an element. -/
  root : Content [d.root] [e] []
  /-- The pieces after the root are formed. -/
  after : ∀ p ∈ d.after, p.Formed

/-! ## Reading a document -/

section

variable (root : Option Element)

/-- Outside of the root, character data up to the next tag or the like is passed over. -/
theorem outcome_outside_run (cs : List Char) :
    (Reading.mk [] root).outcome (Token.scan cs) =
      (Reading.mk [] root).outcome (Token.scan (cs.dropWhile (· != '<'))) := by
  cases cs with
  | nil => rfl
  | cons c cs =>
    by_cases hc : c = '<'
    · rw [hc, List.dropWhile_cons_of_neg (by decide)]
    · rw [Token.scan_run hc, List.dropWhile_cons, if_pos (bne_iff_ne.mpr hc), outcome_cons]
      rfl

/-- Outside of the root every piece is passed over. -/
theorem outcome_outside_piece {p : Piece} (hp : p.Formed) (cs : List Char) :
    (Reading.mk [] root).outcome (Token.scan (p.chars ++ cs)) =
      (Reading.mk [] root).outcome (Token.scan cs) := by
  cases p with
  | text raw =>
    have hraw : ∀ c ∈ raw, (c != '<') = true := by
      intro c hc
      exact bne_iff_ne.mpr fun he => hp (he ▸ hc)
    rw [Piece.chars, outcome_outside_run, List.dropWhile_append_of_pos hraw, ← outcome_outside_run]
  | cdata k c => rw [Token.scan_piece hp id, outcome_cons]; rfl
  | comment b => rw [Token.scan_piece hp id, outcome_cons]; rfl
  | instruction b => rw [Token.scan_piece hp id, outcome_cons]; rfl
  | doctype inside => rw [Token.scan_piece hp id, outcome_cons]; rfl

theorem outcome_outside (cs : List Char) : ∀ ps : List Piece, (∀ p ∈ ps, p.Formed) →
    (Reading.mk [] root).outcome (Token.scan (Piece.allChars ps ++ cs)) =
      (Reading.mk [] root).outcome (Token.scan cs)
  | [], _ => rfl
  | p :: ps, hps => by
      rw [Piece.allChars, List.flatMap_cons, List.append_assoc,
        outcome_outside_piece root (hps p List.mem_cons_self)]
      exact outcome_outside cs ps fun q hq => hps q (List.mem_cons_of_mem p hq)

end

/-- An element is put where it stands. -/
theorem outcome_element {m : Markup} {e : Element} {t : List Char} (h : Content [m] [e] t)
    (r : Reading) (cs : List Char) :
    r.outcome (Token.scan (m.chars ++ cs)) = (r.attach e).bind (·.outcome (Token.scan cs)) := by
  cases h with
  | piece _ _ hnone => cases hnone
  | single htag he _ => exact outcome_single htag he r cs
  | pair htag hslash hstop hcontent he _ =>
    exact outcome_pair htag hslash hstop he hcontent.outcome r cs

/-- A byte order mark counts as character data outside of the root. -/
theorem ofText_eq_outcome (cs : List Char) :
    ofText cs = (Reading.mk [] none).outcome (Token.scan cs) := by
  have hfinish : ofText cs = (Reading.mk [] none).outcome (Token.ofText cs) := by
    rw [ofText, outcome]
    cases (Reading.mk [] none).takeAll (Token.ofText cs) <;> rfl
  rw [hfinish, Token.ofText.eq_def]
  split
  · have hmark : (Piece.text ['\ufeff']).Formed := by
      rw [Piece.Formed]
      decide
    exact (outcome_outside_piece none hmark _).symm
  · rfl

/-- A document is read as its root. -/
theorem Document.Writes.ofText {d : Document} {e : Element} (h : d.Writes e) :
    Element.ofText d.chars = .ok e := by
  have hafter := outcome_outside (some e) [] d.after h.after
  rw [List.append_nil, Token.scan_nil] at hafter
  rw [ofText_eq_outcome, Document.chars, outcome_outside none _ d.before h.before,
    outcome_element h.root]
  exact hafter

/-! ## The end of a text -/

/-- Two texts are cut into the same tokens and differ in their last mark at most. -/
structure SameEnd (cs ds : List Char) : Prop where
  /-- The tokens are the same. -/
  tokens : Token.scan cs = Token.scan ds
  /-- The first text is the second, or goes on with an opening mark, or lacks the last mark. -/
  ends : cs = ds ∨ cs = ds ++ ['<'] ∨ cs ++ ['>'] = ds

namespace SameEnd

variable {cs ds : List Char}

theorem refl (cs : List Char) : SameEnd cs cs := ⟨rfl, .inl rfl⟩

/-- An opening mark that nothing follows. -/
theorem mark : SameEnd ['<'] [] := ⟨by rw [Token.scan, Token.scan], .inr (.inl rfl)⟩

theorem append {u : List Char} {t : Token} (hcs : Token.scan (u ++ cs) = t :: Token.scan cs)
    (hds : Token.scan (u ++ ds) = t :: Token.scan ds) (h : SameEnd cs ds) :
    SameEnd (u ++ cs) (u ++ ds) := by
  refine ⟨by rw [hcs, hds, h.tokens], ?_⟩
  obtain rfl | rfl | rfl := h.ends
  · exact .inl rfl
  · exact .inr (.inl (by rw [List.append_assoc]))
  · exact .inr (.inr (by rw [List.append_assoc]))

theorem scan_mark : Token.scan ([] ++ ['>']) ≠ Token.scan [] := by
  rw [List.nil_append, Token.scan_run (by decide), Token.scan]
  exact List.cons_ne_nil _ _

/-- A text that is nothing or starts with an opening mark stays so. -/
theorem head (h : SameEnd cs ds) (hcs : ∀ c ∈ cs.head?, c = '<') : ∀ c ∈ ds.head?, c = '<' := by
  obtain rfl | rfl | rfl := h.ends
  · exact hcs
  · intro c hc
    cases ds with
    | nil => cases hc
    | cons d ds => exact hcs c hc
  · intro c hc
    cases cs with
    | nil => exact absurd h.tokens.symm scan_mark
    | cons d cs => exact hcs c hc

theorem eq_nil (h : SameEnd [] ds) : ds = [] := by
  obtain rfl | hds | rfl := h.ends
  · rfl
  · cases ds <;> cases hds
  · exact absurd h.tokens.symm scan_mark

end SameEnd

/-! ## The rest of a text -/

theorem Markup.Content.append {ms ns : List Markup} {es fs : List Element} {t u : List Char}
    (h : Content ms es t) (hns : Content ns fs u) : Content (ms ++ ns) (es ++ fs) (t ++ u) := by
  induction h with
  | nil => exact hns
  | piece hp ht _ ih => exact List.append_assoc _ _ u ▸ .piece hp ht ih
  | single htag he _ ih => exact .single htag he ih
  | pair htag hslash hstop hcontent he _ _ ih => exact .pair htag hslash hstop hcontent he ih

/-- The rest of a text behind open elements, innermost first, of which the names are given: for each
of them content and an end tag, and for the text its root, unless it has been, and pieces. -/
inductive Fits : List (List Char) → Bool → List Char → Prop where
  /-- Behind the root there are pieces. -/
  | after {ps : List Piece} : (∀ p ∈ ps, p.Formed) → Fits [] true (Piece.allChars ps)
  /-- Before the root there are pieces. -/
  | before {ps : List Piece} {m : Markup} {e : Element} {cs : List Char} :
      (∀ p ∈ ps, p.Formed) → Content [m] [e] [] → Fits [] true cs →
      Fits [] false (Piece.allChars ps ++ (m.chars ++ cs))
  /-- In an open element there is content. -/
  | stop {name gap t cs : List Char} {names : List (List Char)} {rooted : Bool}
      {ms : List Markup} {es : List Element} :
      Content ms es t → EndTag name gap → (names = [] → rooted = false) →
      Fits names (names.isEmpty || rooted) cs →
      Fits (name :: names) rooted
        (contentChars ms ++ '<' :: '/' :: (name ++ (gap ++ '>' :: cs)))

namespace Fits

variable {names : List (List Char)} {rooted : Bool} {cs : List Char}

/-- A piece comes first. -/
theorem piece {p : Piece} (hp : p.Formed) (hdata : names ≠ [] → ∃ t, p.data? = some t)
    (h : Fits names rooted cs) : Fits names rooted (p.chars ++ cs) := by
  cases h with
  | after hps => exact .after (List.forall_mem_cons.mpr ⟨hp, hps⟩)
  | @before ps m e cs hps hm hcs =>
    rw [← List.append_assoc]
    exact @before (p :: ps) m e cs (List.forall_mem_cons.mpr ⟨hp, hps⟩) hm hcs
  | stop hms hstop hroot hcs =>
    obtain ⟨t, ht⟩ := hdata (List.cons_ne_nil _ _)
    rw [← List.append_assoc]
    exact .stop (.piece hp ht hms) hstop hroot hcs

/-- An element comes first. -/
theorem element {m : Markup} {e : Element} (hm : Content [m] [e] [])
    (hroot : names = [] → rooted = false) (h : Fits names (names.isEmpty || rooted) cs) :
    Fits names rooted (m.chars ++ cs) := by
  cases names with
  | nil =>
    rw [hroot rfl]
    exact @before [] m e cs nofun hm h
  | cons name names =>
    cases h with
    | stop hms hstop hroot hcs =>
      rw [← List.append_assoc]
      exact .stop (hm.append hms) hstop hroot hcs

/-- A start tag comes first. -/
theorem start {tag : List Char} (htag : StartTag tag) (hslash : tag.getLast? ≠ some '/')
    {as : List (String × String)} (has : attributesOf? (tagRest tag) = some as)
    (h : Fits (tagName tag :: names) rooted cs) :
    Fits names rooted ('<' :: (tag ++ '>' :: cs)) := by
  cases h with
  | @stop name gap t cs names rooted ms es hms hstop hroot hcs =>
    have he : Element.ofTag? tag es t =
        some (.mk (String.ofList (localName (tagName tag))) as es (String.ofList t)) := by
      rw [Element.ofTag?, has, Option.map_some]
    have hchars : '<' :: (tag ++ '>' :: (contentChars ms ++
          '<' :: '/' :: (tagName tag ++ (gap ++ '>' :: cs)))) =
        (Markup.pair tag ms gap).chars ++ cs := by simp [Markup.chars]
    rw [hchars]
    exact element (.pair htag hslash hstop hms he .nil) hroot hcs

/-- Behind nothing and before nothing there is a document. -/
theorem exists_document (h : Fits [] false cs) :
    ∃ d : Document, ∃ e, d.Writes e ∧ d.chars = cs := by
  cases h with
  | @before ps m e cs hps hm hcs =>
    cases hcs with
    | @after qs hqs => exact ⟨⟨ps, m, qs⟩, e, ⟨hps, hm, hqs⟩, rfl⟩

end Fits

/-! ## Tokens that fit -/

namespace Token

theorem upTo_of_notMem {cs : List Char} (hmark : '>' ∉ cs) : upTo (· == '>') cs = (cs, []) := by
  have hkeep : ∀ c ∈ cs, (!(c == '>')) = true := by
    intro c hc
    have : c ≠ '>' := fun he => hmark (he ▸ hc)
    simp [this]
  rw [upTo, List.takeWhile_eq_self_iff.mpr hkeep, List.dropWhile_eq_nil_iff.mpr hkeep,
    List.drop_nil]

/-- A text up to its first mark, or to its end. -/
theorem exists_upTo (cs : List Char) :
    ∃ p r, '>' ∉ p ∧ upTo (· == '>') cs = (p, r) ∧ (cs = p ++ '>' :: r ∨ cs = p ∧ r = []) := by
  by_cases hmark : '>' ∈ cs
  · obtain ⟨p, r, rfl, hp⟩ := List.eq_append_cons_of_mem hmark
    exact ⟨p, r, hp, upTo_append hp r, .inl rfl⟩
  · exact ⟨cs, [], hmark, upTo_of_notMem hmark, .inr ⟨rfl, rfl⟩⟩

/-- What ends at the first mark or at the end of the text may be without its mark there. -/
theorem sameEnd_of_upTo {lead : Char} {token : List Char → Token}
    (hscan : ∀ r, scan ('<' :: lead :: r) =
      token (upTo (· == '>') r).1 :: scan (upTo (· == '>') r).2)
    {cs p r ds : List Char} (hp : '>' ∉ p) (hcs : cs = p ++ '>' :: r ∨ cs = p ∧ r = [])
    (h : SameEnd r ds) : SameEnd ('<' :: lead :: cs) ('<' :: lead :: (p ++ '>' :: ds)) := by
  have hwhole (xs : List Char) :
      scan (('<' :: lead :: (p ++ ['>'])) ++ xs) = token p :: scan xs := by
    have hsplit : ('<' :: lead :: (p ++ ['>'])) ++ xs = '<' :: lead :: (p ++ '>' :: xs) := by simp
    rw [hsplit, hscan, upTo_append hp]
  obtain rfl | ⟨rfl, rfl⟩ := hcs
  · simpa using SameEnd.append (hwhole r) (hwhole ds) h
  · obtain rfl := h.eq_nil
    refine ⟨?_, .inr (.inr rfl)⟩
    rw [hscan, hscan, upTo_of_notMem hp, upTo_append hp]

/-- The name in an end tag comes first in it. -/
theorem exists_of_ofStop {inside name : List Char} (h : ofStop inside = .stop name) :
    ∃ gap, inside = name ++ gap := by
  rw [ofStop] at h
  injection h with h
  split at h
  · exact ⟨[], by rw [h, List.append_nil]⟩
  · refine ⟨(inside.reverse.takeWhile isGap).reverse, ?_⟩
    rw [← h, ← List.reverse_append, List.takeWhile_append_dropWhile, List.reverse_reverse]

theorem exists_of_ofInstruction {inside : List Char} (h : ofInstruction inside ≠ .broken) :
    ∃ b, b ≠ [] ∧ inside = b ++ ['?'] := by
  rw [ofInstruction] at h
  split at h
  · next hends =>
    obtain ⟨b, rfl⟩ := List.getLast?_eq_some_iff.mp hends.2
    refine ⟨b, ?_, rfl⟩
    rintro rfl
    exact absurd hends.1 (by decide)
  · exact absurd rfl h

/-- Character data up to a tag or to the end of the text. -/
theorem scan_text_of_head {t cs : List Char} (ht : t ≠ []) (hmark : '<' ∉ t)
    (hcs : ∀ c ∈ cs.head?, c = '<') : scan (t ++ cs) = .text t :: scan cs := by
  cases cs with
  | nil =>
    rw [List.append_nil, scan_nil]
    cases scan_of_notMem hmark with
    | inl hnone =>
      cases t with
      | nil => exact absurd rfl ht
      | cons c t =>
        rw [scan_run fun hc => hmark (hc ▸ List.mem_cons_self)] at hnone
        cases hnone
    | inr htext => exact htext
  | cons c cs =>
    obtain rfl : c = '<' := hcs c rfl
    exact scan_text ht hmark cs

end Token

/-! ## Every text with a tree -/

namespace Element.Reading

/-- The full names of the open elements. -/
def names (r : Reading) : List (List Char) := r.stack.map (·.fullName)

theorem exists_of_outcome_cons {r : Reading} {t : Token} {ts : List Token} {e : Element}
    (h : r.outcome (t :: ts) = .ok e) : ∃ r', r.take t = .ok r' ∧ r'.outcome ts = .ok e := by
  rw [outcome_cons] at h
  cases htake : r.take t with
  | error f =>
    rw [htake] at h
    cases h
  | ok r' =>
    rw [htake] at h
    exact ⟨r', rfl, h⟩

/-- What is put into an open element or becomes the root changes no name. -/
theorem attach_eq_ok {r r' : Reading} {e : Element} (h : r.attach e = .ok r') :
    r'.names = r.names ∧ r'.root.isSome = (r.names.isEmpty || r.root.isSome) ∧
      (r.names = [] → r.root.isSome = false) := by
  obtain ⟨stack, root⟩ := r
  cases stack with
  | cons o os =>
    cases h
    exact ⟨rfl, rfl, nofun⟩
  | nil =>
    cases root with
    | some _ => cases h
    | none =>
      cases h
      exact ⟨rfl, rfl, fun _ => rfl⟩

/-- A piece changes no name, and its references are whole within an element. -/
theorem take_token_eq_ok {p : Piece} {r r' : Reading} (h : r.take p.token = .ok r') :
    r'.names = r.names ∧ r'.root = r.root ∧ (r.names ≠ [] → ∃ t, p.data? = some t) := by
  obtain ⟨stack, root⟩ := r
  cases p with
  | text raw =>
    cases stack with
    | nil =>
      cases h
      exact ⟨rfl, rfl, fun hne => absurd rfl hne⟩
    | cons o os =>
      rw [Piece.token, take] at h
      cases ht : unescape? raw with
      | none =>
        rw [ht] at h
        cases h
      | some t =>
        rw [ht] at h
        cases h
        exact ⟨rfl, rfl, fun _ => ⟨t, ht⟩⟩
  | cdata k c =>
    cases h
    cases stack with
    | nil => exact ⟨rfl, rfl, fun _ => ⟨c, rfl⟩⟩
    | cons o os => exact ⟨rfl, rfl, fun _ => ⟨c, rfl⟩⟩
  | comment b =>
    cases h
    exact ⟨rfl, rfl, fun _ => ⟨[], rfl⟩⟩
  | instruction b =>
    cases h
    exact ⟨rfl, rfl, fun _ => ⟨[], rfl⟩⟩
  | doctype inside =>
    cases h
    exact ⟨rfl, rfl, fun _ => ⟨[], rfl⟩⟩

/-- An end tag closes the innermost open element. -/
theorem take_stop_eq_ok {r r' : Reading} {name : List Char} (h : r.take (.stop name) = .ok r') :
    ∃ o os root, r = ⟨o :: os, root⟩ ∧ o.fullName = name ∧
      (Reading.mk os root).attach o.close = .ok r' := by
  obtain ⟨stack, root⟩ := r
  cases stack with
  | nil => cases h
  | cons o os =>
    rw [take] at h
    dsimp only at h
    split at h
    · next hname => exact ⟨o, os, root, rfl, hname, h⟩
    · cases h

theorem ofTag?_eq_some_iff {tag : List Char} {o : Open} :
    Open.ofTag? (tagName tag) (tagRest tag) = some o ↔
      ∃ as, attributesOf? (tagRest tag) = some as ∧
        o = ⟨tagName tag, String.ofList (localName (tagName tag)), as, [], []⟩ := by
  rw [Open.ofTag?, Option.map_eq_some_iff]
  simp only [eq_comm]

end Element.Reading

/-- What is cut off as a tag and does not start like another kind of tag is a start tag. -/
theorem StartTag.of_tagEnd {c : Char} {cs inside r : List Char} (hbang : c ≠ '!') (hslash : c ≠ '/')
    (hquestion : c ≠ '?') (h : Token.tagEnd none (c :: cs) = some (inside, r)) :
    c :: cs = inside ++ '>' :: r ∧ StartTag inside := by
  obtain ⟨hcs, hends⟩ := Token.tagEnd_eq_some h
  refine ⟨hcs, hends, fun d hd => ?_⟩
  cases inside with
  | nil => cases hd
  | cons d' inside =>
    cases hd
    obtain rfl : c = d := (List.cons.inj hcs).1
    exact ⟨hbang, hslash, hquestion⟩

/-- The rest of a text fits what has been read of it. -/
def Rest (r : Reading) (cs : List Char) : Prop :=
  ∃ ds, SameEnd cs ds ∧ Fits r.names r.root.isSome ds

namespace Rest

variable {r r' : Reading} {cs : List Char}

/-- A piece that is taken fits. -/
theorem piece {p : Piece} (hp : p.Formed) (htake : r.take p.token = .ok r')
    (hscan : ∀ ds, SameEnd cs ds → Token.scan (p.chars ++ ds) = p.token :: Token.scan ds)
    (h : Rest r' cs) : Rest r (p.chars ++ cs) := by
  obtain ⟨ds, hsame, hfits⟩ := h
  obtain ⟨hnames, hroot, hdata⟩ := take_token_eq_ok htake
  rw [hnames, hroot] at hfits
  exact ⟨p.chars ++ ds, .append (hscan cs (.refl cs)) (hscan ds hsame) hsame, hfits.piece hp hdata⟩

/-- A tag that is taken fits. -/
theorem tag {inside : List Char} {e : Element} (hinside : StartTag inside)
    (hout : r.outcome (Token.ofStart inside :: Token.scan cs) = .ok e)
    (h : ∀ r', r'.outcome (Token.scan cs) = .ok e → Rest r' cs) :
    Rest r ('<' :: (inside ++ '>' :: cs)) := by
  obtain ⟨r', htake, hrest⟩ := exists_of_outcome_cons hout
  obtain ⟨ds, hsame, hfits⟩ := h r' hrest
  have hscan (xs : List Char) : Token.scan (('<' :: (inside ++ ['>'])) ++ xs) =
      Token.ofStart inside :: Token.scan xs := by simpa using hinside.scan xs
  have hends : SameEnd ('<' :: (inside ++ '>' :: cs)) ('<' :: (inside ++ '>' :: ds)) := by
    simpa using SameEnd.append (hscan cs) (hscan ds) hsame
  refine ⟨_, hends, ?_⟩
  by_cases hslash : inside.getLast? = some '/'
  · obtain ⟨tag, rfl⟩ := List.getLast?_eq_some_iff.mp hslash
    rw [Token.ofStart_slash, take] at htake
    cases ho : Open.ofTag? (tagName tag) (tagRest tag) with
    | none =>
      rw [ho] at htake
      cases htake
    | some o =>
      rw [ho] at htake
      obtain ⟨hnames, hroot, hfirst⟩ := attach_eq_ok htake
      obtain ⟨as, has, rfl⟩ := ofTag?_eq_some_iff.mp ho
      have he : Element.ofTag? tag [] [] = some (Open.close
          ⟨tagName tag, String.ofList (localName (tagName tag)), as, [], []⟩) := by
        rw [Element.ofTag?, has]
        rfl
      have hchars : '<' :: (tag ++ ['/'] ++ '>' :: ds) = (Markup.single tag).chars ++ ds := by
        simp [Markup.chars]
      rw [hnames, hroot] at hfits
      rw [hchars]
      exact .element (.single hinside he .nil) hfirst hfits
  · rw [Token.ofStart_of_getLast? hslash, take] at htake
    cases ho : Open.ofTag? (tagName inside) (tagRest inside) with
    | none =>
      rw [ho] at htake
      cases htake
    | some o =>
      rw [ho] at htake
      cases htake
      obtain ⟨as, has, rfl⟩ := ofTag?_eq_some_iff.mp ho
      exact hfits.start hinside hslash has

/-- An end tag that is taken fits. -/
theorem stop {e : Element} (hout : r.outcome (Token.scan ('<' :: '/' :: cs)) = .ok e)
    (h : ∀ r', r'.outcome (Token.scan (Token.upTo (· == '>') cs).2) = .ok e →
      Rest r' (Token.upTo (· == '>') cs).2) : Rest r ('<' :: '/' :: cs) := by
  obtain ⟨p, q, hp, hupTo, hcs⟩ := Token.exists_upTo cs
  rw [Token.scan_slash, hupTo] at hout
  rw [hupTo] at h
  obtain ⟨r', htake, hrest⟩ := exists_of_outcome_cons hout
  obtain ⟨ds, hsame, hfits⟩ := h r' hrest
  refine ⟨_, Token.sameEnd_of_upTo Token.scan_slash hp hcs hsame, ?_⟩
  obtain ⟨name, hname⟩ : ∃ name, Token.ofStop p = .stop name := ⟨_, rfl⟩
  rw [hname] at htake
  obtain ⟨o, os, root, rfl, rfl, hattach⟩ := take_stop_eq_ok htake
  obtain ⟨hnames, hroot, hfirst⟩ := attach_eq_ok hattach
  obtain ⟨gap, rfl⟩ := Token.exists_of_ofStop hname
  rw [hnames, hroot] at hfits
  rw [List.append_assoc]
  exact .stop .nil ⟨hp, hname⟩ hfirst hfits

/-- A processing instruction that is taken fits. -/
theorem instruction {e : Element} (hout : r.outcome (Token.scan ('<' :: '?' :: cs)) = .ok e)
    (h : ∀ r', r'.outcome (Token.scan (Token.upTo (· == '>') cs).2) = .ok e →
      Rest r' (Token.upTo (· == '>') cs).2) : Rest r ('<' :: '?' :: cs) := by
  obtain ⟨p, q, hp, hupTo, hcs⟩ := Token.exists_upTo cs
  rw [Token.scan_question, hupTo] at hout
  rw [hupTo] at h
  obtain ⟨r', htake, hrest⟩ := exists_of_outcome_cons hout
  obtain ⟨ds, hsame, hfits⟩ := h r' hrest
  refine ⟨_, Token.sameEnd_of_upTo Token.scan_question hp hcs hsame, ?_⟩
  have hsound : Token.ofInstruction p ≠ .broken := by
    intro hbroken
    rw [hbroken] at htake
    cases htake
  obtain ⟨b, hb, rfl⟩ := Token.exists_of_ofInstruction hsound
  rw [Token.ofInstruction_concat hb] at htake
  have hpiece : (Piece.instruction b).Formed :=
    ⟨hb, fun hmem => hp (List.mem_append_left ['?'] hmem)⟩
  obtain ⟨hnames, hroot, hdata⟩ := take_token_eq_ok (p := .instruction b) htake
  have hchars : '<' :: '?' :: (b ++ ['?'] ++ '>' :: ds) = (Piece.instruction b).chars ++ ds := by
    simp [Piece.chars]
  rw [hnames, hroot] at hfits
  rw [hchars]
  exact hfits.piece hpiece hdata

/-- Character data that is taken fits. -/
theorem run {c : Char} {e : Element} (hc : c ≠ '<')
    (hout : r.outcome (Token.scan (c :: cs)) = .ok e)
    (h : ∀ r', r'.outcome (Token.scan (cs.dropWhile (· != '<'))) = .ok e →
      Rest r' (cs.dropWhile (· != '<'))) : Rest r (c :: cs) := by
  rw [Token.scan_run hc] at hout
  obtain ⟨r', htake, hrest⟩ := exists_of_outcome_cons hout
  have hraw : '<' ∉ c :: cs.takeWhile (· != '<') := by
    rintro (_ | ⟨_, hmem⟩)
    · exact hc rfl
    · exact absurd (List.mem_takeWhile_imp hmem) (by decide)
  have hhead : ∀ d ∈ (cs.dropWhile (· != '<')).head?, d = '<' := by
    intro d hd
    have := List.head?_dropWhile_not (· != '<') cs
    rw [hd] at this
    simpa using this
  have hsplit : c :: cs =
      (Piece.text (c :: cs.takeWhile (· != '<'))).chars ++ cs.dropWhile (· != '<') := by
    rw [Piece.chars, List.cons_append, List.takeWhile_append_dropWhile]
  rw [hsplit]
  exact piece hraw htake
    (fun ds hds => Token.scan_text_of_head (List.cons_ne_nil _ _) hraw (hds.head hhead))
    (h r' hrest)

/-- Nothing fits if a tree has come out. -/
theorem fits_nil {e : Element} (h : r.outcome [] = .ok e) : Fits r.names r.root.isSome [] := by
  obtain ⟨stack, root⟩ := r
  cases stack with
  | cons o os => cases h
  | nil =>
    cases root with
    | none => cases h
    | some _ => exact @Fits.after [] nofun

/-- Whatever a text goes on with, if a tree comes out of it, it fits. -/
theorem of_outcome (cs : List Char) : ∀ (r : Reading) (e : Element),
    r.outcome (Token.scan cs) = .ok e → Rest r cs := by
  induction cs using Token.scan.induct with
  | case1 =>
    intro r e h
    rw [Token.scan_nil] at h
    exact ⟨[], .refl [], fits_nil h⟩
  | case2 =>
    intro r e h
    rw [SameEnd.mark.tokens, Token.scan_nil] at h
    exact ⟨[], .mark, fits_nil h⟩
  | case3 cs hnone =>
    intro r e h
    rw [Token.scan_bang_of_none hnone] at h
    cases h
  | case4 cs t cs' hbang _ ih =>
    intro r e h
    obtain ⟨p, hp, htext, rfl, hchars⟩ := Token.exists_piece_of_afterBang hbang
    rw [Token.scan_bang hbang] at h
    obtain ⟨r', htake, hrest⟩ := exists_of_outcome_cons h
    rw [hchars]
    exact .piece hp htake (fun ds _ => Token.scan_piece hp htext ds) (ih r' e hrest)
  | case5 cs p _ ih => exact fun r e h => stop h fun r' => ih r' e
  | case6 cs p _ ih => exact fun r e h => instruction h fun r' => ih r' e
  | case7 c cs hbang hslash hquestion hnone =>
    intro r e h
    rw [Token.scan_tag_of_none cs hbang hslash hquestion hnone] at h
    cases h
  | case8 c cs hbang hslash hquestion inside cs' hend _ ih =>
    intro r e h
    obtain ⟨hcs, hinside⟩ := StartTag.of_tagEnd hbang hslash hquestion hend
    rw [hcs] at h ⊢
    rw [hinside.scan] at h
    exact .tag hinside h fun r' => ih r' e
  | case9 c cs hc rest _ ih => exact fun r e h => run hc h fun r' => ih r' e

end Rest

/-- A text with a tree is a document, the end of the text aside. -/
theorem exists_document {cs : List Char} {e : Element} (h : Element.ofText cs = .ok e) :
    ∃ d : Document, d.Writes e ∧ SameEnd cs d.chars := by
  rw [ofText_eq_outcome] at h
  obtain ⟨ds, hsame, hfits⟩ := Rest.of_outcome cs _ e h
  obtain ⟨d, e', hd, rfl⟩ := hfits.exists_document
  have hread : (Reading.mk [] none).outcome (Token.scan d.chars) = .ok e := hsame.tokens ▸ h
  rw [← ofText_eq_outcome, hd.ofText] at hread
  cases hread
  exact ⟨d, hd, hsame⟩

/-- What the end of a text may lack, it lacks in vain. -/
theorem SameEnd.ofText_eq {cs ds : List Char} (h : SameEnd cs ds) :
    Element.ofText cs = Element.ofText ds := by
  rw [ofText_eq_outcome, ofText_eq_outcome, h.tokens]

end Runbook.Xml
