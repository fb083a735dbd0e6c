import Runbook.Proofs.Text.Letters
import Runbook.Proofs.Xml.Tokens

/-!
# Pieces between tags

What stands between the tags of a text is made of pieces: character data, CDATA sections, comments,
processing instructions and document types.  A piece is *formed* if it ends where it is meant to.
Then it is cut off as one token, whatever follows it (`Token.scan_piece`), and conversely what is
cut off behind `<!` or `<?` is a formed piece.

The ends of comments, sections and document types are all found in one way, as the first mark before
which a condition holds: `Token.markEnd_eq_some_iff`.
-/

namespace Runbook.Xml

open Runbook.Text

/-- A piece of a text that is no tag. -/
inductive Piece where
  /-- Character data as written. -/
  | text (raw : List Char)
  /-- A CDATA section, its keyword as written and its content. -/
  | cdata (keyword content : List Char)
  /-- A comment. -/
  | comment (body : List Char)
  /-- A processing instruction, or the declaration at the start of a text. -/
  | instruction (body : List Char)
  /-- A document type. -/
  | doctype (inside : List Char)

namespace Piece

/-- The characters of a piece. -/
def chars : Piece → List Char
  | text raw => raw
  | cdata keyword content => '<' :: '!' :: (keyword ++ (content ++ [']', ']', '>']))
  | comment body => '<' :: '!' :: '-' :: '-' :: (body ++ ['-', '-', '>'])
  | instruction body => '<' :: '?' :: (body ++ ['?', '>'])
  | doctype inside => '<' :: '!' :: (inside ++ ['>'])

/-- A piece ends where it is meant to. -/
def Formed : Piece → Prop
  | text raw => '<' ∉ raw
  | cdata keyword content =>
      lowerAscii keyword = "[cdata[".toList ∧ ¬ [']', ']', '>'] <:+: content
  | comment body => ¬ ['-', '-', '>'] <:+: body
  | instruction body => body ≠ [] ∧ '>' ∉ body
  | doctype inside => ∀ cs, Token.afterBang (inside ++ '>' :: cs) = some (.aside, cs)

/-- The character data of a piece, if the references in it are whole. -/
def data? : Piece → Option (List Char)
  | text raw => unescape? raw
  | cdata _ content => some content
  | comment _ => some []
  | instruction _ => some []
  | doctype _ => some []

/-- The token of a piece. -/
def token : Piece → Token
  | text raw => .text raw
  | cdata _ content => .cdata content
  | comment _ => .aside
  | instruction _ => .aside
  | doctype _ => .aside

/-- The piece is character data as written. -/
def IsText : Piece → Prop
  | text _ => True
  | _ => False

/-- A comment without a mark ends where it is meant to. -/
theorem formed_comment {body : List Char} (h : '>' ∉ body) : (comment body).Formed :=
  fun hends => h (hends.subset (by decide))

end Piece

/-! ## Texts in two parts -/

section

variable {α : Type} {a b c d : List α} {x : α}

/-- A character that is not in the front of a text is in its back. -/
theorem exists_of_notMem_front (h : a ++ b = c ++ x :: d) (hx : x ∉ a) :
    ∃ e, b = e ++ x :: d ∧ c = a ++ e := by
  obtain ⟨e, hc, hb⟩ | ⟨e, ha, hd⟩ := List.append_eq_append_iff.mp h
  · exact ⟨e, hb, hc⟩
  · cases e with
    | nil => exact ⟨[], hd.symm, by rw [ha, List.append_nil, List.append_nil]⟩
    | cons y e =>
      obtain ⟨rfl, -⟩ := List.cons.inj hd
      exact absurd (ha ▸ List.mem_append_right c List.mem_cons_self) hx

/-- A character that is not in the back of a text is in its front. -/
theorem exists_of_notMem_back (h : c ++ x :: d = a ++ b) (hx : x ∉ b) :
    ∃ e, d = e ++ b ∧ a = c ++ x :: e := by
  obtain ⟨e, ha, hd⟩ | ⟨e, -, hb⟩ := List.append_eq_append_iff.mp h
  · cases e with
    | nil =>
      have hb : x :: d = b := hd
      exact absurd (hb ▸ List.mem_cons_self) hx
    | cons y e =>
      obtain ⟨rfl, he⟩ := List.cons.inj hd
      exact ⟨e, he, ha⟩
  · exact absurd (hb ▸ List.mem_append_right e List.mem_cons_self) hx

end

namespace Token

/-! ## The mark at the end of a piece -/

/-- A mark after a text is the first one before which a condition holds of the text so far, which
is kept in reverse. -/
structure FirstMark (done : List Char → Bool) (p : List Char) : Prop where
  /-- The condition holds before the mark. -/
  here : done p.reverse = true
  /-- It holds before no other. -/
  first : ∀ q r, p = q ++ '>' :: r → done q.reverse = false

theorem firstMark_cons_iff {done : List Char → Bool} {before : List Char} {c : Char}
    (hc : ¬ (c = '>' ∧ done before = true)) {p : List Char} :
    FirstMark (fun b => done (b ++ before)) (c :: p) ↔
      FirstMark (fun b => done (b ++ c :: before)) p := by
  constructor
  · rintro ⟨hhere, hfirst⟩
    exact ⟨by simpa using hhere, fun q r hq => by
      simpa using hfirst (c :: q) r (by rw [hq]; rfl)⟩
  · rintro ⟨hhere, hfirst⟩
    refine ⟨by simpa using hhere, fun q r hq => ?_⟩
    cases q with
    | nil =>
      have hmark : c = '>' := (List.cons.inj hq).1
      simpa [hmark] using hc
    | cons d q =>
      obtain ⟨rfl, hp⟩ := List.cons.inj hq
      simpa using hfirst q r hp

theorem markEnd_eq_some_iff {done : List Char → Bool} {before cs inside rest : List Char} :
    markEnd done before cs = some (inside, rest) ↔
      ∃ p, inside = before.reverse ++ p ∧ cs = p ++ '>' :: rest ∧
        FirstMark (fun b => done (b ++ before)) p := by
  induction cs generalizing before with
  | nil =>
    rw [markEnd]
    refine iff_of_false (Option.some_ne_none _).symm ?_
    rintro ⟨p, -, hcs, -⟩
    cases p <;> cases hcs
  | cons c cs ih =>
    rw [markEnd]
    by_cases hc : c = '>' ∧ done before = true
    · rw [if_pos hc]
      constructor
      · intro h
        cases h
        exact ⟨[], (List.append_nil _).symm, by rw [hc.1]; rfl, hc.2, fun q r hq => by
          cases q <;> cases hq⟩
      · rintro ⟨p, rfl, hcs, hp⟩
        cases p with
        | nil =>
          cases hcs
          rw [List.append_nil]
        | cons d p =>
          have hd : d = '>' := (List.cons.inj hcs).1.symm.trans hc.1
          have hfalse : done before = false := hp.first [] p (by rw [hd]; rfl)
          cases hc.2.symm.trans hfalse
    · rw [if_neg hc, ih]
      constructor
      · rintro ⟨p, rfl, rfl, hp⟩
        exact ⟨c :: p, by simp, rfl, (firstMark_cons_iff hc).mpr hp⟩
      · rintro ⟨p, hinside, hcs, hp⟩
        cases p with
        | nil =>
          have hdone : done before = true := by simpa using hp.here
          exact absurd ⟨(List.cons.inj hcs).1, hdone⟩ hc
        | cons d p =>
          have hcd : c = d := (List.cons.inj hcs).1
          subst hcd
          exact ⟨p, by simpa using hinside, (List.cons.inj hcs).2, (firstMark_cons_iff hc).mp hp⟩

/-- The first mark of a text, read from its start. -/
theorem markEnd_nil_eq_some_iff {done : List Char → Bool} {cs p rest : List Char} :
    markEnd done [] cs = some (p, rest) ↔ cs = p ++ '>' :: rest ∧ FirstMark done p := by
  simp [markEnd_eq_some_iff]

/-! ## Comments -/

theorem endsComment_reverse_iff {p : List Char} :
    endsComment p.reverse = true ↔ ∃ b, p = b ++ ['-', '-'] := by
  constructor
  · intro h
    rw [endsComment.eq_def] at h
    split at h
    · next r hr => exact ⟨r.reverse, by simpa using congrArg List.reverse hr⟩
    · cases h
  · rintro ⟨b, rfl⟩
    simp [endsComment]

/-- A comment ends at the first mark after two dashes. -/
theorem firstMark_comment_iff {p : List Char} :
    FirstMark endsComment p ↔ ∃ b, p = b ++ ['-', '-'] ∧ (Piece.comment b).Formed := by
  constructor
  · intro h
    obtain ⟨b, rfl⟩ := endsComment_reverse_iff.mp h.here
    refine ⟨b, rfl, ?_⟩
    rintro ⟨s, t, rfl⟩
    have hends : endsComment (s ++ ['-', '-']).reverse = true :=
      endsComment_reverse_iff.mpr ⟨s, rfl⟩
    cases hends.symm.trans (h.first _ (t ++ ['-', '-']) (by simp))
  · rintro ⟨b, rfl, hb⟩
    refine ⟨endsComment_reverse_iff.mpr ⟨b, rfl⟩, fun q r hq => Bool.eq_false_iff.mpr ?_⟩
    intro hends
    obtain ⟨s, rfl⟩ := endsComment_reverse_iff.mp hends
    obtain ⟨t, -, rfl⟩ := exists_of_notMem_back hq.symm (by decide)
    exact hb ⟨s, t, by simp⟩

theorem afterBang_comment_iff {cs r : List Char} {t : Token} :
    afterBang ('-' :: '-' :: cs) = some (t, r) ↔
      t = .aside ∧ ∃ b, (Piece.comment b).Formed ∧ cs = b ++ '-' :: '-' :: '>' :: r := by
  rw [afterBang.eq_1, Option.map_eq_some_iff]
  constructor
  · rintro ⟨p, hp, he⟩
    cases he
    obtain ⟨rfl, hfirst⟩ := markEnd_nil_eq_some_iff.mp hp
    obtain ⟨b, hpb, hb⟩ := firstMark_comment_iff.mp hfirst
    exact ⟨rfl, b, hb, by simp [hpb]⟩
  · rintro ⟨rfl, b, hb, rfl⟩
    refine ⟨(b ++ ['-', '-'], r), markEnd_nil_eq_some_iff.mpr ⟨by simp, ?_⟩, rfl⟩
    exact firstMark_comment_iff.mpr ⟨b, rfl, hb⟩

/-! ## CDATA sections -/

theorem endsCdata_reverse_iff {p : List Char} :
    endsCdata p.reverse = true ↔ ∃ b, p = b ++ [']', ']'] := by
  constructor
  · intro h
    rw [endsCdata.eq_def] at h
    split at h
    · next r hr => exact ⟨r.reverse, by simpa using congrArg List.reverse hr⟩
    · cases h
  · rintro ⟨b, rfl⟩
    simp [endsCdata]

/-- A text starts with the keyword of a section, its capital letters aside. -/
theorem dropLeadAnyCase_eq_some_iff {lead cs r : List Char} :
    dropLeadAnyCase lead cs = some r ↔ ∃ k, lowerAscii k = lead ∧ cs = k ++ r := by
  rw [dropLeadAnyCase]
  constructor
  · intro h
    split at h
    · next hlead =>
      cases h
      exact ⟨_, hlead, (List.take_append_drop _ cs).symm⟩
    · cases h
  · rintro ⟨k, rfl, rfl⟩
    have hlength : (lowerAscii k).length = k.length := by rw [lowerAscii, List.length_map]
    rw [hlength, List.take_left, List.drop_left, if_pos rfl]

/-- A bracket that closes a section is not in its keyword. -/
theorem notMem_keyword {k : List Char} (hk : lowerAscii k = "[cdata[".toList) : ']' ∉ k := by
  intro hmem
  have hlower : ']'.toLower ∈ lowerAscii k := List.mem_map.mpr ⟨']', hmem, rfl⟩
  rw [hk] at hlower
  exact absurd hlower (by decide)

theorem exists_keyword {k : List Char} (hk : lowerAscii k = "[cdata[".toList) :
    ∃ l, k = '[' :: l := by
  cases k with
  | nil => cases hk
  | cons c l =>
    have hc : c.toLower.toNat = 91 := congrArg Char.toNat (List.cons.inj hk).1
    rw [toNat_toLower] at hc
    refine ⟨l, congrArg (· :: l) (Char.toNat_inj.mp ?_)⟩
    split_ifs at hc with hcapital
    · omega
    · exact hc

/-- A section ends at the first mark after two brackets. -/
theorem firstMark_cdata_iff {k c : List Char} (hk : lowerAscii k = "[cdata[".toList) :
    FirstMark endsCdata (k ++ c) ↔ ∃ d, c = d ++ [']', ']'] ∧ (Piece.cdata k d).Formed := by
  constructor
  · intro h
    obtain ⟨b, hb⟩ := endsCdata_reverse_iff.mp h.here
    obtain ⟨d, rfl, rfl⟩ := exists_of_notMem_front hb (notMem_keyword hk)
    refine ⟨d, rfl, hk, ?_⟩
    rintro ⟨s, t, rfl⟩
    have hends : endsCdata (k ++ s ++ [']', ']']).reverse = true :=
      endsCdata_reverse_iff.mpr ⟨k ++ s, rfl⟩
    cases hends.symm.trans (h.first _ (t ++ [']', ']']) (by simp))
  · rintro ⟨d, rfl, -, hd⟩
    refine ⟨endsCdata_reverse_iff.mpr ⟨k ++ d, by simp⟩, fun q r hq => Bool.eq_false_iff.mpr ?_⟩
    intro hends
    obtain ⟨s, rfl⟩ := endsCdata_reverse_iff.mp hends
    rw [← List.append_assoc] at hq
    obtain ⟨t, -, hkd⟩ := exists_of_notMem_back hq.symm (by decide)
    rw [List.append_assoc] at hkd
    obtain ⟨u, rfl, -⟩ := exists_of_notMem_front hkd (notMem_keyword hk)
    exact hd ⟨u, t, by simp⟩

theorem afterBang_cdata_iff {cs r : List Char} {t : Token} :
    afterBang ('[' :: cs) = some (t, r) ↔
      ∃ k c, (Piece.cdata k c).Formed ∧ t = .cdata c ∧
        '[' :: cs = k ++ (c ++ ']' :: ']' :: '>' :: r) := by
  constructor
  · intro h
    rw [afterBang.eq_2] at h
    split at h
    · cases h
    · next inside r' hend =>
      obtain ⟨hcs, hfirst⟩ := markEnd_nil_eq_some_iff.mp hend
      obtain ⟨content, hlead, he⟩ := Option.map_eq_some_iff.mp h
      obtain ⟨k, hk, rfl⟩ := dropLeadAnyCase_eq_some_iff.mp hlead
      obtain ⟨c, rfl, hc⟩ := (firstMark_cdata_iff hk).mp hfirst
      cases he
      exact ⟨k, c, hc, by simp, by simp [hcs]⟩
  · rintro ⟨k, c, hc, rfl, hcs⟩
    have hend : markEnd endsCdata [] ('[' :: cs) = some (k ++ (c ++ [']', ']']), r) := by
      refine markEnd_nil_eq_some_iff.mpr ⟨by simp [hcs], ?_⟩
      exact (firstMark_cdata_iff hc.1).mpr ⟨c, rfl, hc⟩
    have hlead : dropLeadAnyCase "[cdata[".toList (k ++ (c ++ [']', ']'])) =
        some (c ++ [']', ']']) := dropLeadAnyCase_eq_some_iff.mpr ⟨k, hc.1, rfl⟩
    rw [afterBang.eq_2, hend]
    simp only [hlead]
    simp

/-! ## Document types -/

/-- What is passed over as a document type in one place is passed over in every place. -/
theorem exists_doctype {c : Char} {cs r : List Char} {t : Token}
    (h : afterBang (c :: cs) = some (t, r))
    (hcomment : ∀ ds, c = '-' → cs = '-' :: ds → False) (hcdata : c = '[' → False) :
    t = .aside ∧ ∃ inside, (Piece.doctype inside).Formed ∧ c :: cs = inside ++ '>' :: r := by
  rw [afterBang.eq_3 c cs hcomment hcdata] at h
  split at h
  case isFalse => cases h
  case isTrue hd =>
  split at h
  case h_1 => cases h
  case h_2 inside r' hend =>
  split at h
  case h_2 => cases h
  case h_1 content hlead =>
  split at h
  case isTrue => cases h
  case isFalse hgap =>
  cases h
  obtain ⟨hcs, hfirst⟩ := markEnd_nil_eq_some_iff.mp hend
  refine ⟨rfl, inside, fun ds => ?_, hcs⟩
  have hend : markEnd endsDoctype [] (inside ++ '>' :: ds) = some (inside, ds) :=
    markEnd_nil_eq_some_iff.mpr ⟨rfl, hfirst⟩
  cases inside with
  | nil =>
    have hc : c = '>' := (List.cons.inj hcs).1
    subst hc
    exact absurd hd (by decide)
  | cons d inside =>
    obtain rfl : c = d := (List.cons.inj hcs).1
    have hdash : ¬ c = '-' := by
      rintro rfl
      exact absurd hd (by decide)
    rw [List.cons_append, afterBang.eq_3 _ _ (fun _ he => absurd he hdash) hcdata, if_pos hd,
      ← List.cons_append, hend]
    simp only [hlead, if_neg hgap]

/-! ## One piece -/

/-- What follows `<!` and is cut off is a formed piece. -/
theorem exists_piece_of_afterBang {cs r : List Char} {t : Token}
    (h : afterBang cs = some (t, r)) :
    ∃ p : Piece, p.Formed ∧ ¬ p.IsText ∧ t = p.token ∧ '<' :: '!' :: cs = p.chars ++ r := by
  rw [afterBang.eq_def] at h
  split at h
  case h_1 ds =>
    obtain ⟨rfl, b, hb, rfl⟩ := afterBang_comment_iff.mp h
    exact ⟨.comment b, hb, id, rfl, by simp [Piece.chars]⟩
  case h_2 ds =>
    obtain ⟨k, c, hc, rfl, hds⟩ := afterBang_cdata_iff.mp h
    exact ⟨.cdata k c, hc, id, rfl, by simp [Piece.chars, hds]⟩
  case h_3 c ds hcomment hcdata =>
    rw [← afterBang.eq_3 c ds hcomment hcdata] at h
    obtain ⟨rfl, inside, hinside, hds⟩ := exists_doctype h hcomment hcdata
    exact ⟨.doctype inside, hinside, id, rfl, by simp [Piece.chars, hds]⟩
  case h_4 => cases h

theorem ofInstruction_concat {b : List Char} (hb : b ≠ []) :
    ofInstruction (b ++ ['?']) = .aside := by
  have hlength : 2 ≤ (b ++ ['?']).length := by
    have := List.length_pos_iff.mpr hb
    simp
    omega
  rw [ofInstruction, if_pos ⟨hlength, List.getLast?_concat⟩]

/-- A formed piece is cut off as one token, character data aside. -/
theorem scan_piece {p : Piece} (hp : p.Formed) (htext : ¬ p.IsText) (cs : List Char) :
    scan (p.chars ++ cs) = p.token :: scan cs := by
  cases p with
  | text raw => exact absurd trivial htext
  | cdata k c =>
    obtain ⟨l, rfl⟩ := exists_keyword hp.1
    have hchars : (Piece.cdata ('[' :: l) c).chars ++ cs =
        '<' :: '!' :: '[' :: (l ++ (c ++ ']' :: ']' :: '>' :: cs)) := by simp [Piece.chars]
    rw [hchars]
    exact scan_bang (afterBang_cdata_iff.mpr ⟨'[' :: l, c, hp, rfl, rfl⟩)
  | comment b =>
    have hchars : (Piece.comment b).chars ++ cs =
        '<' :: '!' :: '-' :: '-' :: (b ++ '-' :: '-' :: '>' :: cs) := by simp [Piece.chars]
    rw [hchars]
    exact scan_bang (afterBang_comment_iff.mpr ⟨rfl, b, hp, rfl⟩)
  | instruction b =>
    have hchars : (Piece.instruction b).chars ++ cs =
        '<' :: '?' :: (b ++ ['?'] ++ '>' :: cs) := by simp [Piece.chars]
    have hmark : '>' ∉ b ++ ['?'] := by simp [hp.2]
    rw [hchars, scan_question, upTo_append hmark, ofInstruction_concat hp.1, Piece.token]
  | doctype inside =>
    have hchars : (Piece.doctype inside).chars ++ cs = '<' :: '!' :: (inside ++ '>' :: cs) := by
      simp [Piece.chars]
    rw [hchars]
    exact scan_bang (hp cs)

end Token
end Runbook.Xml
