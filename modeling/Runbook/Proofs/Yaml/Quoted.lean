import Runbook.Proofs.Yaml.Gaps

/-!
# Quoted texts are read back

A written text in quotes consists of words with gaps between them.  Within a word every character
is written by itself, as it is or escaped.  A gap is made of blanks, or, in single quotes, of line
ends with the indentation behind them.  `Quoted` says which texts are written that way, and
`quotedText_quoted` that they are read back.
-/

namespace Runbook.Yaml

open Runbook.Text

/-- The quote of a style. -/
def quoteMark (single : Bool) : Char := if single then '\'' else '"'

/-- A character within quotes. -/
def quotedChar (single : Bool) (c : Char) : List Char :=
  if single then (if c == '\'' then ['\'', '\''] else [c]) else doubleQuotedChar c

/-- A character of a word: no gap, or one that is escaped. -/
def inWord (single : Bool) (c : Char) : Bool := if single then !isGapChar c else c != ' '

/-! ## Escapes -/

/-- A character with its form in double quotes: itself, a letter that stands for it, or its code. -/
inductive Escaped (c : Char) : List Char → Prop where
  /-- It stands for itself. -/
  | shown (h : isShown c = true) (hbreak : isBreak c = false) (hquote : c ≠ '"')
      (hslash : c ≠ '\\') : Escaped c [c]
  /-- A letter stands for it. -/
  | letter {e : Char} (h : escaped? e = some c) (he : isShown e = true ∧ isGapChar e = false) :
      Escaped c ['\\', e]
  /-- It is given by its code. -/
  | code {t : Char} {ds : List Char} (ht : codeLength? t = some ds.length)
      (hother : escaped? t = none) (hds : readNat? 16 ds = some c.toNat)
      (hshown : ∀ e ∈ t :: ds, isShown e = true ∧ isGapChar e = false)
      (hlength : ds.length + 2 ≤ 4 * (charBytes c).length) : Escaped c ('\\' :: t :: ds)

theorem ofCode?_toNat (c : Char) : ofCode? c.toNat = some c := by
  have hv : c.toNat.isValidChar := c.valid
  rw [ofCode?, dif_pos hv]
  rfl

theorem one_le_length_charBytes (c : Char) : 1 ≤ (charBytes c).length := by
  rw [charBytes]
  split
  · exact Nat.le_refl 1
  · split
    · simp
    · split <;> simp

theorem escaped_of_escapeLetter? {c e : Char} (h : escapeLetter? c = some e) :
    escaped? e = some c ∧ isShown e = true ∧ isGapChar e = false := by
  unfold escapeLetter? at h
  split at h
  all_goals cases h
  all_goals
    rename_i hn
    rw [← Char.ofNat_toNat c, hn]
    decide

/-- The code of a character in some digits behind a letter is shown and can be read back. -/
def isCodeRead (t : Char) (width n : Nat) : Bool :=
  (hexCapital width n).length == width && readNat? 16 (hexCapital width n) == some n &&
    (t :: hexCapital width n).all fun e => isShown e && !isGapChar e

theorem escaped_of_isCodeRead {c t : Char} {width : Nat} (ht : codeLength? t = some width)
    (hother : escaped? t = none) (h : isCodeRead t width c.toNat = true)
    (hlength : width + 2 ≤ 4 * (charBytes c).length) :
    Escaped c ('\\' :: t :: hexCapital width c.toNat) := by
  simp only [isCodeRead, Bool.and_eq_true, beq_iff_eq, List.all_eq_true] at h
  obtain ⟨⟨hlen, hread⟩, hshown⟩ := h
  refine .code (by rw [hlen, ht]) hother hread (fun e he => ?_) (by rwa [hlen])
  simpa using hshown e he

/-- A character that is neither shown nor escaped by a letter is escaped by its code. -/
theorem escaped_of_hidden {c : Char} (h : isShown c = false) (hl : escapeLetter? c = none) :
    Escaped c (doubleQuotedChar c) := by
  have hchars : doubleQuotedChar c =
      if c.toNat ≤ 0xFF then '\\' :: 'x' :: hexCapital 2 c.toNat
      else if c.toNat ≤ 0xFFFF then '\\' :: 'u' :: hexCapital 4 c.toNat
      else '\\' :: 'U' :: hexCapital 8 c.toNat := by
    simp [doubleQuotedChar, h, hl]
  have hsmall : (List.range 256).all (isCodeRead 'x' 2) = true := by decide +kernel
  simp only [isShown, Bool.or_eq_false_iff, Bool.and_eq_false_iff, decide_eq_false_iff_not,
    beq_eq_false_iff_ne, bne_eq_false_iff_eq] at h
  rw [hchars]
  by_cases hn : c.toNat ≤ 0xFF
  · have hone := one_le_length_charBytes c
    have hcode := List.all_eq_true.mp hsmall c.toNat (List.mem_range.mpr (by omega))
    rw [if_pos hn]
    exact escaped_of_isCodeRead rfl rfl hcode (by omega)
  · have hlarge : c.toNat = 0xFEFF ∨ c.toNat = 0xFFFE ∨ c.toNat = 0xFFFF := by omega
    have hbytes : (charBytes c).length = 3 := by
      rw [charBytes, if_neg (by omega), if_neg (by omega), if_pos (by omega)]
      rfl
    rw [if_neg hn, if_pos (by omega)]
    have hcode : isCodeRead 'u' 4 c.toNat = true := by
      rcases hlarge with hn | hn | hn <;> rw [hn] <;> decide
    exact escaped_of_isCodeRead rfl rfl hcode (by omega)

/-- Every character has a form in double quotes. -/
theorem escaped_doubleQuotedChar (c : Char) : Escaped c (doubleQuotedChar c) := by
  by_cases hplain : (!isShown c || isBreak c || c == '"' || c == '\\') = true
  · cases hl : escapeLetter? c with
    | some e =>
        have hchars : doubleQuotedChar c = ['\\', e] := by
          rw [doubleQuotedChar, if_pos hplain, hl]
        obtain ⟨hesc, he⟩ := escaped_of_escapeLetter? hl
        rw [hchars]
        exact .letter hesc he
    | none =>
        refine escaped_of_hidden ?_ hl
        rw [Bool.eq_false_iff]
        intro hshown
        simp only [hshown, Bool.not_true, Bool.false_or, Bool.or_eq_true, beq_iff_eq] at hplain
        rcases hplain with (hb | rfl) | rfl
        · have hbreak := isPlainBreak_of_isShown hshown hb
          simp only [isPlainBreak, Bool.or_eq_true, beq_iff_eq] at hbreak
          rcases hbreak with (rfl | rfl) | rfl <;> cases hl
        · cases hl
        · cases hl
  · have hchars : doubleQuotedChar c = [c] := by rw [doubleQuotedChar, if_neg hplain]
    simp only [Bool.not_eq_true, Bool.or_eq_false_iff, Bool.not_eq_false', beq_eq_false_iff_ne]
      at hplain
    rw [hchars]
    exact .shown hplain.1.1.1 hplain.1.1.2 hplain.1.2 hplain.2

/-! ## Words -/

/-- A word of a quoted text ends here: at a gap or at the closing quote. -/
def StopsQuoted (single : Bool) (cs : List Char) : Prop :=
  ∃ d r, cs = d :: r ∧
    (isGapChar d = true ∨ (d = quoteMark single ∧ (single = true → r.head? ≠ some '\'')))

theorem quotedWord_stop {single : Bool} {cs : List Char} (h : StopsQuoted single cs)
    (fuel i l c : Nat) :
    quotedWord single (fuel + 1) ⟨cs, i, l, c⟩ = some ([], false, ⟨cs, i, l, c⟩) := by
  obtain ⟨d, r, rfl, h⟩ := h
  rw [quotedWord]
  simp only [Cursor.head?, List.head?_cons]
  rcases h with hgap | ⟨rfl, hnext⟩
  · rw [isGapChar] at hgap
    rw [if_pos hgap]
  · cases single with
    | false => rfl
    | true =>
        have hahead : ((Cursor.mk (quoteMark true :: r) i l c).ahead? 1 == some '\'') = false := by
          have : (Cursor.mk (quoteMark true :: r) i l c).ahead? 1 = r.head? := by
            cases r <;> rfl
          rw [this, beq_eq_false_iff_ne]
          exact hnext rfl
        have hgap : (isSpace (quoteMark true) || isBreak (quoteMark true)) = false := rfl
        have hquote : (true && quoteMark true == '\'') = true := rfl
        simp only [hgap, hquote, hahead, Bool.false_eq_true, if_false, if_true]

/-- A character that stands for itself. -/
theorem quotedWord_plain (single : Bool) {d : Char} (hgap : isGapChar d = false)
    (hsingle : single = true → d ≠ '\'') (hdouble : single = false → d ≠ '"' ∧ d ≠ '\\')
    (cs : List Char) (fuel i l c : Nat) :
    quotedWord single (fuel + 1) ⟨d :: cs, i, l, c⟩ =
      (quotedWord single fuel ⟨cs, i + 1, l, c + 1⟩).map fun p => (d :: p.1, p.2) := by
  obtain ⟨hspace, hbreak⟩ := isGapChar_eq_false.mp hgap
  rw [quotedWord]
  cases single with
  | true => simp [Cursor.head?, Cursor.step, hspace, hbreak, hsingle rfl]
  | false => simp [Cursor.head?, Cursor.step, hspace, hbreak, (hdouble rfl).1, (hdouble rfl).2]

/-- A character that is escaped. -/
theorem quotedWord_escape {d e : Char} {cs : List Char} {i l c : Nat} {c' : Cursor}
    (hbreak : isBreak d = false)
    (he : escapeSequence ⟨d :: cs, i + 1, l, c + 1⟩ = some (e, c')) (fuel : Nat) :
    quotedWord false (fuel + 1) ⟨'\\' :: d :: cs, i, l, c⟩ =
      (quotedWord false fuel c').map fun p => (e :: p.1, p.2) := by
  have hahead : (Cursor.mk ('\\' :: d :: cs) i l c).ahead? 1 = some d := rfl
  have hstep : (Cursor.mk ('\\' :: d :: cs) i l c).step = ⟨d :: cs, i + 1, l, c + 1⟩ := rfl
  have hgap : (isSpace '\\' || isBreak '\\') = false := rfl
  have hquote : (!false && ('\\' : Char) == '"') = false := rfl
  have hslash : (!false && ('\\' : Char) == '\\') = true := rfl
  rw [quotedWord]
  simp only [Cursor.head?, List.head?_cons, hgap, hquote, hslash, hahead, hstep, he,
    Option.map_some, Option.getD_some, hbreak, Bool.false_and, Bool.false_eq_true, if_false,
    if_true]

/-- A written character of a word is read back. -/
theorem quotedWord_quotedChar {single : Bool} {d : Char} (hd : inWord single d = true)
    (cs : List Char) (fuel i l c : Nat) :
    quotedWord single (fuel + 1) ⟨quotedChar single d ++ cs, i, l, c⟩ =
      (quotedWord single fuel ⟨cs, i + (quotedChar single d).length, l,
        c + (quotedChar single d).length⟩).map fun p => (d :: p.1, p.2) := by
  cases single with
  | true =>
      have hgap : isGapChar d = false := by simpa [inWord] using hd
      rw [quotedChar, if_pos rfl]
      split
      · rename_i hq
        have hq : d = '\'' := by simpa using hq
        subst hq
        rfl
      · rename_i hq
        exact quotedWord_plain true hgap (fun _ => by simpa using hq) (fun h => nomatch h) cs fuel i
          l c
  | false =>
      have hblank : d ≠ ' ' := by simpa [inWord] using hd
      have hchar : quotedChar false d = doubleQuotedChar d := rfl
      have hescaped := escaped_doubleQuotedChar d
      rw [hchar]
      generalize doubleQuotedChar d = written at hescaped ⊢
      cases hescaped with
      | shown hshown hbreak hquote hslash =>
          have hspace : isSpace d = false := by
            rw [Bool.eq_false_iff]
            exact fun h => hblank (eq_blank_of_isShown hshown h)
          exact quotedWord_plain false (isGapChar_eq_false.mpr ⟨hspace, hbreak⟩)
            (fun h => nomatch h) (fun _ => ⟨hquote, hslash⟩) cs fuel i l c
      | @letter e he hshown =>
          have hread : escapeSequence ⟨e :: cs, i + 1, l, c + 1⟩ =
              some (d, ⟨cs, i + 2, l, c + 2⟩) := by
            simp only [escapeSequence, Cursor.head?, List.head?_cons, he]
            rfl
          exact quotedWord_escape (isGapChar_eq_false.mp hshown.2).2 hread fuel
      | @code t ds ht hother hds hshown hlength =>
          have hread : escapeSequence ⟨t :: (ds ++ cs), i + 1, l, c + 1⟩ =
              some (d, ⟨cs, i + 2 + ds.length, l, c + 2 + ds.length⟩) := by
            simp only [escapeSequence, Cursor.head?, List.head?_cons, hother, ht, Cursor.step,
              List.tail_cons, List.take_left, if_true, hds, Option.bind_some, ofCode?_toNat,
              Option.map_some, Cursor.steps, List.drop_left]
          have hbreak := (isGapChar_eq_false.mp (hshown t List.mem_cons_self).2).2
          rw [List.cons_append, List.cons_append, quotedWord_escape hbreak hread fuel]
          simp [Nat.add_comm, Nat.add_left_comm]

/-- A written word is read back. -/
theorem quotedWord_flatMap {single : Bool} {cs : List Char} (h : StopsQuoted single cs) :
    ∀ (w : List Char), (∀ d ∈ w, inWord single d = true) → ∀ fuel i l c : Nat, w.length < fuel →
      quotedWord single fuel ⟨w.flatMap (quotedChar single) ++ cs, i, l, c⟩ =
        some (w, false, ⟨cs, i + (w.flatMap (quotedChar single)).length, l,
          c + (w.flatMap (quotedChar single)).length⟩)
  | [], _, fuel + 1, i, l, c, _ => quotedWord_stop h fuel i l c
  | d :: w, hw, fuel + 1, i, l, c, hf => by
      have ih := quotedWord_flatMap h w (fun e he => hw e (List.mem_cons_of_mem d he)) fuel
        (i + (quotedChar single d).length) l (c + (quotedChar single d).length)
        (by simpa using hf)
      rw [List.flatMap_cons, List.append_assoc,
        quotedWord_quotedChar (hw d List.mem_cons_self), ih]
      simp [Nat.add_assoc]

/-! ## Texts -/

/-- Texts with their written form, without the quotes. -/
inductive Quoted (single : Bool) (indent : Nat) : List Char → List Char → Prop where
  /-- The last word. -/
  | last {w : List Char} (hw : ∀ d ∈ w, inWord single d = true) :
      Quoted single indent w (w.flatMap (quotedChar single))
  /-- A word and blanks behind it. -/
  | blanks {w s cs : List Char} (k : Nat) (hw : ∀ d ∈ w, inWord single d = true)
      (hs : Quoted single indent s cs) (hsolid : Solid cs) :
      Quoted single indent (w ++ (List.replicate (k + 1) ' ' ++ s))
        (w.flatMap (quotedChar single) ++ (List.replicate (k + 1) ' ' ++ cs))
  /-- A word and separators behind it. -/
  | breaks {w s cs : List Char} {b : Char} {bs : List Char} (hsingle : single = true)
      (hw : ∀ d ∈ w, inWord single d = true)
      (hbs : ∀ d ∈ b :: bs, isPlainBreak d = true ∧ d ≠ '\n')
      (hs : Quoted single indent s cs) (hsolid : Solid cs) :
      Quoted single indent (w ++ (b :: bs ++ s))
        (w.flatMap (quotedChar single) ++ (b :: bs ++ (List.replicate indent ' ' ++ cs)))

theorem isGapChar_quoteMark (single : Bool) : isGapChar (quoteMark single) = false := by
  cases single <;> rfl

theorem Solid.append {cs : List Char} (h : Solid cs) {d : Char} (hd : isGapChar d = false)
    (r : List Char) : Solid (cs ++ d :: r) := by
  cases cs with
  | nil => exact solid_cons hd r
  | cons e es =>
      intro x hx
      exact h x (by simpa using hx)

theorem length_le_flatMap_quotedChar (single : Bool) : ∀ w : List Char,
    w.length ≤ (w.flatMap (quotedChar single)).length
  | [] => by simp
  | d :: w => by
      have hpos : 0 < (quotedChar single d).length := by
        cases single with
        | true =>
            rw [quotedChar, if_pos rfl]
            split <;> simp
        | false =>
            have hescaped := escaped_doubleQuotedChar d
            rw [quotedChar, if_neg (by decide)]
            generalize doubleQuotedChar d = written at hescaped ⊢
            cases hescaped <;> simp
      have := length_le_flatMap_quotedChar single w
      simp only [List.flatMap_cons, List.length_append, List.length_cons]
      omega

/-- A word and the gap behind it are read, and then the rest of the text. -/
theorem quotedText_gap {single : Bool} {w cs : List Char} {g : Gap} {fuel i l c : Nat}
    {c' : Cursor} (hw : ∀ d ∈ w, inWord single d = true) (hc : 0 < c)
    (hgap : ∃ d, cs.head? = some d ∧ isGapChar d = true)
    (hread : Gap.read 0 (cs.length + 1) Gap.empty
      ⟨cs, i + (w.flatMap (quotedChar single)).length, l,
        c + (w.flatMap (quotedChar single)).length⟩ = some (g, c')) :
    quotedText single (fuel + 1) ⟨w.flatMap (quotedChar single) ++ cs, i, l, c⟩ =
      (quotedText single fuel c').map fun p => (w ++ g.text ++ p.1, p.2) := by
  obtain ⟨d, hhead, hd⟩ := hgap
  obtain ⟨ds, rfl⟩ := List.head?_eq_some_iff.mp hhead
  have hlen := length_le_flatMap_quotedChar single w
  have hstop : StopsQuoted single (d :: ds) := ⟨d, ds, rfl, .inl hd⟩
  have hword := quotedWord_flatMap hstop w hw
    ((w.flatMap (quotedChar single) ++ d :: ds).length + 1) i l c
    (by rw [List.length_append]; omega)
  have hmarker : (Cursor.mk (w.flatMap (quotedChar single) ++ d :: ds) i l c).atDocumentMarker =
      false := Cursor.atDocumentMarker_of_column hc
  have hempty : (w.flatMap (quotedChar single) ++ d :: ds).isEmpty = false := by
    simp
  have hquote : (if single = true then '\'' else '"') = quoteMark single := rfl
  have hat : (Cursor.mk (d :: ds) (i + (w.flatMap (quotedChar single)).length) l
      (c + (w.flatMap (quotedChar single)).length)).at? (quoteMark single) = false := by
    have hne : d ≠ quoteMark single := by
      rintro rfl
      rw [isGapChar_quoteMark] at hd
      cases hd
    simpa [Cursor.at?, Cursor.head?] using hne
  rw [quotedText]
  simp only [hmarker, hempty, Bool.or_self, Bool.false_eq_true, if_false, hword, hquote, hat, hread]

/-- The closing quote ends a text. -/
theorem quotedText_last {single : Bool} {w r : List Char} {fuel i l c : Nat}
    (hw : ∀ d ∈ w, inWord single d = true) (hc : 0 < c)
    (hr : single = true → r.head? ≠ some '\'') :
    quotedText single (fuel + 1) ⟨w.flatMap (quotedChar single) ++ quoteMark single :: r, i, l, c⟩ =
      some (w, ⟨r, i + (w.flatMap (quotedChar single)).length + 1, l,
        c + (w.flatMap (quotedChar single)).length + 1⟩) := by
  have hlen := length_le_flatMap_quotedChar single w
  have hstop : StopsQuoted single (quoteMark single :: r) := ⟨_, r, rfl, .inr ⟨rfl, hr⟩⟩
  have hword := quotedWord_flatMap hstop w hw
    ((w.flatMap (quotedChar single) ++ quoteMark single :: r).length + 1) i l c
    (by rw [List.length_append]; omega)
  have hmarker : (Cursor.mk (w.flatMap (quotedChar single) ++ quoteMark single :: r) i l
      c).atDocumentMarker = false := Cursor.atDocumentMarker_of_column hc
  have hempty : (w.flatMap (quotedChar single) ++ quoteMark single :: r).isEmpty = false := by
    simp
  have hquote : (if single = true then '\'' else '"') = quoteMark single := rfl
  have hat : (Cursor.mk (quoteMark single :: r) (i + (w.flatMap (quotedChar single)).length) l
      (c + (w.flatMap (quotedChar single)).length)).at? (quoteMark single) = true := by
    simp [Cursor.at?, Cursor.head?]
  rw [quotedText]
  simp only [hmarker, hempty, Bool.or_self, Bool.false_eq_true, if_false, hword, hquote, hat,
    if_true]
  rfl

/-- A written text is read back, up to the closing quote.  If no line ends within it, the place
behind it is on the same line. -/
theorem quotedText_quoted {single : Bool} {indent : Nat} (hi : 0 < indent) {s cs : List Char}
    (h : Quoted single indent s cs) {r : List Char} (hr : single = true → r.head? ≠ some '\'') :
    ∀ (fuel i l c : Nat), cs.length < fuel → 0 < c →
      ∃ l' c', quotedText single fuel ⟨cs ++ quoteMark single :: r, i, l, c⟩ =
          some (s, ⟨r, i + cs.length + 1, l', c'⟩) ∧ l ≤ l' ∧
        ((∀ d ∈ cs, isBreak d = false) → l' = l ∧ c' = c + cs.length + 1) := by
  induction h with
  | @last w hw =>
      intro fuel i l c hf hc
      obtain ⟨f, rfl⟩ : ∃ f, fuel = f + 1 := ⟨fuel - 1, by omega⟩
      exact ⟨l, _, quotedText_last hw hc hr, Nat.le_refl l, fun _ => ⟨rfl, rfl⟩⟩
  | @blanks w s cs k hw hs hsolid ih =>
      intro fuel i l c hf hc
      obtain ⟨f, rfl⟩ : ∃ f, fuel = f + 1 := ⟨fuel - 1, by omega⟩
      simp only [List.length_append, List.length_replicate] at hf
      have hread := Gap.read_blanks 0 (hsolid.append (isGapChar_quoteMark single) r) (k + 1)
        ((List.replicate (k + 1) ' ' ++ (cs ++ quoteMark single :: r)).length + 1) []
        (i + (w.flatMap (quotedChar single)).length) l
        (c + (w.flatMap (quotedChar single)).length)
        (by rw [List.length_append, List.length_replicate]; omega)
      obtain ⟨l', c', hrest, hl, hline⟩ := ih f
        (i + (w.flatMap (quotedChar single)).length + (k + 1)) l
        (c + (w.flatMap (quotedChar single)).length + (k + 1)) (by omega) (by omega)
      refine ⟨l', c', ?_, hl, fun hb => ?_⟩
      · rw [List.append_assoc, List.append_assoc, quotedText_gap hw hc ⟨' ', rfl, rfl⟩ hread, hrest]
        simp [Gap.text, Nat.add_assoc]
      · obtain ⟨h1, h2⟩ := hline fun d hd => hb d (by simp [hd])
        refine ⟨h1, h2.trans ?_⟩
        simp only [List.length_append, List.length_replicate]
        omega
  | @breaks w s cs b bs hsingle hw hbs hs hsolid ih =>
      intro fuel i l c hf hc
      obtain ⟨f, rfl⟩ : ∃ f, fuel = f + 1 := ⟨fuel - 1, by omega⟩
      simp only [List.length_append, List.length_replicate, List.length_cons] at hf
      have hread := Gap.read_breaks 0 (hsolid.append (isGapChar_quoteMark single) r) indent
        (fun d hd => (hbs d hd).1)
        (i + (w.flatMap (quotedChar single)).length) l
        (c + (w.flatMap (quotedChar single)).length)
        (show _ <
            (b :: bs ++ (List.replicate indent ' ' ++ (cs ++ quoteMark single :: r))).length + 1
          by simp; omega)
      have hbreak : isBreak b = true := isBreak_of_isPlainBreak (hbs b List.mem_cons_self).1
      have hfeed : ([b] == ['\n']) = false := by
        have := (hbs b List.mem_cons_self).2
        simpa using this
      have htext : (Gap.mk true [] [b] bs).text = b :: bs := by
        have hne : ¬ [b] = ['\n'] := by simpa using hfeed
        simp only [Gap.text, if_true, if_neg hne, List.singleton_append]
      obtain ⟨l', c', hrest, hl, -⟩ := ih f
        (i + (w.flatMap (quotedChar single)).length + (bs.length + 1) + indent)
        (l + (bs.length + 1)) indent (by omega) hi
      refine ⟨l', c', ?_, by omega, fun hb => ?_⟩
      · rw [List.append_assoc, List.append_assoc, List.append_assoc,
          quotedText_gap hw hc ⟨b, rfl, by rw [isGapChar, hbreak, Bool.or_true]⟩ hread, hrest]
        simp [htext, Nat.add_assoc]
        omega
      · rw [hb b (by simp)] at hbreak
        cases hbreak

/-! ## Every text is written that way -/

theorem quotedChar_eq_cons {single : Bool} {d : Char} (hd : inWord single d = true) :
    ∃ e es, quotedChar single d = e :: es ∧ isGapChar e = false := by
  cases single with
  | true =>
      rw [quotedChar, if_pos rfl]
      split
      · exact ⟨'\'', _, rfl, rfl⟩
      · exact ⟨d, [], rfl, by simpa [inWord] using hd⟩
  | false =>
      have hblank : d ≠ ' ' := by simpa [inWord] using hd
      have hescaped := escaped_doubleQuotedChar d
      rw [quotedChar, if_neg (by decide)]
      generalize doubleQuotedChar d = written at hescaped ⊢
      cases hescaped with
      | shown hshown hbreak =>
          refine ⟨d, [], rfl, isGapChar_eq_false.mpr ⟨?_, hbreak⟩⟩
          rw [Bool.eq_false_iff]
          exact fun h => hblank (eq_blank_of_isShown hshown h)
      | letter => exact ⟨'\\', _, rfl, rfl⟩
      | code => exact ⟨'\\', _, rfl, rfl⟩

theorem solid_flatMap {single : Bool} {w : List Char} (hne : w ≠ [])
    (hw : ∀ d ∈ w, inWord single d = true) (cs : List Char) :
    Solid (w.flatMap (quotedChar single) ++ cs) := by
  cases w with
  | nil => exact absurd rfl hne
  | cons d w =>
      obtain ⟨e, es, he, hgap⟩ := quotedChar_eq_cons (hw d List.mem_cons_self)
      rw [List.flatMap_cons, he, List.cons_append, List.cons_append]
      exact solid_cons hgap _

namespace Quoted

variable {single : Bool} {indent : Nat} {s cs : List Char}

theorem cons_char {d : Char} (hd : inWord single d = true) (h : Quoted single indent s cs) :
    Quoted single indent (d :: s) (quotedChar single d ++ cs) := by
  have hmem : ∀ {w : List Char}, (∀ e ∈ w, inWord single e = true) →
      ∀ e ∈ d :: w, inWord single e = true := by
    intro w hw e he
    cases List.mem_cons.mp he with
    | inl heq => rwa [heq]
    | inr he => exact hw e he
  cases h with
  | last hw => exact .last (hmem hw)
  | blanks k hw hs hsolid =>
      have hcons := Quoted.blanks k (hmem hw) hs hsolid
      rwa [List.flatMap_cons, List.append_assoc] at hcons
  | breaks hsingle hw hbs hs hsolid =>
      have hcons := Quoted.breaks hsingle (hmem hw) hbs hs hsolid
      rwa [List.flatMap_cons, List.append_assoc] at hcons

theorem nil : Quoted single indent [] [] := .last (w := []) (fun _ hd => nomatch hd)

/-- A blank in front of a text that starts with a word. -/
theorem cons_blank_solid (h : Quoted single indent s cs) (hsolid : Solid cs) :
    Quoted single indent (' ' :: s) (' ' :: cs) :=
  .blanks (w := []) 0 (fun _ hd => nomatch hd) h hsolid

theorem cons_blank (h : Quoted single indent s cs)
    (hbreak : single = true → ∀ d, s.head? = some d → isBreak d = false) :
    Quoted single indent (' ' :: s) (' ' :: cs) := by
  cases h with
  | last hw =>
      by_cases hne : s = []
      · subst hne
        exact cons_blank_solid nil solid_nil
      · refine cons_blank_solid (.last hw) ?_
        have := solid_flatMap hne hw []
        rwa [List.append_nil] at this
  | @blanks w t ds k hw hs hsolid =>
      by_cases hne : w = []
      · subst hne
        exact .blanks (w := []) (k + 1) hw hs hsolid
      · exact cons_blank_solid (.blanks k hw hs hsolid) (solid_flatMap hne hw _)
  | @breaks w t ds b bs hsingle hw hbs hs hsolid =>
      by_cases hne : w = []
      · subst hne
        have := hbreak hsingle b rfl
        rw [isBreak_of_isPlainBreak (hbs b List.mem_cons_self).1] at this
        cases this
      · exact cons_blank_solid (.breaks hsingle hw hbs hs hsolid) (solid_flatMap hne hw _)

end Quoted

/-- A text in double quotes, without them. -/
theorem quoted_double (indent : Nat) : ∀ s : List Char,
    Quoted false indent s (s.flatMap doubleQuotedChar)
  | [] => Quoted.nil
  | d :: s => by
      have ih := quoted_double indent s
      rw [List.flatMap_cons]
      by_cases hd : d = ' '
      · subst hd
        exact ih.cons_blank (fun h => nomatch h)
      · exact ih.cons_char (by simpa [inWord] using hd)

/-! ## Single quotes -/

/-- A text that single quotes can hold: everything is shown, line ends are separators, and no blank
stands beside one. -/
structure FitsSingle (s : List Char) : Prop where
  /-- All characters are shown, and no line feed is among them. -/
  shown : ∀ c ∈ s, isShown c = true ∧ c ≠ '\n'
  /-- No line ends with a blank. -/
  trailing : hasNeighbours isBlankChar isBreak s = false
  /-- No line starts with a blank. -/
  leading : hasNeighbours isBreak isBlankChar s = false

theorem hasNeighbours_cons {p q : Char → Bool} {c : Char} {s : List Char}
    (h : hasNeighbours p q (c :: s) = false) :
    hasNeighbours p q s = false ∧ (p c = true → ∀ d, s.head? = some d → q d = false) := by
  cases s with
  | nil =>
      refine ⟨rfl, fun _ d hd => ?_⟩
      cases hd
  | cons d s =>
      rw [hasNeighbours, Bool.or_eq_false_iff, Bool.and_eq_false_iff] at h
      refine ⟨h.2, fun hp e he => ?_⟩
      injection he with he
      rw [← he]
      exact h.1.resolve_left (by rw [hp]; decide)

theorem FitsSingle.tail {c : Char} {s : List Char} (h : FitsSingle (c :: s)) : FitsSingle s :=
  ⟨fun d hd => h.shown d (List.mem_cons_of_mem c hd), (hasNeighbours_cons h.trailing).1,
    (hasNeighbours_cons h.leading).1⟩

/-- Further lines are indented, also an empty last one before the closing quote. -/
def singleLines (indent : Nat) (fresh : Bool) : List Char → List Char
  | [] => if fresh then List.replicate indent ' ' else []
  | c :: s =>
      if isBreak c then c :: singleLines indent true s
      else (if fresh then List.replicate indent ' ' else []) ++ quotedChar true c ++
        singleLines indent false s

theorem singleLines_eq (indent : Nat) : ∀ (fresh : Bool) (s : List Char), s ≠ [] →
    indented indent (quotedChar true) fresh s ++
      (if endsWithBreak s then List.replicate indent ' ' else []) = singleLines indent fresh s
  | _, [], h => absurd rfl h
  | fresh, c :: s, _ => by
      rw [indented, singleLines]
      cases s with
      | nil =>
          by_cases hb : isBreak c = true
          · simp [hb, indented, singleLines, endsWithBreak]
          · simp [hb, indented, singleLines, endsWithBreak]
      | cons d s =>
          have hends : endsWithBreak (c :: d :: s) = endsWithBreak (d :: s) := by
            rw [endsWithBreak, endsWithBreak, List.getLast?_cons_cons]
          have htrue := singleLines_eq indent true (d :: s) (List.cons_ne_nil _ _)
          have hfalse := singleLines_eq indent false (d :: s) (List.cons_ne_nil _ _)
          rw [hends]
          split
          · rw [List.cons_append, htrue]
          · rw [List.append_assoc, hfalse]

/-- A text in single quotes, without them. -/
theorem singleQuoted_eq (indent : Nat) (s : List Char) :
    singleQuoted indent s = '\'' :: singleLines indent false s ++ ['\''] := by
  cases s with
  | nil => rfl
  | cons c s =>
      rw [← singleLines_eq indent false (c :: s) (List.cons_ne_nil _ _)]
      rw [singleQuoted]
      simp only [List.cons_append, List.append_assoc]
      rfl

mutual

theorem quoted_single (indent : Nat) : ∀ s : List Char, FitsSingle s →
    Quoted true indent s (singleLines indent false s)
  | [], _ => Quoted.nil
  | c :: s, h => by
      have ih := quoted_single indent s h.tail
      have hshown := (h.shown c List.mem_cons_self).1
      rw [singleLines]
      by_cases hb : isBreak c = true
      · rw [if_pos hb]
        exact quoted_breaks indent s h.tail c [] (by simpa using ⟨isPlainBreak_of_isShown hshown hb,
          (h.shown c List.mem_cons_self).2⟩) ((hasNeighbours_cons h.leading).2 hb)
      · rw [if_neg hb]
        by_cases hc : c = ' '
        · subst hc
          exact ih.cons_blank fun _ => (hasNeighbours_cons h.trailing).2 rfl
        · refine ih.cons_char ?_
          have hspace : isSpace c = false := by
            rw [Bool.eq_false_iff]
            exact fun hs => hc (eq_blank_of_isShown hshown hs)
          simp [inWord, isGapChar, hspace, hb]

/-- Separators in front of a text that starts with no blank. -/
theorem quoted_breaks (indent : Nat) : ∀ s : List Char, FitsSingle s → ∀ (b : Char)
    (bs : List Char), (∀ d ∈ b :: bs, isPlainBreak d = true ∧ d ≠ '\n') →
      (∀ d, s.head? = some d → isBlankChar d = false) →
      Quoted true indent (b :: bs ++ s) (b :: bs ++ singleLines indent true s)
  | [], _, b, bs, hbs, _ => by
      have hlast : Quoted true indent _ _ :=
        .breaks (w := []) rfl (fun _ hd => nomatch hd) hbs .nil solid_nil
      simpa [singleLines] using hlast
  | c :: s, h, b, bs, hbs, hhead => by
      have hshown := (h.shown c List.mem_cons_self).1
      rw [singleLines]
      by_cases hb : isBreak c = true
      · have hmore := quoted_breaks indent s h.tail b (bs ++ [c])
          (by
            intro d hd
            rw [← List.cons_append, List.mem_append, List.mem_singleton] at hd
            cases hd with
            | inl hd => exact hbs d hd
            | inr he =>
                rw [he]
                exact ⟨isPlainBreak_of_isShown hshown hb, (h.shown c List.mem_cons_self).2⟩)
          ((hasNeighbours_cons h.leading).2 hb)
        rw [if_pos hb]
        simpa using hmore
      · have hspace : isSpace c = false := by
          rw [Bool.eq_false_iff]
          intro hs
          have := hhead c rfl
          rw [eq_blank_of_isShown hshown hs] at this
          cases this
        have hword : inWord true c = true := by simp [inWord, isGapChar, hspace, hb]
        have hrest := (quoted_single indent s h.tail).cons_char hword
        have hsolid : Solid (quotedChar true c ++ singleLines indent false s) := by
          have := solid_flatMap (w := [c]) (List.cons_ne_nil _ _) (by simpa using hword)
            (singleLines indent false s)
          simpa using this
        have hmore := Quoted.breaks (w := []) rfl (fun _ hd => nomatch hd) hbs hrest hsolid
        rw [if_neg hb]
        simpa using hmore

end

end Runbook.Yaml
