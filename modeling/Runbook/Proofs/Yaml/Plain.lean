import Runbook.Proofs.Yaml.Gaps

/-!
# Plain texts are read back

A text that is written plainly consists of words with blanks between them: no word ends with a
colon, and none but the first may start with a number sign.  Such a text is read word by word, up
to the colon behind a key or to the end of the line.
-/

namespace Runbook.Yaml

/-! ## Words -/

/-- Characters without a gap, the last of them no colon. -/
structure Word (w : List Char) : Prop where
  /-- There is a character. -/
  ne_nil : w ≠ []
  /-- There is no gap. -/
  solid : ∀ c ∈ w, isGapChar c = false
  /-- The last character is no colon. -/
  last : w.getLast? ≠ some ':'

/-- Words with blanks between them. -/
inductive Words : List Char → Prop where
  /-- The last word. -/
  | last {w : List Char} (hw : Word w) : Words w
  /-- A word and those behind it. -/
  | more {w s : List Char} (k : Nat) (hw : Word w) (hs : Words s) (hash : s.head? ≠ some '#') :
      Words (w ++ (List.replicate (k + 1) ' ' ++ s))

theorem Word.cons {c : Char} (hc : isGapChar c = false) {w : List Char} (h : Word w) :
    Word (c :: w) := by
  refine ⟨List.cons_ne_nil _ _, ?_, ?_⟩
  · intro d hd
    cases List.mem_cons.mp hd with
    | inl he => rwa [he]
    | inr hd => exact h.solid d hd
  · cases w with
    | nil => exact absurd rfl h.ne_nil
    | cons d ds => exact h.last

theorem Words.cons {c : Char} (hc : isGapChar c = false) {s : List Char} (h : Words s) :
    Words (c :: s) := by
  cases h with
  | last hw => exact .last (hw.cons hc)
  | more k hw hs hash => exact .more k (hw.cons hc) hs hash

theorem Words.solid {s : List Char} (h : Words s) (cs : List Char) : Solid (s ++ cs) := by
  have hword : ∀ {w : List Char}, Word w → ∀ ds, Solid (w ++ ds) := by
    intro w hw ds
    cases w with
    | nil => exact absurd rfl hw.ne_nil
    | cons c w => exact solid_cons (hw.solid c List.mem_cons_self) _
  cases h with
  | last hw => exact hword hw cs
  | more k hw hs hash =>
      rw [List.append_assoc]
      exact hword hw _

/-- A text without inner marks that is shown on one line and ends with no blank consists of words,
perhaps after blanks. -/
theorem exists_words : ∀ (s : List Char) (before : Char), s ≠ [] → hasInnerMark before s = false →
    (∀ c ∈ s, isGapChar c = true → c = ' ') → (∀ c, s.getLast? = some c → c ≠ ' ') →
      ∃ k t, s = List.replicate k ' ' ++ t ∧ Words t ∧
        (0 < k ∨ isGapOrEnd (some before) = true → t.head? ≠ some '#')
  | [], _, hne, _, _, _ => absurd rfl hne
  | c :: s, before, _, hmark, hgap, hlast => by
      simp only [hasInnerMark, Bool.or_eq_false_iff, Bool.and_eq_false_iff] at hmark
      obtain ⟨⟨hcolon, hhash⟩, hrest⟩ := hmark
      have hhash' : isGapOrEnd (some before) = true → c ≠ '#' := by
        intro hb hc
        cases hhash with
        | inl h => exact absurd hc (by simpa using h)
        | inr h => exact absurd hb (by simp [h])
      cases s with
      | nil =>
          have hc : c ≠ ' ' := hlast c rfl
          have hsolid : isGapChar c = false := by
            rw [Bool.eq_false_iff]
            exact fun h => hc (hgap c List.mem_cons_self h)
          have hne : c ≠ ':' := by
            cases hcolon with
            | inl h => simpa using h
            | inr h => exact absurd h (by simp [isGapOrEnd])
          refine ⟨0, [c], rfl, .last ⟨List.cons_ne_nil _ _, by simpa using hsolid, by simpa⟩, ?_⟩
          intro hb
          simpa using hhash' (hb.resolve_left (by omega))
      | cons d s =>
          obtain ⟨k, t, hs, ht, hash⟩ := exists_words (d :: s) c (List.cons_ne_nil _ _) hrest
            (fun x hx => hgap x (List.mem_cons_of_mem c hx))
            (fun x hx => hlast x (by simpa using hx))
          by_cases hc : isGapChar c = true
          · have hblank : c = ' ' := hgap c List.mem_cons_self hc
            subst hblank
            refine ⟨k + 1, t, by rw [hs, List.replicate_succ, List.cons_append], ht, fun _ => ?_⟩
            exact hash (.inr rfl)
          · have hsolid : isGapChar c = false := by simpa using hc
            have hhead : ∀ u : List Char, (0 < 0 ∨ isGapOrEnd (some before) = true →
                (c :: u).head? ≠ some '#') := fun u hb => by
              simpa using hhash' (hb.resolve_left (by omega))
            cases k with
            | zero =>
                refine ⟨0, c :: t, ?_, ht.cons hsolid, hhead t⟩
                rw [hs]
                rfl
            | succ k =>
                have hne : c ≠ ':' := by
                  cases hcolon with
                  | inl h => simpa using h
                  | inr h =>
                      rw [hs] at h
                      exact absurd h (by simp [List.replicate_succ, isGapOrEnd, isSpace])
                have hword : Word [c] := ⟨List.cons_ne_nil _ _, by simpa using hsolid, by simpa⟩
                refine ⟨0, c :: (List.replicate (k + 1) ' ' ++ t), by rw [hs]; rfl, ?_, hhead _⟩
                exact .more k hword ht (hash (.inl (by omega)))

/-! ## Reading a word -/

theorem Cursor.gapAhead_one (d : Char) (cs : List Char) (i l c : Nat) :
    (Cursor.mk (d :: cs) i l c).gapAhead 1 = true ↔
      ∀ e, cs.head? = some e → isGapChar e = true := by
  cases cs with
  | nil => simp [gapAhead, ahead?]
  | cons e cs => simp [gapAhead, ahead?, isGapChar]

/-- A word of a plain text ends here: at a gap, at a colon before one, or at the end. -/
def StopsWord (cs : List Char) : Prop :=
  ∀ c r, cs = c :: r → isGapChar c = true ∨
    (c = ':' ∧ ∀ d, r.head? = some d → isGapChar d = true)

theorem plainWord_stop {cs : List Char} (h : StopsWord cs) (fuel i l c : Nat) :
    plainWord false (fuel + 1) ⟨cs, i, l, c⟩ = some ([], ⟨cs, i, l, c⟩) := by
  cases cs with
  | nil => rfl
  | cons d ds =>
      rw [plainWord]
      simp only [Cursor.head?, List.head?_cons, Bool.false_and, Bool.false_eq_true, if_false,
        Bool.or_false]
      cases h d ds rfl with
      | inl hgap =>
          rw [isGapChar] at hgap
          rw [if_pos hgap]
      | inr hcolon =>
          split
          · rfl
          · have hahead := (Cursor.gapAhead_one d ds i l c).mpr hcolon.2
            rw [if_pos (by rw [hahead, hcolon.1]; rfl)]

theorem plainWord_append {cs : List Char} (h : StopsWord cs) : ∀ (w : List Char),
    (∀ c ∈ w, isGapChar c = false) → w.getLast? ≠ some ':' → ∀ fuel i l c : Nat,
      w.length < fuel →
      plainWord false fuel ⟨w ++ cs, i, l, c⟩ =
        some (w, ⟨cs, i + w.length, l, c + w.length⟩)
  | [], _, _, fuel + 1, i, l, c, _ => plainWord_stop h fuel i l c
  | d :: w, hsolid, hlast, fuel + 1, i, l, c, hf => by
      have hd := isGapChar_eq_false.mp (hsolid d List.mem_cons_self)
      have hrest : w.getLast? ≠ some ':' := by
        cases w with
        | nil => simp
        | cons e w => simpa using hlast
      have hcolon : (d == ':' && (Cursor.mk (d :: (w ++ cs)) i l c).gapAhead 1) = false := by
        rw [Bool.and_eq_false_iff]
        by_cases hc : d = ':'
        · refine .inr ?_
          rw [Bool.eq_false_iff]
          intro hgap
          cases w with
          | nil => exact hlast (by simp [hc])
          | cons e w =>
              have := (Cursor.gapAhead_one d _ i l c).mp hgap e rfl
              rw [hsolid e (List.mem_cons_of_mem d List.mem_cons_self)] at this
              cases this
        · exact .inl (by simpa using hc)
      have ih := plainWord_append h w (fun e he => hsolid e (List.mem_cons_of_mem d he)) hrest fuel
        (i + 1) l (c + 1) (by simpa using hf)
      rw [List.cons_append, plainWord]
      simp only [Cursor.head?, List.head?_cons, hd.1, hd.2, Bool.or_self, Bool.false_and, hcolon,
        Bool.false_eq_true, if_false, Cursor.step, List.tail_cons, ih, Option.map_some,
        List.length_cons]
      simp [Nat.add_comm, Nat.add_left_comm]

/-! ## Reading a plain text -/

section

variable {indent : Int} {s cs : List Char} {i l c : Nat}

/-- A word and the blanks behind it. -/
theorem plainText_more {w : List Char} (hw : Word w) (hs : Words s) {k fuel : Nat} (gap : Gap)
    (hstart : (Cursor.mk (w ++ (List.replicate (k + 1) ' ' ++ (s ++ cs))) i l c).atDocumentMarker =
      false) (hhash : w.head? ≠ some '#') (hc : indent ≤ c) :
    plainText false indent (fuel + 1) gap
        ⟨w ++ (List.replicate (k + 1) ' ' ++ (s ++ cs)), i, l, c⟩ =
      (plainText false indent fuel ⟨false, List.replicate (k + 1) ' ', [], []⟩
        ⟨s ++ cs, i + w.length + (k + 1), l, c + w.length + (k + 1)⟩).map
          fun p => (gap.text ++ w ++ p.1, p.2) := by
  have hstop : StopsWord (List.replicate (k + 1) ' ' ++ (s ++ cs)) := by
    intro d r hd
    rw [List.replicate_succ, List.cons_append] at hd
    injection hd with hd
    exact .inl (by rw [← hd]; rfl)
  have hempty : w.isEmpty = false := by
    cases w with
    | nil => exact absurd rfl hw.ne_nil
    | cons d w => rfl
  have hat : (Cursor.mk (w ++ (List.replicate (k + 1) ' ' ++ (s ++ cs))) i l c).at? '#' =
      false := by
    cases w with
    | nil => exact absurd rfl hw.ne_nil
    | cons d w => simpa [Cursor.at?, Cursor.head?] using hhash
  have hword := plainWord_append hstop w hw.solid hw.last
    ((w ++ (List.replicate (k + 1) ' ' ++ (s ++ cs))).length + 1) i l c
    (by rw [List.length_append]; omega)
  have hgap := Gap.read_blanks (indent + 1) (hs.solid cs) (k + 1)
    ((List.replicate (k + 1) ' ' ++ (s ++ cs)).length + 1) [] (i + w.length) l (c + w.length)
    (by rw [List.length_append, List.length_replicate]; omega)
  have hcolumn : ¬ ((c + w.length + (k + 1) : Nat) : Int) < indent + 1 := by omega
  have hspace : (Cursor.mk (List.replicate (k + 1) ' ' ++ (s ++ cs)) (i + w.length) l
      (c + w.length)).atSpace = true := by
    simp [Cursor.atSpace, Cursor.head?, List.replicate_succ, isSpace]
  rw [plainText, hstart, hat]
  simp only [Bool.or_self, Bool.false_eq_true, if_false, hword, hempty, hspace, Bool.true_or,
    if_true, Gap.empty, hgap, List.nil_append, Bool.not_false, Bool.true_and, decide_eq_true_eq,
    hcolumn]

end

/-- What is left behind a plain text: whether a line end was passed, and the place. -/
abbrev PlainEnd := Nat → Nat → Nat → Bool × Cursor

/-- A last word before `cs` is read to an end. -/
def EndsPlain (indent : Int) (cs : List Char) (ending : PlainEnd) : Prop :=
  ∀ (w : List Char), Word w → w.head? ≠ some '#' → ∀ (fuel : Nat) (gap : Gap) (i l c : Nat),
    0 < fuel → (Cursor.mk (w ++ cs) i l c).atDocumentMarker = false → indent ≤ c →
      plainText false indent fuel gap ⟨w ++ cs, i, l, c⟩ =
        some (gap.text ++ w, ending (i + w.length) l (c + w.length))

/-- All words are read if the last one is. -/
theorem plainText_words {indent : Int} {cs : List Char} {ending : PlainEnd}
    (hend : EndsPlain indent cs ending) {s : List Char} (hs : Words s) :
    s.head? ≠ some '#' → ∀ (fuel : Nat) (gap : Gap) (i l c : Nat), s.length < fuel →
      (Cursor.mk (s ++ cs) i l c).atDocumentMarker = false → indent ≤ c →
      plainText false indent fuel gap ⟨s ++ cs, i, l, c⟩ =
        some (gap.text ++ s, ending (i + s.length) l (c + s.length)) := by
  induction hs with
  | last hw =>
      intro hhash fuel gap i l c hf hstart hc
      exact hend _ hw hhash fuel gap i l c (by omega) hstart hc
  | @more w t k hw ht hash ih =>
      intro hhash fuel gap i l c hf hstart hc
      obtain ⟨f, rfl⟩ : ∃ f, fuel = f + 1 := ⟨fuel - 1, by omega⟩
      simp only [List.length_append, List.length_replicate] at hf
      have hne : w.head? ≠ some '#' := by
        cases w with
        | nil => exact absurd rfl hw.ne_nil
        | cons d w => simpa using hhash
      rw [List.append_assoc, List.append_assoc] at hstart ⊢
      rw [plainText_more hw ht gap hstart hne hc, ih hash f _ _ _ _ (by omega)
        (Cursor.atDocumentMarker_of_column (by omega)) (by omega)]
      have hi : ∀ n, n + w.length + (k + 1) + t.length = n + (w.length + (k + 1 + t.length)) := by
        omega
      simp only [Option.map_some, Gap.text, Bool.false_eq_true, if_false, List.length_append,
        List.length_replicate, List.append_assoc, hi]

/-- A word is read to its end, and then a gap if one follows. -/
theorem plainText_last {indent : Int} {cs w : List Char} (hstop : StopsWord cs) (hw : Word w)
    (hhash : w.head? ≠ some '#') {fuel : Nat} (gap : Gap) {i l c : Nat}
    (hstart : (Cursor.mk (w ++ cs) i l c).atDocumentMarker = false) :
    plainText false indent (fuel + 1) gap ⟨w ++ cs, i, l, c⟩ =
      let behind := Cursor.mk cs (i + w.length) l (c + w.length)
      if behind.atSpace || behind.atBreak then
        match Gap.read (indent + 1) (cs.length + 1) Gap.empty behind with
        | none => none
        | some (g, b) =>
            if (b.column : Int) < indent + 1 then some (gap.text ++ w, g.folded, b)
            else (plainText false indent fuel g b).map fun p => (gap.text ++ w ++ p.1, p.2)
      else some (gap.text ++ w, false, behind) := by
  have hempty : w.isEmpty = false := by
    cases w with
    | nil => exact absurd rfl hw.ne_nil
    | cons d w => rfl
  have hat : (Cursor.mk (w ++ cs) i l c).at? '#' = false := by
    cases w with
    | nil => exact absurd rfl hw.ne_nil
    | cons d w => simpa [Cursor.at?, Cursor.head?] using hhash
  have hword := plainWord_append hstop w hw.solid hw.last ((w ++ cs).length + 1) i l c
    (by rw [List.length_append]; omega)
  rw [plainText, hstart, hat]
  simp only [Bool.or_self, Bool.false_eq_true, if_false, hword, hempty, Bool.not_false,
    Bool.true_and, decide_eq_true_eq]
  rfl

/-- A plain key ends before its colon. -/
theorem endsPlain_colon (indent : Int) {r : List Char}
    (hr : ∀ d, r.head? = some d → isGapChar d = true) :
    EndsPlain indent (':' :: r) fun i l c => (false, ⟨':' :: r, i, l, c⟩) := by
  intro w hw hhash fuel gap i l c hf hstart hc
  obtain ⟨f, rfl⟩ : ∃ f, fuel = f + 1 := ⟨fuel - 1, by omega⟩
  have hstop : StopsWord (':' :: r) := by
    intro d ds hd
    injection hd with hd hds
    exact .inr ⟨hd.symm, fun e he => hr e (hds ▸ he)⟩
  rw [plainText_last hstop hw hhash gap hstart]
  rfl

/-- A plain value ends with its line, if the next line is not indented further. -/
theorem endsPlain_line {indent : Int} {m : Nat} {cs : List Char} (hm : (m : Int) ≤ indent)
    (hcs : Solid cs) :
    EndsPlain indent ('\n' :: (List.replicate m ' ' ++ cs))
      fun i l _ => (true, ⟨cs, i + 1 + m, l + 1, m⟩) := by
  intro w hw hhash fuel gap i l c hf hstart hc
  obtain ⟨f, rfl⟩ : ∃ f, fuel = f + 1 := ⟨fuel - 1, by omega⟩
  have hstop : StopsWord ('\n' :: (List.replicate m ' ' ++ cs)) := by
    intro d ds hd
    injection hd with hd
    exact .inl (by rw [← hd]; rfl)
  have hread : Gap.read (indent + 1) (('\n' :: (List.replicate m ' ' ++ cs)).length + 1) Gap.empty
      ⟨'\n' :: (List.replicate m ' ' ++ cs), i + w.length, l, c + w.length⟩ =
      some (⟨true, [], ['\n'], []⟩, ⟨cs, i + w.length + 1 + m, l + 1, m⟩) :=
    @Gap.read_breaks (indent + 1) cs hcs m '\n' [] (by simp [isPlainBreak]) _ _ _ _
      (by simp; omega)
  have hbreak : (Cursor.mk ('\n' :: (List.replicate m ' ' ++ cs)) (i + w.length) l
      (c + w.length)).atBreak = true := rfl
  have hcolumn : (m : Int) < indent + 1 := by omega
  rw [plainText_last hstop hw hhash gap hstart]
  simp only [hbreak, Bool.or_true, if_true, hread, hcolumn]

end Runbook.Yaml
