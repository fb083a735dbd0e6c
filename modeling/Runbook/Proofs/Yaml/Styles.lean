import Runbook.Proofs.Yaml.Block
import Runbook.Proofs.Yaml.Plain
import Runbook.Proofs.Yaml.Quoted
import Runbook.Yaml.Printer

/-!
# What a style says about a text

A style is chosen by what is in a text.  Conversely the style says what the readers need: that a
plain text consists of words and stands for itself, that single quotes can hold the text, and that
a block has nothing hidden in it.
-/

namespace Runbook.Yaml

/-! ## Plain texts -/

/-- A text that can be written plainly, whatever it then stands for. -/
structure Plainly (s : List Char) : Prop where
  /-- It consists of words. -/
  words : Words s
  /-- It does not start with a mark. -/
  start : ∀ c r, s = c :: r → isBadStart c r.head? = false
  /-- It does not start like a document. -/
  noMarker : s.take 3 ≠ ['-', '-', '-'] ∧ s.take 3 ≠ ['.', '.', '.']
  /-- Nothing in it is hidden. -/
  shown : ∀ c ∈ s, isShown c = true

theorem Words.ne_nil {s : List Char} (h : Words s) : s ≠ [] := by
  cases h with
  | last hw => exact hw.ne_nil
  | more k hw hs hash => simp

theorem Plainly.exists_cons {s : List Char} (h : Plainly s) :
    ∃ c r, s = c :: r ∧ isBadStart c r.head? = false := by
  obtain ⟨c, r, rfl⟩ := List.exists_cons_of_ne_nil h.words.ne_nil
  exact ⟨c, r, rfl, h.start c r rfl⟩

/-- A text that is not taken for anything else stands for itself. -/
theorem resolve?_of_isTakenOtherwise {s : List Char} (h : isTakenOtherwise s = false) :
    resolve? s = some (.text (String.ofList s)) := by
  rw [isTakenOtherwise, Bool.or_eq_false_iff] at h
  have hmatch := h.2
  cases hr : resolve? s with
  | none => rw [hr] at hmatch; cases hmatch
  | some d =>
      rw [hr] at hmatch
      cases d with
      | text t =>
          rw [resolve?] at hr
          split at hr
          · cases hr
          · split at hr
            · cases hr
            · cases hr
            · split at hr
              · cases hr
              · split at hr
                · cases hr
                · exact hr.symm
      | _ => cases hmatch

/-! ## The style that is taken -/

theorem shown_of_needsEscapes {s : List Char} (h : needsEscapes s = false) :
    ∀ c ∈ s, isShown c = true := by
  rw [needsEscapes, Bool.or_eq_false_iff, Bool.not_eq_false', List.all_eq_true] at h
  exact h.1

theorem not_isBlankChar_of_hasLooseEnds {s : List Char} (h : hasLooseEnds s = false) {c : Char}
    (hc : s.head? = some c ∨ s.getLast? = some c) : c ≠ ' ' := by
  rintro rfl
  rw [hasLooseEnds] at h
  cases hc with
  | inl hc => simp [hc, isBlankChar] at h
  | inr hc => simp [hc, isBlankChar] at h

/-- What is not taken otherwise, and has neither loose ends nor marks, can be written plainly. -/
theorem plainly_of_checks {s : List Char} (hne : s ≠ []) (hends : hasLooseEnds s = false)
    (hshown : ∀ c ∈ s, isShown c = true) (hbreaks : ∀ c ∈ s, isBreak c = false)
    (hmarks : hasMarks s = false) : Plainly s := by
  obtain ⟨c, r, rfl⟩ := List.exists_cons_of_ne_nil hne
  simp only [hasMarks, Bool.or_eq_false_iff, beq_eq_false_iff_ne, ne_eq] at hmarks
  obtain ⟨⟨⟨hdash, hpoint⟩, hstart⟩, hinner⟩ := hmarks
  have hgap : ∀ d ∈ c :: r, isGapChar d = true → d = ' ' := by
    intro d hd hg
    rw [isGapChar, hbreaks d hd, Bool.or_false] at hg
    exact eq_blank_of_isShown (hshown d hd) hg
  have hfirst : hasInnerMark 'x' (c :: r) = false := by
    simp only [isBadStart, Bool.or_eq_false_iff, Bool.and_eq_false_iff] at hstart
    have hcolon : (c == ':' && isGapOrEnd r.head?) = false := by
      rw [Bool.and_eq_false_iff]
      exact hstart.2.imp_left fun h => h.1.2
    have hhash : (c == '#') = false := by
      have := hstart.1
      simp at this
      simpa using this.1
    rw [hasInnerMark, hcolon, hhash, hinner]
    rfl
  obtain ⟨k, t, heq, hwords, hash⟩ := exists_words (c :: r) 'x' hne hfirst hgap fun d hd =>
    not_isBlankChar_of_hasLooseEnds hends (.inr hd)
  have hk : k = 0 := by
    cases k with
    | zero => rfl
    | succ k =>
        injection heq with hc _
        exact absurd hc (not_isBlankChar_of_hasLooseEnds hends (.inl rfl))
  subst hk
  rw [List.replicate_zero, List.nil_append] at heq
  refine ⟨heq ▸ hwords, ?_, ⟨hdash, hpoint⟩, hshown⟩
  intro d q hd
  injection hd with hd hq
  rw [← hd, ← hq]
  exact hstart

/-- What a style promises about a text. -/
inductive StyleFor (s : List Char) : Style → Prop where
  /-- The text can be written plainly and stands for itself. -/
  | plain (h : Plainly s) (hvalue : resolve? s = some (.text (String.ofList s))) : StyleFor s .plain
  /-- Single quotes can hold the text. -/
  | singleQuoted (h : FitsSingle s) : StyleFor s .singleQuoted
  /-- Double quotes can hold any text. -/
  | doubleQuoted : StyleFor s .doubleQuoted
  /-- The text has several lines, and nothing in it is hidden. -/
  | block (hline : '\n' ∈ s) (h : ∀ c ∈ s, isShown c = true) : StyleFor s .block

/-- The style that is taken keeps its promise. -/
theorem styleFor_ofText (s : List Char) : StyleFor s (Style.ofText s) := by
  rw [Style.ofText]
  split
  · rename_i hline
    split
    · exact .doubleQuoted
    · rename_i hblock
      rw [Bool.not_eq_true, Bool.or_eq_false_iff] at hblock
      exact .block (by simpa using hline) (shown_of_needsEscapes hblock.1)
  · rename_i hline
    split
    · split
      · exact .doubleQuoted
      · rename_i hquoted
        rw [Bool.not_eq_true, Bool.or_eq_false_iff] at hquoted
        refine .singleQuoted ⟨fun c hc => ⟨shown_of_needsEscapes hquoted.1 c hc, ?_⟩, ?_, hquoted.2⟩
        · rintro rfl
          exact hline (by simpa using hc)
        · have := hquoted.1
          rw [needsEscapes, Bool.or_eq_false_iff] at this
          exact this.2
    · rename_i hplain
      simp only [Bool.not_eq_true, Bool.or_eq_false_iff] at hplain
      obtain ⟨⟨⟨⟨hvalue, hends⟩, hescapes⟩, hbreaks⟩, hmarks⟩ := hplain
      have hresolve := resolve?_of_isTakenOtherwise hvalue
      refine .plain (plainly_of_checks ?_ hends (shown_of_needsEscapes hescapes) ?_ hmarks) hresolve
      · rintro rfl
        cases hresolve
      · simpa using hbreaks

theorem textChars_eq (indent : Nat) (s : List Char) : textChars indent s =
    match Style.ofText s with
    | .plain => (s, true)
    | .singleQuoted => (singleQuoted indent s, true)
    | .doubleQuoted => (doubleQuoted s, true)
    | .block => (blockChars indent s, !endsWithBreak s) := rfl

/-! ## Keys on one line -/

theorem length_le_utf8Bytes : ∀ s : List Char, s.length ≤ (Text.utf8Bytes s).length
  | [] => Nat.le_refl 0
  | c :: s => by
      have hone := one_le_length_charBytes c
      have hrest : s.length ≤ (s.flatMap Text.charBytes).length := length_le_utf8Bytes s
      rw [Text.utf8Bytes, List.flatMap_cons, List.length_append, List.length_cons]
      omega

theorem length_quotedChar_le (single : Bool) (c : Char) :
    (quotedChar single c).length ≤ 4 * (Text.charBytes c).length := by
  have hone := one_le_length_charBytes c
  cases single with
  | true =>
      rw [quotedChar, if_pos rfl]
      split
      · rw [List.length_cons, List.length_singleton]
        omega
      · rw [List.length_singleton]
        omega
  | false =>
      have hescaped := escaped_doubleQuotedChar c
      rw [quotedChar, if_neg (by decide)]
      generalize doubleQuotedChar c = written at hescaped ⊢
      cases hescaped with
      | shown => rw [List.length_singleton]; omega
      | letter => rw [List.length_cons, List.length_singleton]; omega
      | code _ _ _ _ hlength => rw [List.length_cons, List.length_cons]; omega

theorem length_flatMap_quotedChar_le (single : Bool) : ∀ s : List Char,
    (s.flatMap (quotedChar single)).length ≤ 4 * (Text.utf8Bytes s).length
  | [] => Nat.le_refl 0
  | c :: s => by
      have hchar := length_quotedChar_le single c
      have hrest : (s.flatMap (quotedChar single)).length ≤ 4 * (s.flatMap Text.charBytes).length :=
        length_flatMap_quotedChar_le single s
      rw [Text.utf8Bytes, List.flatMap_cons, List.flatMap_cons, List.length_append,
        List.length_append]
      omega

/-- Within quotes, a text on one line is written character by character. -/
theorem singleLines_of_noBreak (indent : Nat) : ∀ s : List Char, (∀ c ∈ s, isBreak c = false) →
    singleLines indent false s = s.flatMap (quotedChar true)
  | [], _ => rfl
  | c :: s, h => by
      have hc : ¬ isBreak c = true := by rw [h c List.mem_cons_self]; decide
      rw [singleLines, if_neg hc, singleLines_of_noBreak indent s
        fun d hd => h d (List.mem_cons_of_mem c hd)]
      rfl

theorem noBreak_quotedChar {single : Bool} {c : Char} (h : isBreak c = false) :
    ∀ d ∈ quotedChar single c, isBreak d = false := by
  cases single with
  | true =>
      rw [quotedChar, if_pos rfl]
      split
      · rw [List.forall_mem_cons, List.forall_mem_singleton]
        exact ⟨rfl, rfl⟩
      · simpa using h
  | false =>
      have hescaped := escaped_doubleQuotedChar c
      rw [quotedChar, if_neg (by decide)]
      generalize doubleQuotedChar c = written at hescaped ⊢
      have hslash : isBreak '\\' = false := rfl
      cases hescaped with
      | shown => simpa using h
      | letter _ he => simpa [hslash] using (isGapChar_eq_false.mp he.2).2
      | code _ _ _ hshown _ =>
          intro d hd
          cases List.mem_cons.mp hd with
          | inl heq => rw [heq]; rfl
          | inr hd => exact (isGapChar_eq_false.mp (hshown d hd).2).2

theorem noBreak_flatMap {single : Bool} {s : List Char} (h : ∀ c ∈ s, isBreak c = false) :
    ∀ d ∈ s.flatMap (quotedChar single), isBreak d = false := by
  intro d hd
  obtain ⟨c, hc, hd⟩ := List.mem_flatMap.mp hd
  exact noBreak_quotedChar (h c hc) d hd

/-- A key on one line. -/
structure LineKey (s : List Char) : Prop where
  /-- There is no line end. -/
  noBreak : ∀ c ∈ s, isBreak c = false
  /-- It is not long. -/
  short : (Text.utf8Bytes s).length ≤ 128

theorem lineKey_of_isSimpleKey {s : String} (h : isSimpleKey (.text s) = true) :
    LineKey s.toList := by
  simp only [isSimpleKey, Bool.and_eq_true, Bool.not_eq_true', decide_eq_true_eq] at h
  exact ⟨by simpa using h.1, h.2⟩

end Runbook.Yaml
