import Mathlib.Data.List.TakeWhile
import Runbook.Xml.Layout

/-!
# The tokens of a written element

A layout is written with names that are *clean*: letters, digits and three marks, none of which
means anything between the parts of a tag.  Values and texts are escaped, so no mark of a tag is
left in them.  Hence a written element is cut into the tokens it was made of, whatever follows it:
`scan_chars`.
-/

namespace Runbook.Xml

open Runbook.Text

/-! ## Clean names -/

/-- A character of a clean name. -/
def isNameChar (c : Char) : Bool :=
  isAsciiLetter c || isDigit c || c == '_' || c == '-' || c == '.'

/-- A name that starts with a letter or a low line and has no other marks. -/
def isCleanName (n : String) : Bool :=
  match n.toList with
  | [] => false
  | c :: cs => (isAsciiLetter c || c == '_') && cs.all isNameChar

/-- The attributes of a tag have clean names, no two of them the same and none that declares a
namespace. -/
def CleanAttributes (as : List (String × String)) : Prop :=
  (∀ a ∈ as, isCleanName a.1 = true ∧ a.1 ≠ "xmlns") ∧ (as.map (·.1)).Nodup

mutual

/-- All names of a layout are clean. -/
def Layout.Clean : Layout → Prop
  | .leaf name attributes _ => isCleanName name = true ∧ CleanAttributes attributes
  | .block name attributes content =>
      isCleanName name = true ∧ CleanAttributes attributes ∧ Layout.AllClean content
termination_by structural l => l

/-- All names of layouts are clean. -/
def Layout.AllClean : List Layout → Prop
  | [] => True
  | l :: ls => Layout.Clean l ∧ Layout.AllClean ls
termination_by structural ls => ls

end

theorem Layout.allClean_append : ∀ {ls ms : List Layout},
    AllClean (ls ++ ms) ↔ AllClean ls ∧ AllClean ms
  | [], ms => by simp [AllClean]
  | l :: ls, ms => by
      rw [List.cons_append, AllClean, AllClean, allClean_append, and_assoc]

/-- A character of a clean name is none of the marks of a tag. -/
theorem isNameChar_ne {c d : Char} (h : isNameChar c = true) (hd : isNameChar d = false) :
    c ≠ d := by
  rintro rfl
  rw [h] at hd
  cases hd

theorem isGap_of_isNameChar {c : Char} (h : isNameChar c = true) : isGap c = false := by
  simp [isGap, isNameChar_ne h (show isNameChar ' ' = false by decide),
    isNameChar_ne h (show isNameChar '\t' = false by decide),
    isNameChar_ne h (show isNameChar '\n' = false by decide),
    isNameChar_ne h (show isNameChar '\r' = false by decide)]

theorem isNameChar_of_start {c : Char} (h : (isAsciiLetter c || c == '_') = true) :
    isNameChar c = true := by
  simp only [Bool.or_eq_true] at h
  rcases h with h | h <;> simp [isNameChar, h]

/-- The characters of a clean name. -/
theorem isCleanName_cons {n : String} (h : isCleanName n = true) :
    ∃ c cs, n.toList = c :: cs ∧ ∀ d ∈ c :: cs, isNameChar d = true := by
  unfold isCleanName at h
  split at h
  · cases h
  · rename_i c cs hn
    simp only [Bool.and_eq_true, List.all_eq_true] at h
    refine ⟨c, cs, hn, fun d hd => ?_⟩
    cases List.mem_cons.mp hd with
    | inl he => exact he ▸ isNameChar_of_start h.1
    | inr hd' => exact h.2 d hd'

theorem isNameChar_of_mem {n : String} (h : isCleanName n = true) {c : Char} (hc : c ∈ n.toList) :
    isNameChar c = true := by
  obtain ⟨d, ds, hn, hall⟩ := isCleanName_cons h
  exact hall c (hn ▸ hc)

/-! ## Escaped text -/

/-- A character that has a name and is no ampersand is not left in escaped text. -/
theorem notMem_escape {d : Char} (hd : (named d).isSome = true) (ha : d ≠ '&') :
    ∀ cs : List Char, d ∉ escape cs
  | [] => by simp [escape]
  | c :: cs => by
      have ih := notMem_escape hd ha cs
      rw [escape]
      cases hc : named c with
      | none =>
          have hne : d ≠ c := by
            rintro rfl
            simp [hc] at hd
          simp [hne, ih]
      | some n =>
          have hn : d ∉ n ∧ d ≠ ';' := by
            unfold named at hc hd
            split at hc <;> simp only [Option.some.injEq, reduceCtorEq] at hc <;> subst hc <;>
              split at hd <;> first | decide | cases hd
          simp [ha, hn, ih]

theorem escape_ne_nil {cs : List Char} (h : cs ≠ []) : escape cs ≠ [] := by
  cases cs with
  | nil => exact absurd rfl h
  | cons c cs =>
      rw [escape]
      split <;> simp

/-! ## The parts of a tag -/

namespace Token

/-- Characters outside of quotes that neither end a tag nor open a quote. -/
theorem tagEnd_plain {p : List Char} (hp : ∀ c ∈ p, c ≠ '>' ∧ c ≠ '\'' ∧ c ≠ '"')
    (cs : List Char) :
    tagEnd none (p ++ cs) = (tagEnd none cs).map fun q => (p ++ q.1, q.2) := by
  induction p with
  | nil => simp
  | cons c p ih =>
      obtain ⟨h1, h2, h3⟩ := hp c List.mem_cons_self
      have ih := ih fun d hd => hp d (List.mem_cons_of_mem c hd)
      rw [List.cons_append, tagEnd]
      simp only [h1, h2, h3, or_false, if_false, ih, Option.map_map]
      rfl

/-- Characters within quotes, and the quote that ends them. -/
theorem tagEnd_quoted {v : List Char} (hv : '"' ∉ v) (cs : List Char) :
    tagEnd (some '"') (v ++ '"' :: cs) = (tagEnd none cs).map fun q => (v ++ '"' :: q.1, q.2) := by
  induction v with
  | nil => simp [tagEnd]
  | cons c v ih =>
      have hc : c ≠ '"' := fun h => hv (h ▸ List.mem_cons_self)
      have ih := ih fun h => hv (List.mem_cons_of_mem c h)
      rw [List.cons_append, tagEnd, if_neg hc, ih, Option.map_map]
      rfl

theorem plain_of_isNameChar {c : Char} (h : isNameChar c = true) :
    c ≠ '>' ∧ c ≠ '\'' ∧ c ≠ '"' :=
  ⟨isNameChar_ne h (by decide), isNameChar_ne h (by decide), isNameChar_ne h (by decide)⟩

theorem tagEnd_attributeText {a : String × String} (ha : isCleanName a.1 = true)
    (cs : List Char) :
    tagEnd none (Layout.attributeText a ++ cs) =
      (tagEnd none cs).map fun q => (Layout.attributeText a ++ q.1, q.2) := by
  have hlead : ∀ c ∈ ' ' :: a.1.toList ++ ['='], c ≠ '>' ∧ c ≠ '\'' ∧ c ≠ '"' := by
    intro c hc
    simp only [List.cons_append, List.mem_cons, List.mem_append, List.not_mem_nil, or_false] at hc
    rcases hc with rfl | hc | rfl
    · decide
    · exact plain_of_isNameChar (isNameChar_of_mem ha hc)
    · decide
  have hquote : '"' ∉ escape a.2.toList := notMem_escape (by decide) (by decide) _
  have hsplit : Layout.attributeText a ++ cs =
      (' ' :: a.1.toList ++ ['=']) ++ '"' :: (escape a.2.toList ++ '"' :: cs) := by
    simp [Layout.attributeText]
  have hopen : tagEnd none ('"' :: (escape a.2.toList ++ '"' :: cs)) =
      (tagEnd (some '"') (escape a.2.toList ++ '"' :: cs)).map fun q => ('"' :: q.1, q.2) := by
    simp [tagEnd]
  rw [hsplit, tagEnd_plain hlead, hopen, tagEnd_quoted hquote]
  simp [Option.map_map, Function.comp_def, Layout.attributeText]

theorem tagEnd_attributes {as : List (String × String)}
    (has : ∀ a ∈ as, isCleanName a.1 = true) (cs : List Char) :
    tagEnd none (as.flatMap Layout.attributeText ++ cs) =
      (tagEnd none cs).map fun q => (as.flatMap Layout.attributeText ++ q.1, q.2) := by
  induction as with
  | nil => simp
  | cons a as ih =>
      rw [List.flatMap_cons, List.append_assoc, tagEnd_attributeText (has a List.mem_cons_self),
        ih fun b hb => has b (List.mem_cons_of_mem a hb), Option.map_map]
      simp [Function.comp_def]

/-- The inside of a written tag ends at its mark. -/
theorem tagEnd_tagText {name : String} {as : List (String × String)}
    (hn : isCleanName name = true) (has : ∀ a ∈ as, isCleanName a.1 = true) (cs : List Char) :
    tagEnd none (Layout.tagText name as ++ cs) =
      (tagEnd none cs).map fun q => (Layout.tagText name as ++ q.1, q.2) := by
  rw [Layout.tagText, List.append_assoc,
    tagEnd_plain fun c hc => plain_of_isNameChar (isNameChar_of_mem hn hc),
    tagEnd_attributes has, Option.map_map]
  simp [Function.comp_def]

/-- Behind the name of a written tag there is a blank or nothing. -/
theorem takeWhile_tagText {name : String} (hn : isCleanName name = true)
    (as : List (String × String)) (tail : List Char)
    (htail : as = [] → ∀ c ∈ tail, isGap c = false) :
    (Layout.tagText name as ++ tail).takeWhile (!isGap ·) =
      name.toList ++ if as = [] then tail else [] := by
  have hname : ∀ c ∈ name.toList, (!isGap c) = true := fun c hc => by
    simp [isGap_of_isNameChar (isNameChar_of_mem hn hc)]
  rw [Layout.tagText, List.append_assoc, List.takeWhile_append_of_pos hname]
  cases as with
  | nil =>
      rw [List.flatMap_nil, List.nil_append, if_pos rfl, List.takeWhile_eq_self_iff.mpr]
      intro c hc
      rw [htail rfl c hc]
      rfl
  | cons a as => simp [Layout.attributeText, isGap]

/-- The last character of a written tag is no slash. -/
theorem getLast?_tagText {name : String} {as : List (String × String)}
    (hn : isCleanName name = true) : (Layout.tagText name as).getLast? ≠ some '/' := by
  rw [Layout.tagText]
  rcases List.eq_nil_or_concat as with rfl | ⟨bs, a, rfl⟩
  · simp only [List.flatMap_nil, List.append_nil]
    intro h
    have := isNameChar_of_mem hn (List.mem_of_getLast? h)
    exact absurd this (by decide)
  · rw [List.concat_eq_append, List.flatMap_append, List.flatMap_singleton, Layout.attributeText,
      ← List.append_assoc, ← List.append_assoc, List.getLast?_concat]
    decide

theorem ofStart_start {name : String} (hn : isCleanName name = true)
    (as : List (String × String)) :
    ofStart (Layout.tagText name as) = start name.toList (as.flatMap Layout.attributeText) := by
  have hname := takeWhile_tagText hn as [] (by simp)
  simp only [List.append_nil, ite_self] at hname
  simp only [ofStart, hname, if_neg (getLast?_tagText hn)]
  simp [Layout.tagText]

theorem ofStart_empty {name : String} (hn : isCleanName name = true)
    (as : List (String × String)) :
    ofStart (Layout.tagText name as ++ ['/']) =
      empty name.toList (as.flatMap Layout.attributeText) := by
  have hname := takeWhile_tagText hn as ['/'] (by simp [isGap])
  simp only [ofStart, hname]
  rw [if_pos (by simp), List.dropLast_concat]
  have htake : (Layout.tagText name as).take
      (name.toList ++ if as = [] then ['/'] else []).length = name.toList := by
    cases as with
    | nil => simp [Layout.tagText, List.take_of_length_le]
    | cons a as => simp [Layout.tagText]
  rw [htake]
  simp [Layout.tagText]

/-! ## What the next token is -/

/-- An end tag goes up to the next mark. -/
theorem scan_slash (cs : List Char) :
    scan ('<' :: '/' :: cs) = ofStop (upTo (· == '>') cs).1 :: scan (upTo (· == '>') cs).2 := by
  rw [scan]

/-- So does a processing instruction. -/
theorem scan_question (cs : List Char) :
    scan ('<' :: '?' :: cs) =
      ofInstruction (upTo (· == '>') cs).1 :: scan (upTo (· == '>') cs).2 := by
  rw [scan]

/-- Character data goes up to the next tag. -/
theorem scan_run {c : Char} (hc : c ≠ '<') (cs : List Char) :
    scan (c :: cs) = text (c :: cs.takeWhile (· != '<')) :: scan (cs.dropWhile (· != '<')) :=
  scan.eq_7 c cs hc

theorem scan_bang {cs r : List Char} {t : Token} (h : afterBang cs = some (t, r)) :
    scan ('<' :: '!' :: cs) = t :: scan r := by
  rw [scan.eq_3]
  split
  · next hnone => cases h.symm.trans hnone
  · next hsome =>
    cases h.symm.trans hsome
    rfl

theorem scan_bang_of_none {cs : List Char} (h : afterBang cs = none) :
    scan ('<' :: '!' :: cs) = [broken] := by
  rw [scan.eq_3]
  split
  · rfl
  · next hsome => cases h.symm.trans hsome

section

variable {c : Char} (cs : List Char) (hbang : c ≠ '!') (hslash : c ≠ '/') (hquestion : c ≠ '?')

include hbang hslash hquestion

/-- A start tag ends at the first mark outside of quotes. -/
theorem scan_tag {inside r : List Char} (h : tagEnd none (c :: cs) = some (inside, r)) :
    scan ('<' :: c :: cs) = ofStart inside :: scan r := by
  rw [scan.eq_6 c cs hbang hslash hquestion]
  split
  · next hnone => cases h.symm.trans hnone
  · next hsome =>
    cases h.symm.trans hsome
    rfl

theorem scan_tag_of_none (h : tagEnd none (c :: cs) = none) : scan ('<' :: c :: cs) = [broken] := by
  rw [scan.eq_6 c cs hbang hslash hquestion]
  split
  · rfl
  · next hsome => cases h.symm.trans hsome

end

/-- A tag with a sound start ends at the first mark outside of quotes. -/
theorem scan_tag_of_head {cs inside r : List Char}
    (hlead : ∀ c ∈ cs.head?, c ≠ '!' ∧ c ≠ '/' ∧ c ≠ '?')
    (h : tagEnd none cs = some (inside, r)) : scan ('<' :: cs) = ofStart inside :: scan r := by
  cases cs with
  | nil => cases h
  | cons c cs =>
    obtain ⟨hbang, hslash, hquestion⟩ := hlead c rfl
    exact scan_tag cs hbang hslash hquestion h

/-! ## One token -/

theorem head?_tagText {name : String} (hn : isCleanName name = true)
    (as : List (String × String)) (cs : List Char) :
    ∀ c ∈ (Layout.tagText name as ++ cs).head?, c ≠ '!' ∧ c ≠ '/' ∧ c ≠ '?' := by
  obtain ⟨c, ds, hc, hall⟩ := isCleanName_cons hn
  have hname := hall c List.mem_cons_self
  rw [Layout.tagText, hc]
  rintro _ ⟨⟩
  exact ⟨isNameChar_ne hname (by decide), isNameChar_ne hname (by decide),
    isNameChar_ne hname (by decide)⟩

/-- A start tag of an element with content. -/
theorem scan_start {name : String} {as : List (String × String)} (hn : isCleanName name = true)
    (has : ∀ a ∈ as, isCleanName a.1 = true) (cs : List Char) :
    scan ('<' :: Layout.tagText name as ++ '>' :: cs) =
      start name.toList (as.flatMap Layout.attributeText) :: scan cs := by
  have hend : tagEnd none (Layout.tagText name as ++ '>' :: cs) =
      some (Layout.tagText name as, cs) := by
    rw [tagEnd_tagText hn has]
    simp [tagEnd]
  rw [List.cons_append, scan_tag_of_head (head?_tagText hn as _) hend, ofStart_start hn]

/-- A tag of an element without content. -/
theorem scan_empty {name : String} {as : List (String × String)} (hn : isCleanName name = true)
    (has : ∀ a ∈ as, isCleanName a.1 = true) (cs : List Char) :
    scan ('<' :: Layout.tagText name as ++ '/' :: '>' :: cs) =
      empty name.toList (as.flatMap Layout.attributeText) :: scan cs := by
  have hend : tagEnd none (Layout.tagText name as ++ '/' :: '>' :: cs) =
      some (Layout.tagText name as ++ ['/'], cs) := by
    rw [tagEnd_tagText hn has]
    simp [tagEnd]
  rw [List.cons_append, scan_tag_of_head (head?_tagText hn as _) hend, ofStart_empty hn]

theorem upTo_append {p : List Char} (hp : '>' ∉ p) (cs : List Char) :
    upTo (· == '>') (p ++ '>' :: cs) = (p, cs) := by
  have hne : ∀ c ∈ p, (!(c == '>')) = true := by
    intro c hc
    have : c ≠ '>' := fun h => hp (h ▸ hc)
    simp [this]
  rw [upTo, List.takeWhile_append_of_pos hne, List.dropWhile_append_of_pos hne]
  simp

/-- The name in an end tag without blanks. -/
theorem ofStop_of_isGap {name : List Char} (h : ∀ c ∈ name, isGap c = false) :
    ofStop name = stop name := by
  have hlast : name.reverse.dropWhile isGap = name.reverse := by
    rw [List.dropWhile_eq_self_iff]
    intro hlen
    have hmem : name.reverse[0] ∈ name := List.mem_reverse.mp (List.getElem_mem hlen)
    rw [h _ hmem]
    decide
  rw [ofStop, hlast, List.reverse_reverse, ite_self]

/-- An end tag. -/
theorem scan_stop {name : String} (hn : isCleanName name = true) (cs : List Char) :
    scan ('<' :: '/' :: name.toList ++ '>' :: cs) = stop name.toList :: scan cs := by
  have hmark : '>' ∉ name.toList := fun h =>
    (plain_of_isNameChar (isNameChar_of_mem hn h)).1 rfl
  have hgap : ∀ c ∈ name.toList, isGap c = false := fun c hc =>
    isGap_of_isNameChar (isNameChar_of_mem hn hc)
  rw [List.cons_append, List.cons_append, scan_slash, upTo_append hmark, ofStop_of_isGap hgap]

/-- Character data up to a tag. -/
theorem scan_text {t : List Char} (ht : t ≠ []) (hmark : '<' ∉ t) (cs : List Char) :
    scan (t ++ '<' :: cs) = text t :: scan ('<' :: cs) := by
  cases t with
  | nil => exact absurd rfl ht
  | cons c t =>
      have hc : c ≠ '<' := fun h => hmark (h ▸ List.mem_cons_self)
      have hne : ∀ d ∈ t, (d != '<') = true := by
        intro d hd
        have : d ≠ '<' := fun h => hmark (h ▸ List.mem_cons_of_mem c hd)
        simp [this]
      rw [List.cons_append, scan_run hc, List.takeWhile_append_of_pos hne,
        List.dropWhile_append_of_pos hne]
      simp

/-- A text without an opening mark is at most character data. -/
theorem scan_of_notMem {cs : List Char} (hmark : '<' ∉ cs) :
    scan cs = [] ∨ scan cs = [.text cs] := by
  cases cs with
  | nil => exact .inl (by rw [scan])
  | cons c cs =>
      have hc : c ≠ '<' := fun h => hmark (h ▸ List.mem_cons_self)
      have hall : ∀ d ∈ cs, (d != '<') = true := by
        intro d hd
        have : d ≠ '<' := fun h => hmark (h ▸ List.mem_cons_of_mem c hd)
        simpa using this
      refine .inr ?_
      have hend : cs.dropWhile (· != '<') = [] := List.dropWhile_eq_nil_iff.mpr hall
      have hbody : cs.takeWhile (· != '<') = cs := List.takeWhile_eq_self_iff.mpr hall
      rw [scan_run hc, hend, hbody, scan_nil]

/-! ## Written elements -/

theorem mark_notMem_newLine (depth : Nat) : '<' ∉ Layout.newLine depth := by
  simp [Layout.newLine]

theorem newLine_ne_nil (depth : Nat) : Layout.newLine depth ≠ [] := by
  simp [Layout.newLine]

end Token

/-- The written form of a layout starts with the mark of a tag. -/
theorem Layout.chars_eq_cons (depth : Nat) (l : Layout) : ∃ cs, l.chars depth = '<' :: cs := by
  cases l with
  | leaf name as text =>
      rw [chars]
      split
      · exact ⟨_, rfl⟩
      · exact ⟨_, rfl⟩
  | block name as content => exact ⟨_, by rw [chars]; rfl⟩

mutual

/-- The tokens that a layout is written with at a depth. -/
def Layout.tokens (depth : Nat) : Layout → List Token
  | .leaf name attributes text =>
      if text.isEmpty then [.empty name.toList (attributes.flatMap Layout.attributeText)]
      else [.start name.toList (attributes.flatMap Layout.attributeText),
        .text (escape text.toList), .stop name.toList]
  | .block name attributes content =>
      .start name.toList (attributes.flatMap Layout.attributeText) ::
        (Layout.contentTokens (depth + 1) content ++
          [.text (Layout.newLine depth), .stop name.toList])
termination_by structural l => l

/-- The tokens that layouts are written with at a depth. -/
def Layout.contentTokens (depth : Nat) : List Layout → List Token
  | [] => []
  | l :: ls => .text (Layout.newLine depth) :: (Layout.tokens depth l ++
      Layout.contentTokens depth ls)
termination_by structural ls => ls

end

namespace Layout

open Token

mutual

/-- A written layout is cut into its tokens, whatever follows it. -/
theorem scan_chars : ∀ (depth : Nat) (l : Layout), l.Clean → ∀ cs : List Char,
    scan (l.chars depth ++ cs) = l.tokens depth ++ scan cs
  | depth, .leaf name as t, h, cs => by
      rw [Clean] at h
      have has : ∀ a ∈ as, isCleanName a.1 = true := fun a ha => (h.2.1 a ha).1
      rw [chars, tokens]
      by_cases ht : t.isEmpty = true
      · rw [if_pos ht, if_pos ht, List.append_assoc]
        exact scan_empty h.1 has cs
      · rw [if_neg ht, if_neg ht]
        have hne : escape t.toList ≠ [] := escape_ne_nil (by simpa [String.isEmpty_iff] using ht)
        have hmark : '<' ∉ escape t.toList := notMem_escape (by decide) (by decide) _
        have hsplit : '<' :: tagText name as ++ '>' :: escape t.toList ++ '<' :: '/' ::
            name.toList ++ ['>'] ++ cs = '<' :: tagText name as ++ '>' :: (escape t.toList ++
              ('<' :: '/' :: name.toList ++ '>' :: cs)) := by simp
        rw [hsplit, scan_start h.1 has, List.cons_append, List.cons_append, scan_text hne hmark,
          ← List.cons_append, ← List.cons_append, scan_stop h.1]
        rfl
  | depth, .block name as content, h, cs => by
      rw [Clean] at h
      have has : ∀ a ∈ as, isCleanName a.1 = true := fun a ha => (h.2.1.1 a ha).1
      have hsplit : chars depth (.block name as content) ++ cs =
          '<' :: tagText name as ++ '>' :: (contentChars (depth + 1) content ++
            (newLine depth ++ '<' :: ('/' :: name.toList ++ '>' :: cs))) := by
        rw [chars]
        simp
      rw [hsplit, scan_start h.1 has, scan_contentChars (depth + 1) content h.2.2 _
          (newLine_ne_nil depth) (mark_notMem_newLine depth),
        ← List.cons_append, ← List.cons_append, scan_stop h.1, tokens]
      simp

/-- Written layouts are cut into their tokens, if text and a tag follow them. -/
theorem scan_contentChars : ∀ (depth : Nat) (ls : List Layout), AllClean ls →
    ∀ (t : List Char), t ≠ [] → '<' ∉ t → ∀ cs : List Char,
      scan (contentChars depth ls ++ (t ++ '<' :: cs)) =
        contentTokens depth ls ++ text t :: scan ('<' :: cs)
  | depth, [], _, t, ht, hmark, cs => by
      rw [contentChars, contentTokens, List.nil_append, List.nil_append]
      exact scan_text ht hmark cs
  | depth, l :: ls, h, t, ht, hmark, cs => by
      rw [AllClean] at h
      obtain ⟨ds, hds⟩ := chars_eq_cons depth l
      rw [contentChars, contentTokens, List.append_assoc, List.append_assoc, hds,
        List.cons_append, scan_text (newLine_ne_nil depth) (mark_notMem_newLine depth),
        ← List.cons_append, ← hds, scan_chars depth l h.1,
        scan_contentChars depth ls h.2 t ht hmark cs]
      simp

end

end Layout

end Runbook.Xml
