import Runbook.Proofs.Yaml.Steps
import Runbook.Proofs.Yaml.Styles

/-!
# Written texts are read as tokens

A text stands behind the mark of a field or at the start of a line.  Its first character decides
which reader takes it.  At the start of a line it is remembered as something that can be a key, and
if it is one the colon is found on the same line.
-/

namespace Runbook.Yaml

open Reading

/-- The key that is remembered where a text starts. -/
def keyHere (allowed : Bool) (b : Blocks) (i l c : Nat) : Option KeyStart :=
  if allowed then some ⟨b.2.2.length, i, l, c, b.1 == c⟩ else none

/-- The token of a text in a style. -/
def textToken (s : List Char) : Token := .scalar s (Style.ofText s == .plain)

section

variable {b : Blocks} {allowed : Bool} {s tail : List Char} {i l c : Nat}

theorem rememberKey_at (cs : List Char) (b : Blocks) (allowed : Bool) (i l c : Nat) :
    (Reading.here ⟨cs, i, l, c⟩ b none allowed).rememberKey =
      some (.here ⟨cs, i, l, c⟩ b (keyHere allowed b i l c) allowed) := by
  cases allowed <;> rfl

/-! ## Plain texts -/

theorem notMem_of_isBadStart {d : Char} {next : Option Char} (h : isBadStart d next = false) :
    d ∉ "#,[]\x7b\x7d&*!|>'\"%@`".toList ∧
      (d = '-' ∨ d = '?' ∨ d = ':' → isGapOrEnd next = false) := by
  simp only [isBadStart, Bool.or_eq_false_iff, Bool.and_eq_false_iff] at h
  refine ⟨fun hd => ?_, fun hd => ?_⟩
  · have hmem := List.contains_iff_mem.mpr hd
    rw [h.1] at hmem
    cases hmem
  · refine h.2.resolve_left fun hmarks => ?_
    simp only [beq_eq_false_iff_ne] at hmarks
    rcases hd with hd | hd | hd
    · exact hmarks.2 hd
    · exact hmarks.1.1 hd
    · exact hmarks.1.2 hd

/-- A dash, a question mark or a colon that starts such a text is not a mark by itself. -/
theorem gapAhead_of_isBadStart {d : Char} {r : List Char} (h : isBadStart d r.head? = false)
    (hd : d = '-' ∨ d = '?' ∨ d = ':') (tail : List Char) (i l c : Nat) :
    (Cursor.mk (d :: (r ++ tail)) i l c).gapAhead 1 = false ∧
      (((Cursor.mk (d :: (r ++ tail)) i l c).ahead? 1).map isSpace).getD false = false := by
  have hsolid := (notMem_of_isBadStart h).2 hd
  cases r with
  | nil => cases hsolid
  | cons e r =>
      simp only [List.head?_cons, isGapOrEnd, Bool.or_eq_false_iff] at hsolid
      simp [Cursor.gapAhead, Cursor.ahead?, hsolid]

/-- Apart from these the text does not start with an indicator. -/
theorem isIndicator_of_isBadStart {d : Char} {next : Option Char} (h : isBadStart d next = false)
    (hd : ¬ (d = '-' ∨ d = '?' ∨ d = ':')) : isIndicator d = false := by
  rw [Bool.eq_false_iff, isIndicator]
  intro hcontains
  have hmem := (notMem_of_isBadStart h).1
  have hin : d ∈ "-?:".toList ∨ d ∈ "#,[]\x7b\x7d&*!|>'\"%@`".toList := by
    have := List.contains_iff_mem.mp hcontains
    simp only [String.toList] at this ⊢
    simp at this ⊢
    grind
  cases hin with
  | inl hin => exact hd (by simpa using hin)
  | inr hin => exact hmem hin

/-- A text that is not badly started starts a plain one. -/
theorem startsPlain_of_isBadStart {d : Char} {r : List Char} (h : isBadStart d r.head? = false)
    (hspace : isSpace d = false) (key : Option KeyStart) :
    (Reading.here ⟨d :: (r ++ tail), i, l, c⟩ b key allowed).startsPlain d = true := by
  have hflow : (Reading.here ⟨d :: (r ++ tail), i, l, c⟩ b key allowed).inFlow = false := rfl
  have hcursor : (Reading.here ⟨d :: (r ++ tail), i, l, c⟩ b key allowed).cursor =
    ⟨d :: (r ++ tail), i, l, c⟩ := rfl
  rw [startsPlain, hflow, hcursor]
  by_cases hd : d = '-' ∨ d = '?' ∨ d = ':'
  · obtain ⟨hahead, hblank⟩ := gapAhead_of_isBadStart h hd tail i l c
    rw [hahead, hblank]
    rcases hd with rfl | rfl | rfl <;> rfl
  · rw [hspace, isIndicator_of_isBadStart h hd]
    rfl

/-- A text that is not badly started is read plainly. -/
theorem take_plain {d : Char} {r : List Char} (h : isBadStart d r.head? = false)
    (hspace : isSpace d = false)
    (hmarker : (Cursor.mk (d :: (r ++ tail)) i l c).atDocumentMarker = false)
    (key : Option KeyStart) :
    (Reading.here ⟨d :: (r ++ tail), i, l, c⟩ b key allowed).take d =
      (Reading.here ⟨d :: (r ++ tail), i, l, c⟩ b key allowed).plainScalar := by
  simp only [Cursor.atDocumentMarker, Bool.or_eq_false_iff] at hmarker
  have hflow : (Reading.here ⟨d :: (r ++ tail), i, l, c⟩ b key allowed).inFlow = false := rfl
  have hcursor : (Reading.here ⟨d :: (r ++ tail), i, l, c⟩ b key allowed).cursor =
    ⟨d :: (r ++ tail), i, l, c⟩ := rfl
  have hplain : (Reading.here ⟨d :: (r ++ tail), i, l, c⟩ b key allowed).startsPlain d = true :=
    startsPlain_of_isBadStart h hspace key
  have hother : ∀ x ∈ "#,[]\x7b\x7d&*!|>'\"%@`".toList, (d == x) = false := fun x hx =>
    beq_false_of_ne fun he => (notMem_of_isBadStart h).1 (he ▸ hx)
  have hmark : ∀ x, x = '-' ∨ x = '?' ∨ x = ':' →
      (d == x && (Cursor.mk (d :: (r ++ tail)) i l c).gapAhead 1) = false := by
    intro x hx
    rw [Bool.and_eq_false_iff]
    by_cases hd : d = x
    · exact .inr (gapAhead_of_isBadStart h (hd ▸ hx) tail i l c).1
    · exact .inl (beq_false_of_ne hd)
  rw [take]
  simp only [hflow, hcursor, hmarker, hplain, hother '%' (by decide), hother '[' (by decide),
    hother '\x7b' (by decide), hother ']' (by decide), hother '\x7d' (by decide),
    hother ',' (by decide), hmark '-' (by decide), hmark '?' (by decide), hmark ':' (by decide),
    hother '*' (by decide), hother '&' (by decide), hother '!' (by decide), hother '|' (by decide),
    hother '>' (by decide), hother '\'' (by decide), hother '"' (by decide), Bool.and_false,
    Bool.false_or, Bool.false_and, Bool.false_eq_true, if_false, if_true]

theorem Plainly.head_ne_hash (h : Plainly s) : s.head? ≠ some '#' := by
  obtain ⟨d, r, rfl, hstart⟩ := h.exists_cons
  intro hd
  injection hd with hd
  exact (notMem_of_isBadStart hstart).1 (by rw [hd]; decide)

/-- A plain text is read up to its end. -/
theorem plainScalar_at (allowed : Bool) (h : Plainly s) {ending : PlainEnd}
    (hend : EndsPlain b.1 tail ending) (i l c : Nat)
    (hmarker : (Cursor.mk (s ++ tail) i l c).atDocumentMarker = false) (hc : b.1 ≤ c) :
    (Reading.here ⟨s ++ tail, i, l, c⟩ b none allowed).plainScalar =
      some (.here (ending (i + s.length) l (c + s.length)).2 (b.push [.scalar s true])
        (keyHere allowed b i l c) (ending (i + s.length) l (c + s.length)).1) := by
  have htext := plainText_words hend h.words h.head_ne_hash ((s ++ tail).length + 1) Gap.empty i l c
    (by rw [List.length_append]; omega) hmarker hc
  have hempty : Gap.empty.text = [] := rfl
  rw [hempty, List.nil_append] at htext
  rw [plainScalar, rememberKey_at]
  change Option.map _ (plainText false b.1 ((s ++ tail).length + 1) Gap.empty
    ⟨s ++ tail, i, l, c⟩) = _
  rw [htext]
  rfl

/-! ## Quoted texts -/

theorem take_quoteMark (single : Bool) (cs : List Char) (key : Option KeyStart) :
    (Reading.here ⟨quoteMark single :: cs, i, l, c⟩ b key allowed).take (quoteMark single) =
      (Reading.here ⟨quoteMark single :: cs, i, l, c⟩ b key allowed).quotedScalar single := by
  have hmarker : ∀ d, d = '-' ∨ d = '.' →
      (Cursor.mk (quoteMark single :: cs) i l c).atMarker d = false := by
    intro d hd
    have hne : quoteMark single ≠ d := by
      cases single <;> rcases hd with rfl | rfl <;> decide
    simp [Cursor.atMarker, hne]
  have hcursor : (Reading.here ⟨quoteMark single :: cs, i, l, c⟩ b key allowed).cursor =
    ⟨quoteMark single :: cs, i, l, c⟩ := rfl
  rw [take]
  simp only [hcursor, hmarker '-' (.inl rfl), hmarker '.' (.inr rfl)]
  cases single <;> simp [quoteMark]

/-- A text in quotes is read up to its end. -/
theorem take_quoted (single : Bool) {indent : Nat} (hindent : 0 < indent) {cs : List Char}
    (h : Quoted single indent s cs) (hend : single = true → tail.head? ≠ some '\'') (b : Blocks)
    (allowed : Bool) (i l c : Nat) :
    ∃ l' c', (Reading.here ⟨quoteMark single :: (cs ++ quoteMark single :: tail), i, l, c⟩ b none
        allowed).take (quoteMark single) =
      some (.here ⟨tail, i + 1 + cs.length + 1, l', c'⟩ (b.push [.scalar s false])
        (keyHere allowed b i l c) false) ∧ l ≤ l' ∧
      ((∀ d ∈ cs, isBreak d = false) → l' = l ∧ c' = c + 1 + cs.length + 1) := by
  obtain ⟨l', c', hread, hl, hline⟩ := quotedText_quoted hindent h hend
    ((quoteMark single :: (cs ++ quoteMark single :: tail)).length + 1) (i + 1) l (c + 1)
    (by simp; omega) (Nat.succ_pos c)
  refine ⟨l', c', ?_, hl, hline⟩
  rw [take_quoteMark, quotedScalar, keyLike, rememberKey_at]
  change Option.map _ (Option.map _ (quotedText single
    ((quoteMark single :: (cs ++ quoteMark single :: tail)).length + 1)
    ⟨cs ++ quoteMark single :: tail, i + 1, l, c + 1⟩)) = _
  rw [hread]
  rfl

/-! ## Blocks -/

/-- A text of several lines is read up to what follows it. -/
theorem take_block {n m : Nat} (hn : b.1 = n) (hm : m ≤ n) (hne : s ≠ [])
    (hs : ∀ c ∈ s, isShown c = true) (htail : Solid tail) (allowed : Bool) (i l c : Nat) :
    ∃ i' l', (Reading.here ⟨blockChars (n + 2) s ++
        ((if endsWithBreak s then [] else ['\n']) ++ (List.replicate m ' ' ++ tail)), i, l, c⟩ b
        none allowed).take '|' =
      some (.here ⟨tail, i', l', m⟩ (b.push [.scalar s false]) none true) := by
  obtain ⟨i', l', hread⟩ := blockText_blockChars hm hne hs htail (i + 1) l (c + 1)
  refine ⟨i', l', ?_⟩
  have hmark : blockChars (n + 2) s = '|' :: (blockChars (n + 2) s).tail := by
    rw [blockChars, blockHead_eq]
    rfl
  have htake : ∀ cs, (Reading.here ⟨'|' :: cs, i, l, c⟩ b none allowed).take '|' =
      (Reading.here ⟨'|' :: cs, i, l, c⟩ b none allowed).blockScalar true := by
    intro cs
    have hmarker : ∀ d, d = '-' ∨ d = '.' → (Cursor.mk ('|' :: cs) i l c).atMarker d = false := by
      rintro d (rfl | rfl) <;> simp [Cursor.atMarker]
    have hcursor : (Reading.here ⟨'|' :: cs, i, l, c⟩ b none allowed).cursor =
        ⟨'|' :: cs, i, l, c⟩ :=
      rfl
    rw [take]
    simp only [hcursor, hmarker '-' (.inl rfl), hmarker '.' (.inr rfl)]
    simp [Reading.inFlow, Reading.here]
  rw [← hn] at hread
  rw [hmark, List.cons_append, htake, blockScalar]
  change Option.map _ (blockText true b.1 ⟨(blockChars (n + 2) s).tail ++
    ((if endsWithBreak s then [] else ['\n']) ++ (List.replicate m ' ' ++ tail)), i + 1, l,
      c + 1⟩) = _
  rw [hread]
  rfl

end

/-! ## Values -/

/-- A truth value or a text. -/
inductive IsScalar : Data → Prop where
  | bool (v : Bool) : IsScalar (.bool v)
  | text (s : String) : IsScalar (.text s)

/-- The token of a truth value or a text. -/
def scalarToken : Data → Token
  | .bool v => .scalar (toString v).toList true
  | .text s => textToken s.toList
  | _ => .broken

theorem plainly_bool (v : Bool) : Plainly (toString v).toList := by
  have hsolid : (toString v).toList.all (fun c => !isGapChar c) = true := by cases v <;> decide
  have hshown : (toString v).toList.all isShown = true := by cases v <;> decide
  refine ⟨.last ⟨?_, fun c hc => ?_, ?_⟩, ?_, ?_, List.all_eq_true.mp hshown⟩
  · cases v <;> decide
  · simpa using List.all_eq_true.mp hsolid c hc
  · cases v <;> decide
  · cases v <;> rintro c r ⟨⟩ <;> rfl
  · cases v <;> decide

/-- The key that is remembered right of the innermost block need not be one. -/
theorem keyHere_right {b : Blocks} {allowed : Bool} {i l c : Nat} (hc : b.1 < c) :
    ∀ k, keyHere allowed b i l c = some k → k.required = false ∧ k.line = l := by
  intro k hk
  cases allowed with
  | false => cases hk
  | true =>
      injection hk with hk
      rw [← hk]
      exact ⟨beq_false_of_ne (by omega), rfl⟩

section

variable {b : Blocks} {allowed : Bool} {cs tail : List Char} {i l c : Nat}

/-- A token behind a blank. -/
theorem step_of_take {d : Char} {r : Reading} (hclear : Clear (d :: cs)) (hc : b.1 ≤ c)
    (htake : (Reading.here ⟨d :: cs, i + 1, l, c + 1⟩ b none allowed).take d = some r)
    (hmore : r.tokens.head? ≠ some .streamEnd) (hshort : r.cursor.rest.length ≤ cs.length) :
    Reading.Step (Reading.here ⟨' ' :: d :: cs, i, l, c⟩ b none allowed) r := by
  have hsettle : (Reading.here ⟨' ' :: d :: cs, i, l, c⟩ b none allowed).settle =
      some (.here ⟨d :: cs, i + 1, l, c + 1⟩ b none allowed) := settle_blanks hclear 1 i l c
  have hclosed : b.closed ((c + 1 : Nat) : Int) = b := Blocks.closed_of_le (by omega)
  refine ⟨?_, hmore, ?_⟩
  · rw [next_of_settle hsettle, hclosed]
    exact htake
  · have : (Reading.here ⟨' ' :: d :: cs, i, l, c⟩ b none allowed).cursor.rest.length =
      cs.length + 2 := rfl
    omega

/-- A plain value. -/
theorem step_plain {n m : Nat} (hb : b.1 = n) (hm : m ≤ n) (hc : n ≤ c) {s : List Char}
    (hs : Plainly s) (htail : Clear tail) (i l : Nat) :
    ∃ r, Reading.Step (.here ⟨' ' :: (s ++ '\n' :: (List.replicate m ' ' ++ tail)), i, l, c⟩ b
        none allowed) r ∧
      Ready r (b.push [.scalar s true]) tail m := by
  have hend : EndsPlain b.1 ('\n' :: (List.replicate m ' ' ++ tail)) _ :=
    endsPlain_line (by omega) htail.solid
  have hread := plainScalar_at allowed hs hend (i + 1) l (c + 1)
    (Cursor.atDocumentMarker_of_column (Nat.succ_pos c)) (by omega)
  obtain ⟨d, r, rfl, hstart⟩ := hs.exists_cons
  have hsolid : isGapChar d = false := hs.words.solid [] d rfl
  have hclear : Clear (d :: (r ++ '\n' :: (List.replicate m ' ' ++ tail))) := by
    refine clear_cons hsolid ?_ ?_ _
    · rintro rfl
      exact hs.head_ne_hash rfl
    · rintro rfl
      exact absurd (hs.shown _ List.mem_cons_self) (by decide)
  have htake := (take_plain hstart (isGapChar_eq_false.mp hsolid).1
    (Cursor.atDocumentMarker_of_column (Nat.succ_pos c)) none).trans hread
  refine ⟨_, step_of_take hclear (by omega) htake ?_ ?_, ?_⟩
  · simp [Reading.here, Blocks.push]
  · simp [Reading.here]
    omega
  · refine ready_later htail _ ?_ m
    intro k hk
    obtain ⟨h1, h2⟩ := keyHere_right (by omega) k hk
    exact ⟨h1, by omega⟩

/-- A quoted value. -/
theorem step_quoted {n m : Nat} (hb : b.1 = n) (hc : n ≤ c) (single : Bool) {indent : Nat}
    (hindent : 0 < indent) {s cs : List Char} (hs : Quoted single indent s cs) (htail : Clear tail)
    (i l : Nat) :
    ∃ r, Reading.Step (.here ⟨' ' :: quoteMark single :: (cs ++ quoteMark single ::
        '\n' :: (List.replicate m ' ' ++ tail)), i, l, c⟩ b none allowed) r ∧
      Ready r (b.push [.scalar s false]) tail m := by
  have hend : single = true → ('\n' :: (List.replicate m ' ' ++ tail)).head? ≠ some '\'' :=
    fun _ => by simp
  obtain ⟨l', c', htake, hl, -⟩ := take_quoted single hindent hs hend b allowed (i + 1) l (c + 1)
  have hclear : Clear (quoteMark single :: (cs ++ quoteMark single ::
      '\n' :: (List.replicate m ' ' ++ tail))) := by
    refine clear_cons (isGapChar_quoteMark single) ?_ ?_ _ <;> cases single <;> decide
  refine ⟨_, step_of_take hclear (by omega) htake ?_ ?_, ?_⟩
  · simp [Reading.here, Blocks.push]
  · simp [Reading.here]
    omega
  · refine ready_line htail ?_ m _ _
    intro k hk
    obtain ⟨h1, h2⟩ := keyHere_right (by omega) k hk
    exact ⟨h1, by omega⟩

/-- A value of several lines. -/
theorem step_block {n m : Nat} (hb : b.1 = n) (hm : m ≤ n) (hc : n ≤ c) {s : List Char}
    (hne : s ≠ []) (hs : ∀ c ∈ s, isShown c = true) (htail : Clear tail) (i l : Nat) :
    ∃ r, Reading.Step (.here ⟨' ' :: (blockChars (n + 2) s ++
        ((if endsWithBreak s then [] else ['\n']) ++ (List.replicate m ' ' ++ tail))), i, l, c⟩ b
        none allowed) r ∧
      Ready r (b.push [.scalar s false]) tail m := by
  obtain ⟨i', l', htake⟩ := take_block hb hm hne hs htail.solid allowed (i + 1) l (c + 1)
  have hmark : blockChars (n + 2) s = '|' :: (blockChars (n + 2) s).tail := by
    rw [blockChars, blockHead_eq]
    rfl
  rw [hmark, List.cons_append] at htake ⊢
  refine ⟨_, step_of_take (clear_cons rfl (by decide) (by decide) _) (by omega) htake ?_ ?_, ?_⟩
  · simp [Reading.here, Blocks.push]
  · simp [Reading.here]
    omega
  · exact ready_later htail _ (fun k hk => by cases hk) m

/-- A value behind a blank is read up to the next line, which is indented no further than the
innermost block. -/
theorem step_value {n m : Nat} (hb : b.1 = n) (hm : m ≤ n) (hc : n ≤ c) {d : Data}
    (hd : IsScalar d) (htail : Clear tail) (allowed : Bool) (i l : Nat) :
    ∃ r, Reading.Step (.here ⟨' ' :: ((scalarWritten (n + 2) d).1 ++
        ((if (scalarWritten (n + 2) d).2 then ['\n'] else []) ++ (List.replicate m ' ' ++ tail))),
          i, l, c⟩ b none allowed) r ∧
      Ready r (b.push [scalarToken d]) tail m := by
  cases hd with
  | bool v => exact step_plain hb hm hc (plainly_bool v) htail i l
  | text s =>
      have hstyle := styleFor_ofText s.toList
      rw [scalarWritten, textChars_eq, scalarToken, textToken]
      generalize Style.ofText s.toList = style at hstyle ⊢
      cases hstyle with
      | plain hs hvalue => exact step_plain hb hm hc hs htail i l
      | singleQuoted hs =>
          have hquoted := @step_quoted b allowed tail c n m hb hc true (n + 2) (by omega) _ _
            (quoted_single (n + 2) s.toList hs) htail i l
          have hstyle : (Style.singleQuoted == .plain) = false := rfl
          dsimp only
          rw [singleQuoted_eq, hstyle]
          simpa [quoteMark] using hquoted
      | doubleQuoted =>
          have hquoted := @step_quoted b allowed tail c n m hb hc false (n + 2) (by omega) _ _
            (quoted_double (n + 2) s.toList) htail i l
          have hstyle : (Style.doubleQuoted == .plain) = false := rfl
          dsimp only
          rw [doubleQuoted, hstyle]
          simpa [quoteMark] using hquoted
      | block hline hs =>
          have hblock := @step_block b allowed tail c n m hb hm hc s.toList
            (List.ne_nil_of_mem hline) hs htail i l
          have hstyle : (Style.block == .plain) = false := rfl
          have hopen : ∀ v : Bool, (if (!v) = true then ['\n'] else []) =
              if v = true then [] else ['\n'] := by decide
          dsimp only
          rw [hstyle, hopen]
          exact hblock

end

/-! ## Keys -/

/-- A text that starts unlike a document does so whatever follows it. -/
theorem noMarker_append {d : Char} {s : List Char} (hs : s.take 3 ≠ [d, d, d]) (tail : List Char)
    (htail : tail.head? ≠ some d) : (s ++ tail).take 3 ≠ [d, d, d] := by
  intro h
  match s, tail with
  | [], [] => cases h
  | [], e :: tail =>
      injection h with h
      exact htail (by rw [h]; rfl)
  | [e], [] => cases h
  | [e], f :: tail =>
      injection h with _ h
      injection h with h
      exact htail (by rw [h]; rfl)
  | [e, f], [] => cases h
  | [e, f], g :: tail =>
      injection h with _ h
      injection h with _ h
      injection h with h
      exact htail (by rw [h]; rfl)
  | e :: f :: g :: s, _ => exact hs h

section

variable {b : Blocks} {s tail : List Char} {i l c : Nat}

/-- A key in front of its colon, as `take` leaves it. -/
def ReadsKey (b : Blocks) (s tail written : List Char) (i l c : Nat) : Prop :=
  ∃ d w, written = d :: w ∧ (∀ cs, Clear (d :: cs)) ∧ written.length ≤ 514 ∧
    (Reading.here ⟨written ++ ':' :: tail, i, l, c⟩ b none true).take d =
      some (.here ⟨':' :: tail, i + written.length, l, c + written.length⟩ (b.push [textToken s])
        (keyHere true b i l c) false)

theorem readsKey_plain (hs : Plainly s) (hkey : LineKey s) (hstyle : Style.ofText s = .plain)
    (htail : ∀ d, tail.head? = some d → isGapChar d = true) (hc : b.1 ≤ c) :
    ReadsKey b s tail s i l c := by
  have hmarker : (Cursor.mk (s ++ ':' :: tail) i l c).atDocumentMarker = false := by
    have hdash := noMarker_append hs.noMarker.1 (':' :: tail) (by simp)
    have hpoint := noMarker_append hs.noMarker.2 (':' :: tail) (by simp)
    simp [Cursor.atDocumentMarker, Cursor.atMarker, hdash, hpoint]
  have hread := plainScalar_at true hs (endsPlain_colon b.1 htail) i l c hmarker hc
  have hlength := length_le_utf8Bytes s
  have hshort := hkey.short
  have htoken : textToken s = .scalar s true := by rw [textToken, hstyle]; rfl
  obtain ⟨d, w, rfl, hstart⟩ := hs.exists_cons
  have hsolid : isGapChar d = false := hs.words.solid [] d rfl
  refine ⟨d, w, rfl, fun cs => clear_cons hsolid ?_ ?_ cs, by omega, ?_⟩
  · rintro rfl
    exact hs.head_ne_hash rfl
  · rintro rfl
    exact absurd (hs.shown _ List.mem_cons_self) (by decide)
  · rw [htoken]
    exact (take_plain hstart (isGapChar_eq_false.mp hsolid).1 hmarker none).trans hread

theorem readsKey_quoted (single : Bool) {indent : Nat} (hindent : 0 < indent)
    (hs : Quoted single indent s (s.flatMap (quotedChar single))) (hkey : LineKey s)
    (hstyle : Style.ofText s ≠ .plain) :
    ReadsKey b s tail (quoteMark single :: (s.flatMap (quotedChar single) ++ [quoteMark single]))
      i l c := by
  have hend : single = true → (':' :: tail).head? ≠ some '\'' := fun _ => by simp
  obtain ⟨l', c', htake, -, hline⟩ := take_quoted single hindent hs hend b true i l c
  obtain ⟨rfl, rfl⟩ := hline (noBreak_flatMap hkey.noBreak)
  have hlength := length_flatMap_quotedChar_le single s
  have hshort := hkey.short
  have htoken : textToken s = .scalar s false := by
    rw [textToken, beq_false_of_ne hstyle]
  refine ⟨quoteMark single, _, rfl, fun cs => clear_cons (isGapChar_quoteMark single) ?_ ?_ cs, ?_,
    ?_⟩
  · cases single <;> decide
  · cases single <;> decide
  · simp only [List.length_cons, List.length_append, List.length_nil]
    omega
  · rw [htoken]
    simp only [List.cons_append, List.append_assoc, List.nil_append, List.length_cons,
      List.length_append, List.length_nil]
    rw [htake]
    simp only [Nat.add_assoc, Nat.add_comm 1, Nat.zero_add]

/-- A key on one line is read up to its colon. -/
theorem readsKey_textChars {indent : Nat} (hindent : 0 < indent) (hkey : LineKey s)
    (htail : ∀ d, tail.head? = some d → isGapChar d = true) (hc : b.1 ≤ c) :
    ReadsKey b s tail (textChars indent s).1 i l c := by
  have hstyle := styleFor_ofText s
  rw [textChars_eq]
  generalize hs : Style.ofText s = style at hstyle ⊢
  cases hstyle with
  | plain h => exact readsKey_plain h hkey hs htail hc
  | singleQuoted h =>
      have hquoted := quoted_single indent s h
      rw [singleLines_of_noBreak indent s hkey.noBreak] at hquoted
      have := @readsKey_quoted b s tail i l c true indent hindent hquoted hkey (by rw [hs]; decide)
      dsimp only
      rw [singleQuoted_eq, singleLines_of_noBreak indent s hkey.noBreak]
      exact this
  | doubleQuoted =>
      exact readsKey_quoted false hindent (quoted_double indent s) hkey (by rw [hs]; decide)
  | block hline =>
      have := hkey.noBreak _ hline
      cases this

end

end Runbook.Yaml
