import Runbook.Proofs.Yaml.Gaps

/-!
# Steps of reading tokens

The next token starts where the gap before it ends: `Reading.settle` passes over the gap and
forgets keys that have come too far.  A reading is *ready* for a text at a column if it settles
there, at the start of a line or behind a mark, where a key may start.

Blocks are closed only when the next token shows that they have ended.  So a reading holds blocks
that its text has left already, and what follows decides how many of them are closed.  Closing in
two steps is closing in one, as long as the second step goes further.
-/

namespace Runbook.Yaml

open Reading

/-! ## Blocks -/

/-- The column of the innermost block, those around it, and the tokens so far in reverse. -/
abbrev Blocks := Int × List Int × List Token

namespace Blocks

/-- Without the blocks right of a column. -/
def closed (b : Blocks) (column : Int) : Blocks := closeBlocks column b.1 b.2.1 b.2.2

/-- With a record open at a column. -/
def opened (b : Blocks) (column : Nat) : Blocks :=
  if (column : Int) ≤ b.1 then b else (column, b.1 :: b.2.1, .blockRecord :: b.2.2)

/-- With further tokens. -/
def push (b : Blocks) (ts : List Token) : Blocks := (b.1, b.2.1, ts.reverse ++ b.2.2)

theorem push_push (b : Blocks) (ts us : List Token) : (b.push ts).push us = b.push (ts ++ us) := by
  simp [push]

theorem closed_of_le {b : Blocks} {column : Int} (h : b.1 ≤ column) : b.closed column = b := by
  obtain ⟨indent, around, ts⟩ := b
  have hnot : ¬ column < indent := by simpa using h
  cases around with
  | nil => rw [closed, closeBlocks, if_neg hnot]
  | cons i is => rw [closed, closeBlocks, if_neg hnot]

theorem closed_cons {column indent : Int} (h : column < indent) (i : Int) (is : List Int)
    (ts : List Token) :
    closed (indent, i :: is, ts) column = closed (i, is, .blockEnd :: ts) column := by
  rw [closed, closeBlocks, if_pos h, closed]

theorem closed_push {b : Blocks} {column : Int} (h : b.1 ≤ column) (ts : List Token) :
    (b.push ts).closed column = b.push ts :=
  closed_of_le h

/-- Closing further is closing as far. -/
theorem closed_closed {m n : Int} (hm : -1 ≤ m) (h : m ≤ n) : ∀ b : Blocks,
    (b.closed n).closed m = b.closed m := by
  rintro ⟨indent, around, ts⟩
  induction around generalizing indent ts with
  | nil =>
      by_cases hn : n < indent
      · have hleft : closed (indent, [], ts) n = (-1, [], .blockEnd :: ts) := by
          rw [closed, closeBlocks, if_pos hn]
        have hright : closed (indent, [], ts) m = (-1, [], .blockEnd :: ts) := by
          rw [closed, closeBlocks, if_pos (by omega)]
        rw [hleft, hright, closed_of_le hm]
      · have hstay : closed (indent, [], ts) n = (indent, [], ts) :=
          closed_of_le (by simpa using hn)
        rw [hstay]
  | cons i is ih =>
      by_cases hn : n < indent
      · rw [closed_cons hn, closed_cons (by omega), ih]
      · have hstay : closed (indent, i :: is, ts) n = (indent, i :: is, ts) :=
          closed_of_le (by simpa using hn)
        rw [hstay]

theorem opened_of_eq {b : Blocks} {column : Nat} (h : b.1 = column) : b.opened column = b := by
  rw [opened, if_pos (by omega)]

/-- No block right of the column is open. -/
theorem closed_le {m : Int} (hm : -1 ≤ m) : ∀ b : Blocks, (b.closed m).1 ≤ m := by
  rintro ⟨indent, around, ts⟩
  induction around generalizing indent ts with
  | nil =>
      by_cases h : m < indent
      · rw [closed, closeBlocks, if_pos h]
        exact hm
      · rw [closed_of_le (by simpa using h)]
        simpa using h
  | cons i is ih =>
      by_cases h : m < indent
      · rw [closed_cons h]
        exact ih i _
      · rw [closed_of_le (by simpa using h)]
        simpa using h

theorem opened_fst {b : Blocks} {column : Nat} (h : b.1 ≤ column) :
    (b.opened column).1 = column := by
  rw [opened]
  split
  · exact Int.le_antisymm h ‹_›
  · rfl

end Blocks

/-! ## Places of reading -/

/-- A reading outside of flow collections. -/
def Reading.here (c : Cursor) (b : Blocks) (key : Option KeyStart) (allowed : Bool) : Reading :=
  ⟨c, b.2.2, b.1, b.2.1, [key], allowed⟩

/-- What follows a gap: neither a gap nor a comment, nor the mark of a byte order. -/
def Clear (cs : List Char) : Prop :=
  ∀ c, cs.head? = some c → isGapChar c = false ∧ c ≠ '#' ∧ c ≠ '\ufeff'

theorem Clear.solid {cs : List Char} (h : Clear cs) : Solid cs := fun c hc => (h c hc).1

theorem clear_nil : Clear [] := fun _ h => nomatch h

theorem clear_cons {c : Char} (h : isGapChar c = false) (hash : c ≠ '#') (hmark : c ≠ '\ufeff')
    (cs : List Char) : Clear (c :: cs) := by
  intro d hd
  injection hd with hd
  rw [← hd]
  exact ⟨h, hash, hmark⟩

namespace Reading

/-- Behind the gap before the next token. -/
def settle (r : Reading) : Option Reading := (skipGap (r.cursor.rest.length + 1) r).dropStale

section

variable {cs : List Char} {b : Blocks} {key : Option KeyStart} {allowed : Bool}

theorem span_blanks (h : Solid cs) (tabs : Bool) (k i l c : Nat) :
    ((Cursor.mk (List.replicate k ' ' ++ cs) i l c).span fun d =>
      d == ' ' || (tabs && d == '\t')).2 = ⟨cs, i + k, l, c + k⟩ := by
  have hblanks : ∀ d ∈ List.replicate k ' ', (d == ' ' || (tabs && d == '\t')) = true := by
    intro d hd
    rw [List.eq_of_mem_replicate hd]
    rfl
  have hend : cs.takeWhile (fun d => d == ' ' || (tabs && d == '\t')) = [] := by
    cases cs with
    | nil => rfl
    | cons d cs =>
        have hspace := (isGapChar_eq_false.mp (h d rfl)).1
        simp only [isSpace, Bool.or_eq_false_iff] at hspace
        rw [List.takeWhile_cons_of_neg]
        simp [hspace.1, hspace.2]
  rw [Cursor.span, List.takeWhile_append_of_pos hblanks, hend]
  simp [Cursor.steps]

theorem noMark_blanks (h : Clear cs) (k i l c : Nat) :
    (Cursor.mk (List.replicate k ' ' ++ cs) i l c).at? '\ufeff' = false := by
  cases k with
  | zero =>
      cases cs with
      | nil => rfl
      | cons d cs => simpa [Cursor.at?, Cursor.head?] using (h d rfl).2.2
  | succ k => rfl

/-- Blanks before a token are passed over. -/
theorem skipGap_blanks (h : Clear cs) (k i l c fuel : Nat) :
    skipGap (fuel + 1) (.here ⟨List.replicate k ' ' ++ cs, i, l, c⟩ b key allowed) =
      .here ⟨cs, i + k, l, c + k⟩ b key allowed := by
  have hcomment : (Cursor.mk cs (i + k) l (c + k)).skipComment = ⟨cs, i + k, l, c + k⟩ := by
    cases cs with
    | nil => rfl
    | cons d cs =>
        have hhash : (Cursor.mk (d :: cs) (i + k) l (c + k)).at? '#' = false := by
          simpa [Cursor.at?, Cursor.head?] using (h d rfl).2.1
        rw [Cursor.skipComment, hhash, if_neg (by decide)]
  have hbreak : (Cursor.mk cs (i + k) l (c + k)).atBreak = false := by
    cases cs with
    | nil => rfl
    | cons d cs => simpa [Cursor.atBreak, Cursor.head?] using (isGapChar_eq_false.mp (h d rfl).1).2
  rw [skipGap]
  simp only [Reading.here, noMark_blanks h, Bool.and_false, Bool.false_eq_true, if_false,
    span_blanks h.solid, hcomment, hbreak]

/-- A line end and the indentation behind it are passed over, and a key may follow. -/
theorem skipGap_line (h : Clear cs) (k i l c fuel : Nat) :
    skipGap (fuel + 2) (.here ⟨'\n' :: (List.replicate k ' ' ++ cs), i, l, c⟩ b key allowed) =
      .here ⟨cs, i + 1 + k, l + 1, k⟩ b key true := by
  have hline : skipGap (fuel + 2)
      (.here ⟨'\n' :: (List.replicate k ' ' ++ cs), i, l, c⟩ b key allowed) =
      skipGap (fuel + 1) (.here ⟨List.replicate k ' ' ++ cs, i + 1, l + 1, 0⟩ b key
        (allowed || true)) := by
    have hmark : (Cursor.mk ('\n' :: (List.replicate k ' ' ++ cs)) i l c).at? '\ufeff' =
        false := rfl
    rw [skipGap]
    simp only [Reading.here, hmark, Bool.and_false, Bool.false_eq_true, if_false]
    cases allowed <;> rfl
  rw [hline, skipGap_blanks h, Bool.or_true, Nat.zero_add]

theorem dropStale_none (c : Cursor) :
    (Reading.here c b none allowed).dropStale = some (.here c b none allowed) := rfl

/-- A key that need not be one is forgotten on a later line. -/
theorem dropStale_later {c : Cursor} {k : KeyStart} (hk : k.required = false)
    (hline : k.line < c.line) :
    (Reading.here c b (some k) allowed).dropStale = some (.here c b none allowed) := by
  have hstale : isStale c k = true := by simp [isStale, hline]
  simp [dropStale, Reading.here, Option.filter, hstale, hk]

/-- A key that has not come far is kept. -/
theorem dropStale_near {c : Cursor} {k : KeyStart} (hline : k.line = c.line)
    (hindex : c.index ≤ k.index + 1024) :
    (Reading.here c b (some k) allowed).dropStale = some (.here c b (some k) allowed) := by
  have hnear : isStale c k = false := by
    simp [isStale, hline]
    omega
  simp [dropStale, Reading.here, hnear]

/-! ## Readiness -/

/-- Reading settles at a text in a column, where a key may start. -/
structure Ready (r : Reading) (b : Blocks) (cs : List Char) (column : Nat) : Prop where
  /-- The place. -/
  settles : ∃ i l, r.settle = some (.here ⟨cs, i, l, column⟩ b none true)
  /-- The text is part of what is left. -/
  length_le : cs.length ≤ r.cursor.rest.length

theorem settle_blanks (h : Clear cs) (k i l c : Nat) :
    (Reading.here ⟨List.replicate k ' ' ++ cs, i, l, c⟩ b none allowed).settle =
      some (.here ⟨cs, i + k, l, c + k⟩ b none allowed) := by
  rw [settle, skipGap_blanks h, dropStale_none]

theorem ready_blanks (h : Clear cs) (k i l c : Nat) :
    Ready (.here ⟨List.replicate k ' ' ++ cs, i, l, c⟩ b none true) b cs (c + k) :=
  ⟨⟨i + k, l, settle_blanks h k i l c⟩, by simp [Reading.here]⟩

/-- Reading settles where it is, and a key that is near is kept. -/
theorem settle_near (h : Clear cs) {k : KeyStart} {i l : Nat} (hline : k.line = l)
    (hindex : i ≤ k.index + 1024) (c : Nat) :
    (Reading.here ⟨cs, i, l, c⟩ b (some k) allowed).settle =
      some (.here ⟨cs, i, l, c⟩ b (some k) allowed) := by
  have hskip : skipGap (cs.length + 1) (.here ⟨cs, i, l, c⟩ b (some k) allowed) =
      .here ⟨cs, i, l, c⟩ b (some k) allowed := skipGap_blanks h 0 i l c _
  rw [settle, show (Reading.here ⟨cs, i, l, c⟩ b (some k) allowed).cursor.rest = cs from rfl, hskip]
  exact dropStale_near hline hindex

/-- Reading settles behind what ended with its line. -/
theorem ready_later (h : Clear cs) (i : Nat)
    (hkey : ∀ k, key = some k → k.required = false ∧ k.line < l) (c : Nat) :
    Ready (.here ⟨cs, i, l, c⟩ b key true) b cs c := by
  refine ⟨⟨i, l, ?_⟩, Nat.le_refl _⟩
  have hskip : skipGap (cs.length + 1) (.here ⟨cs, i, l, c⟩ b key true) =
      .here ⟨cs, i, l, c⟩ b key true := skipGap_blanks h 0 i l c _
  rw [settle, show (Reading.here ⟨cs, i, l, c⟩ b key true).cursor.rest = cs from rfl, hskip]
  cases key with
  | none => rw [dropStale_none]
  | some k => exact dropStale_later (hkey k rfl).1 (hkey k rfl).2

/-- Reading settles on the next line. -/
theorem ready_line (h : Clear cs) (hkey : ∀ k, key = some k → k.required = false ∧ k.line ≤ l)
    (k i c : Nat) :
    Ready (.here ⟨'\n' :: (List.replicate k ' ' ++ cs), i, l, c⟩ b key allowed) b cs k := by
  refine ⟨⟨i + 1 + k, l + 1, ?_⟩, by simp [Reading.here]; omega⟩
  have hskip : skipGap (('\n' :: (List.replicate k ' ' ++ cs)).length + 1)
      (.here ⟨'\n' :: (List.replicate k ' ' ++ cs), i, l, c⟩ b key allowed) =
        .here ⟨cs, i + 1 + k, l + 1, k⟩ b key true := skipGap_line h k i l c _
  rw [settle, show (Reading.here ⟨'\n' :: (List.replicate k ' ' ++ cs), i, l, c⟩ b key
    allowed).cursor.rest = '\n' :: (List.replicate k ' ' ++ cs) from rfl, hskip]
  cases key with
  | none => rw [dropStale_none]
  | some k =>
      obtain ⟨hrequired, hline⟩ := hkey k rfl
      exact dropStale_later hrequired (Nat.lt_succ_of_le hline)

/-! ## One token -/

/-- The text is read on from another reading. -/
def Steps (r r' : Reading) : Prop :=
  ∀ f, r.cursor.rest.length < f → ∃ f', r'.cursor.rest.length < f' ∧ all f r = all f' r'

theorem Steps.trans {r r' r'' : Reading} (h : Steps r r') (h' : Steps r' r'') : Steps r r'' := by
  intro f hf
  obtain ⟨g, hg, heq⟩ := h f hf
  obtain ⟨k, hk, heq'⟩ := h' g hg
  exact ⟨k, hk, heq.trans heq'⟩

/-- One token is read, and the text is shorter. -/
structure Step (r r' : Reading) : Prop where
  /-- The token. -/
  next : r.next = some r'
  /-- The text is not at its end. -/
  more : r'.tokens.head? ≠ some .streamEnd
  /-- The text is shorter. -/
  shorter : r'.cursor.rest.length < r.cursor.rest.length

theorem Step.steps {r r' : Reading} (h : Step r r') : Steps r r' := by
  intro f hf
  obtain ⟨f, rfl⟩ : ∃ g, f = g + 1 := ⟨f - 1, by omega⟩
  have hshort := h.shorter
  refine ⟨f, by omega, ?_⟩
  rw [all, h.next]
  simp only [if_neg h.more]

/-- Once reading has settled, the next character decides. -/
theorem next_eq (r : Reading) : r.next = r.settle.bind fun r =>
    match (r.unroll r.cursor.column).cursor.head? with
    | none => (r.unroll r.cursor.column).finish
    | some d => (r.unroll r.cursor.column).take d := rfl

/-- The token that is taken where reading has settled. -/
theorem next_of_settle {r : Reading} {i l c : Nat} {d : Char}
    (h : r.settle = some (.here ⟨d :: cs, i, l, c⟩ b key allowed)) :
    r.next = (Reading.here ⟨d :: cs, i, l, c⟩ (b.closed c) key allowed).take d := by
  rw [next_eq, h]
  rfl

/-- A token that is taken where reading is ready. -/
theorem Ready.step {r : Reading} {d : Char} {c : Nat} (h : Ready r b (d :: cs) c) :
    ∃ i l, ∀ r', (Reading.here ⟨d :: cs, i, l, c⟩ (b.closed c) none true).take d = some r' →
      r'.tokens.head? ≠ some .streamEnd → r'.cursor.rest.length ≤ cs.length → Step r r' := by
  obtain ⟨i, l, hsettle⟩ := h.settles
  refine ⟨i, l, fun r' htake hmore hshort => ⟨?_, hmore, ?_⟩⟩
  · rw [next_of_settle hsettle, htake]
  · have := h.length_le
    rw [List.length_cons] at this
    omega

end

end Reading

end Runbook.Yaml
