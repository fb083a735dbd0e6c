import Runbook.Proofs.Yaml.Scalars

/-!
# Written data is cut into tokens

Data that a sequence is written as has lists of records only, and a key that needs lines of its own
has a text for its value.  `Laid` says so, and `valueTokens` gives the tokens of such data.

A value is read in the record at whose column its key stands, and the blocks that are opened in it
are closed down to that column by what follows.  So its reader ends where the next line starts, with
blocks that come to the expected tokens once they are closed.
-/

namespace Runbook.Yaml

open Reading

/-! ## Marks -/

section

variable {b : Blocks} {allowed : Bool} {cs : List Char} {i l c : Nat}

/-- The text starts with a gap or is at its end. -/
def StartsGap (cs : List Char) : Prop := ∀ d, cs.head? = some d → isGapChar d = true

theorem startsGap_cons {d : Char} (h : isGapChar d = true) (cs : List Char) :
    StartsGap (d :: cs) := by
  intro e he
  injection he with he
  rwa [← he]

theorem take_colon (h : StartsGap cs) (key : Option KeyStart) :
    (Reading.here ⟨':' :: cs, i, l, c⟩ b key allowed).take ':' =
      (Reading.here ⟨':' :: cs, i, l, c⟩ b key allowed).valueMark := by
  have hgap := (Cursor.gapAhead_one ':' cs i l c).mpr h
  have hmarker : ∀ d, d = '-' ∨ d = '.' → (Cursor.mk (':' :: cs) i l c).atMarker d = false := by
    rintro d (rfl | rfl) <;> simp [Cursor.atMarker]
  have hcursor : (Reading.here ⟨':' :: cs, i, l, c⟩ b key allowed).cursor =
      ⟨':' :: cs, i, l, c⟩ := rfl
  rw [take]
  simp only [hcursor, hmarker '-' (.inl rfl), hmarker '.' (.inr rfl), hgap]
  simp

theorem insertAt_append (r : Reading) (ts us : List Token) (h : r.tokens = ts ++ us) (t : Token) :
    r.insertAt us.length t = { r with tokens := ts ++ t :: us } := by
  have hlater : (ts ++ us).length - us.length = ts.length := by
    rw [List.length_append, Nat.add_sub_cancel]
  rw [insertAt, h]
  simp only [hlater, List.take_left, List.drop_left]

/-- A record is opened at the end of the tokens. -/
theorem roll_end (cur : Cursor) (b : Blocks) (n : Nat) :
    (Reading.here cur b none allowed).roll n none .blockRecord =
      .here cur (b.opened n) none allowed := by
  have hindent : (Reading.here cur b none allowed).indent = b.1 := rfl
  have hflow : (Reading.here cur b none allowed).inFlow = false := rfl
  rw [roll, hflow, hindent, Bool.false_or, Blocks.opened]
  by_cases h : (n : Int) ≤ b.1
  · rw [if_pos h, if_pos (decide_eq_true h)]
  · rw [if_neg h, if_neg (by simpa using h)]
    rfl

/-- A record is opened in front of a key. -/
theorem roll_key (cur : Cursor) (b : Blocks) (n : Nat) (tok : Token) :
    (Reading.here cur (b.push [.key, tok]) none allowed).roll n (some b.2.2.length) .blockRecord =
      .here cur ((b.opened n).push [.key, tok]) none allowed := by
  have hindent : (Reading.here cur (b.push [.key, tok]) none allowed).indent = b.1 := rfl
  have hflow : (Reading.here cur (b.push [.key, tok]) none allowed).inFlow = false := rfl
  rw [roll, hflow, hindent, Bool.false_or, Blocks.opened]
  by_cases h : (n : Int) ≤ b.1
  · rw [if_pos h, if_pos (decide_eq_true h)]
  · rw [if_neg h, if_neg (by simpa using h)]
    exact insertAt_append ⟨cur, tok :: .key :: b.2.2, n, b.1 :: b.2.1, [none], allowed⟩ [tok, .key]
      b.2.2 rfl .blockRecord

/-- The colon behind a key puts the mark of the key in front of it, and opens a record there. -/
theorem valueMark_key {tok : Token} {n : Nat} (i₀ l₀ : Nat) (required : Bool) :
    (Reading.here ⟨':' :: cs, i, l, c⟩ (b.push [tok]) (some ⟨b.2.2.length, i₀, l₀, n, required⟩)
        allowed).valueMark =
      some (.here ⟨cs, i + 1, l, c + 1⟩ ((b.opened n).push [.key, tok, .value]) none false) := by
  have hkey : (Reading.here ⟨':' :: cs, i, l, c⟩ (b.push [tok]) none allowed).insertAt b.2.2.length
      .key = .here ⟨':' :: cs, i, l, c⟩ (b.push [.key, tok]) none allowed :=
    insertAt_append (.here ⟨':' :: cs, i, l, c⟩ (b.push [tok]) none allowed) [tok] b.2.2 rfl .key
  have hmark : (Reading.here ⟨':' :: cs, i, l, c⟩ (b.push [tok])
      (some ⟨b.2.2.length, i₀, l₀, n, required⟩) allowed).valueMark =
      let r := ((Reading.here ⟨':' :: cs, i, l, c⟩ (b.push [tok]) none allowed).insertAt
        b.2.2.length .key).roll n (some b.2.2.length) .blockRecord
      some (((r.goto r.cursor.step).push .value).allow false) := rfl
  rw [hmark, hkey, roll_key]
  rfl

/-- The colon behind a key that stands behind a mark. -/
theorem valueMark_bare (hc : b.1 = c) :
    (Reading.here ⟨':' :: cs, i, l, c⟩ b none true).valueMark =
      some (.here ⟨cs, i + 1, l, c + 1⟩ (b.push [.value]) none true) := by
  have hmark : (Reading.here ⟨':' :: cs, i, l, c⟩ b none true).valueMark =
      let r := (Reading.here ⟨':' :: cs, i, l, c⟩ b none true).roll c none .blockRecord
      some (((r.goto r.cursor.step).push .value).allow true) := rfl
  rw [hmark, roll_end, Blocks.opened_of_eq hc]
  rfl

/-- The colon behind a key on its line. -/
theorem step_colon (tok : Token) {n : Nat} (i₀ : Nat) (required : Bool) (htail : StartsGap cs)
    (hb : b.1 ≤ n) (hn : n ≤ c) (hi : i ≤ i₀ + 1024) :
    Reading.Step (.here ⟨':' :: cs, i, l, c⟩ (b.push [tok])
        (some ⟨b.2.2.length, i₀, l, n, required⟩) false)
      (.here ⟨cs, i + 1, l, c + 1⟩ ((b.opened n).push [.key, tok, .value]) none false) := by
  have hclear : Clear (':' :: cs) := clear_cons rfl (by decide) (by decide) cs
  have hsettle : (Reading.here ⟨':' :: cs, i, l, c⟩ (b.push [tok])
      (some ⟨b.2.2.length, i₀, l, n, required⟩) false).settle = some _ :=
    settle_near hclear rfl hi c
  have hclosed : (b.push [tok]).closed c = b.push [tok] := Blocks.closed_push (by omega) _
  refine ⟨?_, by simp [Reading.here, Blocks.push], by simp [Reading.here]⟩
  rw [next_of_settle hsettle, hclosed, take_colon htail, valueMark_key]

/-- The colon behind a key of its own. -/
theorem step_bareColon {r : Reading} {n : Nat} (htail : StartsGap cs) (hn : b.1 = n)
    (h : Ready r b (':' :: cs) n) :
    ∃ i l, Reading.Step r (.here ⟨cs, i, l, n + 1⟩ (b.push [.value]) none true) := by
  obtain ⟨i, l, hstep⟩ := h.step
  rw [Blocks.closed_of_le (Int.le_of_eq hn)] at hstep
  refine ⟨i + 1, l, hstep _ ?_ (by simp [Reading.here, Blocks.push]) (Nat.le_refl _)⟩
  rw [take_colon htail, valueMark_bare hn]

theorem Blocks.closed_natCast_le (b : Blocks) (n : Nat) : (b.closed n).1 ≤ n :=
  Blocks.closed_le (by omega) b

/-- A key on one line and the colon behind it. -/
theorem steps_key {s tail : List Char} {indent : Nat} (hindent : 0 < indent) (hkey : LineKey s)
    (htail : StartsGap tail) {r : Reading} {n : Nat}
    (h : Ready r b ((textChars indent s).1 ++ ':' :: tail) n) :
    ∃ i l c, n < c ∧ Steps r (.here ⟨tail, i, l, c⟩
      (((b.closed n).opened n).push [.key, textToken s, .value]) none false) := by
  have hle := b.closed_natCast_le n
  have hreads := fun i l => readsKey_textChars (b := b.closed n) (i := i) (l := l) hindent hkey
    htail hle
  obtain ⟨d, w, hw, -, hshort, -⟩ := hreads 0 0
  rw [hw] at h hreads hshort
  obtain ⟨i, l, hstep⟩ := h.step
  obtain ⟨d', w', hw', -, -, htake⟩ := hreads i l
  obtain ⟨rfl, rfl⟩ := List.cons.inj hw'
  have hfirst := hstep _ htake (by simp [Reading.here, Blocks.push, textToken])
    (by simp [Reading.here])
  have hcolon := step_colon (b := b.closed n) (l := l) (textToken s) i ((b.closed n).1 == n) htail
    hle (Nat.le_add_right n (d :: w).length)
    (show i + (d :: w).length ≤ i + 1024 by omega)
  exact ⟨i + (d :: w).length + 1, l, n + (d :: w).length + 1, by omega,
    hfirst.steps.trans hcolon.steps⟩

/-- The mark of a key of its own. -/
theorem step_question {tail : List Char} {r : Reading} {n : Nat}
    (h : Ready r b ('?' :: ' ' :: tail) n) :
    ∃ i l, Reading.Step r (.here ⟨' ' :: tail, i, l, n + 1⟩
      (((b.closed n).opened n).push [.key]) none true) := by
  obtain ⟨i, l, hstep⟩ := h.step
  refine ⟨i + 1, l, hstep _ ?_ (by simp [Reading.here, Blocks.push]) (by simp [Reading.here])⟩
  have htake : (Reading.here ⟨'?' :: ' ' :: tail, i, l, n⟩ (b.closed n) none true).take '?' =
      ((Reading.here ⟨'?' :: ' ' :: tail, i, l, n⟩ (b.closed n) none true).roll n none
        .blockRecord).mark .key true := by
    have hcursor : (Reading.here ⟨'?' :: ' ' :: tail, i, l, n⟩ (b.closed n) none true).cursor =
      ⟨'?' :: ' ' :: tail, i, l, n⟩ := rfl
    have hmarker : ∀ d, d = '-' ∨ d = '.' →
        (Cursor.mk ('?' :: ' ' :: tail) i l n).atMarker d = false := by
      rintro d (rfl | rfl) <;> simp [Cursor.atMarker]
    rw [take]
    simp only [hcursor, hmarker '-' (.inl rfl), hmarker '.' (.inr rfl)]
    simp [Cursor.gapAhead, Cursor.ahead?, isSpace]
    rfl
  rw [htake, roll_end]
  rfl

/-- The mark of an item in a record that is open at its column. -/
theorem step_item {tail : List Char} {r : Reading} {n : Nat} (hn : (b.closed n).1 = n)
    (h : Ready r b ('-' :: ' ' :: tail) n) :
    ∃ i l, Reading.Step r
      (.here ⟨' ' :: tail, i, l, n + 1⟩ ((b.closed n).push [.item]) none true) := by
  obtain ⟨i, l, hstep⟩ := h.step
  refine ⟨i + 1, l, hstep _ ?_ (by simp [Reading.here, Blocks.push]) (by simp [Reading.here])⟩
  have hroll : (Reading.here ⟨'-' :: ' ' :: tail, i, l, n⟩ (b.closed n) none true).roll n none
      .blockList = .here ⟨'-' :: ' ' :: tail, i, l, n⟩ (b.closed n) none true := by
    have hindent : (Reading.here ⟨'-' :: ' ' :: tail, i, l, n⟩ (b.closed n) none true).indent =
      (b.closed n).1 := rfl
    rw [roll, if_pos]
    rw [Bool.or_eq_true, decide_eq_true_eq, hindent, hn]
    exact .inr (Int.le_refl _)
  have htake : (Reading.here ⟨'-' :: ' ' :: tail, i, l, n⟩ (b.closed n) none true).take '-' =
      ((Reading.here ⟨'-' :: ' ' :: tail, i, l, n⟩ (b.closed n) none true).roll n none
        .blockList).mark .item true := by
    have hcursor : (Reading.here ⟨'-' :: ' ' :: tail, i, l, n⟩ (b.closed n) none true).cursor =
      ⟨'-' :: ' ' :: tail, i, l, n⟩ := rfl
    have hmarker : ∀ d, d = '-' ∨ d = '.' →
        (Cursor.mk ('-' :: ' ' :: tail) i l n).atMarker d = false := by
      rintro d (rfl | rfl) <;> simp [Cursor.atMarker]
    rw [take]
    simp only [hcursor, hmarker '-' (.inl rfl), hmarker '.' (.inr rfl)]
    simp [Cursor.gapAhead, Cursor.ahead?, isSpace]
    rfl
  rw [htake, hroll]
  rfl

/-- An empty list behind a key. -/
theorem steps_emptyList (hc : b.1 ≤ c) (tail : List Char) (i l : Nat) :
    Steps (.here ⟨' ' :: '[' :: ']' :: '\n' :: tail, i, l, c⟩ b none false)
      (.here ⟨'\n' :: tail, i + 3, l, c + 3⟩ (b.push [.listStart, .listEnd]) none false) := by
  have hopen : Reading.Step (.here ⟨' ' :: '[' :: ']' :: '\n' :: tail, i, l, c⟩ b none false)
      ⟨⟨']' :: '\n' :: tail, i + 2, l, c + 2⟩, .listStart :: b.2.2, b.1, b.2.1, [none, none],
        true⟩ :=
    step_of_take (clear_cons rfl (by decide) (by decide) _) hc rfl (by simp) (by simp)
  have hclose : Reading.Step ⟨⟨']' :: '\n' :: tail, i + 2, l, c + 2⟩, .listStart :: b.2.2, b.1,
      b.2.1, [none, none], true⟩
      (.here ⟨'\n' :: tail, i + 3, l, c + 3⟩ (b.push [.listStart, .listEnd]) none false) :=
    ⟨rfl, by simp [Reading.here, Blocks.push], by simp [Reading.here]⟩
  exact hopen.steps.trans hclose.steps

/-- At the end of the text all blocks are closed. -/
theorem all_of_ready_end {r : Reading} (h : Ready r b [] c) {f : Nat} (hf : 0 < f) :
    all f r = (Token.streamEnd :: (b.closed (-1)).2.2).reverse := by
  obtain ⟨f, rfl⟩ : ∃ g, f = g + 1 := ⟨f - 1, by omega⟩
  obtain ⟨i, l, hsettle⟩ := h.settles
  have hnext : r.next = (Reading.here ⟨[], i, l, c⟩ (b.closed c) none true).finish := by
    rw [next_eq, hsettle]
    rfl
  have hfinish : (Reading.here ⟨[], i, l, c⟩ (b.closed c) none true).finish =
      some (.here ⟨[], i, l, c⟩ (((b.closed c).closed (-1)).push [.streamEnd]) none false) := rfl
  rw [Blocks.closed_closed (by omega) (by omega)] at hfinish
  rw [all, hnext, hfinish]
  rfl

/-! ## Tokens of data -/

mutual

/-- The tokens of a value. -/
def valueTokens : Data → List Token
  | .list [] => [.listStart, .listEnd]
  | .list items => itemTokens items
  | .record fields => .blockRecord :: (fieldTokens fields ++ [.blockEnd])
  | d => [scalarToken d]
termination_by structural d => d

/-- The tokens of the items of a list. -/
def itemTokens : List Data → List Token
  | [] => []
  | d :: ds => .item :: (valueTokens d ++ itemTokens ds)
termination_by structural ds => ds

/-- The tokens of the fields of a record. -/
def fieldTokens : List (Data × Data) → List Token
  | [] => []
  | (k, v) :: fs => [.key, scalarToken k, .value] ++ (valueTokens v ++ fieldTokens fs)
termination_by structural fs => fs

end

mutual

/-- Made of truth values, texts, lists of records, and records that are not empty and have no key
twice.  A key that has lines of its own has a value without blocks. -/
def Laid : Data → Prop
  | .bool _ => True
  | .text _ => True
  | .list ds => ItemsLaid ds
  | .record fs => fs ≠ [] ∧ (fs.map (·.1)).Nodup ∧ FieldsLaid fs
  | _ => False
termination_by structural d => d

/-- All items are records. -/
def ItemsLaid : List Data → Prop
  | [] => True
  | d :: ds => (∃ fs, d = .record fs) ∧ Laid d ∧ ItemsLaid ds
termination_by structural ds => ds

/-- All keys are texts. -/
def FieldsLaid : List (Data × Data) → Prop
  | [] => True
  | (k, v) :: fs =>
      (∃ s, k = .text s ∧ (isSimpleKey k = true ∨ IsScalar v)) ∧ Laid v ∧ FieldsLaid fs
termination_by structural fs => fs

end

end

/-! ## Reading data -/

/-- What is written, with the line end that it leaves open, in front of what follows on the next
line. -/
def Written.before (w : Written) (m : Nat) (tail : List Char) : List Char :=
  w.1 ++ ((if w.2 then ['\n'] else []) ++ (List.replicate m ' ' ++ tail))

theorem fieldsWritten_lead (n : Nat) (lead : List Char) (f : Data × Data) (fs : List (Data × Data))
    (m : Nat) (tail : List Char) : (fieldsWritten n lead true (f :: fs)).before m tail =
      lead ++ (fieldsWritten n [] true (f :: fs)).before m tail := by
  rw [fieldsWritten, fieldsWritten]
  simp [Written.before]

/-- The next field stands on the line behind a field. -/
theorem fieldsWritten_cons_cons (n : Nat) (k v : Data) (f : Data × Data) (fs : List (Data × Data))
    (m : Nat) (tail : List Char) : (fieldsWritten n [] true ((k, v) :: f :: fs)).before m tail =
      (fieldWritten n k (fun _ => valueWritten n v) (fun _ => itemWritten n v)).before n
        ((fieldsWritten n [] true (f :: fs)).before m tail) := by
  rw [fieldsWritten, fieldsWritten, fieldsWritten]
  simp [Written.before, lineStart]

theorem fieldsWritten_singleton (n : Nat) (k v : Data) (m : Nat) (tail : List Char) :
    (fieldsWritten n [] true [(k, v)]).before m tail =
      (fieldWritten n k (fun _ => valueWritten n v) (fun _ => itemWritten n v)).before m tail := by
  rw [fieldsWritten, fieldsWritten]
  simp [Written.before]

theorem itemsWritten_lead (n : Nat) (lead : List Char) (d : Data) (ds : List Data) (m : Nat)
    (tail : List Char) : (itemsWritten n lead true (d :: ds)).before m tail =
      lead ++ (itemsWritten n [] true (d :: ds)).before m tail := by
  rw [itemsWritten, itemsWritten]
  simp [Written.before]

/-- The next item stands on the line behind an item. -/
theorem itemsWritten_cons_cons (n : Nat) (d e : Data) (ds : List Data) (m : Nat)
    (tail : List Char) : (itemsWritten n [] true (d :: e :: ds)).before m tail =
      '-' :: ' ' ::
        (itemWritten n d).before n ((itemsWritten n [] true (e :: ds)).before m tail) := by
  rw [itemsWritten, itemsWritten, itemsWritten]
  simp [Written.before, lineStart]

theorem itemsWritten_singleton (n : Nat) (d : Data) (m : Nat) (tail : List Char) :
    (itemsWritten n [] true [d]).before m tail = '-' :: ' ' :: (itemWritten n d).before m tail := by
  rw [itemsWritten, itemsWritten]
  simp [Written.before]

/-- A record that is opened and closed again. -/
theorem Blocks.closed_opened {b : Blocks} {m n : Nat} (hb : b.1 = m) (h : m < n) (ts : List Token) :
    ((b.opened n).push ts).closed m = b.push (.blockRecord :: (ts ++ [.blockEnd])) := by
  have hopened : (b.opened n).push ts =
      ((n : Int), b.1 :: b.2.1, ts.reverse ++ .blockRecord :: b.2.2) := by
    rw [opened, if_neg (by omega)]
    rfl
  have hclosed : closed (b.1, b.2.1, .blockEnd :: (ts.reverse ++ .blockRecord :: b.2.2)) m =
      (b.1, b.2.1, .blockEnd :: (ts.reverse ++ .blockRecord :: b.2.2)) :=
    closed_of_le (by dsimp only; omega)
  rw [hopened, closed_cons (by omega), hclosed]
  simp [push]

/-- From a reading on, a text is read up to what follows it at a column.  Closed down to the column
of the record around it, the blocks are the expected ones. -/
def Reads (r : Reading) (tail : List Char) (m n : Nat) (expected : Blocks) : Prop :=
  ∃ r' b, Steps r r' ∧ Ready r' b tail m ∧ b.closed n = expected

theorem Reads.of_steps {r r' : Reading} {tail : List Char} {m n : Nat} {b : Blocks}
    (h : Steps r r') (h' : Reads r' tail m n b) : Reads r tail m n b := by
  obtain ⟨r'', b', hsteps, hready, hclosed⟩ := h'
  exact ⟨r'', b', h.trans hsteps, hready, hclosed⟩

theorem Reads.closed {r : Reading} {tail : List Char} {m n n' : Nat} {b : Blocks} (h : n ≤ n')
    (hreads : Reads r tail m n' b) : Reads r tail m n (b.closed n) := by
  obtain ⟨r', b', hsteps, hready, rfl⟩ := hreads
  exact ⟨r', b', hsteps, hready, (Blocks.closed_closed (by omega) (by omega) b').symm⟩

section

variable {b : Blocks} {m n : Nat} {tail : List Char}

/-- A truth value or a text behind a blank. -/
theorem reads_scalar (hb : b.1 = n) (hm : m ≤ n) {c : Nat} (hc : n ≤ c) {d : Data} (hd : IsScalar d)
    (htail : Clear tail) (allowed : Bool) (i l : Nat) :
    Reads (.here ⟨' ' :: (scalarWritten (n + 2) d).before m tail, i, l, c⟩ b none allowed) tail m n
      (b.push [scalarToken d]) := by
  obtain ⟨r, hstep, hready⟩ := step_value hb hm hc hd htail allowed i l
  exact ⟨r, _, hstep.steps, hready, Blocks.closed_push (by omega) _⟩

/-- A key on a line of its own, and its value on another. -/
theorem reads_longField (hm : m ≤ n) {k v : Data} (hk : IsScalar k) (hv : IsScalar v)
    (htail : Clear tail) {r : Reading}
    (h : Ready r b ('?' :: ' ' :: (scalarWritten (n + 2) k).before n
      (':' :: ' ' :: (scalarWritten (n + 2) v).before m tail)) n) :
    Reads r tail m n (((b.closed n).opened n).push
      [.key, scalarToken k, .value, scalarToken v]) := by
  have hopened : ((b.closed n).opened n).1 = n := Blocks.opened_fst (b.closed_natCast_le n)
  have hcolon : Clear (':' :: ' ' :: (scalarWritten (n + 2) v).before m tail) :=
    clear_cons rfl (by decide) (by decide) _
  obtain ⟨i, l, hquestion⟩ := step_question h
  obtain ⟨r', hkey, hready⟩ := step_value (b := ((b.closed n).opened n).push [.key]) hopened
    (Nat.le_refl n) (Nat.le_succ n) hk hcolon true i l
  obtain ⟨i', l', hvalue⟩ := step_bareColon (startsGap_cons rfl _)
    (show ((((b.closed n).opened n).push [.key]).push [scalarToken k]).1 = n from hopened) hready
  have hscalar := reads_scalar (b := ((b.closed n).opened n).push [.key, scalarToken k, .value])
    hopened hm (Nat.le_succ n) hv htail true i' l'
  simp only [Blocks.push_push, List.cons_append, List.nil_append] at hvalue hscalar
  exact Reads.of_steps hquestion.steps (Reads.of_steps hkey.steps
    (Reads.of_steps hvalue.steps hscalar))

/-- A field, given its value behind the key. -/
theorem reads_field (hm : m ≤ n) {k v : Data} {s : String} (hk : k = .text s)
    (hfield : isSimpleKey k = true ∨ IsScalar v) (htail : Clear tail)
    (hgap : StartsGap ((valueWritten n v).before m tail))
    (hvalue : ∀ b : Blocks, b.1 = n → ∀ i l c : Nat, n ≤ c →
      Reads (.here ⟨(valueWritten n v).before m tail, i, l, c⟩ b none false) tail m n
        (b.push (valueTokens v)))
    {r : Reading} (h : Ready r b ((fieldWritten n k (fun _ => valueWritten n v)
      (fun _ => itemWritten n v)).before m tail) n) :
    Reads r tail m n (((b.closed n).opened n).push
      ([.key, scalarToken k, .value] ++ valueTokens v)) := by
  have hopened : ((b.closed n).opened n).1 = n := Blocks.opened_fst (b.closed_natCast_le n)
  subst hk
  by_cases hsimple : isSimpleKey (.text s) = true
  · rw [fieldWritten, if_pos hsimple] at h
    have hready : Ready r b ((textChars (n + 2) s.toList).1 ++
        ':' :: (valueWritten n v).before m tail) n := by
      simpa [Written.before, scalarWritten] using h
    obtain ⟨i, l, c, hc, hkey⟩ := steps_key (by omega) (lineKey_of_isSimpleKey hsimple) hgap hready
    have hrest := hvalue (((b.closed n).opened n).push [.key, textToken s.toList, .value]) hopened i
      l c (by omega)
    rw [Blocks.push_push] at hrest
    exact Reads.of_steps hkey hrest
  · have hv := hfield.resolve_left hsimple
    have htokens : valueTokens v = [scalarToken v] := by cases hv <;> rfl
    have hitem : itemWritten n v = scalarWritten (n + 2) v := by cases hv <;> rfl
    rw [fieldWritten, if_neg hsimple, hitem] at h
    rw [htokens]
    refine reads_longField hm (.text s) hv htail ?_
    simpa [Written.before, lineStart] using h

theorem startsGap_valueWritten {d : Data} (h : Laid d) :
    StartsGap ((valueWritten n d).before m tail) := by
  cases d with
  | bool v => exact startsGap_cons rfl _
  | text s => exact startsGap_cons rfl _
  | list ds =>
      cases ds with
      | nil => exact startsGap_cons rfl _
      | cons d ds => exact startsGap_cons rfl _
  | record fs =>
      cases fs with
      | nil => exact absurd rfl h.1
      | cons f fs => exact startsGap_cons rfl _
  | null => cases h
  | int v => cases h
  | real v => cases h
  | tagged t d => cases h

theorem clear_fieldWritten {k : Data} {s : String} (hk : k = .text s) (vw iw : Unit → Written) :
    Clear ((fieldWritten n k vw iw).before m tail) := by
  subst hk
  by_cases hsimple : isSimpleKey (.text s) = true
  · have hreads : ReadsKey (-1, [], []) s.toList [] (textChars (n + 2) s.toList).1 0 0 0 :=
      readsKey_textChars (by omega) (lineKey_of_isSimpleKey hsimple) (fun _ h => nomatch h)
        (by omega)
    obtain ⟨d, w, hw, hclear, -⟩ := hreads
    rw [fieldWritten, if_pos hsimple, Written.before, scalarWritten, hw]
    exact hclear _
  · rw [fieldWritten, if_neg hsimple]
    exact clear_cons rfl (by decide) (by decide) _

theorem clear_fieldsWritten {fs : List (Data × Data)} (hne : fs ≠ []) (h : FieldsLaid fs) :
    Clear ((fieldsWritten n [] true fs).before m tail) := by
  match fs, h with
  | [], _ => exact absurd rfl hne
  | [(k, v)], h =>
      obtain ⟨⟨s, hk, -⟩, -⟩ := h
      rw [fieldsWritten_singleton]
      exact clear_fieldWritten hk _ _
  | (k, v) :: f :: fs, h =>
      obtain ⟨⟨s, hk, -⟩, -⟩ := h
      rw [fieldsWritten_cons_cons]
      exact clear_fieldWritten hk _ _

theorem clear_itemsWritten {ds : List Data} (hne : ds ≠ []) :
    Clear ((itemsWritten n [] true ds).before m tail) := by
  cases ds with
  | nil => exact absurd rfl hne
  | cons d ds => exact clear_cons rfl (by decide) (by decide) _

/-- An item that is a record, given what its fields are read as. -/
theorem reads_item {fs : List (Data × Data)} (hne : fs ≠ []) (hfs : FieldsLaid fs)
    (hfields : ∀ {b : Blocks} {r : Reading}, Ready r b ((fieldsWritten (n + 2) [] true fs).before m
      tail) (n + 2) → Reads r tail m (n + 2) (((b.closed (n + 2 : Nat)).opened (n + 2)).push
        (fieldTokens fs)))
    {r : Reading} (hn : (b.closed n).1 = n)
    (h : Ready r b ('-' :: ' ' :: (itemWritten n (.record fs)).before m tail) n) :
    Reads r tail m n ((b.closed n).push (.item :: valueTokens (.record fs))) := by
  have hitem : itemWritten n (.record fs) = fieldsWritten (n + 2) [] true fs := by
    cases fs with
    | nil => exact absurd rfl hne
    | cons f fs => rfl
  rw [hitem] at h
  obtain ⟨i, l, hstep⟩ := step_item hn h
  have hready : Ready (.here ⟨' ' :: (fieldsWritten (n + 2) [] true fs).before m tail, i, l, n + 1⟩
      ((b.closed n).push [.item]) none true) ((b.closed n).push [.item])
      ((fieldsWritten (n + 2) [] true fs).before m tail) (n + 2) :=
    ready_blanks (clear_fieldsWritten hne hfs) 1 i l (n + 1)
  have hreads := (hfields hready).closed (show n ≤ n + 2 by omega)
  have hcolumn : ((b.closed n).push [.item]).1 = n := hn
  have hclosed : ((b.closed n).push [.item]).closed (n + 2 : Nat) = (b.closed n).push [.item] :=
    Blocks.closed_of_le (by omega)
  rw [hclosed, Blocks.closed_opened hcolumn (by omega), Blocks.push_push] at hreads
  exact Reads.of_steps hstep.steps hreads

end

mutual

/-- A value behind a key. -/
theorem reads_value : ∀ (d : Data), Laid d → ∀ {b : Blocks} {n m : Nat} {tail : List Char},
    b.1 = n → m ≤ n → Clear tail → ∀ i l c : Nat, n ≤ c →
      Reads (.here ⟨(valueWritten n d).before m tail, i, l, c⟩ b none false) tail m n
        (b.push (valueTokens d))
  | .bool v, _, b, n, m, tail, hb, hm, htail, i, l, c, hc =>
      reads_scalar hb hm hc (.bool v) htail false i l
  | .text s, _, b, n, m, tail, hb, hm, htail, i, l, c, hc =>
      reads_scalar hb hm hc (.text s) htail false i l
  | .list [], _, b, n, m, tail, hb, hm, htail, i, l, c, hc => by
      have hcolumn : b.1 ≤ c := by omega
      have hsteps := steps_emptyList hcolumn (List.replicate m ' ' ++ tail) i l
      exact ⟨_, _, hsteps, ready_line htail (fun k hk => by cases hk) m _ _,
        Blocks.closed_push (by omega) _⟩
  | .list (d :: ds), h, b, n, m, tail, hb, hm, htail, i, l, c, hc => by
      have hne : d :: ds ≠ [] := List.cons_ne_nil d ds
      have hclosed : b.closed n = b := Blocks.closed_of_le (by omega)
      have hwritten : (valueWritten n (.list (d :: ds))).before m tail =
          '\n' :: (List.replicate n ' ' ++ (itemsWritten n [] true (d :: ds)).before m tail) :=
        itemsWritten_lead n (lineStart true n) d ds m tail
      have hready : Ready (.here ⟨'\n' :: (List.replicate n ' ' ++
          (itemsWritten n [] true (d :: ds)).before m tail), i, l, c⟩ b none false) b _ n :=
        ready_line (clear_itemsWritten hne) (fun k hk => by cases hk) n i c
      have hreads := reads_items (d :: ds) h hne (by rw [hclosed, hb]) hm htail hready
      rw [hclosed] at hreads
      rw [hwritten]
      exact hreads
  | .record [], h, _, _, _, _, _, _, _, _, _, _, _ => absurd rfl h.1
  | .record (f :: fs), h, b, n, m, tail, hb, hm, htail, i, l, c, hc => by
      have hwritten : (valueWritten n (.record (f :: fs))).before m tail =
          '\n' :: (List.replicate (n + 2) ' ' ++
            (fieldsWritten (n + 2) [] true (f :: fs)).before m tail) :=
        fieldsWritten_lead (n + 2) (lineStart true (n + 2)) f fs m tail
      have hready : Ready (.here ⟨'\n' :: (List.replicate (n + 2) ' ' ++
          (fieldsWritten (n + 2) [] true (f :: fs)).before m tail), i, l, c⟩ b none false) b _
            (n + 2) :=
        ready_line (clear_fieldsWritten h.1 h.2.2) (fun k hk => by cases hk) (n + 2) i c
      have hclosed : b.closed (n + 2 : Nat) = b := Blocks.closed_of_le (by omega)
      have hreads := (reads_fields (f :: fs) h.2.2 h.1 (show m ≤ n + 2 by omega) htail
        hready).closed (show n ≤ n + 2 by omega)
      rw [hclosed, Blocks.closed_opened hb (by omega)] at hreads
      rw [hwritten]
      exact hreads

/-- The items of a list at the column of the record around it. -/
theorem reads_items : ∀ (ds : List Data), ItemsLaid ds → ds ≠ [] → ∀ {b : Blocks} {n m : Nat}
    {tail : List Char}, (b.closed n).1 = n → m ≤ n → Clear tail → ∀ {r : Reading},
      Ready r b ((itemsWritten n [] true ds).before m tail) n →
        Reads r tail m n ((b.closed n).push (itemTokens ds))
  | [], _, hne, _, _, _, _, _, _, _, _, _ => absurd rfl hne
  | .record fs :: ds, h, _, b, n, m, tail, hn, hm, htail, r, hready => by
      obtain ⟨-, ⟨hne, -, hfs⟩, hds⟩ := h
      cases ds with
      | nil =>
          rw [itemsWritten_singleton] at hready
          have hreads := reads_item hne hfs
            (reads_fields fs hfs hne (show m ≤ n + 2 by omega) htail) hn hready
          rw [itemTokens, itemTokens, List.append_nil]
          exact hreads
      | cons e ds =>
          have hnext : Clear ((itemsWritten n [] true (e :: ds)).before m tail) :=
            clear_itemsWritten (List.cons_ne_nil e ds)
          rw [itemsWritten_cons_cons] at hready
          obtain ⟨r', b', hsteps, hready', hclosed⟩ := reads_item hne hfs
            (reads_fields fs hfs hne (show n ≤ n + 2 by omega) hnext) hn hready
          have hrest := reads_items (e :: ds) hds (List.cons_ne_nil e ds)
            (by rw [hclosed]; exact hn) hm htail hready'
          rw [hclosed, Blocks.push_push] at hrest
          rw [itemTokens]
          exact Reads.of_steps hsteps hrest
  | .null :: _, h, _, _, _, _, _, _, _, _, _, _ => nomatch h.1
  | .bool _ :: _, h, _, _, _, _, _, _, _, _, _, _ => nomatch h.1
  | .int _ :: _, h, _, _, _, _, _, _, _, _, _, _ => nomatch h.1
  | .real _ :: _, h, _, _, _, _, _, _, _, _, _, _ => nomatch h.1
  | .text _ :: _, h, _, _, _, _, _, _, _, _, _, _ => nomatch h.1
  | .list _ :: _, h, _, _, _, _, _, _, _, _, _, _ => nomatch h.1
  | .tagged _ _ :: _, h, _, _, _, _, _, _, _, _, _, _ => nomatch h.1

/-- The fields of a record. -/
theorem reads_fields : ∀ (fs : List (Data × Data)), FieldsLaid fs → fs ≠ [] → ∀ {b : Blocks}
    {n m : Nat} {tail : List Char}, m ≤ n → Clear tail → ∀ {r : Reading},
      Ready r b ((fieldsWritten n [] true fs).before m tail) n →
        Reads r tail m n (((b.closed n).opened n).push (fieldTokens fs))
  | [], _, hne, _, _, _, _, _, _, _, _ => absurd rfl hne
  | (k, v) :: fs, h, _, b, n, m, tail, hm, htail, _, hready => by
      obtain ⟨⟨s, hk, hfield⟩, hv, hfs⟩ := h
      cases fs with
      | nil =>
          rw [fieldsWritten_singleton] at hready
          have hreads := reads_field hm hk hfield htail (startsGap_valueWritten hv)
            (fun b hb i l c hc => reads_value v hv hb hm htail i l c hc) hready
          rw [fieldTokens, fieldTokens, List.append_nil]
          exact hreads
      | cons f fs =>
          have hnext : Clear ((fieldsWritten n [] true (f :: fs)).before m tail) :=
            clear_fieldsWritten (List.cons_ne_nil f fs) hfs
          rw [fieldsWritten_cons_cons] at hready
          obtain ⟨r', b', hsteps, hready', hclosed⟩ := reads_field (Nat.le_refl n) hk hfield hnext
            (startsGap_valueWritten hv)
            (fun b hb i l c hc => reads_value v hv hb (Nat.le_refl n) hnext i l c hc) hready
          have hrest := reads_fields (f :: fs) hfs (List.cons_ne_nil f fs) hm htail hready'
          have hopened : (b'.closed n).1 = n := by
            rw [hclosed]
            exact Blocks.opened_fst (b.closed_natCast_le n)
          rw [Blocks.opened_of_eq hopened, hclosed, Blocks.push_push] at hrest
          rw [fieldTokens]
          exact Reads.of_steps hsteps hrest

end

end Runbook.Yaml
