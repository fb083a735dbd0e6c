import Runbook.Yaml.Style
import Runbook.Yaml.Token.Reading

/-!
# Gaps in written YAML

What is written between two tokens or two words is a number of blanks, or line ends with blanks
after them.  A gap ends at a *solid* text: one that starts with neither, or is empty.

Of the characters that are written as they are, only the blank is a space, and the only line ends
are the line feed and the two separators, each of which stands for itself.
-/

namespace Runbook.Yaml

/-! ## Characters -/

/-- A blank or a line end. -/
def isGapChar (c : Char) : Bool := isSpace c || isBreak c

/-- A line end that is read as itself. -/
def isPlainBreak (c : Char) : Bool := c == '\n' || c == '\u2028' || c == '\u2029'

theorem isBreak_of_isPlainBreak {c : Char} (h : isPlainBreak c = true) : isBreak c = true := by
  simp only [isPlainBreak, Bool.or_eq_true, beq_iff_eq] at h
  rcases h with (rfl | rfl) | rfl <;> decide

theorem isSpace_of_isPlainBreak {c : Char} (h : isPlainBreak c = true) : isSpace c = false := by
  simp only [isPlainBreak, Bool.or_eq_true, beq_iff_eq] at h
  rcases h with (rfl | rfl) | rfl <;> rfl

/-- A space that is written as it is is a blank. -/
theorem eq_blank_of_isShown {c : Char} (h : isShown c = true) (hs : isSpace c = true) :
    c = ' ' := by
  simp only [isSpace, Bool.or_eq_true, beq_iff_eq] at hs
  rcases hs with rfl | rfl
  · rfl
  · exact absurd h (by decide)

/-- A line end that is written as it is is read as itself. -/
theorem isPlainBreak_of_isShown {c : Char} (h : isShown c = true) (hb : isBreak c = true) :
    isPlainBreak c = true := by
  simp only [isBreak, Bool.or_eq_true, beq_iff_eq] at hb
  rcases hb with (((rfl | rfl) | rfl) | rfl) | rfl
  · rfl
  · exact absurd h (by decide)
  · exact absurd h (by decide)
  · rfl
  · rfl

theorem isAllowed_of_isShown {c : Char} (h : isShown c = true) : isAllowed c = true := by
  simp only [isShown, isAllowed, Bool.or_eq_true, Bool.and_eq_true, decide_eq_true_eq, beq_iff_eq,
    bne_iff_ne] at h ⊢
  omega

/-! ## Solid texts -/

/-- The text starts with no gap. -/
def Solid (cs : List Char) : Prop := ∀ c, cs.head? = some c → isGapChar c = false

theorem solid_nil : Solid [] := by
  intro c hc
  cases hc

theorem solid_cons {c : Char} (h : isGapChar c = false) (cs : List Char) : Solid (c :: cs) := by
  intro d hd
  injection hd with hd
  rwa [← hd]

theorem isGapChar_eq_false {c : Char} :
    isGapChar c = false ↔ isSpace c = false ∧ isBreak c = false := by
  rw [isGapChar, Bool.or_eq_false_iff]

/-- A mark of a document stands only at the start of a line. -/
theorem Cursor.atDocumentMarker_of_column {cs : List Char} {i l c : Nat} (h : 0 < c) :
    (Cursor.mk cs i l c).atDocumentMarker = false := by
  have hc : (c == 0) = false := by simpa using Nat.ne_of_gt h
  simp [atDocumentMarker, atMarker, hc]

/-! ## Reading a gap -/

namespace Gap

theorem read_solid (least : Int) {fuel : Nat} (g : Gap) {cs : List Char} (h : Solid cs)
    (i l c : Nat) (hf : 0 < fuel) :
    read least fuel g ⟨cs, i, l, c⟩ = some (g, ⟨cs, i, l, c⟩) := by
  obtain ⟨f, rfl⟩ : ∃ f, fuel = f + 1 := ⟨fuel - 1, by omega⟩
  cases cs with
  | nil => rfl
  | cons d ds =>
      obtain ⟨hspace, hbreak⟩ := isGapChar_eq_false.mp (h d rfl)
      simp [read, Cursor.head?, hspace, hbreak]

/-- Blanks before any line end are kept. -/
theorem read_blanks (least : Int) {cs : List Char} (h : Solid cs) : ∀ (k fuel : Nat)
    (bs : List Char) (i l c : Nat), k < fuel →
      read least fuel ⟨false, bs, [], []⟩ ⟨List.replicate k ' ' ++ cs, i, l, c⟩ =
        some (⟨false, bs ++ List.replicate k ' ', [], []⟩, ⟨cs, i + k, l, c + k⟩)
  | 0, fuel, bs, i, l, c, hf => by
      simpa using read_solid least ⟨false, bs, [], []⟩ h i l c hf
  | k + 1, fuel + 1, bs, i, l, c, hf => by
      have ih := read_blanks least h k fuel (bs ++ [' ']) (i + 1) l (c + 1) (by omega)
      have hspace : isSpace ' ' = true := rfl
      rw [List.replicate_succ, List.cons_append, read]
      simp only [Cursor.head?, List.head?_cons, hspace, if_true, Bool.false_eq_true, if_false,
        Cursor.step, List.tail_cons, ih]
      simp [Nat.add_comm, Nat.add_left_comm]

/-- Blanks behind a line end are passed over. -/
theorem read_indentation (least : Int) {cs : List Char} (h : Solid cs) (first later : List Char) :
    ∀ (k fuel : Nat) (i l c : Nat), k < fuel →
      read least fuel ⟨true, [], first, later⟩ ⟨List.replicate k ' ' ++ cs, i, l, c⟩ =
        some (⟨true, [], first, later⟩, ⟨cs, i + k, l, c + k⟩)
  | 0, fuel, i, l, c, hf => by
      simpa using read_solid least ⟨true, [], first, later⟩ h i l c hf
  | k + 1, fuel + 1, i, l, c, hf => by
      have ih := read_indentation least h first later k fuel (i + 1) l (c + 1) (by omega)
      have hspace : isSpace ' ' = true := rfl
      have htab : ((' ' : Char) == '\t') = false := rfl
      rw [List.replicate_succ, List.cons_append, read]
      simp only [Cursor.head?, List.head?_cons, hspace, if_true, htab, Bool.false_and,
        Bool.false_eq_true, if_false, Cursor.step, List.tail_cons, ih]
      simp [Nat.add_comm, Nat.add_left_comm]

end Gap

/-- A line end that is read as itself. -/
theorem Cursor.lineEnd_plainBreak {b : Char} (h : isPlainBreak b = true) (cs : List Char)
    (i l c : Nat) : (Cursor.mk (b :: cs) i l c).lineEnd = ([b], ⟨cs, i + 1, l + 1, 0⟩) := by
  simp only [isPlainBreak, Bool.or_eq_true, beq_iff_eq] at h
  rcases h with (rfl | rfl) | rfl <;> rfl

namespace Gap

theorem read_later (least : Int) {cs : List Char} (h : Solid cs) (k : Nat) (first : List Char) :
    ∀ (bs : List Char), (∀ b ∈ bs, isPlainBreak b = true) → ∀ (fuel : Nat) (later : List Char)
      (i l c : Nat), bs.length + k < fuel → bs ≠ [] →
      read least fuel ⟨true, [], first, later⟩ ⟨bs ++ (List.replicate k ' ' ++ cs), i, l, c⟩ =
        some (⟨true, [], first, later ++ bs⟩, ⟨cs, i + bs.length + k, l + bs.length, k⟩)
  | [], _, _, _, _, _, _, _, hne => absurd rfl hne
  | b :: bs, hbs, fuel + 1, later, i, l, c, hf, _ => by
      have hb := hbs b List.mem_cons_self
      have hbreak := isBreak_of_isPlainBreak hb
      have hspace := isSpace_of_isPlainBreak hb
      rw [List.cons_append, read]
      simp only [Cursor.head?, List.head?_cons, hspace, hbreak, Bool.false_eq_true, if_false,
        if_true, Cursor.lineEnd_plainBreak hb]
      cases bs with
      | nil =>
          have hread := read_indentation least h first (later ++ [b]) k fuel (i + 1) (l + 1) 0
            (by simp at hf; omega)
          simpa using hread
      | cons d ds =>
          have ih := read_later least h k first (d :: ds)
            (fun x hx => hbs x (List.mem_cons_of_mem b hx)) fuel (later ++ [b]) (i + 1) (l + 1) 0
            (by simp at hf ⊢; omega) (List.cons_ne_nil _ _)
          rw [ih]
          simp [Nat.add_comm, Nat.add_left_comm]

/-- Line ends and the indentation behind them. -/
theorem read_breaks (least : Int) {cs : List Char} (h : Solid cs) (k : Nat) {b : Char}
    {bs : List Char} (hbs : ∀ d ∈ b :: bs, isPlainBreak d = true) {fuel : Nat} (i l c : Nat)
    (hf : bs.length + 1 + k < fuel) :
    read least fuel Gap.empty ⟨b :: bs ++ (List.replicate k ' ' ++ cs), i, l, c⟩ =
      some (⟨true, [], [b], bs⟩, ⟨cs, i + (bs.length + 1) + k, l + (bs.length + 1), k⟩) := by
  obtain ⟨f, rfl⟩ : ∃ f, fuel = f + 1 := ⟨fuel - 1, by omega⟩
  have hb := hbs b List.mem_cons_self
  have hbreak := isBreak_of_isPlainBreak hb
  have hspace := isSpace_of_isPlainBreak hb
  rw [List.cons_append, read]
  simp only [empty, Cursor.head?, List.head?_cons, hspace, hbreak, Bool.false_eq_true, if_false,
    if_true, Cursor.lineEnd_plainBreak hb]
  cases bs with
  | nil =>
      have hread := read_indentation least h [b] [] k f (i + 1) (l + 1) 0 (by simp at hf; omega)
      simpa using hread
  | cons d ds =>
      have hlater := read_later least h k [b] (d :: ds)
        (fun x hx => hbs x (List.mem_cons_of_mem b hx)) f [] (i + 1) (l + 1) 0
        (by simp at hf ⊢; omega) (List.cons_ne_nil _ _)
      rw [hlater]
      simp [Nat.add_comm, Nat.add_left_comm]

end Gap

end Runbook.Yaml
