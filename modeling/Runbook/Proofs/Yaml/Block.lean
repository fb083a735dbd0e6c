import Runbook.Proofs.Yaml.Gaps

/-!
# Blocks of lines are read back

A text of several lines is empty lines, then lines with line ends between them, then the line ends
at its end.  Every line that is not empty is indented.  The head of the block says how much, if
the first line does not show it, and what becomes of the line ends at the end.
-/

namespace Runbook.Yaml

/-! ## Empty lines -/

/-- What may stand behind the indentation of a line: no line end, and neither blank nor tab if the
indentation may still go on. -/
def StopsIndent (indent : Option Nat) (m : Nat) (cs : List Char) : Prop :=
  ∀ d, cs.head? = some d → isBreak d = false ∧
    ((∀ n, indent = some n → m < n) → isSpace d = false)

theorem skipIndent_blanks {indent : Option Nat} {cs : List Char} (l : Nat) :
    ∀ (m k fuel : Nat), StopsIndent indent (k + m) cs → (∀ n, indent = some n → k + m ≤ n) →
      m < fuel → ∀ i, skipIndent indent fuel ⟨List.replicate m ' ' ++ cs, i, l, k⟩ =
        ⟨cs, i + m, l, k + m⟩
  | 0, k, fuel + 1, hstop, _, _, i => by
      have hnot : ((Cursor.mk cs i l k).at? ' ' && leftOf ⟨cs, i, l, k⟩ indent) = false := by
        cases cs with
        | nil => rfl
        | cons d cs =>
            cases hleft : leftOf ⟨d :: cs, i, l, k⟩ indent with
            | false => rw [Bool.and_false]
            | true =>
                have hspace := (hstop d rfl).2 (by
                  rintro n rfl
                  simpa [leftOf] using hleft)
                rw [Bool.and_true]
                simp only [isSpace, Bool.or_eq_false_iff, beq_eq_false_iff_ne] at hspace
                simpa [Cursor.at?, Cursor.head?] using hspace.1
      rw [List.replicate_zero, List.nil_append, skipIndent, hnot]
      rfl
  | m + 1, k, fuel + 1, hstop, hle, hf, i => by
      have hleft : leftOf ⟨List.replicate (m + 1) ' ' ++ cs, i, l, k⟩ indent = true := by
        cases indent with
        | none => rfl
        | some n =>
            have := hle n rfl
            simp only [leftOf, decide_eq_true_eq]
            omega
      have hk : k + (m + 1) = k + 1 + m := by omega
      have ih := skipIndent_blanks l m (k + 1) fuel (hk ▸ hstop)
        (fun n hn => hk ▸ hle n hn) (by omega) (i + 1)
      rw [skipIndent, hleft, List.replicate_succ, List.cons_append]
      simp only [Cursor.at?, Cursor.head?, List.head?_cons, beq_self_eq_true, Bool.and_self,
        if_true, Cursor.step, List.tail_cons, ih]
      congr 1 <;> omega

/-- The indentation of a line with content, or of what follows the block. -/
theorem emptyLines_indent {indent : Option Nat} {m : Nat} {cs : List Char}
    (hstop : StopsIndent indent m cs) (hle : ∀ n, indent = some n → m ≤ n)
    (fuel widest i l : Nat) :
    emptyLines indent (fuel + 1) widest ⟨List.replicate m ' ' ++ cs, i, l, 0⟩ =
      some ([], max widest m, ⟨cs, i + m, l, m⟩) := by
  have hskip := skipIndent_blanks l m 0 ((List.replicate m ' ' ++ cs).length + 1)
    (by simpa using hstop) (by simpa using hle)
    (by rw [List.length_append, List.length_replicate]; omega) i
  have htab : ((Cursor.mk cs (i + m) l m).at? '\t' && leftOf ⟨cs, i + m, l, m⟩ indent) = false := by
    cases cs with
    | nil => rfl
    | cons d cs =>
        cases hleft : leftOf ⟨d :: cs, i + m, l, m⟩ indent with
        | false => rw [Bool.and_false]
        | true =>
            have hspace := (hstop d rfl).2 (by
              rintro n rfl
              simpa [leftOf] using hleft)
            rw [Bool.and_true]
            simp only [isSpace, Bool.or_eq_false_iff, beq_eq_false_iff_ne] at hspace
            simpa [Cursor.at?, Cursor.head?] using hspace.2
  have hbreak : (Cursor.mk cs (i + m) l m).atBreak = false := by
    cases cs with
    | nil => rfl
    | cons d cs => simpa [Cursor.atBreak, Cursor.head?] using (hstop d rfl).1
  rw [Nat.zero_add] at hskip
  rw [emptyLines, hskip]
  simp only [htab, hbreak, Bool.false_eq_true, if_false]

/-- Empty lines and the indentation of the line behind them. -/
theorem emptyLines_breaks {indent : Option Nat} {m : Nat} {cs : List Char}
    (hstop : StopsIndent indent m cs) (hle : ∀ n, indent = some n → m ≤ n) :
    ∀ (bs : List Char), (∀ b ∈ bs, isPlainBreak b = true) → ∀ (fuel widest i l : Nat),
      bs.length < fuel →
      emptyLines indent fuel widest ⟨bs ++ (List.replicate m ' ' ++ cs), i, l, 0⟩ =
        some (bs, max widest m, ⟨cs, i + bs.length + m, l + bs.length, m⟩)
  | [], _, fuel + 1, widest, i, l, _ => emptyLines_indent hstop hle fuel widest i l
  | b :: bs, hbs, fuel + 1, widest, i, l, hf => by
      have hb := hbs b List.mem_cons_self
      have hbreak := isBreak_of_isPlainBreak hb
      have hspace := isSpace_of_isPlainBreak hb
      have ih := emptyLines_breaks hstop hle bs (fun d hd => hbs d (List.mem_cons_of_mem b hd)) fuel
        widest (i + 1) (l + 1) (by simpa using hf)
      have hblank : (b == ' ') = false := by
        simp only [isSpace, Bool.or_eq_false_iff] at hspace
        exact hspace.1
      have htab : (b == '\t') = false := by
        simp only [isSpace, Bool.or_eq_false_iff] at hspace
        exact hspace.2
      have hskip : ∀ f, skipIndent indent f ⟨b :: (bs ++ (List.replicate m ' ' ++ cs)), i, l, 0⟩ =
          ⟨b :: (bs ++ (List.replicate m ' ' ++ cs)), i, l, 0⟩ := by
        intro f
        cases f with
        | zero => rfl
        | succ f => simp [skipIndent, Cursor.at?, Cursor.head?, hblank]
      rw [List.cons_append, emptyLines, hskip]
      simp only [Cursor.at?, Cursor.atBreak, Cursor.head?, List.head?_cons, Option.map_some,
        Option.getD_some, hbreak, htab, Option.some_beq_some, Bool.false_and, Bool.false_eq_true,
        if_false, if_true, Cursor.lineEnd_plainBreak hb, Nat.max_zero, ih, Option.map_some,
        List.singleton_append, List.length_cons]
      congr 4 <;> omega

/-! ## Lines -/

/-- Lines with content, with line ends between them and none at the end. -/
inductive Lines : List Char → Prop where
  /-- The last line. -/
  | last {w : List Char} (hne : w ≠ []) (hw : ∀ c ∈ w, isBreak c = false) : Lines w
  /-- A line, its end, and those of empty lines before the next line. -/
  | more {w s : List Char} {b : Char} {bs : List Char} (hne : w ≠ [])
      (hw : ∀ c ∈ w, isBreak c = false) (hbs : ∀ d ∈ b :: bs, isPlainBreak d = true)
      (hs : Lines s) : Lines (w ++ b :: (bs ++ s))

/-- Lines as they are written behind the indentation of the first one. -/
abbrev body (indent : Nat) (s : List Char) : List Char := indented indent (fun c => [c]) false s

section

variable (indent : Nat)

theorem indented_line {w : List Char} (hw : ∀ c ∈ w, isBreak c = false) (s : List Char) :
    body indent (w ++ s) = w ++ body indent s := by
  induction w with
  | nil => rfl
  | cons c w ih =>
      have hrest : indented indent (fun c => [c]) false (w ++ s) = w ++ body indent s :=
        ih fun d hd => hw d (List.mem_cons_of_mem c hd)
      rw [List.cons_append, body, indented, if_neg (by rw [hw c List.mem_cons_self]; decide), hrest]
      rfl

theorem indented_fresh {w : List Char} (hne : w ≠ []) (hw : ∀ c ∈ w, isBreak c = false)
    (s : List Char) : indented indent (fun c => [c]) true (w ++ s) =
      List.replicate indent ' ' ++ body indent (w ++ s) := by
  cases w with
  | nil => exact absurd rfl hne
  | cons c w =>
      have hc : ¬ isBreak c = true := by rw [hw c List.mem_cons_self]; decide
      rw [List.cons_append, body, indented, indented, if_neg hc, if_neg hc]
      simp

theorem indented_breaks (fresh : Bool) : ∀ (bs : List Char), (∀ b ∈ bs, isBreak b = true) →
    bs ≠ [] → ∀ s : List Char, indented indent (fun c => [c]) fresh (bs ++ s) =
      bs ++ indented indent (fun c => [c]) true s
  | [], _, hne, _ => absurd rfl hne
  | b :: bs, hbs, _, s => by
      rw [List.cons_append, indented, if_pos (hbs b List.mem_cons_self)]
      cases bs with
      | nil => rfl
      | cons d bs =>
          rw [indented_breaks true (d :: bs) (fun e he => hbs e (List.mem_cons_of_mem b he))
            (List.cons_ne_nil _ _) s]
          rfl

theorem indented_lines {s : List Char} (h : Lines s) (r : List Char) :
    indented indent (fun c => [c]) true (s ++ r) =
      List.replicate indent ' ' ++ body indent (s ++ r) := by
  cases h with
  | last hne hw => exact indented_fresh indent hne hw r
  | more hne hw hbs hs =>
      rw [List.append_assoc]
      exact indented_fresh indent hne hw _

/-- Lines behind a line and its end. -/
theorem body_more {w s bs : List Char} {b : Char} (hw : ∀ c ∈ w, isBreak c = false)
    (hbs : ∀ c ∈ b :: bs, isPlainBreak c = true) (hs : Lines s) (r : List Char) :
    body indent (w ++ b :: (bs ++ (s ++ r))) =
      w ++ b :: (bs ++ (List.replicate indent ' ' ++ body indent (s ++ r))) := by
  have hrest := indented_breaks indent false (b :: bs)
    (fun c hc => isBreak_of_isPlainBreak (hbs c hc)) (List.cons_ne_nil _ _) (s ++ r)
  rw [indented_line indent hw, ← List.cons_append, body, hrest, indented_lines indent hs]
  rfl

/-- Lines start with a character that is no line end, and are written with it in front. -/
theorem Lines.exists_head {s : List Char} (h : Lines s) :
    ∃ d, isBreak d = false ∧ s.head? = some d ∧
      ∀ r, (body indent s ++ r).head? = some d := by
  cases h with
  | @last w hne hw =>
      obtain ⟨d, w, rfl⟩ := List.exists_cons_of_ne_nil hne
      have hbody := indented_line indent hw []
      rw [List.append_nil] at hbody
      refine ⟨d, hw d List.mem_cons_self, rfl, fun r => ?_⟩
      rw [hbody]
      rfl
  | @more w t b bs hne hw hbs hs =>
      obtain ⟨d, w, rfl⟩ := List.exists_cons_of_ne_nil hne
      refine ⟨d, hw d List.mem_cons_self, rfl, fun r => ?_⟩
      rw [indented_line indent hw]
      rfl

end

theorem length_le_indented (indent : Nat) : ∀ (fresh : Bool) (s : List Char),
    s.length ≤ (indented indent (fun c => [c]) fresh s).length
  | _, [] => Nat.zero_le _
  | fresh, c :: s => by
      have htrue := length_le_indented indent true s
      have hfalse := length_le_indented indent false s
      rw [indented]
      split
      · rw [List.length_cons, List.length_cons]
        omega
      · rw [List.length_append, List.length_append, List.length_cons, List.length_singleton]
        omega

/-! ## Reading lines -/

/-- How the line ends at the end of a block come out. -/
def chomped (chomp : Chomp) (b : Char) (bs : List Char) : List Char :=
  (if chomp == .strip then [] else [b]) ++ (if chomp == .keep then bs else [])

/-- One line with content and the line ends behind it. -/
theorem blockLines_line (chomp : Chomp) {indent m : Nat} {w bs cs : List Char} {b : Char}
    (hw : ∀ c ∈ w, isBreak c = false) (hbs : ∀ d ∈ b :: bs, isPlainBreak d = true)
    (hstop : StopsIndent (some indent) m cs) (hm : m ≤ indent) (fuel : Nat)
    (first later : List Char) (blank : Bool) (i l : Nat) :
    ∃ blank', blockLines true chomp indent (fuel + 1) first later blank
        ⟨w ++ b :: (bs ++ (List.replicate m ' ' ++ cs)), i, l, indent⟩ =
      (blockLines true chomp indent fuel [b] bs blank'
        ⟨cs, i + w.length + 1 + bs.length + m, l + 1 + bs.length, m⟩).map
        fun p => (first ++ later ++ w ++ p.1, p.2) := by
  have hb := hbs b List.mem_cons_self
  have hnot : ∀ d ∈ w, (!isBreak d) = true := by
    intro d hd
    rw [hw d hd]
    rfl
  have hspan : (Cursor.mk (w ++ b :: (bs ++ (List.replicate m ' ' ++ cs))) i l indent).span
      (fun d => !isBreak d) =
        (w, ⟨b :: (bs ++ (List.replicate m ' ' ++ cs)), i + w.length, l, indent + w.length⟩) := by
    rw [Cursor.span, List.takeWhile_append_of_pos hnot]
    simp [isBreak_of_isPlainBreak hb, Cursor.steps]
  have hempty := emptyLines_breaks hstop (by rintro n ⟨⟩; exact hm) bs
    (fun d hd => hbs d (List.mem_cons_of_mem b hd))
    ((bs ++ (List.replicate m ' ' ++ cs)).length + 1) 0 (i + w.length + 1) (l + 1)
    (by rw [List.length_append]; omega)
  have hsome : (w ++ b :: (bs ++ (List.replicate m ' ' ++ cs))).isEmpty = false := by
    simp
  refine ⟨(Cursor.mk (w ++ b :: (bs ++ (List.replicate m ' ' ++ cs))) i l indent).atSpace, ?_⟩
  rw [blockLines, hspan, hsome]
  simp only [beq_self_eq_true, Bool.not_false, Bool.and_self, if_true,
    Cursor.lineEnd_plainBreak hb, hempty, lineJoint, Bool.not_true, Bool.false_and,
    Bool.false_eq_true, if_false]

/-- What follows a block ends it. -/
theorem blockLines_end (chomp : Chomp) {indent m : Nat} {cs : List Char} (hm : m < indent)
    (fuel : Nat) (first later : List Char) (blank : Bool) (i l : Nat) :
    blockLines true chomp indent (fuel + 1) first later blank ⟨cs, i, l, m⟩ =
      some ((if chomp == .strip then [] else first) ++ (if chomp == .keep then later else []),
        ⟨cs, i, l, m⟩) := by
  have hnot : (m == indent) = false := beq_false_of_ne (by omega)
  rw [blockLines]
  simp only [hnot, Bool.false_and, Bool.false_eq_true, if_false]

/-- Lines and the line ends behind them are read back. -/
theorem blockLines_lines (chomp : Chomp) {indent m : Nat} {s cs bs : List Char} {b : Char}
    (hs : Lines s) (hbs : ∀ d ∈ b :: bs, isPlainBreak d = true)
    (hstop : StopsIndent (some indent) m cs) (hm : m < indent) :
    ∀ (fuel : Nat) (first later : List Char) (blank : Bool) (i l : Nat), s.length < fuel →
      ∃ i' l', blockLines true chomp indent fuel first later blank
          ⟨body indent s ++ b :: (bs ++ (List.replicate m ' ' ++ cs)), i, l, indent⟩ =
        some (first ++ later ++ s ++ chomped chomp b bs, ⟨cs, i', l', m⟩) := by
  induction hs with
  | @last w hne hw =>
      intro fuel first later blank i l hf
      have hpos : 0 < w.length := List.length_pos_iff.mpr hne
      obtain ⟨f, rfl⟩ : ∃ f, fuel = f + 2 := ⟨fuel - 2, by omega⟩
      obtain ⟨blank', hline⟩ := blockLines_line chomp hw hbs hstop (by omega) (f + 1)
        first later blank i l
      have hbody : body indent w = w := by
        have := indented_line indent hw []
        simpa [body, indented] using this
      refine ⟨i + w.length + 1 + bs.length + m, l + 1 + bs.length, ?_⟩
      rw [hbody, hline, blockLines_end chomp hm]
      simp [chomped]
  | @more w s d ds hne hw hds hs ih =>
      intro fuel first later blank i l hf
      simp only [List.length_append, List.length_cons] at hf
      obtain ⟨f, rfl⟩ : ∃ f, fuel = f + 1 := ⟨fuel - 1, by omega⟩
      have hbody := body_more indent hw hds hs []
      rw [List.append_nil] at hbody
      have hnext : StopsIndent (some indent) indent
          (body indent s ++ b :: (bs ++ (List.replicate m ' ' ++ cs))) := by
        obtain ⟨e', hbreak, -, hhead⟩ := hs.exists_head indent
        intro e he
        rw [hhead] at he
        injection he with he
        exact ⟨he ▸ hbreak, fun h => absurd (h indent rfl) (Nat.lt_irrefl _)⟩
      obtain ⟨blank', hline⟩ := blockLines_line chomp hw hds hnext (Nat.le_refl _) f first later
        blank i l
      obtain ⟨i', l', hrest⟩ := ih f [d] ds blank' _ _ (by omega)
      refine ⟨i', l', ?_⟩
      rw [hbody]
      simp only [List.append_assoc, List.cons_append] at hline hrest ⊢
      rw [hline, hrest]
      simp

/-! ## The parts of a text -/

theorem Lines.cons {c : Char} (hc : isBreak c = false) {s : List Char} (h : Lines s) :
    Lines (c :: s) := by
  have hmem : ∀ {w : List Char}, (∀ d ∈ w, isBreak d = false) →
      ∀ d ∈ c :: w, isBreak d = false := by
    intro w hw d hd
    cases List.mem_cons.mp hd with
    | inl he => rwa [he]
    | inr hd => exact hw d hd
  cases h with
  | last hne hw => exact .last (List.cons_ne_nil _ _) (hmem hw)
  | more hne hw hbs hs => exact .more (List.cons_ne_nil _ _) (hmem hw) hbs hs

/-- A text is line ends only, or has lines with content after some line ends and before some. -/
theorem exists_lines : ∀ s : List Char, (∀ c ∈ s, isBreak c = true → isPlainBreak c = true) →
    (∀ c ∈ s, isPlainBreak c = true) ∨
      ∃ bs t es, s = bs ++ (t ++ es) ∧ (∀ c ∈ bs, isPlainBreak c = true) ∧ Lines t ∧
        ∀ c ∈ es, isPlainBreak c = true
  | [], _ => .inl fun _ hc => nomatch hc
  | c :: s, h => by
      have ih := exists_lines s fun d hd => h d (List.mem_cons_of_mem c hd)
      have hmem : ∀ {bs : List Char}, isPlainBreak c = true → (∀ d ∈ bs, isPlainBreak d = true) →
          ∀ d ∈ c :: bs, isPlainBreak d = true := by
        intro bs hc hbs d hd
        cases List.mem_cons.mp hd with
        | inl he => rwa [he]
        | inr hd => exact hbs d hd
      by_cases hc : isBreak c = true
      · have hplain := h c List.mem_cons_self hc
        cases ih with
        | inl hall => exact .inl (hmem hplain hall)
        | inr hparts =>
            obtain ⟨bs, t, es, rfl, hbs, ht, hes⟩ := hparts
            exact .inr ⟨c :: bs, t, es, rfl, hmem hplain hbs, ht, hes⟩
      · have hc : isBreak c = false := by simpa using hc
        have hone : Lines [c] := .last (List.cons_ne_nil _ _) (by simpa using hc)
        refine .inr ?_
        cases ih with
        | inl hall => exact ⟨[], [c], s, rfl, fun _ hd => (nomatch hd), hone, hall⟩
        | inr hparts =>
            obtain ⟨bs, t, es, rfl, hbs, ht, hes⟩ := hparts
            cases bs with
            | nil => exact ⟨[], c :: t, es, rfl, fun _ hd => (nomatch hd), ht.cons hc, hes⟩
            | cons b bs =>
                refine ⟨[], c :: (b :: bs ++ t), es, by simp, fun _ hd => (nomatch hd), ?_, hes⟩
                exact .more (w := [c]) (List.cons_ne_nil _ _) (by simpa using hc) hbs ht

/-! ## Heads -/

/-- The marks of a head behind its first one. -/
def headMarks (given : Bool) (chomp : Chomp) : List Char :=
  (if given then ['2'] else []) ++
    match chomp with
    | .strip => ['-']
    | .clip => []
    | .keep => ['+']

theorem blockMarks_headMarks (given : Bool) (chomp : Chomp) (cs : List Char) (i l c : Nat) :
    blockMarks ⟨headMarks given chomp ++ '\n' :: cs, i, l, c⟩ =
      some (⟨chomp, if given then some 2 else none⟩,
        ⟨'\n' :: cs, i + (headMarks given chomp).length, l,
          c + (headMarks given chomp).length⟩) := by
  cases given <;> cases chomp <;> rfl

/-- How the end of a text is to be taken. -/
def chompOf (cs : List Char) : Chomp :=
  if !endsWithBreak cs then .strip
  else if cs.length = 1 ∨ endsWithBreak cs.dropLast then .keep
  else .clip

/-- The text starts with a blank or line end. -/
def startsLoose (cs : List Char) : Bool :=
  (cs.head?.map fun c => isBlankChar c || isBreak c).getD false

theorem blockHead_eq (cs : List Char) :
    blockHead cs = '|' :: headMarks (startsLoose cs) (chompOf cs) := by
  have hmarks : blockHead cs = '|' :: (if startsLoose cs then ['2'] else []) ++
      (if !endsWithBreak cs then ['-']
      else if cs.length = 1 ∨ endsWithBreak cs.dropLast then ['+']
      else []) := rfl
  rw [hmarks]
  cases he : endsWithBreak cs with
  | false => simp [headMarks, chompOf, he]
  | true =>
      by_cases h : cs.length = 1 ∨ endsWithBreak cs.dropLast = true
      · simp [headMarks, chompOf, he, h]
      · simp [headMarks, chompOf, he, h]

/-- A block behind its head, given its empty lines and its indentation. -/
theorem blockText_marks {given : Bool} {chomp : Chomp} {n widest i l c : Nat} {cs bs : List Char}
    {b : Cursor}
    (hempty : emptyLines (if given then some (n + 2) else none) (cs.length + 1) 0
      ⟨cs, i + (headMarks given chomp).length + 1, l + 1, 0⟩ = some (bs, widest, b))
    (hwidest : widest ≤ n + 2 ∧ (given = false → widest = n + 2)) :
    blockText true n ⟨headMarks given chomp ++ '\n' :: cs, i, l, c⟩ =
      blockLines true chomp (n + 2) (b.rest.length + 1) [] bs false b := by
  have hline : ∀ i l c : Nat, (Cursor.mk ('\n' :: cs) i l c).skipSpaces.skipComment =
      ⟨'\n' :: cs, i, l, c⟩ := fun i l c => rfl
  have hend : ∀ i l c : Nat, (Cursor.mk ('\n' :: cs) i l c).lineEnd.2 = ⟨cs, i + 1, l + 1, 0⟩ :=
    fun i l c => rfl
  have hat : ∀ i l c : Nat, (Cursor.mk ('\n' :: cs) i l c).atLineEnd = true := fun i l c => rfl
  have hn : (0 : Int) ≤ (n : Int) := Int.natCast_nonneg n
  rw [blockText, blockMarks_headMarks]
  simp only [hline, hat, hend, Bool.not_true, Bool.false_eq_true, if_false]
  cases given with
  | true =>
      rw [if_pos rfl] at hempty
      simp only [hn, if_true, Option.map_some, Int.toNat_natCast, Option.getD_some, hempty]
  | false =>
      have hindent : max (max widest ((n : Int) + 1).toNat) 1 = n + 2 := by
        have := hwidest.2 rfl
        omega
      rw [if_neg (by decide)] at hempty
      simp only [Bool.false_eq_true, if_false, Option.map_none, Option.getD_none, hempty, hindent]

/-! ## The end of a text -/

theorem endsWithBreak_append {es : List Char} (hne : es ≠ []) (s : List Char) :
    endsWithBreak (s ++ es) = endsWithBreak es := by
  rw [endsWithBreak, endsWithBreak, List.getLast?_append, List.getLast?_eq_some_getLast hne,
    Option.some_or]

theorem endsWithBreak_of_forall {es : List Char} (hne : es ≠ [])
    (hes : ∀ c ∈ es, isPlainBreak c = true) : endsWithBreak es = true := by
  rw [endsWithBreak, List.getLast?_eq_some_getLast hne]
  exact isBreak_of_isPlainBreak (hes _ (List.getLast_mem hne))

theorem Lines.ne_nil {s : List Char} (h : Lines s) : s ≠ [] := by
  cases h with
  | last hne _ => exact hne
  | more hne _ _ _ => simp

theorem Lines.endsWithBreak_eq_false {s : List Char} (h : Lines s) : endsWithBreak s = false := by
  induction h with
  | @last w hne hw =>
      rw [endsWithBreak, List.getLast?_eq_some_getLast hne]
      exact hw _ (List.getLast_mem hne)
  | @more w s b bs _ _ _ hs ih =>
      have hsplit : w ++ b :: (bs ++ s) = (w ++ b :: bs) ++ s := by simp
      rw [hsplit, endsWithBreak_append hs.ne_nil, ih]

/-- The line ends behind the last line, with one that is added if there is none, and what becomes
of them. -/
theorem exists_chomped (bs : List Char) {t es : List Char} (ht : Lines t)
    (hes : ∀ c ∈ es, isPlainBreak c = true) :
    ∃ b ds, es ++ (if endsWithBreak (bs ++ (t ++ es)) then [] else ['\n']) = b :: ds ∧
      (∀ c ∈ b :: ds, isPlainBreak c = true) ∧
        chomped (chompOf (bs ++ (t ++ es))) b ds = es := by
  cases es with
  | nil =>
      have hend : endsWithBreak (bs ++ (t ++ [])) = false := by
        rw [List.append_nil, endsWithBreak_append ht.ne_nil, ht.endsWithBreak_eq_false]
      refine ⟨'\n', [], by rw [hend]; rfl, by simp [isPlainBreak], ?_⟩
      rw [chompOf, hend]
      rfl
  | cons b ds =>
      have hend : endsWithBreak (bs ++ (t ++ b :: ds)) = true := by
        rw [endsWithBreak_append (by simp), endsWithBreak_append (List.cons_ne_nil _ _),
          endsWithBreak_of_forall (List.cons_ne_nil _ _) hes]
      refine ⟨b, ds, by rw [hend]; simp, hes, ?_⟩
      have hlength : ¬ (bs ++ (t ++ b :: ds)).length = 1 := by
        have := List.length_pos_iff.mpr ht.ne_nil
        simp only [List.length_append, List.length_cons]
        omega
      have hdrop : (bs ++ (t ++ b :: ds)).dropLast = bs ++ (t ++ (b :: ds).dropLast) := by
        rw [List.dropLast_append_of_ne_nil (by simp),
          List.dropLast_append_of_ne_nil (List.cons_ne_nil _ _)]
      rw [chompOf, hend, hdrop]
      cases ds with
      | nil =>
          have hlast : endsWithBreak (bs ++ (t ++ [b].dropLast)) = false := by
            rw [List.dropLast_singleton, List.append_nil, endsWithBreak_append ht.ne_nil,
              ht.endsWithBreak_eq_false]
          rw [if_neg (by decide), if_neg (by rw [hlast]; simpa using hlength)]
          rfl
      | cons d ds =>
          have hlast : endsWithBreak (bs ++ (t ++ (b :: d :: ds).dropLast)) = true := by
            rw [endsWithBreak_append (by simp), endsWithBreak_append (by simp)]
            exact endsWithBreak_of_forall (by simp) fun c hc => hes c (List.dropLast_subset _ hc)
          rw [if_neg (by decide), if_pos (.inr hlast)]
          rfl

theorem body_append_breaks {indent : Nat} {t : List Char} (ht : Lines t) {es : List Char}
    (hes : ∀ c ∈ es, isPlainBreak c = true) : body indent (t ++ es) = body indent t ++ es := by
  have hbreaks : body indent es = es := by
    cases es with
    | nil => rfl
    | cons b es =>
        have := indented_breaks indent false (b :: es)
          (fun c hc => isBreak_of_isPlainBreak (hes c hc)) (List.cons_ne_nil _ _) []
        simpa [indented] using this
  induction ht with
  | @last w _ hw =>
      have hline := indented_line indent hw []
      rw [List.append_nil] at hline
      rw [indented_line indent hw, hbreaks, hline]
      simp [indented]
  | @more w s b bs _ hw hbs hs ih =>
      have hmore := body_more indent hw hbs hs []
      rw [List.append_nil] at hmore
      rw [hmore, List.append_assoc, List.cons_append, List.append_assoc,
        body_more indent hw hbs hs, ih]
      simp

/-! ## Blocks -/

theorem stopsIndent_of_solid {indent : Option Nat} {m : Nat} {cs : List Char} (h : Solid cs) :
    StopsIndent indent m cs := by
  intro d hd
  obtain ⟨hspace, hbreak⟩ := isGapChar_eq_false.mp (h d hd)
  exact ⟨hbreak, fun _ => hspace⟩

theorem tail_blockChars (indent : Nat) (s : List Char) : (blockChars indent s).tail =
    headMarks (startsLoose s) (chompOf s) ++ '\n' :: indented indent (fun c => [c]) true s := by
  rw [blockChars, blockHead_eq]
  rfl

section

variable {n m : Nat} {s cs : List Char}

/-- The line ends of a block of empty lines are kept. -/
theorem chompOf_breaks (hne : s ≠ []) (hs : ∀ c ∈ s, isPlainBreak c = true) :
    chompOf s = .keep := by
  rw [chompOf, endsWithBreak_of_forall hne hs, if_neg (by decide), if_pos]
  by_cases hdrop : s.dropLast = []
  · refine .inl ?_
    have hlen := congrArg List.length hdrop
    have := List.length_pos_iff.mpr hne
    rw [List.length_dropLast, List.length_nil] at hlen
    omega
  · exact .inr (endsWithBreak_of_forall hdrop fun d hd => hs d (List.dropLast_subset _ hd))

/-- A block of empty lines. -/
theorem blockText_breaks (hm : m ≤ n) (hne : s ≠ []) (hs : ∀ c ∈ s, isPlainBreak c = true)
    (hcs : Solid cs) (i l c : Nat) :
    ∃ i' l', blockText true n ⟨(blockChars (n + 2) s).tail ++
        ((if endsWithBreak s then [] else ['\n']) ++ (List.replicate m ' ' ++ cs)), i, l, c⟩ =
      some (s, ⟨cs, i', l', m⟩) := by
  have hend := endsWithBreak_of_forall hne hs
  have hloose : startsLoose s = true := by
    obtain ⟨d, s, rfl⟩ := List.exists_cons_of_ne_nil hne
    simp [startsLoose, isBreak_of_isPlainBreak (hs d List.mem_cons_self)]
  have hchomp := chompOf_breaks hne hs
  have hwritten := indented_breaks (n + 2) true s
    (fun d hd => isBreak_of_isPlainBreak (hs d hd)) hne []
  rw [List.append_nil] at hwritten
  have hstop : StopsIndent (some (n + 2)) m cs := stopsIndent_of_solid hcs
  have hempty := emptyLines_breaks hstop
    (by rintro k ⟨⟩; omega) s hs ((s ++ (List.replicate m ' ' ++ cs)).length + 1) 0
    (i + (headMarks true .keep).length + 1) (l + 1) (by rw [List.length_append]; omega)
  refine ⟨i + (headMarks true .keep).length + 1 + s.length + m, l + 1 + s.length, ?_⟩
  rw [tail_blockChars, hend, hloose, hchomp, hwritten, indented, List.append_nil, if_pos rfl,
    List.nil_append, List.append_assoc, List.cons_append,
    blockText_marks hempty ⟨by omega, fun h => nomatch h⟩]
  exact blockLines_end _ (by omega) _ _ _ _ _ _

/-- Lines with content are indented between the empty lines before and behind them. -/
theorem indented_parts (k : Nat) {bs t es : List Char} (hbs : ∀ c ∈ bs, isPlainBreak c = true)
    (ht : Lines t) (hes : ∀ c ∈ es, isPlainBreak c = true) :
    indented k (fun c => [c]) true (bs ++ (t ++ es)) =
      bs ++ (List.replicate k ' ' ++ (body k t ++ es)) := by
  rw [← body_append_breaks ht hes, ← indented_lines k ht]
  by_cases hne : bs = []
  · rw [hne]
    rfl
  · exact indented_breaks k true bs (fun d hd => isBreak_of_isPlainBreak (hbs d hd)) hne _

/-- The indentation ends with the first line with content.  If none is written at the head of the
block, this line does not start with a blank. -/
theorem stopsIndent_body (k : Nat) {bs t : List Char} (es : List Char)
    (hbs : ∀ c ∈ bs, isPlainBreak c = true) (ht : Lines t) (hs : ∀ c ∈ t, isShown c = true)
    (r : List Char) :
    StopsIndent (if startsLoose (bs ++ (t ++ es)) then some k else none) k (body k t ++ r) := by
  obtain ⟨d, hbreak, hhead, hbody⟩ := ht.exists_head k
  intro e he
  rw [hbody] at he
  injection he with he
  subst he
  refine ⟨hbreak, fun hless => ?_⟩
  cases hloose : startsLoose (bs ++ (t ++ es)) with
  | true =>
      rw [hloose] at hless
      exact absurd (hless k rfl) (Nat.lt_irrefl _)
  | false =>
      have hnil : bs = [] := by
        cases bs with
        | nil => rfl
        | cons c bs =>
            have hc := isBreak_of_isPlainBreak (hbs c List.mem_cons_self)
            simp [startsLoose, hc] at hloose
      obtain ⟨t, rfl⟩ := List.head?_eq_some_iff.mp hhead
      rw [Bool.eq_false_iff]
      intro hspace
      have hblank := eq_blank_of_isShown (hs d List.mem_cons_self) hspace
      rw [hnil, hblank] at hloose
      simp [startsLoose, isBlankChar] at hloose

/-- A block of lines with content. -/
theorem blockText_lines (hm : m ≤ n) {bs t es : List Char} (hbs : ∀ c ∈ bs, isPlainBreak c = true)
    (ht : Lines t) (hes : ∀ c ∈ es, isPlainBreak c = true)
    (hs : ∀ c ∈ t, isShown c = true) (hcs : Solid cs) (i l c : Nat) :
    ∃ i' l', blockText true n ⟨(blockChars (n + 2) (bs ++ (t ++ es))).tail ++
        ((if endsWithBreak (bs ++ (t ++ es)) then [] else ['\n']) ++
          (List.replicate m ' ' ++ cs)), i, l, c⟩ =
      some (bs ++ (t ++ es), ⟨cs, i', l', m⟩) := by
  obtain ⟨b, ds, hends, hds, hchomped⟩ := exists_chomped bs ht hes
  have hstop := stopsIndent_body (n + 2) es hbs ht hs (b :: (ds ++ (List.replicate m ' ' ++ cs)))
  have hempty := emptyLines_breaks hstop (by split <;> rintro k ⟨⟩; omega) bs hbs
    ((bs ++ (List.replicate (n + 2) ' ' ++ (body (n + 2) t ++
      b :: (ds ++ (List.replicate m ' ' ++ cs))))).length + 1) 0
    (i + (headMarks (startsLoose (bs ++ (t ++ es))) (chompOf (bs ++ (t ++ es)))).length + 1) (l + 1)
    (by rw [List.length_append]; omega)
  have hall : indented (n + 2) (fun c => [c]) true (bs ++ (t ++ es)) ++
      ((if endsWithBreak (bs ++ (t ++ es)) then [] else ['\n']) ++ (List.replicate m ' ' ++ cs)) =
      bs ++ (List.replicate (n + 2) ' ' ++ (body (n + 2) t ++
        b :: (ds ++ (List.replicate m ' ' ++ cs)))) := by
    rw [indented_parts (n + 2) hbs ht hes]
    simp only [List.append_assoc]
    rw [← List.append_assoc es, hends]
    simp
  have hnext : StopsIndent (some (n + 2)) m cs := stopsIndent_of_solid hcs
  obtain ⟨i', l', hlines⟩ := blockLines_lines (chompOf (bs ++ (t ++ es))) ht hds hnext (by omega)
    ((body (n + 2) t ++ b :: (ds ++ (List.replicate m ' ' ++ cs))).length + 1) [] bs false
    (i + (headMarks (startsLoose (bs ++ (t ++ es))) (chompOf (bs ++ (t ++ es)))).length + 1 +
      bs.length + (n + 2)) (l + 1 + bs.length) (by
      have : t.length ≤ (body (n + 2) t).length := length_le_indented (n + 2) false t
      rw [List.length_append]
      omega)
  refine ⟨i', l', ?_⟩
  rw [tail_blockChars, List.append_assoc, List.cons_append, hall,
    blockText_marks hempty ⟨by omega, fun _ => by omega⟩, hlines, hchomped]
  simp

/-- A block is read back, up to what stands behind the line that follows it. -/
theorem blockText_blockChars (hm : m ≤ n) (hne : s ≠ []) (hs : ∀ c ∈ s, isShown c = true)
    (hcs : Solid cs) (i l c : Nat) :
    ∃ i' l', blockText true n ⟨(blockChars (n + 2) s).tail ++
        ((if endsWithBreak s then [] else ['\n']) ++ (List.replicate m ' ' ++ cs)), i, l, c⟩ =
      some (s, ⟨cs, i', l', m⟩) := by
  cases exists_lines s fun d hd => isPlainBreak_of_isShown (hs d hd) with
  | inl hall => exact blockText_breaks hm hne hall hcs i l c
  | inr hparts =>
      obtain ⟨bs, t, es, rfl, hbs, ht, hes⟩ := hparts
      exact blockText_lines hm hbs ht hes (fun d hd => hs d (by simp [hd])) hcs i l c

end

end Runbook.Yaml
