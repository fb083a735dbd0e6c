import Runbook.Json.Printer
import Runbook.Json.Tree
import Runbook.Proofs.Document.Plain

/-!
# Written JSON is read back

A written string is read back character by character.  A plain value that is written over several
lines is read as its tree, whatever follows it: every value takes up at least as many characters as
the reading takes steps, so the length of what is written is fuel enough.
-/

namespace Runbook.Json

open Runbook.Text

/-! ## Strings -/

/-- The code of a control character is read back. -/
theorem hexCode?_control {n : Nat} (h : n < 32) (cs : List Char) :
    hexCode? ('0' :: '0' :: hexDigit (n / 16) :: hexDigit (n % 16) :: cs) = some (n, cs) := by
  have hdigits : ∀ m < 32,
      natOfDigits 16 0 ['0', '0', hexDigit (m / 16), hexDigit (m % 16)] = some m := by decide
  rw [hexCode?, hdigits n h]
  rfl

/-- One written character is read back. -/
theorem readString_stringChar (fuel : Nat) (c : Char) (cs : List Char) :
    readString (fuel + 1) (stringChar c ++ cs) = StringPart.cons (some c) (readString fuel cs) := by
  unfold stringChar
  split
  · rename_i h; subst h; rfl
  split
  · rename_i h; subst h; rfl
  split
  · rename_i h; subst h; rfl
  split
  · rename_i h; subst h; rfl
  split
  · rename_i h; subst h; rfl
  split
  · rename_i h; subst h; rfl
  split
  · rename_i h; subst h; rfl
  split
  · rename_i hcontrol
    have hhigh : isHighHalf c.toNat = false := by
      simp only [isHighHalf, Bool.and_eq_false_iff, decide_eq_false_iff_not]
      omega
    have hlow : isLowHalf c.toNat = false := by
      simp only [isLowHalf, Bool.and_eq_false_iff, decide_eq_false_iff_not]
      omega
    have hself : Char.ofNat c.toNat = c := Char.ofNat_toNat c
    simp only [List.cons_append, List.nil_append, readString, hexCode?_control hcontrol, hhigh,
      hlow, hself, Bool.false_eq_true, if_false]
    rfl
  · rename_i hquote hslash _ _ _ _ _ hcontrol
    simp only [List.cons_append, List.nil_append, readString, hquote, hslash, hcontrol, if_false]

/-- A written string is read back, up to the quote that ends it. -/
theorem readString_flatMap (rest : List Char) : ∀ (s : List Char) (fuel : Nat), s.length < fuel →
    readString fuel (s.flatMap stringChar ++ '"' :: rest) = some (some s, rest)
  | _, 0, h => absurd h (by omega)
  | [], fuel + 1, _ => by simp [readString]
  | c :: s, fuel + 1, h => by
      rw [List.flatMap_cons, List.append_assoc, readString_stringChar,
        readString_flatMap rest s fuel (by simpa using h)]
      rfl

theorem length_le_flatMap_stringChar : ∀ s : List Char, s.length ≤ (s.flatMap stringChar).length
  | [] => by simp
  | c :: s => by
      have hpos : 0 < (stringChar c).length := by
        unfold stringChar
        repeat' split
        all_goals simp
      have := length_le_flatMap_stringChar s
      simp only [List.flatMap_cons, List.length_append, List.length_cons]
      omega

/-- A string in quotes, after the first of them. -/
theorem readString_quoted (s : String) (rest : List Char) (fuel : Nat)
    (h : (s.toList.flatMap stringChar ++ '"' :: rest).length < fuel) :
    readString fuel (s.toList.flatMap stringChar ++ '"' :: rest) = some (some s.toList, rest) := by
  have := length_le_flatMap_stringChar s.toList
  refine readString_flatMap rest s.toList fuel ?_
  rw [List.length_append] at h
  omega

/-! ## Trees -/

mutual

/-- The tree of a plain value. -/
def treeOf : Data → Tree
  | .bool b => .bool b
  | .text s => .text s
  | .list ds => .list (treesOf ds) true
  | .record fs => .record (fieldTreesOf fs) true
  | _ => .null
termination_by structural d => d

/-- The trees of plain values. -/
def treesOf : List Data → List Tree
  | [] => []
  | d :: ds => treeOf d :: treesOf ds
termination_by structural ds => ds

/-- The trees of fields with texts for keys. -/
def fieldTreesOf : List (Data × Data) → List (String × Tree)
  | [] => []
  | (.text k, v) :: fs => (k, treeOf v) :: fieldTreesOf fs
  | (_, _) :: fs => fieldTreesOf fs
termination_by structural fs => fs

end

theorem isWhole_treeOf (d : Data) : (treeOf d).isWhole = true := by
  cases d <;> rfl

/-! ## Blanks -/

theorem dropWhile_dropWhile {α : Type} (p : α → Bool) : ∀ cs : List α,
    (cs.dropWhile p).dropWhile p = cs.dropWhile p
  | [] => rfl
  | c :: cs => by
      by_cases h : p c = true
      · rw [List.dropWhile_cons_of_pos h, dropWhile_dropWhile p cs]
      · rw [List.dropWhile_cons_of_neg h, List.dropWhile_cons_of_neg h]

theorem isGap_of_mem_newLine {depth : Nat} : ∀ c ∈ newLine depth, isGap c = true := by
  intro c hc
  simp only [newLine, List.mem_cons, List.mem_replicate] at hc
  rcases hc with rfl | ⟨-, rfl⟩ <;> decide

theorem dropWhile_gap {g : List Char} (hg : ∀ c ∈ g, isGap c = true) (cs : List Char) :
    (g ++ cs).dropWhile isGap = cs.dropWhile isGap :=
  List.dropWhile_append_of_pos hg

/-- Blanks before a value are passed over. -/
theorem readValue_gap {g : List Char} (hg : ∀ c ∈ g, isGap c = true) (fuel : Nat)
    (cs : List Char) : readValue (fuel + 1) (g ++ cs) = readValue (fuel + 1) cs := by
  simp only [readValue, dropWhile_gap hg]

theorem readValue_dropWhile (fuel : Nat) (cs : List Char) :
    readValue (fuel + 1) (cs.dropWhile isGap) = readValue (fuel + 1) cs := by
  simp only [readValue, dropWhile_dropWhile]

theorem readItems_dropWhile (fuel : Nat) (cs : List Char) :
    readItems (fuel + 2) (cs.dropWhile isGap) = readItems (fuel + 2) cs := by
  simp only [readItems, readValue_dropWhile]

theorem readFields_dropWhile (fuel : Nat) (cs : List Char) :
    readFields (fuel + 1) (cs.dropWhile isGap) = readFields (fuel + 1) cs := by
  simp only [readFields, dropWhile_dropWhile]

/-! ## One step -/

theorem readItems_last {fuel : Nat} {cs g rest : List Char} {t : Tree}
    (hv : readValue fuel cs = (t, g ++ ']' :: rest)) (ht : t.isWhole = true)
    (hg : ∀ c ∈ g, isGap c = true) : readItems (fuel + 1) cs = ([t], true, rest) := by
  have hgap : isGap ']' = false := by decide
  simp only [readItems, hv, ht, if_true, dropWhile_gap hg, List.dropWhile_cons, hgap,
    Bool.false_eq_true, if_false]

theorem readItems_next {fuel : Nat} {cs r rest : List Char} {t : Tree} {ts : List Tree}
    (hv : readValue fuel cs = (t, ',' :: r)) (ht : t.isWhole = true)
    (hi : readItems fuel r = (ts, true, rest)) :
    readItems (fuel + 1) cs = (t :: ts, true, rest) := by
  have hgap : isGap ',' = false := by decide
  simp only [readItems, hv, ht, if_true, List.dropWhile_cons, hgap, Bool.false_eq_true, if_false,
    hi]

/-- The key of a field is read, and its value is up to the reading of values. -/
theorem readFields_key {fuel : Nat} {k : String} {cs r : List Char} {t : Tree}
    (hv : readValue fuel (' ' :: cs) = (t, r)) (ht : t.isWhole = true) (depth : Nat) :
    readFields (fuel + 1) (newLine depth ++ (quoted k ++ ':' :: ' ' :: cs)) =
      match r.dropWhile isGap with
      | ',' :: r =>
          let (fs, closed, r) := readFields fuel r
          ((k, t) :: fs, closed, r)
      | '\x7d' :: r => ([(k, t)], true, r)
      | r => ([(k, t)], false, r) := by
  have hquote : isGap '"' = false := by decide
  have hcolon : isGap ':' = false := by decide
  have hkey := readString_quoted k (':' :: ' ' :: cs) _ (Nat.lt_succ_self _)
  have hsplit : quoted k ++ ':' :: ' ' :: cs =
      '"' :: (k.toList.flatMap stringChar ++ '"' :: ':' :: ' ' :: cs) := by
    simp [quoted]
  rw [hsplit]
  have hread := readFields.eq_2
    (newLine depth ++ '"' :: (k.toList.flatMap stringChar ++ '"' :: ':' :: ' ' :: cs)) fuel
  rw [dropWhile_gap isGap_of_mem_newLine, List.dropWhile_cons_of_neg (by rw [hquote]; decide)]
    at hread
  simp only [hkey, List.dropWhile_cons, hcolon, Bool.false_eq_true, if_false, hv, ht, if_true,
    String.ofList_toList] at hread
  exact hread

/-! ## Whole values -/

/-- A written value starts with a character that is no blank and closes no list. -/
theorem prettyChars_eq_cons (depth : Nat) {d : Data} (h : d.Plain) :
    ∃ c cs, prettyChars depth d = c :: cs ∧ isGap c = false ∧ c ≠ ']' := by
  cases d with
  | bool b => cases b <;> exact ⟨_, _, rfl, by decide, by decide⟩
  | text s => exact ⟨'"', _, rfl, by decide, by decide⟩
  | list ds =>
      rw [prettyChars]
      split <;> exact ⟨'[', _, rfl, by decide, by decide⟩
  | record fs =>
      rw [prettyChars]
      split <;> exact ⟨'\x7b', _, rfl, by decide, by decide⟩
  | null | int _ | real _ | tagged _ _ => exact False.elim h

theorem joined_cons_cons (sep p q : List Char) (ps : List (List Char)) :
    joined sep (p :: q :: ps) = p ++ (sep ++ joined sep (q :: ps)) := by
  simp [joined]

theorem joined_singleton (sep p : List Char) : joined sep [p] = p := by
  simp [joined]

/-- What follows a mark that opens a list is read as its items, if it starts none that is empty. -/
theorem readValue_list {fuel : Nat} {r rest : List Char} {ts : List Tree}
    (hstart : ∃ c cs, r.dropWhile isGap = c :: cs ∧ c ≠ ']')
    (hi : readItems (fuel + 2) r = (ts, true, rest)) :
    readValue (fuel + 3) ('[' :: r) = (.list ts true, rest) := by
  obtain ⟨c, cs, hr, hc⟩ := hstart
  have hgap : isGap '[' = false := by decide
  rw [← readItems_dropWhile, hr] at hi
  simp only [readValue, List.dropWhile_cons, hgap, Bool.false_eq_true, if_false, hr]
  split
  · rename_i heq
    injection heq with heq
    exact absurd heq hc
  · rw [hi]

theorem readValue_record {fuel : Nat} {r rest : List Char} {fs : List (String × Tree)}
    (hstart : ∃ cs, r.dropWhile isGap = '"' :: cs)
    (hi : readFields (fuel + 1) r = (fs, true, rest)) :
    readValue (fuel + 2) ('\x7b' :: r) = (.record fs true, rest) := by
  obtain ⟨cs, hr⟩ := hstart
  have hgap : isGap '\x7b' = false := by decide
  rw [← readFields_dropWhile, hr] at hi
  simp only [readValue, List.dropWhile_cons, hgap, Bool.false_eq_true, if_false, hr]
  split
  · rename_i heq
    injection heq with heq
    cases heq
  · rw [hi]

theorem dropWhile_of_start {c : Char} (h : isGap c = false) (cs : List Char) :
    (c :: cs).dropWhile isGap = c :: cs :=
  List.dropWhile_cons_of_neg (by rw [h]; decide)

theorem prettyItems_cons_cons (depth : Nat) (d e : Data) (ds : List Data) :
    joined [','] (prettyItems depth (d :: e :: ds)) =
      newLine depth ++ (prettyChars depth d ++
        ',' :: joined [','] (prettyItems depth (e :: ds))) := by
  have hrest : (newLine depth ++ prettyChars depth e) :: prettyItems depth ds =
      prettyItems depth (e :: ds) := by
    rw [prettyItems]
  rw [prettyItems, prettyItems, joined_cons_cons, hrest, List.append_assoc, List.singleton_append]

theorem prettyItems_singleton (depth : Nat) (d : Data) :
    joined [','] (prettyItems depth [d]) = newLine depth ++ prettyChars depth d := by
  rw [prettyItems, prettyItems, joined_singleton]

theorem prettyFields_cons_cons (depth : Nat) (k : String) (v : Data) (f : Data × Data)
    (fs : List (Data × Data)) :
    joined [','] (prettyFields depth ((.text k, v) :: f :: fs)) =
      newLine depth ++ (quoted k ++ ':' :: ' ' :: (prettyChars depth v ++
        ',' :: joined [','] (prettyFields depth (f :: fs)))) := by
  obtain ⟨j, w⟩ := f
  have hrest : (newLine depth ++ keyChars j ++ ':' :: ' ' :: prettyChars depth w) ::
      prettyFields depth fs = prettyFields depth ((j, w) :: fs) := by
    rw [prettyFields]
  rw [prettyFields, prettyFields, joined_cons_cons, hrest]
  simp [keyChars]

theorem prettyFields_singleton (depth : Nat) (k : String) (v : Data) :
    joined [','] (prettyFields depth [(.text k, v)]) =
      newLine depth ++ (quoted k ++ ':' :: ' ' :: prettyChars depth v) := by
  rw [prettyFields, prettyFields, joined_singleton, keyChars, List.append_assoc]

/-- The items of a list start with a character that does not close it. -/
theorem dropWhile_prettyItems (depth : Nat) {d : Data} (h : d.Plain) (ds : List Data)
    (rest : List Char) : ∃ c cs,
      (joined [','] (prettyItems depth (d :: ds)) ++ rest).dropWhile isGap = c :: cs ∧
        c ≠ ']' := by
  obtain ⟨c, cs, hd, hgap, hc⟩ := prettyChars_eq_cons depth h
  cases ds with
  | nil =>
      rw [prettyItems_singleton, List.append_assoc, dropWhile_gap isGap_of_mem_newLine, hd,
        List.cons_append, dropWhile_of_start hgap]
      exact ⟨c, _, rfl, hc⟩
  | cons e ds =>
      rw [prettyItems_cons_cons, List.append_assoc, dropWhile_gap isGap_of_mem_newLine, hd,
        List.cons_append, List.cons_append, dropWhile_of_start hgap]
      exact ⟨c, _, rfl, hc⟩

theorem dropWhile_prettyFields (depth : Nat) (k : String) (v : Data) (fs : List (Data × Data))
    (rest : List Char) : ∃ cs,
      (joined [','] (prettyFields depth ((.text k, v) :: fs)) ++ rest).dropWhile isGap =
        '"' :: cs := by
  have hgap : isGap '"' = false := by decide
  cases fs with
  | nil =>
      rw [prettyFields_singleton, List.append_assoc, dropWhile_gap isGap_of_mem_newLine, quoted,
        List.cons_append, List.cons_append, List.cons_append, dropWhile_of_start hgap]
      exact ⟨_, rfl⟩
  | cons f fs =>
      rw [prettyFields_cons_cons, List.append_assoc, dropWhile_gap isGap_of_mem_newLine, quoted,
        List.cons_append, List.cons_append, List.cons_append, dropWhile_of_start hgap]
      exact ⟨_, rfl⟩

theorem one_le_length_pretty (depth : Nat) {d : Data} (h : d.Plain) :
    1 ≤ (prettyChars depth d).length := by
  obtain ⟨c, cs, hd, -, -⟩ := prettyChars_eq_cons depth h
  simp [hd]

mutual

/-- A written value is read as its tree, whatever follows it. -/
theorem readValue_pretty : ∀ (depth : Nat) (d : Data), d.Plain → ∀ (fuel : Nat)
    (rest : List Char), (prettyChars depth d).length ≤ fuel →
      readValue fuel (prettyChars depth d ++ rest) = (treeOf d, rest)
  | depth, d, h, 0, rest, hf => by
      obtain ⟨c, cs, hd, -, -⟩ := prettyChars_eq_cons depth h
      rw [hd] at hf
      exact absurd hf (by simp)
  | depth, .bool b, _, fuel + 1, rest, _ => by
      cases b <;> rfl
  | depth, .text s, _, fuel + 1, rest, _ => by
      have hkey := readString_quoted s rest _ (Nat.lt_succ_self _)
      have hsplit : prettyChars depth (.text s) ++ rest =
          '"' :: (s.toList.flatMap stringChar ++ '"' :: rest) := by
        simp [prettyChars, scalarChars, quoted]
      rw [hsplit]
      simp only [readValue, dropWhile_of_start (show isGap '"' = false by decide), hkey,
        String.ofList_toList]
      rfl
  | depth, .list [], _, fuel + 1, rest, _ => by
      rfl
  | depth, .list (d :: ds), h, fuel + 1, rest, hf => by
      have hsplit : prettyChars depth (.list (d :: ds)) =
          '[' :: (joined [','] (prettyItems (depth + 1) (d :: ds)) ++
            (newLine depth ++ [']'])) := by
        rw [prettyChars]
        simp
      rw [hsplit] at hf ⊢
      simp only [List.length_cons, List.length_append, newLine] at hf
      obtain ⟨f, rfl⟩ : ∃ f, fuel = f + 2 := ⟨fuel - 2, by omega⟩
      rw [List.cons_append, List.append_assoc, List.append_assoc, List.singleton_append]
      exact readValue_list (dropWhile_prettyItems (depth + 1) h.1 ds _)
        (readItems_pretty (depth + 1) (d :: ds) h (List.cons_ne_nil _ _) (f + 2) (newLine depth)
          rest (by omega) isGap_of_mem_newLine)
  | depth, .record [], _, fuel + 1, rest, _ => by
      rfl
  | depth, .record ((k, v) :: fs), h, fuel + 1, rest, hf => by
      obtain ⟨key, rfl⟩ := h.1
      have hsplit : prettyChars depth (.record ((.text key, v) :: fs)) =
          '\x7b' :: (joined [','] (prettyFields (depth + 1) ((.text key, v) :: fs)) ++
            (newLine depth ++ ['\x7d'])) := by
        rw [prettyChars]
        simp
      rw [hsplit] at hf ⊢
      simp only [List.length_cons, List.length_append, newLine] at hf
      obtain ⟨f, rfl⟩ : ∃ f, fuel = f + 1 := ⟨fuel - 1, by omega⟩
      rw [List.cons_append, List.append_assoc, List.append_assoc, List.singleton_append]
      exact readValue_record (dropWhile_prettyFields (depth + 1) key v fs _)
        (readFields_pretty (depth + 1) ((.text key, v) :: fs) h (List.cons_ne_nil _ _) (f + 1)
          (newLine depth) rest (by omega) isGap_of_mem_newLine)

/-- Written items are read as their trees, up to the mark that closes the list. -/
theorem readItems_pretty : ∀ (depth : Nat) (ds : List Data), Data.AllPlain ds → ds ≠ [] →
    ∀ (fuel : Nat) (g rest : List Char), (joined [','] (prettyItems depth ds)).length ≤ fuel →
      (∀ c ∈ g, isGap c = true) →
        readItems fuel (joined [','] (prettyItems depth ds) ++ (g ++ ']' :: rest)) =
          (treesOf ds, true, rest)
  | _, [], _, hne, _, _, _, _, _ => absurd rfl hne
  | depth, [d], h, _, fuel, g, rest, hf, hg => by
      have hlen := one_le_length_pretty depth h.1
      rw [prettyItems_singleton] at hf ⊢
      simp only [List.length_append, newLine, List.length_cons] at hf
      obtain ⟨f, rfl⟩ : ∃ f, fuel = f + 2 := ⟨fuel - 2, by omega⟩
      rw [treesOf, treesOf, List.append_assoc]
      refine readItems_last ?_ (isWhole_treeOf d) hg
      rw [readValue_gap isGap_of_mem_newLine]
      exact readValue_pretty depth d h.1 _ _ (by omega)
  | depth, d :: e :: ds, h, _, fuel, g, rest, hf, hg => by
      have hlen := one_le_length_pretty depth h.1
      rw [prettyItems_cons_cons] at hf ⊢
      simp only [List.length_append, newLine, List.length_cons] at hf
      obtain ⟨f, rfl⟩ : ∃ f, fuel = f + 2 := ⟨fuel - 2, by omega⟩
      rw [treesOf, List.append_assoc, List.append_assoc, List.cons_append]
      refine readItems_next ?_ (isWhole_treeOf d)
        (readItems_pretty depth (e :: ds) h.2 (List.cons_ne_nil _ _) (f + 1) g rest (by omega) hg)
      rw [readValue_gap isGap_of_mem_newLine]
      exact readValue_pretty depth d h.1 _ _ (by omega)

/-- Written fields are read as their trees, up to the mark that closes the record. -/
theorem readFields_pretty : ∀ (depth : Nat) (fs : List (Data × Data)), Data.FieldsPlain fs →
    fs ≠ [] → ∀ (fuel : Nat) (g rest : List Char),
      (joined [','] (prettyFields depth fs)).length ≤ fuel → (∀ c ∈ g, isGap c = true) →
        readFields fuel (joined [','] (prettyFields depth fs) ++ (g ++ '\x7d' :: rest)) =
          (fieldTreesOf fs, true, rest)
  | _, [], _, hne, _, _, _, _, _ => absurd rfl hne
  | depth, [(_, v)], ⟨⟨k, rfl⟩, hv, _⟩, _, fuel, g, rest, hf, hg => by
      have hlen := one_le_length_pretty depth hv
      rw [prettyFields_singleton] at hf ⊢
      simp only [List.length_append, newLine, List.length_cons] at hf
      obtain ⟨f, rfl⟩ : ∃ f, fuel = f + 2 := ⟨fuel - 2, by omega⟩
      have hvalue : readValue (f + 1) (' ' :: (prettyChars depth v ++ (g ++ '\x7d' :: rest))) =
          (treeOf v, g ++ '\x7d' :: rest) := by
        rw [← List.singleton_append, readValue_gap (by simp [isGap])]
        exact readValue_pretty depth v hv _ _ (by omega)
      rw [fieldTreesOf, fieldTreesOf, List.append_assoc, List.append_assoc, List.cons_append,
        List.cons_append, readFields_key hvalue (isWhole_treeOf v), dropWhile_gap hg,
        dropWhile_of_start (by decide)]
      rfl
  | depth, (_, v) :: (j, w) :: fs, ⟨⟨k, rfl⟩, hv, hfs⟩, _, fuel, g, rest, hf, hg => by
      have hlen := one_le_length_pretty depth hv
      rw [prettyFields_cons_cons] at hf ⊢
      simp only [List.length_append, newLine, List.length_cons] at hf
      obtain ⟨f, rfl⟩ : ∃ f, fuel = f + 2 := ⟨fuel - 2, by omega⟩
      have hvalue : readValue (f + 1) (' ' :: (prettyChars depth v ++
          ',' :: (joined [','] (prettyFields depth ((j, w) :: fs)) ++
            (g ++ '\x7d' :: rest)))) =
          (treeOf v, ',' :: (joined [','] (prettyFields depth ((j, w) :: fs)) ++
            (g ++ '\x7d' :: rest))) := by
        rw [← List.singleton_append, readValue_gap (by simp [isGap])]
        exact readValue_pretty depth v hv _ _ (by omega)
      have hnext := readFields_pretty depth ((j, w) :: fs) hfs (List.cons_ne_nil _ _) (f + 1) g rest
        (by omega) hg
      rw [fieldTreesOf, List.append_assoc, List.append_assoc, List.cons_append, List.cons_append,
        List.append_assoc, List.cons_append, readFields_key hvalue (isWhole_treeOf v),
        dropWhile_of_start (by decide)]
      simp only [hnext]

end

/-- A written text is read as the tree of its value, with nothing left. -/
theorem ofText_pretty {d : Data} (h : d.Plain) :
    Tree.ofText (pretty d).toList = (treeOf d, true) := by
  have hread := readValue_pretty 0 d h (2 * (prettyChars 0 d).length + 2) [] (by omega)
  rw [List.append_nil] at hread
  rw [Tree.ofText, pretty, String.toList_ofList, hread]
  rfl

end Runbook.Json
