import Runbook.Proofs.Yaml.Scan

/-!
# The tokens of a document

A document holds only characters that a text may hold, since all others are escaped.  Its tokens are
those of its fields, in one record that starts at the left and ends with the text.
-/

namespace Runbook.Yaml

open Reading

/-! ## Allowed characters -/

/-- Only characters that a text may hold. -/
def AllAllowed (cs : List Char) : Prop := ∀ c ∈ cs, isAllowed c = true

namespace AllAllowed

theorem nil : AllAllowed [] := fun _ h => absurd h List.not_mem_nil

theorem append {cs ds : List Char} (h : AllAllowed cs) (h' : AllAllowed ds) :
    AllAllowed (cs ++ ds) :=
  fun c hc => (List.mem_append.mp hc).elim (h c) (h' c)

theorem cons {c : Char} {cs : List Char} (h : isAllowed c = true) (h' : AllAllowed cs) :
    AllAllowed (c :: cs) := by
  intro d hd
  cases List.mem_cons.mp hd with
  | inl he => rwa [he]
  | inr hd => exact h' d hd

theorem of_shown {cs : List Char} (h : ∀ c ∈ cs, isShown c = true) : AllAllowed cs :=
  fun c hc => isAllowed_of_isShown (h c hc)

theorem blanks (n : Nat) : AllAllowed (List.replicate n ' ') := by
  intro c hc
  rw [List.eq_of_mem_replicate hc]
  rfl

theorem newLine (isOpen : Bool) : AllAllowed (if isOpen then ['\n'] else []) := by
  cases isOpen
  · exact nil
  · exact cons rfl nil

theorem lineStart (isOpen : Bool) (n : Nat) : AllAllowed (lineStart isOpen n) :=
  (newLine isOpen).append (blanks n)

theorem doubleQuotedChar (c : Char) : AllAllowed (doubleQuotedChar c) := by
  have hescaped := escaped_doubleQuotedChar c
  generalize Yaml.doubleQuotedChar c = written at hescaped ⊢
  cases hescaped with
  | shown h => exact of_shown (by simpa using h)
  | letter _ he => exact cons rfl (of_shown (by simpa using he.1))
  | code _ _ _ hshown _ => exact cons rfl (of_shown fun d hd => (hshown d hd).1)

theorem indented {indent : Nat} {write : Char → List Char} : ∀ (fresh : Bool) {s : List Char},
    (∀ c ∈ s, isShown c = true ∧ AllAllowed (write c)) → AllAllowed (indented indent write fresh s)
  | _, [], _ => nil
  | fresh, c :: s, h => by
      obtain ⟨hshown, hwrite⟩ := h c List.mem_cons_self
      have hrest := fun d hd => h d (List.mem_cons_of_mem c hd)
      rw [Yaml.indented]
      split
      · exact cons (isAllowed_of_isShown hshown) (indented true hrest)
      · refine (append ?_ hwrite).append (indented false hrest)
        cases fresh
        · exact nil
        · exact blanks indent

theorem headMarks (given : Bool) (chomp : Chomp) : AllAllowed (headMarks given chomp) := by
  have hshown : (Yaml.headMarks given chomp).all isShown = true := by
    cases given <;> cases chomp <;> rfl
  exact of_shown (List.all_eq_true.mp hshown)

/-- A text in any style is written with characters that a text may hold. -/
theorem textChars (indent : Nat) (s : List Char) : AllAllowed (textChars indent s).1 := by
  have hstyle := styleFor_ofText s
  rw [textChars_eq]
  generalize Style.ofText s = style at hstyle ⊢
  cases hstyle with
  | plain h => exact of_shown h.shown
  | singleQuoted h =>
      refine cons rfl ((append (indented false ?_) ?_).append (cons rfl nil))
      · intro c hc
        refine ⟨(h.shown c hc).1, ?_⟩
        split
        · exact cons rfl (cons rfl nil)
        · exact cons (isAllowed_of_isShown (h.shown c hc).1) nil
      · split
        · exact blanks indent
        · exact nil
  | doubleQuoted =>
      refine cons rfl (append ?_ (cons rfl nil))
      intro c hc
      obtain ⟨d, -, hd⟩ := List.mem_flatMap.mp hc
      exact doubleQuotedChar d c hd
  | block hline h =>
      dsimp only
      rw [blockChars, blockHead_eq]
      refine append (cons rfl (headMarks _ _)) (cons rfl (indented true fun c hc => ⟨h c hc, ?_⟩))
      exact cons (isAllowed_of_isShown (h c hc)) nil

theorem scalarWritten (indent : Nat) {d : Data} (h : IsScalar d) :
    AllAllowed (scalarWritten indent d).1 := by
  cases h with
  | bool v => exact of_shown (plainly_bool v).shown
  | text s => exact textChars indent s.toList

end AllAllowed

mutual

theorem allAllowed_value : ∀ (d : Data), Laid d → ∀ n : Nat, AllAllowed (valueWritten n d).1
  | .bool v, _, _ => .cons rfl (.scalarWritten _ (.bool v))
  | .text s, _, _ => .cons rfl (.scalarWritten _ (.text s))
  | .list [], _, _ => .cons rfl (.cons rfl (.cons rfl .nil))
  | .list (d :: ds), h, n => allAllowed_items (d :: ds) h (.lineStart true n) true
  | .record [], h, _ => absurd rfl h.1
  | .record (f :: fs), h, n => allAllowed_fields (f :: fs) h.2.2 (.lineStart true (n + 2)) true

theorem allAllowed_item : ∀ (d : Data), Laid d → ∀ n : Nat, AllAllowed (itemWritten n d).1
  | .bool v, _, _ => .scalarWritten _ (.bool v)
  | .text s, _, _ => .scalarWritten _ (.text s)
  | .list [], _, _ => .cons rfl (.cons rfl .nil)
  | .list (d :: ds), h, _ => allAllowed_items (d :: ds) h .nil true
  | .record [], h, _ => absurd rfl h.1
  | .record (f :: fs), h, _ => allAllowed_fields (f :: fs) h.2.2 .nil true

theorem allAllowed_items : ∀ (ds : List Data), ItemsLaid ds → ∀ {n : Nat} {lead : List Char},
    AllAllowed lead → ∀ isOpen, AllAllowed (itemsWritten n lead isOpen ds).1
  | [], _, _, _, _, _ => .nil
  | d :: ds, h, n, lead, hlead, isOpen => by
      have hitem := allAllowed_item d h.2.1 n
      have hstart : AllAllowed (lineStart (itemWritten n d).2 n) := .lineStart _ n
      have hrest := allAllowed_items ds h.2.2 (n := n) hstart (itemWritten n d).2
      rw [itemsWritten]
      exact (hlead.append (.cons rfl (.cons rfl hitem))).append hrest

theorem allAllowed_fields : ∀ (fs : List (Data × Data)), FieldsLaid fs → ∀ {n : Nat}
    {lead : List Char}, AllAllowed lead → ∀ isOpen, AllAllowed (fieldsWritten n lead isOpen fs).1
  | [], _, _, _, _, _ => .nil
  | (k, v) :: fs, h, n, lead, hlead, isOpen => by
      obtain ⟨⟨s, hk, -⟩, hv, hfs⟩ := h
      have hkey : AllAllowed (scalarWritten (n + 2) k).1 := hk ▸ .scalarWritten (n + 2) (.text s)
      have hvalue := allAllowed_value v hv n
      have hitem := allAllowed_item v hv n
      have hfield : AllAllowed (fieldWritten n k (fun _ => valueWritten n v)
          (fun _ => itemWritten n v)).1 := by
        rw [fieldWritten]
        split
        · exact hkey.append (.cons rfl hvalue)
        · exact ((AllAllowed.cons rfl (.cons rfl hkey)).append (.lineStart _ n)).append
            (.cons rfl (.cons rfl hitem))
      rw [fieldsWritten]
      exact (hlead.append hfield).append (allAllowed_fields fs hfs (.lineStart _ n) _)

end

/-! ## The tokens of a document -/

theorem toList_print {f : Data × Data} {fs : List (Data × Data)} :
    (print (.record (f :: fs))).toList = (fieldsWritten 0 [] true (f :: fs)).before 0 [] := by
  rw [print, String.toList_ofList, Written.before, List.replicate_zero, List.nil_append,
    List.append_nil]
  rfl

/-- The tokens of a written record. -/
theorem ofChars_print {fs : List (Data × Data)} (h : Laid (.record fs)) :
    Token.ofChars (print (.record fs)).toList =
      .blockRecord :: (fieldTokens fs ++ [.blockEnd, .streamEnd]) := by
  obtain ⟨hne, -, hfs⟩ := h
  have hprint : (print (.record fs)).toList = (fieldsWritten 0 [] true fs).before 0 [] := by
    cases fs with
    | nil => exact absurd rfl hne
    | cons f fs => exact toList_print
  have hallowed : ((fieldsWritten 0 [] true fs).before 0 []).all isAllowed = true := by
    rw [List.all_eq_true]
    exact (allAllowed_fields fs hfs .nil true).append ((AllAllowed.newLine _).append .nil)
  have hready : Ready (start ((fieldsWritten 0 [] true fs).before 0 [])) (-1, [], [])
      ((fieldsWritten 0 [] true fs).before 0 []) 0 := by
    have hclear : Clear ((fieldsWritten 0 [] true fs).before 0 []) := clear_fieldsWritten hne hfs
    exact ready_blanks (b := (-1, [], [])) hclear 0 0 0 0
  obtain ⟨r, b, hsteps, hend, hclosed⟩ := reads_fields fs hfs hne (Nat.le_refl 0) clear_nil hready
  obtain ⟨f, hf, hall⟩ := hsteps (((fieldsWritten 0 [] true fs).before 0 []).length + 1)
    (Nat.lt_succ_self _)
  have hblocks : b.closed (-1) =
      (-1, [], .blockEnd :: ((fieldTokens fs).reverse ++ [.blockRecord])) := by
    rw [← Blocks.closed_closed (n := (0 : Nat)) (by omega) (by omega), hclosed]
    rfl
  rw [hprint, Token.ofChars, if_pos hallowed, hall, all_of_ready_end hend (by omega), hblocks]
  simp

end Runbook.Yaml
