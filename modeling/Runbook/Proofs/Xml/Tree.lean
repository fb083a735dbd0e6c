import Runbook.Proofs.Xml.Tokens

/-!
# The tree of a written element

The tokens of a written element build the tree that was meant: its attributes are read back one by
one, its text is unescaped, and the blanks between the elements of a block become the block's own
text.  `ofText_document` puts this together for a whole document.
-/

namespace Runbook.Xml

open Runbook.Text

/-! ## Attributes -/

theorem nextAttribute_attributeText {a : String × String} (ha : isCleanName a.1 = true)
    (cs : List Char) :
    nextAttribute (Layout.attributeText a ++ cs) =
      .found a.1.toList (escape a.2.toList) cs := by
  obtain ⟨c, ds, hc, hall⟩ := isCleanName_cons ha
  have hgap : isGap c = false := isGap_of_isNameChar (hall c List.mem_cons_self)
  have hblank : (' ' :: c :: ds ++ '=' :: '"' :: (escape a.2.toList ++ '"' :: cs)).dropWhile
      isGap = c :: (ds ++ '=' :: '"' :: (escape a.2.toList ++ '"' :: cs)) := by
    rw [List.cons_append, List.cons_append, List.dropWhile_cons_of_pos (by decide),
      List.dropWhile_cons_of_neg (by rw [hgap]; decide)]
  have hinner : ∀ d ∈ ds, (!(d == '=' || isGap d)) = true := by
    intro d hd
    have hname := hall d (List.mem_cons_of_mem c hd)
    simp [isGap_of_isNameChar hname, isNameChar_ne hname (show isNameChar '=' = false by decide)]
  have hquote : ∀ d ∈ escape a.2.toList, (d != '"') = true := by
    intro d hd
    have hne : d ≠ '"' := by
      rintro rfl
      exact notMem_escape (by decide) (by decide) _ hd
    simp [hne]
  have hgapEquals : isGap '=' = false := by decide
  have hgapQuote : isGap '"' = false := by decide
  have hsplit : Layout.attributeText a ++ cs =
      ' ' :: c :: ds ++ '=' :: '"' :: (escape a.2.toList ++ '"' :: cs) := by
    simp [Layout.attributeText, hc]
  rw [nextAttribute, hsplit, hblank]
  simp only [List.takeWhile_append_of_pos hinner, List.dropWhile_append_of_pos hinner]
  simp only [beq_self_eq_true, Bool.true_or, Bool.not_true, Bool.false_eq_true, not_false_eq_true,
    List.takeWhile_cons_of_neg, List.dropWhile_cons_of_neg, hgapEquals, hgapQuote, true_or, if_true,
    List.takeWhile_append_of_pos hquote, List.dropWhile_append_of_pos hquote, bne_self_eq_false,
    List.append_nil, hc]

/-- The attributes of a written tag, as they stand in it. -/
theorem readAttributes_flatMap : ∀ (as : List (String × String)) (before : List RawAttribute)
    (fuel : Nat), (∀ a ∈ as, isCleanName a.1 = true) → (as.map (·.1)).Nodup →
    (∀ a ∈ as, ∀ b ∈ before, b.1 ≠ a.1.toList) → as.length < fuel →
      readAttributes fuel before (as.flatMap Layout.attributeText) =
        some (before ++ as.map fun a => (a.1.toList, escape a.2.toList))
  | _, _, 0, _, _, _, hfuel => absurd hfuel (by omega)
  | [], before, fuel + 1, _, _, _, _ => by simp [readAttributes, nextAttribute]
  | a :: as, before, fuel + 1, hclean, hdup, hbefore, hfuel => by
      rw [List.map_cons, List.nodup_cons] at hdup
      have hnew : before.any (·.1 == a.1.toList) = false := by
        rw [List.any_eq_false]
        intro b hb
        simpa using hbefore a List.mem_cons_self b hb
      have hrest : ∀ b ∈ as, ∀ r ∈ before ++ [(a.1.toList, escape a.2.toList)],
          r.1 ≠ b.1.toList := by
        intro b hb r hr
        cases List.mem_append.mp hr with
        | inl hr => exact hbefore b (List.mem_cons_of_mem a hb) r hr
        | inr hr =>
            cases List.mem_singleton.mp hr
            intro he
            exact hdup.1 (List.mem_map.mpr ⟨b, hb, (String.toList_inj.mp he).symm⟩)
      rw [List.flatMap_cons, readAttributes,
        nextAttribute_attributeText (hclean a List.mem_cons_self)]
      simp only [hnew, Bool.false_eq_true, if_false]
      rw [readAttributes_flatMap as _ fuel (fun b hb => hclean b (List.mem_cons_of_mem a hb))
        hdup.2 hrest (Nat.lt_of_succ_lt_succ hfuel)]
      simp

theorem localName_of_clean {n : String} (h : isCleanName n = true) :
    localName n.toList = n.toList := by
  have hcolon : n.toList.contains ':' = false := by
    rw [Bool.eq_false_iff]
    intro hm
    exact absurd (isNameChar_of_mem h (List.contains_iff_mem.mp hm)) (by decide)
  rw [localName, if_neg (by rw [hcolon]; decide)]

theorem declaresNamespace_of_clean {n : String} (h : isCleanName n = true) (hx : n ≠ "xmlns") :
    declaresNamespace n.toList = false := by
  have hname : (n.toList == "xmlns".toList) = false := by
    rw [beq_eq_false_iff_ne]
    exact fun he => hx (String.toList_inj.mp he)
  have hlead : "xmlns:".toList.isPrefixOf n.toList = false := by
    rw [Bool.eq_false_iff]
    intro hp
    have hm : ':' ∈ n.toList := (List.isPrefixOf_iff_prefix.mp hp).subset (by decide)
    exact absurd (isNameChar_of_mem h hm) (by decide)
  rw [declaresNamespace, hname, hlead, Bool.or_false]

namespace Element

/-- The attributes of a written tag are read back. -/
theorem attributesOf?_flatMap {as : List (String × String)} (h : CleanAttributes as) :
    attributesOf? (as.flatMap Layout.attributeText) = some as := by
  have hlen : as.length < (as.flatMap Layout.attributeText).length + 1 := by
    have : as.length ≤ (as.flatMap Layout.attributeText).length := by
      induction as with
      | nil => simp
      | cons a as ih =>
          have := ih ⟨fun b hb => h.1 b (List.mem_cons_of_mem a hb), (List.nodup_cons.mp h.2).2⟩
          simp only [List.flatMap_cons, List.length_append, List.length_cons,
            Layout.attributeText]
          omega
    omega
  have hread : attributes? (as.flatMap Layout.attributeText) =
      some (as.map fun a => (a.1.toList, escape a.2.toList)) := by
    rw [attributes?, readAttributes_flatMap as [] _ (fun a ha => (h.1 a ha).1) h.2 (by simp) hlen,
      List.nil_append]
  have hkeep : (as.map fun a => (a.1.toList, escape a.2.toList)).filter
      (fun a => !declaresNamespace a.1) = as.map fun a => (a.1.toList, escape a.2.toList) := by
    rw [List.filter_eq_self]
    intro r hr
    obtain ⟨a, ha, rfl⟩ := List.mem_map.mp hr
    rw [declaresNamespace_of_clean (h.1 a ha).1 (h.1 a ha).2]
    rfl
  have hvalues : ∀ bs : List (String × String), (∀ b ∈ bs, isCleanName b.1 = true) →
      (bs.map fun a => (a.1.toList, escape a.2.toList)).mapM (fun a =>
        (unescape? a.2).map fun v => (String.ofList (localName a.1), String.ofList v)) =
      some bs := by
    intro bs hbs
    induction bs with
    | nil => rfl
    | cons b bs ih =>
        rw [List.map_cons, List.mapM_cons, ih fun c hc => hbs c (List.mem_cons_of_mem b hc)]
        simp [unescape?_escape, localName_of_clean (hbs b List.mem_cons_self)]
  rw [attributesOf?, hread, Option.bind_some, hkeep, hvalues as fun a ha => (h.1 a ha).1]

theorem Open.ofTag?_clean {name : String} {as : List (String × String)}
    (hn : isCleanName name = true) (has : CleanAttributes as) :
    ofTag? name.toList (as.flatMap Layout.attributeText) =
      some ⟨name.toList, name, as, [], []⟩ := by
  rw [ofTag?, attributesOf?_flatMap has, Option.map_some, localName_of_clean hn,
    String.ofList_toList]

/-! ## Taking tokens -/

namespace Reading

theorem takeAll_append (r : Reading) (ts us : List Token) :
    r.takeAll (ts ++ us) = (r.takeAll ts).bind (·.takeAll us) := by
  induction ts generalizing r with
  | nil => rfl
  | cons t ts ih =>
      rw [List.cons_append, takeAll, takeAll]
      cases r.take t with
      | ok r => exact ih r
      | error f => rfl

theorem takeAll_singleton (r : Reading) (t : Token) : r.takeAll [t] = r.take t := by
  rw [takeAll]
  cases r.take t <;> rfl

theorem takeAll_cons_of_take {r r' : Reading} {t : Token} (h : r.take t = .ok r')
    (ts : List Token) : r.takeAll (t :: ts) = r'.takeAll ts := by
  rw [takeAll, h]

/-- A text without an ampersand stands for itself. -/
theorem unescape?_of_notMem : ∀ {cs : List Char}, '&' ∉ cs → unescape? cs = some cs
  | [], _ => by rw [unescape?]
  | c :: cs, h => by
      have hc : c ≠ '&' := fun he => h (he ▸ List.mem_cons_self)
      rw [unescape?, if_neg hc, unescape?_of_notMem fun hm => h (List.mem_cons_of_mem c hm)]
      rfl

theorem take_newLine (o : Open) (os : List Open) (root : Option Element) (depth : Nat) :
    (Reading.mk (o :: os) root).take (.text (Layout.newLine depth)) =
      .ok ⟨{ o with text := Layout.newLine depth :: o.text } :: os, root⟩ := by
  have hraw : unescape? (Layout.newLine depth) = some (Layout.newLine depth) :=
    unescape?_of_notMem (by simp [Layout.newLine])
  simp [take, hraw, addText]

/-- A text written between tags. -/
theorem take_escape (o : Open) (os : List Open) (root : Option Element) (t : List Char) :
    (Reading.mk (o :: os) root).take (.text (escape t)) =
      .ok ⟨{ o with text := t :: o.text } :: os, root⟩ := by
  simp [take, unescape?_escape, addText]

theorem take_start {name : String} {as : List (String × String)} (hn : isCleanName name = true)
    (has : CleanAttributes as) (stack : List Open) (root : Option Element) :
    (Reading.mk stack root).take (.start name.toList (as.flatMap Layout.attributeText)) =
      .ok ⟨⟨name.toList, name, as, [], []⟩ :: stack, root⟩ := by
  simp only [take, Open.ofTag?_clean hn has]

theorem take_stop (o : Open) (os : List Open) (root : Option Element) :
    (Reading.mk (o :: os) root).take (.stop o.fullName) = (Reading.mk os root).attach o.close := by
  simp [take]

end Reading

end Element

namespace Layout

open Element Element.Reading

mutual

/-- The tokens of a written element put its tree where the element stands. -/
theorem takeAll_tokens : ∀ (depth : Nat) (l : Layout), l.Clean → ∀ (stack : List Open)
    (root : Option Element),
      (Reading.mk stack root).takeAll (l.tokens depth) =
        (Reading.mk stack root).attach (l.toElement depth)
  | depth, .leaf name as t, h, stack, root => by
      rw [Clean] at h
      rw [tokens, toElement]
      by_cases ht : t.isEmpty = true
      · have hempty : t = "" := String.isEmpty_iff.mp ht
        subst hempty
        rw [if_pos ht, takeAll_singleton]
        simp only [take, Open.ofTag?_clean h.1 h.2]
        rfl
      · rw [if_neg ht, takeAll_cons_of_take (take_start h.1 h.2 stack root),
          takeAll_cons_of_take (take_escape _ stack root t.toList), takeAll_singleton]
        rw [take_stop ⟨name.toList, name, as, [], [t.toList]⟩]
        simp [Open.close]
  | depth, .block name as content, h, stack, root => by
      rw [Clean] at h
      rw [tokens, toElement, takeAll_cons_of_take (take_start h.1 h.2.1 stack root),
        takeAll_append, takeAll_contentTokens (depth + 1) content h.2.2]
      simp only [Except.bind]
      rw [takeAll_cons_of_take (take_newLine _ stack root depth), takeAll_singleton]
      rw [take_stop ⟨name.toList, name, as, _, _⟩]
      simp [Open.close]

/-- The tokens of the content of a block put its trees into the innermost open element. -/
theorem takeAll_contentTokens : ∀ (depth : Nat) (ls : List Layout), AllClean ls → ∀ (o : Open)
    (os : List Open) (root : Option Element),
      (Reading.mk (o :: os) root).takeAll (contentTokens depth ls) =
        .ok ⟨{ o with
          children := (toElements depth ls).reverse ++ o.children
          text := List.replicate ls.length (newLine depth) ++ o.text } :: os, root⟩
  | depth, [], _, o, os, root => by simp [contentTokens, toElements, takeAll]
  | depth, l :: ls, h, o, os, root => by
      rw [AllClean] at h
      rw [contentTokens, toElements, takeAll_cons_of_take (take_newLine o os root depth),
        takeAll_append, takeAll_tokens depth l h.1]
      simp only [attach, Except.bind]
      rw [takeAll_contentTokens depth ls h.2]
      simp [List.replicate_succ', List.append_assoc]

end

/-- The declaration of a document is passed over. -/
theorem scan_declaration (cs : List Char) :
    Token.scan ("<?xml version=\"1.0\" encoding=\"utf-8\"?>".toList ++ cs) =
      .aside :: Token.scan cs := by
  have hsplit : "<?xml version=\"1.0\" encoding=\"utf-8\"?>".toList ++ cs =
      '<' :: '?' :: ("xml version=\"1.0\" encoding=\"utf-8\"?".toList ++ '>' :: cs) := by
    simp
  have haside : Token.ofInstruction "xml version=\"1.0\" encoding=\"utf-8\"?".toList = .aside := by
    decide
  rw [hsplit, Token.scan_question, Token.upTo_append (by decide), haside]

/-- The characters of a document. -/
theorem toList_document (root : Layout) : (document root).toList =
    "<?xml version=\"1.0\" encoding=\"utf-8\"?>".toList ++ (newLine 0 ++ chars 0 root) := by
  delta document
  rw [String.toList_ofList, List.append_assoc]

/-- A document starts with no byte order mark. -/
theorem ofText_declaration (cs : List Char) :
    Token.ofText ("<?xml version=\"1.0\" encoding=\"utf-8\"?>".toList ++ cs) =
      .aside :: Token.scan cs := by
  rw [← scan_declaration]
  exact Token.ofText.eq_2 _ (by simp)

/-- A written document is read as the tree that was meant. -/
theorem ofText_document {root : Layout} (h : root.Clean) :
    Element.ofText (document root).toList = .ok (root.toElement 0) := by
  obtain ⟨cs, hcs⟩ := chars_eq_cons 0 root
  have hroot : Token.scan (root.chars 0) = root.tokens 0 := by
    simpa [Token.scan] using scan_chars 0 root h []
  have htokens : Token.scan (newLine 0 ++ chars 0 root) = .text (newLine 0) :: root.tokens 0 := by
    rw [hcs, Token.scan_text (Token.newLine_ne_nil 0) (Token.mark_notMem_newLine 0), ← hcs, hroot]
  have haside : (Reading.mk [] none).take .aside = .ok (Reading.mk [] none) := rfl
  have hgap : (Reading.mk [] none).take (.text (newLine 0)) = .ok (Reading.mk [] none) := rfl
  rw [Element.ofText, toList_document, ofText_declaration, htokens, takeAll_cons_of_take haside,
    takeAll_cons_of_take hgap, takeAll_tokens 0 root h]
  rfl

end Layout
end Runbook.Xml
