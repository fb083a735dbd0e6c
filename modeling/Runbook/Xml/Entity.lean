import Runbook.Text.Ascii
import Runbook.Text.Integer

/-!
# Entity references

Five characters have a name in XML, and every character has a number.  `escape` writes the five by
their names and all else as it is; `unescape?` puts the character in place of each reference and
refuses a name it does not know, a number that is no character and an ampersand without its
semicolon.

`unescape?_escape` says that what was escaped is read back.
-/

namespace Runbook.Xml

open Runbook.Text

/-- The reference to a character that has a name. -/
def named : Char → Option (List Char)
  | '<' => some "lt".toList
  | '>' => some "gt".toList
  | '&' => some "amp".toList
  | '\'' => some "apos".toList
  | '"' => some "quot".toList
  | _ => none

/-- The character of a name. -/
def ofName? (n : List Char) : Option Char :=
  if n = "lt".toList then some '<'
  else if n = "gt".toList then some '>'
  else if n = "amp".toList then some '&'
  else if n = "apos".toList then some '\''
  else if n = "quot".toList then some '"'
  else none

/-- The text with the five characters written by name. -/
def escape : List Char → List Char
  | [] => []
  | c :: cs =>
      match named c with
      | some n => '&' :: n ++ ';' :: escape cs
      | none => c :: escape cs

/-- The character of a code point that is one, zero excepted. -/
def ofCode? (n : Nat) : Option Char :=
  if h : n.isValidChar then (if n = 0 then none else some (Char.ofNatAux n h)) else none

/-- The character of a number after `#`: up to seven decimal digits, or `x` and up to six
hexadecimal ones. -/
def ofNumber? : List Char → Option Char
  | 'x' :: ds =>
      if ds.length ≤ 6 then (natOfDigits 16 0 ds).bind ofCode? else none
  | ds => if ds.length ≤ 7 then (natOfDigits 10 0 ds).bind ofCode? else none

/-- The character a reference stands for. -/
def ofReference? : List Char → Option Char
  | '#' :: ds => ofNumber? ds
  | n => ofName? n

/-- The name of a reference, up to the semicolon, and the text behind it.  Another ampersand comes
too early. -/
def splitReference : List Char → Option (List Char × List Char)
  | [] => none
  | c :: cs =>
      if c = ';' then some ([], cs)
      else if c = '&' then none
      else (splitReference cs).map fun p => (c :: p.1, p.2)

theorem splitReference_length {cs a r : List Char} (h : splitReference cs = some (a, r)) :
    r.length < cs.length := by
  induction cs generalizing a with
  | nil => simp [splitReference] at h
  | cons c cs ih =>
    simp only [splitReference] at h
    split at h
    · simp only [Option.some.injEq, Prod.mk.injEq] at h
      simp [← h.2]
    · split at h
      · simp at h
      · simp only [Option.map_eq_some_iff] at h
        obtain ⟨p, hp, he⟩ := h
        simp only [Prod.mk.injEq] at he
        have := ih (a := p.1) (by rw [hp, ← he.2])
        simp only [List.length_cons]
        omega

/-- The text with every reference replaced. -/
def unescape? : List Char → Option (List Char)
  | [] => some []
  | c :: cs =>
      if c = '&' then
        match h : splitReference cs with
        | none => none
        | some (n, r) =>
            have : r.length < cs.length := splitReference_length h
            match ofReference? n, unescape? r with
            | some d, some ds => some (d :: ds)
            | _, _ => none
      else (unescape? cs).map (c :: ·)
termination_by cs => cs.length

/-- What a written name stands for, and how it is read. -/
theorem named_eq_some {c : Char} {n : List Char} (h : named c = some n) (r : List Char) :
    ofReference? n = some c ∧ splitReference (n ++ ';' :: r) = some (n, r) := by
  unfold named at h
  split at h <;> simp only [Option.some.injEq, reduceCtorEq] at h <;> subst h <;>
    exact ⟨by decide, by simp [splitReference]⟩

theorem unescape?_escape (cs : List Char) : unescape? (escape cs) = some cs := by
  induction cs with
  | nil => simp [escape, unescape?]
  | cons c cs ih =>
    rw [escape]
    split
    · rename_i n hn
      obtain ⟨h1, h2⟩ := named_eq_some hn (escape cs)
      rw [List.cons_append, unescape?]
      simp only [↓reduceIte]
      split
      · rename_i h
        rw [h2] at h
        contradiction
      · rename_i n' r' h
        rw [h2] at h
        simp only [Option.some.injEq, Prod.mk.injEq] at h
        obtain ⟨rfl, rfl⟩ := h
        simp [h1, ih]
    · rename_i hn
      have hc : c ≠ '&' := by
        rintro rfl
        simp [named] at hn
      rw [unescape?]
      simp [hc, ih]

end Runbook.Xml
