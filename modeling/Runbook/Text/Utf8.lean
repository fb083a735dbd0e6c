/-!
# UTF-8

The bytes of a text, and the text of a run of bytes in two readings.  The strict one refuses bytes
that are no UTF-8.  The lenient one puts one replacement character where bytes do not fit, once
for every maximal start of a character.
-/

namespace Runbook.Text

/-- The bytes of one character. -/
def charBytes (c : Char) : List UInt8 :=
  let n := c.toNat
  if n < 0x80 then [n.toUInt8]
  else if n < 0x800 then [(0xC0 + n / 64).toUInt8, (0x80 + n % 64).toUInt8]
  else if n < 0x10000 then
    [(0xE0 + n / 4096).toUInt8, (0x80 + n / 64 % 64).toUInt8, (0x80 + n % 64).toUInt8]
  else
    [(0xF0 + n / 262144).toUInt8, (0x80 + n / 4096 % 64).toUInt8,
      (0x80 + n / 64 % 64).toUInt8, (0x80 + n % 64).toUInt8]

/-- The bytes of a text. -/
def utf8Bytes (cs : List Char) : List UInt8 := cs.flatMap charBytes

/-- What a first byte asks for: the bits it carries and the ranges of the bytes that follow. -/
structure Lead where
  /-- The bits of the first byte. -/
  bits : Nat
  /-- For each further byte the least and the greatest value. -/
  follow : List (Nat × Nat)

/-- The reading of a first byte.  The ranges leave out overlong forms, surrogates and everything
beyond the last code point. -/
def Lead.ofByte? (b : UInt8) : Option Lead :=
  let n := b.toNat
  let tail := (0x80, 0xBF)
  if n < 0x80 then some ⟨n, []⟩
  else if 0xC2 ≤ n ∧ n ≤ 0xDF then some ⟨n - 0xC0, [tail]⟩
  else if n = 0xE0 then some ⟨0, [(0xA0, 0xBF), tail]⟩
  else if n = 0xED then some ⟨0xD, [(0x80, 0x9F), tail]⟩
  else if 0xE1 ≤ n ∧ n ≤ 0xEF then some ⟨n - 0xE0, [tail, tail]⟩
  else if n = 0xF0 then some ⟨0, [(0x90, 0xBF), tail, tail]⟩
  else if 0xF1 ≤ n ∧ n ≤ 0xF3 then some ⟨n - 0xF0, [tail, tail, tail]⟩
  else if n = 0xF4 then some ⟨4, [(0x80, 0x8F), tail, tail]⟩
  else none

/-- Reads the further bytes of a character: its code point, or nothing where a byte does not fit,
and the bytes left. -/
def readFollow (bits : Nat) : List (Nat × Nat) → List UInt8 → Option Nat × List UInt8
  | [], bs => (some bits, bs)
  | _ :: _, [] => (none, [])
  | r :: rs, b :: bs =>
      if r.1 ≤ b.toNat ∧ b.toNat ≤ r.2 then readFollow (bits * 64 + (b.toNat - 0x80)) rs bs
      else (none, b :: bs)

theorem readFollow_length (bits : Nat) (rs : List (Nat × Nat)) (bs : List UInt8) :
    (readFollow bits rs bs).2.length ≤ bs.length := by
  induction rs generalizing bits bs with
  | nil => simp [readFollow]
  | cons r rs ih =>
    cases bs with
    | nil => simp [readFollow]
    | cons b bs =>
      simp only [readFollow]
      split
      · exact Nat.le_trans (ih _ bs) (by simp)
      · simp

/-- The characters of a run of bytes, with nothing where bytes do not fit. -/
def decodeEach : List UInt8 → List (Option Char)
  | [] => []
  | b :: bs =>
      match Lead.ofByte? b with
      | none => none :: decodeEach bs
      | some lead =>
          let r := readFollow lead.bits lead.follow bs
          (r.1.map Char.ofNat) :: decodeEach r.2
termination_by bs => bs.length
decreasing_by
  · simp
  · have := readFollow_length lead.bits lead.follow bs
    simp only [List.length_cons]
    omega

/-- The text of a run of bytes, or nothing where they are no UTF-8. -/
def decodeStrict? (bs : List UInt8) : Option (List Char) := (decodeEach bs).mapM id

/-- The text of a run of bytes, with replacement characters where they are no UTF-8. -/
def decodeLenient (bs : List UInt8) : List Char := (decodeEach bs).map (·.getD '\ufffd')

end Runbook.Text
