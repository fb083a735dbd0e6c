import Runbook.Proofs.Timestamp.ReadBack

/-!
# What a reading gives can be held

Every point in time that is read from a text is `Proper`, whichever reading it is:
`readStrict_proper` and `readRelaxed_proper`.  Of the fields it matters only that the second and the
fraction are in their ranges and that the offset is one of whole minutes, so that a leap second
comes last in its minute of UTC too (`Fields.Sound`); all else about a date is looked at by
`ofFields`.
-/

namespace Runbook

/-- Two steps in sequence succeed only if the first does, and the second on what it gives. -/
theorem exists_of_bind_eq_ok {ε α β : Type} {x : Except ε α} {f : α → Except ε β} {b : β}
    (h : x.bind f = .ok b) : ∃ a, x = .ok a ∧ f a = .ok b := by
  cases x with
  | error e => cases h
  | ok a => exact ⟨a, rfl, h⟩

namespace Timestamp

open Runbook.Text

/-! ## The parts -/

theorem digit_le {c : Char} (h : isDigit c = true) : c.toNat - '0'.toNat ≤ 9 := by
  rw [isDigit, Bool.and_eq_true, decide_eq_true_eq, decide_eq_true_eq] at h
  have h9 : c.toNat ≤ 57 := h.2
  have h0 : '0'.toNat = 48 := rfl
  omega

/-- A number is bounded by the number of its digits, and there are no more than there is room
for. -/
theorem moreDigits_bound {least n : Nat} {rest : List Char} {room : Option Nat} {seen v : Nat}
    {cs : List Char} (h : moreDigits least room seen v cs = .ok (n, rest)) :
    ∃ k, cs.length = rest.length + k ∧ (∀ m, room = some m → k ≤ m) ∧ n < (v + 1) * 10 ^ k := by
  revert h
  fun_induction moreDigits least room seen v cs with
  | case1 seen v cs =>
      intro h
      cases h
      exact ⟨0, rfl, fun _ _ => Nat.zero_le _, by omega⟩
  | case2 room seen v =>
      intro h
      cases h
      exact ⟨0, rfl, fun _ _ => Nat.zero_le _, by omega⟩
  | case3 => exact fun h => nomatch h
  | case4 room seen v c cs hroom hc w hw ih =>
      intro h
      obtain ⟨k, hlen, hk, hn⟩ := ih h
      have hdigit := digit_le hc
      refine ⟨k + 1, ?_, ?_, ?_⟩
      · rw [List.length_cons]
        omega
      · intro m hm
        subst hm
        have := hk (m - 1) rfl
        have : m ≠ 0 := fun h0 => hroom (by rw [h0])
        omega
      · calc n < (w + 1) * 10 ^ k := hn
          _ ≤ ((v + 1) * 10) * 10 ^ k := Nat.mul_le_mul_right _ (by omega)
          _ = (v + 1) * 10 ^ (k + 1) := by rw [Nat.pow_succ, Nat.mul_assoc, Nat.mul_comm 10]
  | case5 => exact fun h => nomatch h
  | case6 room seen v c cs hroom hc hseen =>
      intro h
      cases h
      exact ⟨0, rfl, fun _ _ => Nat.zero_le _, by omega⟩

theorem number_bound {least m n : Nat} {cs rest : List Char}
    (h : number least (some m) cs = .ok (n, rest)) :
    ∃ k, cs.length = rest.length + k ∧ k ≤ m ∧ n < 10 ^ k := by
  rw [number] at h
  split at h
  · cases h
  · obtain ⟨k, hlen, hk, hn⟩ := moreDigits_bound h
    exact ⟨k, hlen, hk m rfl, by rwa [Nat.zero_add, Nat.one_mul] at hn⟩

/-- A fraction is less than a second. -/
theorem fraction_lt {n : Nat} {cs rest : List Char} (h : fraction cs = .ok (n, rest)) :
    n < 10 ^ 9 := by
  rw [fraction.eq_def] at h
  split at h
  · rename_i cs
    rw [fractionDigits] at h
    obtain ⟨⟨d, r⟩, hnumber, h⟩ := exists_of_bind_eq_ok h
    obtain ⟨k, hlen, hk, hd⟩ := number_bound hnumber
    cases h
    have hseen : cs.length - r.length = k := by omega
    rw [hseen]
    calc d * 10 ^ (9 - k) < 10 ^ k * 10 ^ (9 - k) :=
          Nat.mul_lt_mul_of_pos_right hd (Nat.pow_pos (by decide))
      _ = 10 ^ 9 := by rw [← Nat.pow_add, Nat.add_sub_cancel' hk]
  · cases h
    decide

theorem within_bound {low high n : Nat} {p : Part Nat} {cs rest : List Char}
    (h : within low high p cs = .ok (n, rest)) : low ≤ n ∧ n ≤ high := by
  rw [within] at h
  obtain ⟨⟨d, r⟩, -, h⟩ := exists_of_bind_eq_ok h
  dsimp only at h
  split at h
  · rename_i hrange
    cases h
    exact hrange
  · cases h

/-- An offset is one of whole minutes. -/
theorem offset_emod {between : Part Unit} {a : Int} {cs rest : List Char}
    (h : offset between cs = .ok (a, rest)) : a % 60 = 0 := by
  cases cs with
  | nil => cases h
  | cons c cs =>
      rw [offset] at h
      split at h
      · cases h
        rfl
      · split at h
        · obtain ⟨⟨hours, r⟩, -, h⟩ := exists_of_bind_eq_ok h
          obtain ⟨⟨_, r⟩, -, h⟩ := exists_of_bind_eq_ok h
          obtain ⟨⟨minutes, r⟩, -, h⟩ := exists_of_bind_eq_ok h
          have ha : (if c = '+' then (hours * 3600 + minutes * 60 : Int)
              else -(hours * 3600 + minutes * 60)) = a := congrArg Prod.fst (Except.ok.inj h)
          split at ha <;> omega
        · cases h

theorem relaxedOffset_emod {a : Int} {cs rest : List Char}
    (h : relaxedOffset cs = .ok (a, rest)) : a % 60 = 0 := by
  rw [relaxedOffset] at h
  split at h
  · split at h
    · cases h
      rfl
    · exact offset_emod h
  · exact offset_emod h

/-! ## The fields -/

/-- The second and the fraction are in their ranges, and the offset is one of whole minutes. -/
structure Fields.Sound (f : Fields) : Prop where
  /-- The second is one of the minute, or a leap second. -/
  second : f.second ≤ 60
  /-- The fraction is less than a second. -/
  nano : f.nano < 10 ^ 9
  /-- The offset is one of whole minutes. -/
  ahead : f.ahead % 60 = 0

theorem secondOfDay_emod (t : Timestamp) : (t.secondOfDay : Int) % 60 = t.seconds % 60 := by
  have := t.seconds_eq
  omega

theorem ofFields_proper {f : Fields} (hf : f.Sound) {t : Timestamp} (h : ofFields f = .ok t) :
    t.Proper := by
  obtain ⟨hsecond, hnano, hahead⟩ := hf
  have hleap : (f.second = 60 ∧ (if f.second = 60 then 1 else 0) = 1) ∨
      (if f.second = 60 then 1 else 0) = 0 := by
    by_cases hsixty : f.second = 60
    · exact .inl ⟨hsixty, if_pos hsixty⟩
    · exact .inr (if_neg hsixty)
  rw [ofFields] at h
  generalize (if f.second = 60 then 1 else 0) = leap at h hleap
  dsimp only at h
  split at h
  · cases h
  split at h
  · cases h
  split at h
  · rename_i hheld
    injection h with h
    subst h
    have hmod := secondOfDay_emod ⟨(Date.mk f.year f.month f.day).toDays * perDay + f.hour * 3600 +
      f.minute * 60 + (f.second - leap : Nat) - f.ahead, f.nano + leap * perSecond⟩
    have hday : (perDay : Int) = 86400 := rfl
    refine ⟨hheld, ?_, fun hlast => ?_⟩
    · simp only [perSecond]
      omega
    · -- the fraction runs over a second only in second sixty, which counts as the one before
      have hsixty : f.second = 60 ∧ leap = 1 := by
        simp only [perSecond] at hlast
        omega
      rw [hsixty.1, hsixty.2, hday] at hmod
      rw [hsixty.1, hsixty.2, hday]
      dsimp only at hmod
      omega
  · cases h

/-! ## The readings -/

/-- A point in time of the strict reading can be held. -/
theorem readStrict_proper {cs : List Char} {t : Timestamp} (h : readStrict cs = .ok t) :
    t.Proper := by
  rw [readStrict] at h
  obtain ⟨⟨year, r⟩, -, h⟩ := exists_of_bind_eq_ok h
  obtain ⟨⟨_, r⟩, -, h⟩ := exists_of_bind_eq_ok h
  obtain ⟨⟨month, r⟩, -, h⟩ := exists_of_bind_eq_ok h
  obtain ⟨⟨_, r⟩, -, h⟩ := exists_of_bind_eq_ok h
  obtain ⟨⟨day, r⟩, -, h⟩ := exists_of_bind_eq_ok h
  obtain ⟨⟨_, r⟩, -, h⟩ := exists_of_bind_eq_ok h
  obtain ⟨⟨hour, r⟩, -, h⟩ := exists_of_bind_eq_ok h
  obtain ⟨⟨_, r⟩, -, h⟩ := exists_of_bind_eq_ok h
  obtain ⟨⟨minute, r⟩, -, h⟩ := exists_of_bind_eq_ok h
  obtain ⟨⟨_, r⟩, -, h⟩ := exists_of_bind_eq_ok h
  obtain ⟨⟨second, r⟩, hsecond, h⟩ := exists_of_bind_eq_ok h
  obtain ⟨⟨nano, r⟩, hnano, h⟩ := exists_of_bind_eq_ok h
  obtain ⟨⟨ahead, r⟩, hahead, h⟩ := exists_of_bind_eq_ok h
  dsimp only at h
  split at h
  · cases h
  split at h
  · cases h
  exact ofFields_proper ⟨(within_bound hsecond).2, fraction_lt hnano, offset_emod hahead⟩ h

/-- A point in time of the relaxed reading can be held. -/
theorem readRelaxed_proper {cs : List Char} {t : Timestamp} (h : readRelaxed cs = .ok t) :
    t.Proper := by
  rw [readRelaxed] at h
  obtain ⟨⟨year, r⟩, -, h⟩ := exists_of_bind_eq_ok h
  obtain ⟨⟨_, r⟩, -, h⟩ := exists_of_bind_eq_ok h
  obtain ⟨⟨month, r⟩, -, h⟩ := exists_of_bind_eq_ok h
  obtain ⟨⟨_, r⟩, -, h⟩ := exists_of_bind_eq_ok h
  obtain ⟨⟨day, r⟩, -, h⟩ := exists_of_bind_eq_ok h
  obtain ⟨⟨_, r⟩, -, h⟩ := exists_of_bind_eq_ok h
  obtain ⟨⟨hour, r⟩, -, h⟩ := exists_of_bind_eq_ok h
  obtain ⟨⟨_, r⟩, -, h⟩ := exists_of_bind_eq_ok h
  obtain ⟨⟨minute, r⟩, -, h⟩ := exists_of_bind_eq_ok h
  obtain ⟨⟨_, r⟩, -, h⟩ := exists_of_bind_eq_ok h
  obtain ⟨⟨second, r⟩, hsecond, h⟩ := exists_of_bind_eq_ok h
  obtain ⟨⟨nano, r⟩, hnano, h⟩ := exists_of_bind_eq_ok h
  obtain ⟨⟨ahead, r⟩, hahead, h⟩ := exists_of_bind_eq_ok h
  dsimp only at h
  split at h
  · cases h
  exact ofFields_proper ⟨(within_bound hsecond).2, fraction_lt hnano, relaxedOffset_emod hahead⟩ h

end Timestamp
end Runbook
