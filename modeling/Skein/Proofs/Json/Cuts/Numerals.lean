import Skein.Proofs.Json.Cuts.Decoders
import Skein.Proofs.Json.Values

/-!
# What is read as a number is one

The converse of reading what the grammar calls a number: whatever can be read as a number
is one of the grammar, and a natural number can be read in one way only, from its
digits (`writeNat_of_readNumber`).
-/

namespace Skein

namespace Json

variable {s t r : List Char}

/-! ## Numerals -/

theorem digits_dropWhile (s : List Char) : Digits s (s.dropWhile Char.isDigit) := by
  induction s with
  | nil => exact .none _
  | cons c s ih =>
    cases hdigit : c.isDigit with
    | true =>
      rw [List.dropWhile_cons_of_pos hdigit]
      exact .more hdigit ih
    | false =>
      rw [List.dropWhile_cons_of_neg (Bool.eq_false_iff.mp hdigit)]
      exact .none _

/-- Digits of which there is at least one. -/
theorem digits_of_starts (hstarts : startsWithDigit s = true) :
    ∃ d u, s = d :: u ∧ d.isDigit = true ∧ Digits u (s.dropWhile Char.isDigit) := by
  cases s with
  | nil => cases hstarts
  | cons d u =>
    have hdigit : d.isDigit = true := hstarts
    refine ⟨d, u, rfl, hdigit, ?_⟩
    rw [List.dropWhile_cons_of_pos hdigit]
    exact digits_dropWhile u

theorem exponent_of_skipExponent {e : Char} (hletter : e = 'e' ∨ e = 'E')
    (h : skipExponent s = .ok r) : Exponent (e :: s) r := by
  have hsigned {u : List Char} (hsign : Sign s u)
      (h : (if startsWithDigit u then .ok (u.dropWhile Char.isDigit)
        else .error (Fault.badNumber.on u)) = (.ok r : Except Stop (List Char))) :
      Exponent (e :: s) r := by
    split at h
    · next hstarts =>
      obtain rfl := Except.ok.inj h
      obtain ⟨d, u, rfl, hdigit, hrest⟩ := digits_of_starts hstarts
      exact .digits hletter hsign hdigit hrest
    · cases h
  unfold skipExponent at h
  split at h
  · exact hsigned (.plus _) h
  · exact hsigned (.minus _) h
  · exact hsigned (.none _) h

theorem exponent_of_skipScale (h : skipScale s = .ok r) : Exponent s r := by
  unfold skipScale at h
  split at h
  · exact exponent_of_skipExponent (.inl rfl) h
  · exact exponent_of_skipExponent (.inr rfl) h
  · obtain rfl := Except.ok.inj h
    exact .none _

theorem parts_of_skipTail (h : skipTail s = .ok r) : ∃ u, Fraction s u ∧ Exponent u r := by
  by_cases hpoint : ∃ rest, s = '.' :: rest
  · obtain ⟨rest, rfl⟩ := hpoint
    cases hstarts : startsWithDigit rest with
    | false =>
      rw [skipTail, hstarts] at h
      cases h
    | true =>
      obtain ⟨d, u, rfl, hdigit, hdigits⟩ := digits_of_starts hstarts
      rw [skipTail, if_pos hstarts] at h
      exact ⟨_, .digits hdigit hdigits, exponent_of_skipScale h⟩
  · rw [skipTail_scale fun rest hsame => hpoint ⟨rest, hsame⟩] at h
    exact ⟨s, .none _, exponent_of_skipScale h⟩

theorem unsigned_of_skipUnsigned (h : skipUnsigned s = .ok r) : Unsigned s r := by
  unfold skipUnsigned at h
  split at h
  · split at h
    · cases h
    · obtain ⟨u, hfraction, hexponent⟩ := parts_of_skipTail h
      exact .parts (.zero _) hfraction hexponent
  · next c rest hzero =>
    split at h
    · next hdigit =>
      obtain ⟨u, hfraction, hexponent⟩ := parts_of_skipTail h
      exact .parts (.digits hdigit hzero (digits_dropWhile rest)) hfraction hexponent
    · cases h
  · cases h

theorem numeral_of_readNumber {x : Number} (h : readNumber s = .ok (x, r)) : Numeral s r := by
  unfold readNumber at h
  split at h
  · exact .negative (unsigned_of_skipUnsigned (readUnsigned_cut h).2)
  · exact .positive (unsigned_of_skipUnsigned (readUnsigned_cut h).2)

/-! ## Natural numbers -/

theorem digitValue_lt {c : Char} (hdigit : c.isDigit = true) : digitValue c < 10 := by
  have hrange : 48 ≤ c.toNat ∧ c.toNat ≤ 57 := Char.isDigit_iff_toNat.mp hdigit
  rw [digitValue]
  omega

theorem digitChar_digitValue {c : Char} (hdigit : c.isDigit = true) :
    (digitValue c).digitChar = c := by
  have hrange : 48 ≤ c.toNat ∧ c.toNat ≤ 57 := Char.isDigit_iff_toNat.mp hdigit
  rw [← Char.toNat_inj, Nat.toNat_digitChar_of_lt_ten (digitValue_lt hdigit), digitValue]
  omega

/-- The digits that a significand has taken up are its last ones. -/
theorem toDigits_absorb {k f n : Nat} (hsome : 0 < k) (h : absorb k s = (f, n, r)) :
    ∃ ds, s = ds ++ r ∧ Nat.toDigits 10 f = Nat.toDigits 10 k ++ ds := by
  induction s generalizing k f n r with
  | nil =>
    obtain ⟨rfl, -, rfl⟩ : k = f ∧ 0 = n ∧ [] = r := by simpa [absorb] using h
    exact ⟨[], rfl, (List.append_nil _).symm⟩
  | cons c s ih =>
    rw [absorb] at h
    split at h
    · next hroom =>
      have hdigit : c.isDigit = true := (Bool.and_eq_true_iff.mp hroom).1
      have hsmall := digitValue_lt hdigit
      cases hmore : absorb (k * 10 + digitValue c) s with
      | mk f' rest =>
        obtain ⟨n', left⟩ := rest
        rw [hmore] at h
        obtain ⟨rfl, -, rfl⟩ : f' = f ∧ n' + 1 = n ∧ left = r := by simpa using h
        obtain ⟨ds, rfl, hdigits⟩ := ih (by omega) hmore
        refine ⟨c :: ds, rfl, ?_⟩
        rw [hdigits, Nat.toDigits_of_base_le (by omega) (by omega),
          show (k * 10 + digitValue c) / 10 = k by omega,
          show (k * 10 + digitValue c) % 10 = digitValue c by omega, digitChar_digitValue hdigit,
          List.append_assoc]
        rfl
    · obtain ⟨rfl, -, rfl⟩ : k = f ∧ 0 = n ∧ c :: s = r := by simpa using h
      exact ⟨[], rfl, (List.append_nil _).symm⟩

theorem float_ne_natural {x : Except Stop (Float × List Char)} {k : Nat} :
    (x >>= fun p => .ok (Number.float p.1, p.2)) ≠ .ok (.natural k, r) := by
  intro h
  obtain ⟨p, -, hgiven⟩ := bind_ok h
  cases (ok_inj hgiven).1

theorem readTail_natural {positive : Bool} {significand k : Nat}
    (h : readTail positive significand s = .ok (.natural k, r)) :
    positive = true ∧ k = significand ∧ s = r := by
  unfold readTail at h
  split at h
  · exact absurd h float_ne_natural
  · exact absurd h float_ne_natural
  · exact absurd h float_ne_natural
  · split at h
    · next hplus =>
      obtain ⟨hsame, rfl⟩ := ok_inj h
      exact ⟨hplus, (Number.natural.inj hsame).symm, rfl⟩
    · split at h <;> cases (ok_inj h).1

theorem readUnsigned_natural {positive : Bool} {k : Nat}
    (h : readUnsigned positive s = .ok (.natural k, r)) :
    positive = true ∧ s = writeNat k ++ r := by
  unfold readUnsigned at h
  split at h
  · cases h
  · split at h
    · cases h
    · obtain ⟨hplus, rfl, rfl⟩ := readTail_natural h
      exact ⟨hplus, rfl⟩
  · next c rest hzero =>
    split at h
    · next hdigit =>
      have hsome : 0 < digitValue c := by
        refine Nat.pos_of_ne_zero fun hnone => hzero ?_
        have hsame := digitChar_digitValue hdigit
        rw [hnone] at hsame
        exact hsame.symm
      cases htaken : absorb (digitValue c) rest with
      | mk f more =>
        obtain ⟨n, left⟩ := more
        rw [htaken] at h
        simp only at h
        split at h
        · unfold readLongTail at h
          split at h <;> exact absurd h float_ne_natural
        · obtain ⟨hplus, rfl, rfl⟩ := readTail_natural h
          obtain ⟨ds, rfl, hdigits⟩ := toDigits_absorb hsome htaken
          refine ⟨hplus, ?_⟩
          rw [writeNat, hdigits, Nat.toDigits_of_lt_base (digitValue_lt hdigit),
            digitChar_digitValue hdigit]
          rfl
    · cases h

/-- A natural number has been written as its digits. -/
theorem writeNat_of_readNumber {k : Nat} (h : readNumber s = .ok (.natural k, r)) :
    s = writeNat k ++ r := by
  unfold readNumber at h
  split at h
  · cases (readUnsigned_natural h).1
  · exact (readUnsigned_natural h).2

/-! ## Decoders of numbers -/

section

variable {c : Char} (hsolid : isBlank c = false)
include hsolid

theorem readNumber_of_number {wanted : String} {x : Number}
    (h : Decoder.number wanted (c :: s) = .ok (x, r)) : readNumber (c :: s) = .ok (x, r) := by
  simp only [Decoder.number, skipBlank_cons hsolid] at h
  split at h
  · exact h
  · cases h

theorem numeral_of_float {x : Float} (h : Decoder.float (c :: s) = .ok (x, r)) :
    Numeral (c :: s) r := by
  obtain ⟨⟨n, left⟩, hnumber, hvalue⟩ := bind_ok h
  obtain ⟨-, rfl⟩ := ok_inj hvalue
  exact numeral_of_readNumber (readNumber_of_number hsolid hnumber)

theorem below_of_naturalBelow {limit k : Nat} {wanted : String}
    (h : Decoder.naturalBelow limit wanted (c :: s) = .ok (k, r)) : Below limit (c :: s) k r := by
  obtain ⟨⟨n, left⟩, hnumber, hvalue⟩ := bind_ok h
  cases n with
  | natural m =>
    simp only at hvalue
    split at hvalue
    · next hsmall =>
      obtain ⟨rfl, rfl⟩ := ok_inj hvalue
      rw [writeNat_of_readNumber (readNumber_of_number hsolid hnumber)]
      exact .digits hsmall left
    · cases hvalue
  | negative => cases hvalue
  | float => cases hvalue

end

end Json

end Skein
