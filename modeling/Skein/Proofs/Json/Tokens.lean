import Mathlib.Data.List.Basic
import Skein.Proofs.Json.Grammar

/-!
# Strings and numbers are read as they were written

A string is read up to its closing quote, so it does not matter what follows, and each
of its characters is read in any of its spellings; the writer uses one of them.  A number
has no end of its own: it is read as written if what follows it could not belong to it.
-/

namespace Skein

namespace Json

/-! ## Strings -/

section Strings

variable {s t : List Char}

theorem hexValue_hexDigit {n : Nat} (h : n < 16) : hexValue? (hexDigit n) = some n := by
  have hall : ∀ m < 16, hexValue? (hexDigit m) = some m := by decide
  exact hall n h

theorem HexDigit.value {c : Char} {n : Nat} (h : HexDigit c n) : hexValue? c = some n := by
  have hupper : ∀ m < 16, hexValue? (hexDigit m).toUpper = some m := by decide
  obtain ⟨hsmall, rfl | rfl⟩ := h
  · exact hexValue_hexDigit hsmall
  · exact hupper n hsmall

theorem FourHex.read {n : Nat} (h : FourHex s n t) : readHex s = .ok (n, t) := by
  obtain ⟨hfirst, hsecond, hthird, hfourth⟩ := h
  rw [readHex, hexFour?, hfirst.value, hsecond.value, hthird.value, hfourth.value]
  rfl

theorem not_high_of_low {n : Nat} (hlow : isLowSurrogate n = true) : isHighSurrogate n = false := by
  simp only [isLowSurrogate, isHighSurrogate, Bool.and_eq_true, decide_eq_true_eq,
    Bool.and_eq_false_iff, decide_eq_false_iff_not] at *
  omega

theorem Spells.read {strict : Bool} {c : Char} (h : Spells strict s c t) :
    readUnit strict s = .ok (some c, t) := by
  cases h with
  | plain hprintable hquote hbackslash =>
    rw [readUnit, if_neg (Nat.not_lt.mpr hprintable)]
    · exact hquote
    · exact hbackslash
  | letter hescape =>
    simp only [escapes, List.mem_cons, Prod.mk.injEq, List.not_mem_nil, or_false] at hescape
    rcases hescape with ⟨rfl, rfl⟩ | ⟨rfl, rfl⟩ | ⟨rfl, rfl⟩ | ⟨rfl, rfl⟩ | ⟨rfl, rfl⟩ |
      ⟨rfl, rfl⟩ | ⟨rfl, rfl⟩ | ⟨rfl, rfl⟩ <;> rfl
  | @code s _ n hex hwhole =>
    have hescape : readEscape strict ('u' :: s) = .ok (Char.ofNat n, t) := by
      rw [readEscape, hex.read]
      cases strict with
      | false => rfl
      | true => simp [bind, Except.bind, hwhole rfl]
    rw [readUnit, hescape]
    rfl
  | @pair s u _ high low hpaired hfirst hisHigh hsecond hisLow =>
    have hnotLow : isLowSurrogate high = false := by
      cases hisLow : isLowSurrogate high with
      | false => rfl
      | true => rw [not_high_of_low hisLow] at hisHigh; cases hisHigh
    have hescape : readEscape strict ('u' :: s) =
        .ok (Char.ofNat (0x10000 + (high - 0xD800) * 0x400 + (low - 0xDC00)), t) := by
      simp [readEscape, hfirst.read, bind, Except.bind, hpaired, hnotLow, hisHigh, readLowSurrogate,
        hsecond.read, hisLow]
    rw [readUnit, hescape]
    rfl

theorem Spelling.read {strict : Bool} {cs : List Char} (h : Spelling strict s cs t) (fuel : Nat)
    (taken : List Char) (henough : cs.length < fuel) :
    readUnits strict fuel taken s = .ok (taken.reverse ++ cs, t) := by
  induction h generalizing fuel taken with
  | close =>
    obtain ⟨fuel, rfl⟩ : ∃ n, fuel = n + 1 := ⟨fuel - 1, by omega⟩
    rw [List.append_nil]
    rfl
  | @more s u t c cs hfirst hrest ih =>
    rw [List.length_cons] at henough
    obtain ⟨fuel, rfl⟩ : ∃ n, fuel = n + 1 := ⟨fuel - 1, by omega⟩
    rw [readUnits, hfirst.read]
    show readUnits strict fuel (c :: taken) u = _
    rw [ih fuel (c :: taken) (by omega), List.reverse_cons, List.append_assoc]
    rfl

theorem Spelling.length_le {strict : Bool} {cs : List Char} (h : Spelling strict s cs t) :
    cs.length ≤ s.length := by
  induction h with
  | close => exact Nat.zero_le _
  | more hfirst _ ih => exact Nat.lt_of_le_of_lt ih hfirst.length_lt

/-- A string is read in any of its spellings. -/
theorem Spelling.readString {cs : List Char} (h : Spelling true s cs t) :
    Json.readString s = .ok (String.ofList cs, t) := by
  rw [Json.readString, h.read _ [] (Nat.lt_succ_of_le h.length_le)]
  rfl

theorem Spelling.skipString {cs : List Char} (h : Spelling false s cs t) :
    Json.skipString s = .ok t := by
  rw [Json.skipString, h.read _ [] (Nat.lt_succ_of_le h.length_le)]

end Strings

/-- The writer spells every character in one of the ways there are. -/
theorem spells_writeChar (c : Char) (rest : List Char) :
    Spells true (writeChar c ++ rest) c rest := by
  unfold writeChar
  split
  case h_8 hquote hbackslash _ _ _ _ _ =>
    by_cases hcontrol : c.toNat < 0x20
    · have hzero : HexDigit '0' 0 := ⟨by omega, .inl rfl⟩
      have hex : FourHex ('0' :: '0' :: hexDigit (c.toNat / 16) :: hexDigit (c.toNat % 16) :: rest)
          c.toNat rest := by
        have hhigh : HexDigit _ (c.toNat / 16) := ⟨by omega, .inl rfl⟩
        have hlow : HexDigit _ (c.toNat % 16) := ⟨by omega, .inl rfl⟩
        have hdigits := FourHex.digits (t := rest) hzero hzero hhigh hlow
        rwa [show ((0 * 16 + 0) * 16 + c.toNat / 16) * 16 + c.toNat % 16 = c.toNat by omega]
          at hdigits
      have hwhole : isHighSurrogate c.toNat = false ∧ isLowSurrogate c.toNat = false := by
        simp only [isHighSurrogate, isLowSurrogate, Bool.and_eq_false_iff, decide_eq_false_iff_not]
        omega
      have hcode : Spells true _ _ rest := .code hex fun _ => hwhole
      rw [Char.ofNat_toNat] at hcode
      rw [if_pos hcontrol]
      exact hcode
    · rw [if_neg hcontrol]
      exact .plain (Nat.not_lt.mp hcontrol) hquote hbackslash
  all_goals exact .letter (by simp [escapes])

theorem spelling_write (cs rest : List Char) :
    Spelling true (cs.flatMap writeChar ++ '"' :: rest) cs rest := by
  induction cs with
  | nil => exact .close rest
  | cons c cs ih =>
    rw [List.flatMap_cons, List.append_assoc]
    exact .more (spells_writeChar c _) ih

theorem readString_write (s : String) (rest : List Char) :
    readString (s.toList.flatMap writeChar ++ '"' :: rest) = .ok (s, rest) := by
  rw [(spelling_write s.toList rest).readString, String.ofList_toList]

/-! ## Numbers -/

/-- What may follow a value: nothing, a comma or a closing bracket. -/
def Ends (rest : List Char) : Prop :=
  ∀ c ∈ rest.head?, c = ',' ∨ c = ']' ∨ c = '\x7d'

theorem ends_nil : Ends [] := by
  intro c hc
  cases hc

theorem ends_comma (rest : List Char) : Ends (',' :: rest) := by
  rintro c ⟨⟩
  exact .inl rfl

theorem ends_list (rest : List Char) : Ends (']' :: rest) := by
  rintro c ⟨⟩
  exact .inr (.inl rfl)

theorem ends_object (rest : List Char) : Ends ('\x7d' :: rest) := by
  rintro c ⟨⟩
  exact .inr (.inr rfl)

theorem Ends.apart {rest : List Char} (h : Ends rest) : Apart rest :=
  fun c hc => .inr (h c hc)

theorem Apart.absorb {rest : List Char} (h : Apart rest) (n : Nat) :
    Json.absorb n rest = (n, 0, rest) := by
  obtain rfl | ⟨c, tail, rfl, rfl | rfl | rfl | rfl | rfl | rfl | rfl⟩ := h.cases <;> rfl

theorem Apart.startsWithDigit {rest : List Char} (h : Apart rest) :
    Json.startsWithDigit rest = false := by
  obtain rfl | ⟨c, tail, rfl, rfl | rfl | rfl | rfl | rfl | rfl | rfl⟩ := h.cases <;> rfl

theorem Apart.readTail {rest : List Char} (h : Apart rest) (n : Nat) :
    Json.readTail true n rest = .ok (.natural n, rest) := by
  obtain rfl | ⟨c, tail, rfl, rfl | rfl | rfl | rfl | rfl | rfl | rfl⟩ := h.cases <;> rfl

/-- Digits that are all absorbed do not see what follows them. -/
theorem absorb_append {ds : List Char} {k n : Nat} (h : absorb k ds = (n, ds.length, []))
    (rest : List Char) :
    absorb k (ds ++ rest) =
      ((absorb n rest).1, ds.length + (absorb n rest).2.1, (absorb n rest).2.2) := by
  induction ds generalizing k with
  | nil =>
    have hk : k = n := congrArg Prod.fst h
    rw [hk, List.nil_append, List.length_nil, Nat.zero_add]
  | cons d ds ih =>
    rw [List.cons_append, absorb]
    rw [absorb] at h
    by_cases hd : (d.isDigit && decide (k * 10 + digitValue d < UInt64.size)) = true
    · rw [if_pos hd] at h ⊢
      have hrest : absorb (k * 10 + digitValue d) ds = (n, ds.length, []) := by
        simp only [List.length_cons, Prod.mk.injEq, Nat.add_right_cancel_iff] at h
        exact Prod.ext h.1 (Prod.ext h.2.1 h.2.2)
      simp only [ih hrest, List.length_cons]
      rw [Nat.add_right_comm]
    · rw [if_neg hd] at h
      simp at h

theorem digitValue_digitChar {n : Nat} (h : n < 10) : digitValue n.digitChar = n :=
  Nat.toNat_digitChar_sub_48_of_lt_ten h

/-- The digits of a positive number that fits the significand, the first of them
already read. -/
theorem absorb_digits (n : Nat) : 0 < n → n < UInt64.size →
    ∃ d ds, Nat.toDigits 10 n = d :: ds ∧ d ≠ '0' ∧
      absorb (digitValue d) ds = (n, ds.length, []) := by
  induction n using Nat.strongRecOn with
  | ind n ih =>
    intro hpos hfits
    by_cases hsmall : n < 10
    · refine ⟨n.digitChar, [], Nat.toDigits_of_lt_base hsmall, ?_, ?_⟩
      · rw [Ne, Nat.digitChar_eq_zero]
        omega
      · rw [digitValue_digitChar hsmall]
        rfl
    · obtain ⟨d, ds, hdigits, hzero, habsorb⟩ := ih (n / 10) (by omega) (by omega) (by omega)
      refine ⟨d, ds ++ [(n % 10).digitChar], ?_, hzero, ?_⟩
      · rw [Nat.toDigits_of_base_le (by omega) (by omega), hdigits]
        rfl
      · have hlast : absorb (n / 10) [(n % 10).digitChar] = (n, 1, []) := by
          have hdigit : (n % 10).digitChar.isDigit = true := by
            rw [Nat.isDigit_digitChar, decide_eq_true_eq]
            omega
          have hvalue : n / 10 * 10 + digitValue (n % 10).digitChar = n := by
            rw [digitValue_digitChar (by omega)]
            omega
          simp only [absorb, hdigit, hvalue, hfits, decide_true, Bool.and_self, if_true]
        rw [absorb_append habsorb, hlast, List.length_append]
        rfl

theorem isDigit_of_digits {n : Nat} {d : Char} {ds : List Char}
    (h : Nat.toDigits 10 n = d :: ds) : d.isDigit = true :=
  Nat.isDigit_of_mem_toDigits (by omega) (by omega) (h ▸ List.mem_cons_self)

theorem readUnsigned_write {n : Nat} (hn : n < UInt64.size) {rest : List Char}
    (hrest : Apart rest) : readUnsigned true (writeNat n ++ rest) = .ok (.natural n, rest) := by
  rw [writeNat]
  by_cases hzero : n = 0
  · subst hzero
    rw [Nat.toDigits_zero]
    show (if startsWithDigit rest then _ else readTail true 0 rest) = _
    rw [hrest.startsWithDigit, if_neg Bool.false_ne_true, hrest.readTail]
  · obtain ⟨d, ds, hdigits, hd, habsorb⟩ := absorb_digits n (by omega) hn
    have habsorb' : absorb (digitValue d) (ds ++ rest) = (n, ds.length, rest) := by
      rw [absorb_append habsorb, hrest.absorb]
      rfl
    rw [hdigits, List.cons_append, readUnsigned, if_pos (isDigit_of_digits hdigits), habsorb']
    · show (if startsWithDigit rest then _ else readTail true n rest) = _
      rw [hrest.startsWithDigit, if_neg Bool.false_ne_true, hrest.readTail]
    · exact hd

end Json

end Skein
