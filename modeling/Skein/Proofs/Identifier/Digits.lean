import Mathlib.Data.Nat.ModEq
import Mathlib.Data.String.Basic
import Mathlib.Tactic.Ring
import Skein.Identifier
import Skein.Proofs.Json.RoundTrip

/-!
# The digits of an identifier

All identifiers are written with equally many digits, and the alphabet is in the order
of the values, so texts are in the order of the numbers (`lastDigits_lt_iff`).  A few
last digits stand for the remainder of the number alone (`lastDigits_inj`).  Digits are
read back as the number they were written for (`valueOf_lastDigits`); the first one
stands for three bits only, since 128 is no multiple of five.
-/

namespace Skein

namespace Identifier

/-! ## Digits -/

theorem digitValue_digit {n : Nat} (h : n < 32) : digitValue? (digit n) = some n := by
  have hall : ∀ m < 32, digitValue? (digit m) = some m := by decide
  exact hall n h

theorem digit_lt_digit {m n : Nat} (hm : m < 32) (hn : n < 32) : digit m < digit n ↔ m < n := by
  have hall : ∀ m < 32, ∀ n < 32, (digit m < digit n ↔ m < n) := by decide
  exact hall m hm n hn

theorem digit_inj {m n : Nat} (hm : m < 32) (hn : n < 32) : digit m = digit n ↔ m = n := by
  refine ⟨fun hsame => ?_, congrArg digit⟩
  have hvalue := digitValue_digit hm
  rw [hsame, digitValue_digit hn] at hvalue
  exact (Option.some.inj hvalue).symm

theorem utf8Size_digit {n : Nat} (h : n < 32) : (digit n).utf8Size = 1 := by
  have hall : ∀ m < 32, (digit m).utf8Size = 1 := by decide
  exact hall n h

@[simp] theorem length_lastDigits (count n : Nat) : (lastDigits count n).length = count := by
  induction count generalizing n with
  | zero => rfl
  | succ count ih => rw [lastDigits, List.length_append, ih, List.length_singleton]

/-- A remainder is made up of the digit at the end and those before it. -/
theorem mod_pow_succ (count n : Nat) :
    n % 32 ^ (count + 1) = n % 32 + 32 * (n / 32 % 32 ^ count) := by
  rw [Nat.pow_succ', Nat.mod_mul]

/-! ## Order -/

/-- Texts of one length that differ before the end differ in the same way with another
character each. -/
theorem concat_lt_concat {s t : List Char} (hsame : s.length = t.length) (c d : Char) :
    s ++ [c] < t ++ [d] ↔ s < t ∨ s = t ∧ c < d := by
  induction s generalizing t with
  | nil =>
    obtain rfl : t = [] := List.length_eq_zero_iff.mp hsame.symm
    simp [List.cons_lt_cons_iff]
  | cons a s ih =>
    obtain ⟨b, t, rfl⟩ : ∃ b u, t = b :: u := by
      cases t with
      | nil => cases hsame
      | cons b u => exact ⟨b, u, rfl⟩
    rw [List.cons_append, List.cons_append, List.cons_lt_cons_iff, ih (Nat.succ.inj hsame),
      List.cons_lt_cons_iff, List.cons.injEq]
    tauto

theorem append_lt_append (before : List Char) {s t : List Char} :
    before ++ s < before ++ t ↔ s < t := by
  induction before with
  | nil => rfl
  | cons c before ih => simp [ih]

theorem lastDigits_inj (count m n : Nat) :
    lastDigits count m = lastDigits count n ↔ m % 32 ^ count = n % 32 ^ count := by
  induction count generalizing m n with
  | zero => simp [lastDigits, Nat.mod_one]
  | succ count ih =>
    have hm := Nat.mod_lt m (show 0 < 32 by decide)
    have hn := Nat.mod_lt n (show 0 < 32 by decide)
    rw [lastDigits, lastDigits, List.append_singleton_inj, ih, digit_inj hm hn, mod_pow_succ,
      mod_pow_succ]
    omega

theorem lastDigits_lt_iff (count m n : Nat) :
    lastDigits count m < lastDigits count n ↔ m % 32 ^ count < n % 32 ^ count := by
  induction count generalizing m n with
  | zero => simp [lastDigits, Nat.mod_one]
  | succ count ih =>
    have hm := Nat.mod_lt m (show 0 < 32 by decide)
    have hn := Nat.mod_lt n (show 0 < 32 by decide)
    rw [lastDigits, lastDigits, concat_lt_concat (by simp), ih, lastDigits_inj,
      digit_lt_digit hm hn, mod_pow_succ, mod_pow_succ]
    omega

/-- The last of the last digits are the last digits. -/
theorem drop_lastDigits (before count n : Nat) :
    (lastDigits (before + count) n).drop before = lastDigits count n := by
  induction count generalizing n with
  | zero => exact List.drop_of_length_le (Nat.le_of_eq (length_lastDigits _ n))
  | succ count ih =>
    rw [← Nat.add_assoc, lastDigits, List.drop_append_of_le_length (by simp), ih, lastDigits]

/-! ## Reading -/

theorem valueOf_append (n : Nat) (s t : List Char) :
    valueOf n (s ++ t) = valueOf n s >>= fun m => valueOf m t := by
  induction s generalizing n with
  | nil => rfl
  | cons c s ih =>
    rw [List.cons_append, valueOf, valueOf]
    cases digitValue? c with
    | none => rfl
    | some d => exact ih _

theorem valueOf_lastDigits (before count n : Nat) (hsmall : before < 2 ^ 128) :
    valueOf before (lastDigits count n) =
      .ok ((before * 32 ^ count + n % 32 ^ count) % 2 ^ 128) := by
  induction count generalizing n with
  | zero =>
    rw [lastDigits, valueOf, Nat.pow_zero, Nat.mul_one, Nat.mod_one, Nat.add_zero,
      Nat.mod_eq_of_lt hsmall]
  | succ count ih =>
    have hlast := digitValue_digit (Nat.mod_lt n (show 0 < 32 by decide))
    have hvalue : before * 32 ^ (count + 1) + n % 32 ^ (count + 1) =
        (before * 32 ^ count + n / 32 % 32 ^ count) * 32 + n % 32 := by
      rw [mod_pow_succ, Nat.pow_succ]
      ring
    rw [lastDigits, valueOf_append, ih, hvalue]
    show valueOf _ [digit (n % 32)] = _
    simp only [valueOf, hlast]
    exact congrArg Except.ok ((Nat.mod_modEq _ _).mul_right 32 |>.add_right _)

theorem utf8ByteSize_lastDigits (count n : Nat) :
    (String.ofList (lastDigits count n)).utf8ByteSize = count := by
  induction count generalizing n with
  | zero => rfl
  | succ count ih =>
    have hlast := utf8Size_digit (Nat.mod_lt n (show 0 < 32 by decide))
    rw [lastDigits, String.ofList_append, String.utf8ByteSize_append, ih, String.ofList_cons]
    simp [hlast]

variable {bearer : Bearer}

theorem ofText_digits {n : Nat} (hsmall : n < 2 ^ 128) :
    ofText (String.ofList (digits n)) = .ok n := by
  rw [ofText, digits, utf8ByteSize_lastDigits, if_pos rfl, String.toList_ofList,
    valueOf_lastDigits 0 26 n (by decide), Nat.zero_mul, Nat.zero_add,
    Nat.mod_eq_of_lt (Nat.lt_trans hsmall (by decide)), Nat.mod_eq_of_lt hsmall]

theorem ofNat_number (i : Identifier bearer) : ofNat bearer i.number = i := by
  obtain ⟨n, hsmall⟩ := i
  simp only [ofNat, Nat.mod_eq_of_lt hsmall]

/-- The member of an identifier is read as it was written. -/
theorem record_reads (i : Identifier bearer) :
    record.decoder.Reads
      (Json.writeObject [("ulid", Json.writeText (String.ofList (digits i.number)))])
      (some i.number) := by
  refine Json.record_reads (by decide) (.cons (Json.of_reads _ _ _ fun rest hends => ?_) (.nil _))
    rfl
  have hread := Json.text_reads "a string" (String.ofList (digits i.number)) rest hends
  simp only [hread, bind, Except.bind, ofText_digits i.small]
  rfl

theorem parse_written (i : Identifier bearer) : parse bearer i.write = .ok i := by
  rw [parse, write, Json.parse_of_reads (record_reads i)]
  exact congrArg Except.ok (ofNat_number i)

/-! ## Texts -/

theorem toList_text (i : Identifier bearer) :
    i.text.toList = bearer.word.toList ++ digits i.number := by
  rw [text, String.toList_append, String.toList_ofList]

theorem number_mod (i : Identifier bearer) : i.number % 32 ^ 26 = i.number :=
  Nat.mod_eq_of_lt (Nat.lt_trans i.small (by decide))

theorem text_lt_text (i j : Identifier bearer) : i.text < j.text ↔ i.number < j.number := by
  rw [String.lt_iff_toList_lt, toList_text, toList_text, append_lt_append, digits, digits,
    lastDigits_lt_iff, number_mod, number_mod]

theorem text_inj (i j : Identifier bearer) : i.text = j.text ↔ i.number = j.number := by
  rw [← String.toList_inj, toList_text, toList_text, List.append_cancel_left_eq, digits, digits,
    lastDigits_inj, number_mod, number_mod]

theorem drop_digits (n : Nat) : (digits n).drop 20 = lastDigits 6 n :=
  drop_lastDigits 20 6 n

/-- The short form ends like the text. -/
theorem short_eq (i : Identifier bearer) :
    i.short = bearer.word ++ String.ofList (i.text.toList.drop (i.text.length - 6)) := by
  have hlength : i.text.length - 6 = bearer.word.toList.length + 20 := by
    rw [← String.length_toList, toList_text, List.length_append, digits, length_lastDigits]
    omega
  rw [hlength, toList_text, List.drop_length_add_append, short]

theorem short_inj (i j : Identifier bearer) :
    i.short = j.short ↔ i.number % 2 ^ 30 = j.number % 2 ^ 30 := by
  rw [short, short, drop_digits, drop_digits, ← String.toList_inj, String.toList_append,
    String.toList_append, List.append_cancel_left_eq, String.toList_ofList, String.toList_ofList,
    lastDigits_inj]
  rfl

theorem compare_lt (i j : Identifier bearer) : i.compare j = .lt ↔ i.number < j.number :=
  Nat.compare_eq_lt

/-- Identifiers are in the order of their numbers, as values and as texts, so different
ones have different texts.  A short form has the last six digits, which stand for the
last thirty bits.  What is written is read back. -/
theorem text_ordered (bearer : Bearer) (a b : BitVec 128) :
    let i := ofNat bearer a.toNat
    let j := ofNat bearer b.toNat
    (i.compare j = .lt ↔ a < b) ∧ (i.text < j.text ↔ a < b) ∧ (i.text = j.text ↔ a = b) ∧
      i.short = bearer.word ++ String.ofList (i.text.toList.drop (i.text.length - 6)) ∧
      (i.short = j.short ↔ a.toNat % 2 ^ 30 = b.toNat % 2 ^ 30) ∧
      parse bearer i.write = .ok i := by
  intro i j
  have hfirst : i.number = a.toNat := Nat.mod_eq_of_lt a.isLt
  have hsecond : j.number = b.toNat := Nat.mod_eq_of_lt b.isLt
  refine ⟨?_, ?_, ?_, short_eq i, ?_, parse_written i⟩
  · rw [compare_lt, hfirst, hsecond, BitVec.lt_def]
  · rw [text_lt_text, hfirst, hsecond, BitVec.lt_def]
  · rw [text_inj, hfirst, hsecond, BitVec.toNat_inj]
  · rw [short_inj, hfirst, hsecond]

end Identifier

end Skein
