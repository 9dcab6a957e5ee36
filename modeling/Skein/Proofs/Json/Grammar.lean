import Skein.Json.Skip
import Skein.Json.Write

/-!
# The grammar of a JSON text

Somebody else may write a value in many ways: with blanks between its pieces, and with
any character of a string escaped.  The relations below say which texts are values.
Each holds between a text and what is left of it when the piece in question has been
taken off its front.

A number has no end of its own, so what is left may begin with more digits.  It is the
whole number that has been taken if what is left stands apart from it (`Apart`).
-/

namespace Skein

namespace Json

/-! ## Strings -/

inductive Blanks : List Char → List Char → Prop
  | none (t : List Char) : Blanks t t
  | more {c : Char} {s t : List Char} (hblank : isBlank c = true) (hrest : Blanks s t) :
      Blanks (c :: s) t

/-- A hexadecimal digit, in either case. -/
def HexDigit (c : Char) (n : Nat) : Prop :=
  n < 16 ∧ (c = hexDigit n ∨ c = (hexDigit n).toUpper)

inductive FourHex : List Char → Nat → List Char → Prop
  | digits {a b c d : Char} {i j k l : Nat} {t : List Char} (hfirst : HexDigit a i)
      (hsecond : HexDigit b j) (hthird : HexDigit c k) (hfourth : HexDigit d l) :
      FourHex (a :: b :: c :: d :: t) (((i * 16 + j) * 16 + k) * 16 + l) t

def escapes : List (Char × Char) :=
  [('"', '"'), ('\\', '\\'), ('/', '/'), ('b', '\x08'), ('f', '\x0c'), ('n', '\n'), ('r', '\r'),
    ('t', '\t')]

/-- A character of a string, in any of its spellings.  If the text is only to be passed
over, half of a surrogate pair may stand alone, whatever it stands for. -/
inductive Spells (strict : Bool) : List Char → Char → List Char → Prop
  | plain {c : Char} {t : List Char} (hprintable : 0x20 ≤ c.toNat) (hquote : c ≠ '"')
      (hbackslash : c ≠ '\\') : Spells strict (c :: t) c t
  | letter {l c : Char} {t : List Char} (hescape : (l, c) ∈ escapes) :
      Spells strict ('\\' :: l :: t) c t
  | code {s t : List Char} {n : Nat} (hex : FourHex s n t)
      (hwhole : strict = true → isHighSurrogate n = false ∧ isLowSurrogate n = false) :
      Spells strict ('\\' :: 'u' :: s) (Char.ofNat n) t
  | pair {s u t : List Char} {high low : Nat} (hpaired : strict = true)
      (hfirst : FourHex s high ('\\' :: 'u' :: u)) (hisHigh : isHighSurrogate high = true)
      (hsecond : FourHex u low t) (hisLow : isLowSurrogate low = true) :
      Spells strict ('\\' :: 'u' :: s)
        (Char.ofNat (0x10000 + (high - 0xD800) * 0x400 + (low - 0xDC00))) t

inductive Spelling (strict : Bool) : List Char → List Char → List Char → Prop
  | close (t : List Char) : Spelling strict ('"' :: t) [] t
  | more {s u t : List Char} {c : Char} {cs : List Char} (hfirst : Spells strict s c u)
      (hrest : Spelling strict u cs t) : Spelling strict s (c :: cs) t

/-! ## Numbers -/

inductive Digits : List Char → List Char → Prop
  | none (t : List Char) : Digits t t
  | more {d : Char} {s t : List Char} (hdigit : d.isDigit = true) (hrest : Digits s t) :
      Digits (d :: s) t

/-- A whole number; a leading zero stands alone. -/
inductive Whole : List Char → List Char → Prop
  | zero (t : List Char) : Whole ('0' :: t) t
  | digits {d : Char} {s t : List Char} (hdigit : d.isDigit = true) (hleading : d ≠ '0')
      (hrest : Digits s t) : Whole (d :: s) t

inductive Fraction : List Char → List Char → Prop
  | none (t : List Char) : Fraction t t
  | digits {d : Char} {s t : List Char} (hdigit : d.isDigit = true) (hrest : Digits s t) :
      Fraction ('.' :: d :: s) t

inductive Sign : List Char → List Char → Prop
  | none (t : List Char) : Sign t t
  | plus (t : List Char) : Sign ('+' :: t) t
  | minus (t : List Char) : Sign ('-' :: t) t

inductive Exponent : List Char → List Char → Prop
  | none (t : List Char) : Exponent t t
  | digits {e d : Char} {s u t : List Char} (hletter : e = 'e' ∨ e = 'E') (hsign : Sign s (d :: u))
      (hdigit : d.isDigit = true) (hrest : Digits u t) : Exponent (e :: s) t

inductive Unsigned : List Char → List Char → Prop
  | parts {s u v t : List Char} (hwhole : Whole s u) (hfraction : Fraction u v)
      (hexponent : Exponent v t) : Unsigned s t

inductive Numeral : List Char → List Char → Prop
  | positive {s t : List Char} (hnumber : Unsigned s t) : Numeral s t
  | negative {s t : List Char} (hnumber : Unsigned s t) : Numeral ('-' :: s) t

/-! ## Values -/

/-- What is left stands apart from the value before it: it is nothing, or begins with a
blank, a comma or a closing bracket. -/
def Apart (t : List Char) : Prop :=
  ∀ c ∈ t.head?, isBlank c = true ∨ c = ',' ∨ c = ']' ∨ c = '\x7d'

def Bracket.opening : Bracket → Char
  | .list => '['
  | .object => '\x7b'

/-- What stands before a value between brackets: blanks, and in an object a name, which
need not be one that can be read. -/
inductive Lead : Bracket → List Char → List Char → Prop
  | list {s t : List Char} (hblanks : Blanks s t) : Lead .list s t
  | object {s u v w t cs : List Char} (hbefore : Blanks s ('"' :: u))
      (hname : Spelling false u cs v) (hbetween : Blanks v (':' :: w)) (hafter : Blanks w t) :
      Lead .object s t

inductive Symbol
  | value
  /-- At least one element, with the closing bracket. -/
  | inside (bracket : Bracket)

def words : List (List Char) :=
  [['n', 'u', 'l', 'l'], ['t', 'r', 'u', 'e'], ['f', 'a', 'l', 's', 'e']]

inductive Derives : Symbol → List Char → List Char → Prop
  | word {w t : List Char} (hknown : w ∈ words) : Derives .value (w ++ t) t
  | numeral {s t : List Char} (hnumber : Numeral s t) : Derives .value s t
  | string {s t cs : List Char} (htext : Spelling false s cs t) : Derives .value ('"' :: s) t
  | empty {bracket : Bracket} {s t : List Char} (hblanks : Blanks s (bracket.closing :: t)) :
      Derives .value (bracket.opening :: s) t
  | enclosed {bracket : Bracket} {s t : List Char} (helements : Derives (.inside bracket) s t) :
      Derives .value (bracket.opening :: s) t
  | last {bracket : Bracket} {s u v t : List Char} (hlead : Lead bracket s u)
      (hvalue : Derives .value u v) (hblanks : Blanks v (bracket.closing :: t)) :
      Derives (.inside bracket) s t
  | more {bracket : Bracket} {s u v w t : List Char} (hlead : Lead bracket s u)
      (hvalue : Derives .value u v) (hblanks : Blanks v (',' :: w))
      (hrest : Derives (.inside bracket) w t) : Derives (.inside bracket) s t

section

variable {s t u : List Char}

/-! ## What stands apart -/

theorem apart_cons {c : Char} (h : isBlank c = true ∨ c = ',' ∨ c = ']' ∨ c = '\x7d')
    (t : List Char) : Apart (c :: t) := by
  rintro _ ⟨⟩
  exact h

theorem apart_comma (t : List Char) : Apart (',' :: t) :=
  apart_cons (.inr (.inl rfl)) t

theorem apart_closing (bracket : Bracket) (t : List Char) : Apart (bracket.closing :: t) := by
  cases bracket with
  | list => exact apart_cons (.inr (.inr (.inl rfl))) t
  | object => exact apart_cons (.inr (.inr (.inr rfl))) t

theorem Blanks.apart (hblanks : Blanks s t) (h : Apart t) : Apart s := by
  cases hblanks with
  | none => exact h
  | more hblank => exact apart_cons (.inl hblank) _

/-- The characters that may follow a value, one by one. -/
theorem Apart.cases (h : Apart t) :
    t = [] ∨ ∃ c rest, t = c :: rest ∧
      (c = ' ' ∨ c = '\n' ∨ c = '\t' ∨ c = '\r' ∨ c = ',' ∨ c = ']' ∨ c = '\x7d') := by
  cases t with
  | nil => exact .inl rfl
  | cons c rest =>
    refine .inr ⟨c, rest, rfl, ?_⟩
    have hfollows := h c rfl
    simpa only [isBlank, Bool.or_eq_true, beq_iff_eq, or_assoc] using hfollows

/-! ## Every piece takes something -/

theorem Blanks.length_le (h : Blanks s t) : t.length ≤ s.length := by
  induction h with
  | none => exact Nat.le_refl _
  | more _ _ ih => exact Nat.le_succ_of_le ih

theorem FourHex.length_lt {n : Nat} (h : FourHex s n t) : t.length < s.length := by
  cases h
  simp only [List.length_cons]
  omega

theorem Spells.length_lt {strict : Bool} {c : Char} (h : Spells strict s c t) :
    t.length < s.length := by
  cases h with
  | plain => exact Nat.lt_succ_self _
  | letter =>
    simp only [List.length_cons]
    omega
  | code hex =>
    have htaken := hex.length_lt
    simp only [List.length_cons]
    omega
  | pair _ hfirst _ hsecond _ =>
    have htaken := hfirst.length_lt
    have htaken' := hsecond.length_lt
    simp only [List.length_cons] at *
    omega

theorem Spelling.length_lt {strict : Bool} {cs : List Char} (h : Spelling strict s cs t) :
    t.length < s.length := by
  induction h with
  | close => exact Nat.lt_succ_self _
  | more hfirst _ ih => exact Nat.lt_trans ih hfirst.length_lt

/-- Characters that need no escape may stand for themselves. -/
theorem Spelling.unescaped {strict : Bool} {cs ds : List Char}
    (hplain : cs.all (fun c => 0x20 ≤ c.toNat && c != '"' && c != '\\') = true)
    (h : Spelling strict s ds t) : Spelling strict (cs ++ s) (cs ++ ds) t := by
  induction cs with
  | nil => exact h
  | cons c cs ih =>
    rw [List.all_cons, Bool.and_eq_true] at hplain
    obtain ⟨hfirst, hrest⟩ := hplain
    simp only [Bool.and_eq_true, decide_eq_true_eq, bne_iff_ne] at hfirst
    obtain ⟨⟨hprintable, hquote⟩, hbackslash⟩ := hfirst
    exact .more (.plain hprintable hquote hbackslash) (ih hrest)

theorem Digits.length_le (h : Digits s t) : t.length ≤ s.length := by
  induction h with
  | none => exact Nat.le_refl _
  | more _ _ ih => exact Nat.le_succ_of_le ih

theorem Whole.length_lt (h : Whole s t) : t.length < s.length := by
  cases h with
  | zero => exact Nat.lt_succ_self _
  | digits _ _ hrest => exact Nat.lt_succ_of_le hrest.length_le

theorem Fraction.length_le (h : Fraction s t) : t.length ≤ s.length := by
  cases h with
  | none => exact Nat.le_refl _
  | digits _ hrest => exact Nat.le_succ_of_le (Nat.le_succ_of_le hrest.length_le)

theorem Sign.length_le (h : Sign s t) : t.length ≤ s.length := by
  cases h with
  | none => exact Nat.le_refl _
  | plus => exact Nat.le_succ _
  | minus => exact Nat.le_succ _

theorem Exponent.length_le (h : Exponent s t) : t.length ≤ s.length := by
  cases h with
  | none => exact Nat.le_refl _
  | digits _ hsign _ hrest =>
    have htaken := hsign.length_le
    have htaken' := hrest.length_le
    simp only [List.length_cons] at *
    omega

theorem Numeral.length_lt (h : Numeral s t) : t.length < s.length := by
  have hunsigned {s t : List Char} (h : Unsigned s t) : t.length < s.length := by
    obtain ⟨hwhole, hfraction, hexponent⟩ := h
    exact Nat.lt_of_le_of_lt (Nat.le_trans hexponent.length_le hfraction.length_le) hwhole.length_lt
  cases h with
  | positive hnumber => exact hunsigned hnumber
  | negative hnumber => exact Nat.lt_succ_of_lt (hunsigned hnumber)

/-- One digit is a number. -/
theorem numeral_digit {d : Char} (hdigit : d.isDigit = true) (hleading : d ≠ '0')
    (t : List Char) : Numeral (d :: t) t :=
  .positive (.parts (.digits hdigit hleading (.none t)) (.none t) (.none t))

theorem Lead.length_le {bracket : Bracket} (h : Lead bracket s t) : t.length ≤ s.length := by
  cases h with
  | list hblanks => exact hblanks.length_le
  | object hbefore hname hbetween hafter =>
    have htaken := hbefore.length_le
    have htaken' := hname.length_lt
    have htaken'' := hbetween.length_le
    have htaken''' := hafter.length_le
    simp only [List.length_cons] at *
    omega

theorem Derives.length_lt {symbol : Symbol} (h : Derives symbol s t) : t.length < s.length := by
  induction h with
  | word hknown =>
    simp only [words, List.mem_cons, List.not_mem_nil, or_false] at hknown
    rcases hknown with rfl | rfl | rfl <;>
      simp only [List.length_append, List.length_cons] <;> omega
  | numeral hnumber => exact hnumber.length_lt
  | string htext => exact Nat.lt_succ_of_lt htext.length_lt
  | empty hblanks => exact Nat.le_succ_of_le hblanks.length_le
  | enclosed _ ih => exact Nat.lt_succ_of_lt ih
  | last hlead _ hblanks ih =>
    exact Nat.lt_of_lt_of_le (Nat.lt_of_lt_of_le (Nat.lt_succ_self _) hblanks.length_le)
      (Nat.le_trans (Nat.le_of_lt ih) hlead.length_le)
  | more hlead _ hblanks _ ih ih' =>
    have htaken := hlead.length_le
    have htaken' := hblanks.length_le
    rw [List.length_cons] at htaken'
    omega

/-! ## How a value begins -/

theorem isBlank_of_isDigit {d : Char} (hdigit : d.isDigit = true) : isBlank d = false := by
  simp only [isBlank, Bool.or_eq_false_iff, beq_eq_false_iff_ne]
  refine ⟨⟨⟨?_, ?_⟩, ?_⟩, ?_⟩ <;> rintro rfl <;> cases hdigit

theorem Unsigned.begins (h : Unsigned s t) : ∃ d rest, s = d :: rest ∧ d.isDigit = true := by
  obtain ⟨hwhole, -, -⟩ := h
  cases hwhole with
  | zero => exact ⟨_, _, rfl, rfl⟩
  | digits hdigit => exact ⟨_, _, rfl, hdigit⟩

/-- A value begins neither with a blank nor with the end of a list. -/
theorem Derives.begins (h : Derives .value s t) :
    ∃ c rest, s = c :: rest ∧ isBlank c = false ∧ c ≠ ']' := by
  cases h with
  | word hknown =>
    simp only [words, List.mem_cons, List.not_mem_nil, or_false] at hknown
    rcases hknown with rfl | rfl | rfl <;> exact ⟨_, _, rfl, rfl, by decide⟩
  | numeral hnumber =>
    cases hnumber with
    | positive hnumber =>
      obtain ⟨d, rest, rfl, hdigit⟩ := hnumber.begins
      refine ⟨d, rest, rfl, isBlank_of_isDigit hdigit, ?_⟩
      rintro rfl
      cases hdigit
    | negative => exact ⟨_, _, rfl, rfl, by decide⟩
  | string => exact ⟨_, _, rfl, rfl, by decide⟩
  | @empty bracket => cases bracket <;> exact ⟨_, _, rfl, rfl, by decide⟩
  | @enclosed bracket => cases bracket <;> exact ⟨_, _, rfl, rfl, by decide⟩

end

end Json

end Skein
