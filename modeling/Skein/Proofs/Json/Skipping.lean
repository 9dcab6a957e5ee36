import Skein.Proofs.Json.Tokens

/-!
# Passing over a value

Whatever the value of a member that a record does not know, the reader passes over it
and over nothing else.  It keeps the open brackets on a list and makes step after step,
so what is shown of a value is shown under any brackets that are open around it: after
so many steps the reader stands behind the value, with the same brackets open
(`Passed`).  The allowance of the reader is large enough because a step takes half a
character at least.
-/

namespace Skein

namespace Json

variable {s t u : List Char}

/-! ## Blanks -/

theorem Blanks.skipBlank (h : Blanks s t) : Json.skipBlank s = Json.skipBlank t := by
  induction h with
  | none => rfl
  | more hblank _ ih =>
    rw [← ih, Json.skipBlank, List.dropWhile_cons, if_pos hblank]
    rfl

theorem skipBlank_cons {c : Char} (h : isBlank c = false) (s : List Char) :
    skipBlank (c :: s) = c :: s := by
  rw [skipBlank, List.dropWhile_cons, h]
  rfl

theorem blanks_skipBlank (s : List Char) : Blanks s (skipBlank s) := by
  induction s with
  | nil => exact .none _
  | cons c s ih =>
    cases hblank : isBlank c with
    | false =>
      rw [skipBlank_cons hblank]
      exact .none _
    | true =>
      rw [skipBlank, List.dropWhile_cons_of_pos hblank]
      exact .more hblank ih

theorem Blanks.skipBlank_cons {c : Char} (h : Blanks s (c :: t)) (hsolid : isBlank c = false) :
    Json.skipBlank s = c :: t :=
  h.skipBlank.trans (Json.skipBlank_cons hsolid t)

theorem Blanks.readColon (h : Blanks s (':' :: t)) : Json.readColon s = .ok t := by
  rw [Json.readColon, h.skipBlank_cons rfl]
  rfl

/-! ## Numbers -/

theorem Digits.dropWhile (h : Digits s t) (hended : startsWithDigit t = false) :
    s.dropWhile Char.isDigit = t := by
  induction h with
  | none t =>
    cases t with
    | nil => rfl
    | cons c t => exact List.dropWhile_cons_of_neg (Bool.eq_false_iff.mp hended)
  | more hdigit _ ih => rw [List.dropWhile_cons_of_pos hdigit, ih hended]

theorem Apart.skipTail (h : Apart t) : Json.skipTail t = .ok t := by
  obtain rfl | ⟨c, rest, rfl, rfl | rfl | rfl | rfl | rfl | rfl | rfl⟩ := h.cases <;> rfl

theorem Exponent.startsWithDigit (h : Exponent s t) (hapart : Apart t) :
    Json.startsWithDigit s = false := by
  cases h with
  | none => exact hapart.startsWithDigit
  | digits hletter => rcases hletter with rfl | rfl <;> rfl

theorem Fraction.startsWithDigit (h : Fraction s u) (hended : Json.startsWithDigit u = false) :
    Json.startsWithDigit s = false := by
  cases h with
  | none => exact hended
  | digits => rfl

/-- The exponent of a number is passed over, its letter already read. -/
theorem Sign.skipExponent {d : Char} (hsign : Sign s (d :: u)) (hdigit : d.isDigit = true)
    (hrest : Digits u t) (hended : Json.startsWithDigit t = false) :
    Json.skipExponent s = .ok t := by
  have hpassed : (d :: u).dropWhile Char.isDigit = t := by
    rw [List.dropWhile_cons_of_pos hdigit, hrest.dropWhile hended]
  have hstarts : Json.startsWithDigit (d :: u) = true := hdigit
  cases hsign with
  | none =>
    unfold Json.skipExponent
    split
    · next heq =>
      cases heq
      cases hdigit
    · next heq =>
      cases heq
      cases hdigit
    · rw [if_pos hstarts, hpassed]
  | plus => rw [Json.skipExponent, if_pos hstarts, hpassed]
  | minus => rw [Json.skipExponent, if_pos hstarts, hpassed]

theorem Fraction.skipTail (hfraction : Fraction s u) (hexponent : Exponent u t) (hapart : Apart t) :
    Json.skipTail s = .ok t := by
  have hended := hapart.startsWithDigit
  cases hfraction with
  | none =>
    cases hexponent with
    | none => exact hapart.skipTail
    | digits hletter hsign hdigit hrest =>
      rcases hletter with rfl | rfl <;> exact hsign.skipExponent hdigit hrest hended
  | @digits d s _ hdigit hrest =>
    have hpassed : (d :: s).dropWhile Char.isDigit = u := by
      rw [List.dropWhile_cons_of_pos hdigit, hrest.dropWhile (hexponent.startsWithDigit hapart)]
    have hstarts : Json.startsWithDigit (d :: s) = true := hdigit
    rw [Json.skipTail, if_pos hstarts, hpassed]
    cases hexponent with
    | none =>
      obtain rfl | ⟨c, rest, rfl, rfl | rfl | rfl | rfl | rfl | rfl | rfl⟩ := hapart.cases <;> rfl
    | digits hletter hsign hdigit hmore =>
      rcases hletter with rfl | rfl <;> exact hsign.skipExponent hdigit hmore hended

theorem Unsigned.skip (h : Unsigned s t) (hapart : Apart t) : skipUnsigned s = .ok t := by
  obtain ⟨hwhole, hfraction, hexponent⟩ := h
  have hended := hfraction.startsWithDigit (hexponent.startsWithDigit hapart)
  have htail := hfraction.skipTail hexponent hapart
  cases hwhole with
  | zero => rw [skipUnsigned, hended, if_neg Bool.false_ne_true, htail]
  | digits hdigit hleading hrest =>
    rw [skipUnsigned, if_pos hdigit, hrest.dropWhile hended, htail]
    exact hleading

/-! ## Values -/

theorem skipSimple_digit {d : Char} (hdigit : d.isDigit = true) (s : List Char) :
    skipSimple (d :: s) = (skipUnsigned (d :: s) >>= fun rest => .ok (none, rest)) := by
  rw [skipSimple, if_pos hdigit]
  all_goals
    rintro rfl
    cases hdigit

theorem Numeral.skipSimple (h : Numeral s t) (hapart : Apart t) :
    Json.skipSimple s = .ok (none, t) := by
  cases h with
  | positive hnumber =>
    obtain ⟨d, rest, rfl, hdigit⟩ := hnumber.begins
    rw [skipSimple_digit hdigit, hnumber.skip hapart]
    rfl
  | negative hnumber =>
    rw [Json.skipSimple, hnumber.skip hapart]
    rfl

theorem skipSimple_word {w : List Char} (hknown : w ∈ words) (t : List Char) :
    skipSimple (w ++ t) = .ok (none, t) := by
  simp only [words, List.mem_cons, List.not_mem_nil, or_false] at hknown
  rcases hknown with rfl | rfl | rfl <;> rfl

theorem skipSimple_opening (bracket : Bracket) (s : List Char) :
    skipSimple (bracket.opening :: s) = .ok (some bracket, s) := by
  cases bracket <;> rfl

theorem isBlank_closing (bracket : Bracket) : isBlank bracket.closing = false := by
  cases bracket <;> rfl

theorem Derives.skipBlank (h : Derives .value s t) : Json.skipBlank s = s := by
  obtain ⟨c, rest, rfl, hsolid, -⟩ := h.begins
  exact skipBlank_cons hsolid rest

section Steps

variable {fuel : Nat} {bracket : Bracket} {pending : List Bracket}

theorem skipFrom_simple (h : skipSimple (skipBlank s) = .ok (none, t)) :
    skipFrom (fuel + 1) .value pending s = skipFrom fuel .element pending t := by
  rw [skipFrom, h]

theorem skipFrom_opening (h : skipBlank s = bracket.opening :: t) :
    skipFrom (fuel + 1) .value pending s = skipFrom fuel .opened (bracket :: pending) t := by
  rw [skipFrom, h, skipSimple_opening]

theorem skipFrom_empty (h : skipBlank s = bracket.closing :: t) :
    skipFrom (fuel + 1) .opened (bracket :: pending) s = skipFrom fuel .element pending t := by
  simp only [skipFrom, h, if_true]

theorem skipFrom_first {c : Char} (h : skipBlank s = c :: t) (hgoing : c ≠ bracket.closing)
    (hentered : enter bracket (c :: t) = .ok u) :
    skipFrom (fuel + 1) .opened (bracket :: pending) s =
      skipFrom fuel .value (bracket :: pending) u := by
  simp only [skipFrom, h, if_neg hgoing, hentered]

theorem skipFrom_closing (h : skipBlank s = bracket.closing :: t) :
    skipFrom (fuel + 1) .element (bracket :: pending) s = skipFrom fuel .element pending t := by
  simp only [skipFrom, h, if_true]

theorem skipFrom_comma (h : skipBlank s = ',' :: t) (hentered : enter bracket t = .ok u) :
    skipFrom (fuel + 1) .element (bracket :: pending) s =
      skipFrom fuel .value (bracket :: pending) u := by
  have hgoing : ',' ≠ bracket.closing := by cases bracket <;> decide
  simp only [skipFrom, h, if_neg hgoing, hentered, if_true]

end Steps

theorem Lead.enter {bracket : Bracket} (hlead : Lead bracket s u)
    (hsame : Json.skipBlank t = Json.skipBlank s) :
    ∃ w, Json.enter bracket t = .ok w ∧ Json.skipBlank w = Json.skipBlank u := by
  cases hlead with
  | list hblanks => exact ⟨t, rfl, hsame.trans hblanks.skipBlank⟩
  | object hbefore hname hbetween hafter =>
    rw [hbefore.skipBlank_cons rfl] at hsame
    refine ⟨_, ?_, hafter.skipBlank⟩
    show skipKey t = _
    simp only [skipKey, hsame, hname.skipString]
    exact hbetween.readColon

/-- Where there is an element, the closing bracket does not come first. -/
theorem Lead.begins {bracket : Bracket} (hlead : Lead bracket s u) (hvalue : Derives .value u t) :
    ∃ c rest, skipBlank s = c :: rest ∧ c ≠ bracket.closing := by
  cases hlead with
  | list hblanks =>
    obtain ⟨c, rest, rfl, hsolid, hgoing⟩ := hvalue.begins
    exact ⟨c, rest, hblanks.skipBlank_cons hsolid, hgoing⟩
  | object hbefore => exact ⟨'"', _, hbefore.skipBlank_cons rfl, by decide⟩

theorem Derives.inside_begins {bracket : Bracket} (h : Derives (.inside bracket) s t) :
    ∃ c rest, Json.skipBlank s = c :: rest ∧ c ≠ bracket.closing := by
  cases h with
  | last hlead hvalue => exact hlead.begins hvalue
  | more hlead hvalue => exact hlead.begins hvalue

/-- In so many steps that the text allows for them, one passes over the value, or over
the elements between brackets as soon as the first of them has been entered. -/
def Passed : Symbol → List Char → List Char → Prop
  | .value, s, t => Apart t → ∃ k, k + 2 * t.length ≤ 2 * s.length ∧
      ∀ fuel pending s', skipBlank s' = s →
        skipFrom (fuel + k) .value pending s' = skipFrom fuel .element pending t
  | .inside bracket, s, t => ∃ k, k + 2 * t.length ≤ 2 * s.length ∧
      ∀ s', skipBlank s' = skipBlank s → ∃ w, enter bracket s' = .ok w ∧
        ∀ fuel pending,
          skipFrom (fuel + k) .value (bracket :: pending) w = skipFrom fuel .element pending t

theorem passed_simple (h : skipSimple s = .ok (none, t)) (htaken : t.length < s.length) :
    Passed .value s t := by
  intro _
  refine ⟨1, by omega, ?_⟩
  rintro fuel pending s' rfl
  exact skipFrom_simple h

theorem Derives.passed {symbol : Symbol} (h : Derives symbol s t) : Passed symbol s t := by
  -- Each case adds the steps of its own to those of its parts; the characters that they
  -- take, brackets and commas, pay for them.
  induction h with
  | word hknown => exact passed_simple (skipSimple_word hknown _) (Derives.word hknown).length_lt
  | numeral hnumber =>
    intro hapart
    exact passed_simple (hnumber.skipSimple hapart) hnumber.length_lt hapart
  | string htext =>
    refine passed_simple ?_ (Nat.lt_succ_of_lt htext.length_lt)
    rw [skipSimple, htext.skipString]
    rfl
  | @empty bracket s t hblanks =>
    intro _
    have htaken := hblanks.length_le
    refine ⟨2, ?_, fun fuel pending s' hstart => ?_⟩
    · simp only [List.length_cons] at *
      omega
    · rw [skipFrom_opening hstart,
        skipFrom_empty (hblanks.skipBlank_cons (isBlank_closing bracket))]
  | @enclosed bracket s t helements ih =>
    intro _
    obtain ⟨k, hbound, hpass⟩ := ih
    obtain ⟨c, rest, hfirst, hgoing⟩ := helements.inside_begins
    obtain ⟨w, hentered, hpasses⟩ := hpass (Json.skipBlank s) (blanks_skipBlank s).skipBlank.symm
    rw [hfirst] at hentered
    refine ⟨k + 2, ?_, fun fuel pending s' hstart => ?_⟩
    · rw [List.length_cons]
      omega
    · rw [show fuel + (k + 2) = fuel + k + 1 + 1 by omega, skipFrom_opening hstart,
        skipFrom_first hfirst hgoing hentered, hpasses]
  | @last bracket s u v t hlead hvalue hblanks ih =>
    obtain ⟨k, hbound, hpass⟩ := ih (hblanks.apart (apart_closing bracket t))
    have htaken := hlead.length_le
    have htaken' := hblanks.length_le
    refine ⟨k + 1, ?_, fun s' hsame => ?_⟩
    · rw [List.length_cons] at htaken'
      omega
    · obtain ⟨w, hentered, hstart⟩ := hlead.enter hsame
      refine ⟨w, hentered, fun fuel pending => ?_⟩
      rw [show fuel + (k + 1) = fuel + 1 + k by omega, hpass _ _ w (hstart.trans hvalue.skipBlank),
        skipFrom_closing (hblanks.skipBlank_cons (isBlank_closing bracket))]
  | @more bracket s u v w t hlead hvalue hblanks hrest ih ih' =>
    obtain ⟨k, hbound, hpass⟩ := ih (hblanks.apart (apart_comma w))
    obtain ⟨k', hbound', hpass'⟩ := ih'
    have htaken := hlead.length_le
    have htaken' := hblanks.length_le
    refine ⟨k + 1 + k', ?_, fun s' hsame => ?_⟩
    · rw [List.length_cons] at htaken'
      omega
    · obtain ⟨x, hentered, hstart⟩ := hlead.enter hsame
      obtain ⟨y, hentered', hpass'⟩ := hpass' w rfl
      refine ⟨x, hentered, fun fuel pending => ?_⟩
      rw [show fuel + (k + 1 + k') = fuel + k' + 1 + k by omega,
        hpass _ _ x (hstart.trans hvalue.skipBlank),
        skipFrom_comma (hblanks.skipBlank_cons rfl) hentered', hpass']

/-- A value is passed over, whatever blanks stand before it. -/
theorem Derives.skipValue (h : Derives .value s t) (hapart : Apart t) (hblanks : Blanks u s) :
    Json.skipValue u = .ok t := by
  obtain ⟨k, hbound, hpass⟩ := h.passed hapart
  have hshorter := hblanks.length_le
  obtain ⟨fuel, henough⟩ : ∃ fuel, 2 * u.length + 2 = fuel + 1 + k :=
    ⟨2 * u.length + 1 - k, by omega⟩
  rw [Json.skipValue, henough, hpass _ _ u (hblanks.skipBlank.trans h.skipBlank)]
  rfl

end Json

end Skein
