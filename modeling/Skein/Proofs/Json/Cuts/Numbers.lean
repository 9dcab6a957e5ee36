import Skein.Proofs.Json.Cuts.Strings

/-!
# What is taken off for a number

A number goes as far as it can, so its digits are told from what follows them first
(`split_digits`); from there on every part of a number is taken off as a piece, before
any rest that stands apart.  Each lemma says as well that whoever passes over the part
leaves the same rest.
-/

namespace Skein

namespace Json

variable {s t u r : List Char}

/-- What stands apart may take the place of a rest that begins with no digit. -/
theorem startsWithDigit_replace {n : List Char} (h : startsWithDigit (n ++ r) = false)
    (hapart : Apart t) : startsWithDigit (n ++ t) = false := by
  cases n with
  | nil => exact hapart.startsWithDigit
  | cons c n => exact h

/-- Any text is digits and what follows them. -/
theorem split_digits (s : List Char) : ∃ ds t, s = ds ++ t ∧ (∀ d ∈ ds, d.isDigit = true) ∧
    startsWithDigit t = false := by
  induction s with
  | nil => exact ⟨[], [], rfl, nofun, rfl⟩
  | cons c s ih =>
    cases hdigit : c.isDigit with
    | false => exact ⟨[], c :: s, rfl, nofun, hdigit⟩
    | true =>
      obtain ⟨ds, t, rfl, hdigits, hended⟩ := ih
      exact ⟨c :: ds, t, rfl, List.forall_mem_cons.mpr ⟨hdigit, hdigits⟩, hended⟩

section Digits

variable {ds : List Char} (hdigits : ∀ d ∈ ds, d.isDigit = true)
include hdigits

theorem takeWhile_digits (hended : startsWithDigit t = false) :
    (ds ++ t).takeWhile Char.isDigit = ds := by
  rw [List.takeWhile_append_of_pos hdigits]
  cases t with
  | nil => rw [List.takeWhile_nil, List.append_nil]
  | cons c t =>
    have hother : ¬ c.isDigit = true := Bool.eq_false_iff.mp hended
    rw [List.takeWhile_cons_of_neg hother, List.append_nil]

theorem dropWhile_digits (hended : startsWithDigit t = false) :
    (ds ++ t).dropWhile Char.isDigit = t := by
  rw [List.dropWhile_append_of_pos hdigits]
  cases t with
  | nil => rfl
  | cons c t =>
    have hother : ¬ c.isDigit = true := Bool.eq_false_iff.mp hended
    rw [List.dropWhile_cons_of_neg hother]

theorem startsWithDigit_append (hended : startsWithDigit t = false) :
    startsWithDigit (ds ++ t) = !ds.isEmpty := by
  cases ds with
  | nil => exact hended
  | cons d ds => exact hdigits d List.mem_cons_self

omit hdigits in
theorem absorb_ended (hended : startsWithDigit t = false) (k : Nat) : absorb k t = (k, 0, t) := by
  cases t with
  | nil => rfl
  | cons c t =>
    have hother : c.isDigit = false := hended
    rw [absorb, hother]
    rfl

/-- The significand takes some of the digits, and what it has no room for is left. -/
theorem absorb_split (k : Nat) :
    ∃ f count left, (∀ d ∈ left, d.isDigit = true) ∧ (count = 0 → left = ds) ∧
      ∀ t, startsWithDigit t = false → absorb k (ds ++ t) = (f, count, left ++ t) := by
  induction ds generalizing k with
  | nil =>
    exact ⟨k, 0, [], nofun, fun _ => rfl, fun t hended => absorb_ended hended k⟩
  | cons d ds ih =>
    obtain ⟨hdigit, hdigits⟩ := List.forall_mem_cons.mp hdigits
    by_cases hroom : k * 10 + digitValue d < UInt64.size
    · obtain ⟨f, count, left, hrest, -, hsplit⟩ := ih hdigits (k * 10 + digitValue d)
      refine ⟨f, count + 1, left, hrest, nofun, fun t hended => ?_⟩
      rw [List.cons_append, absorb, if_pos (by simp [hdigit, hroom]), hsplit t hended]
    · refine ⟨k, 0, d :: ds, List.forall_mem_cons.mpr ⟨hdigit, hdigits⟩, fun _ => rfl,
        fun t _ => ?_⟩
      rw [List.cons_append, absorb, if_neg (by simp [hroom])]

end Digits

theorem finish_cut {positive : Bool} {significand : Nat} {exponent : Int} {x : Float}
    (h : finish positive significand exponent s = .ok (x, r)) :
    r = s ∧ ∀ t, finish positive significand exponent t = .ok (x, t) := by
  unfold finish at h ⊢
  split at h
  · obtain ⟨rfl, rfl⟩ := ok_inj h
    exact ⟨rfl, fun t => rfl⟩
  · cases h

theorem readPower_cut {positive up : Bool} {significand : Nat} {start : Int} {x : Float}
    (h : readPower positive up significand start s = .ok (x, r)) :
    CutApart (readPower positive up significand start) (fun t => (x, t)) s r ∧
      startsWithDigit s = true ∧ s.dropWhile Char.isDigit = r := by
  obtain ⟨ds, u, rfl, hdigits, hended⟩ := split_digits s
  cases ds with
  | nil =>
    cases u with
    | nil => cases h
    | cons c u =>
      have hother : c.isDigit = false := hended
      simp [readPower, hother] at h
  | cons d ds =>
    have hdigit : d.isDigit = true := hdigits d List.mem_cons_self
    have hpower (t : List Char) (hended : startsWithDigit t = false) :
        readPower positive up significand start (d :: ds ++ t) =
          if (d :: ds).foldl (fun n c => n * 10 + digitValue c) 0 ≤ maxExponent then
            finish positive significand
              (if up then start + (d :: ds).foldl (fun n c => n * 10 + digitValue c) 0
              else start - (d :: ds).foldl (fun n c => n * 10 + digitValue c) 0) t
          else if significand ≠ 0 ∧ up then
            .error (Fault.outOfRange.before (afterMaxExponent 0 (d :: ds ++ t)))
          else .ok (if positive then 0 else -0, t) := by
      have htaken := takeWhile_digits hdigits hended
      have hleft := dropWhile_digits hdigits hended
      rw [List.cons_append] at htaken hleft
      rw [List.cons_append, readPower, if_pos hdigit]
      simp only [htaken, hleft]
    rw [hpower u hended] at h
    have hsame : r = u ∧ ∀ t, Apart t →
        readPower positive up significand start (d :: ds ++ t) = .ok (x, t) := by
      split at h
      · next hsmall =>
        obtain ⟨rfl, hfinished⟩ := finish_cut h
        refine ⟨rfl, fun t hapart => ?_⟩
        rw [hpower t hapart.startsWithDigit, if_pos hsmall, hfinished]
      · next hlarge =>
        split at h
        · cases h
        · next hzero =>
          obtain ⟨rfl, rfl⟩ := ok_inj h
          refine ⟨rfl, fun t hapart => ?_⟩
          rw [hpower t hapart.startsWithDigit, if_neg hlarge, if_neg hzero]
    obtain ⟨rfl, hread⟩ := hsame
    exact ⟨⟨d :: ds, rfl, hread⟩, hdigit, dropWhile_digits hdigits hended⟩

theorem readExponent_digits (positive : Bool) (significand : Nat) (start : Int)
    (hstarts : startsWithDigit s = true) :
    readExponent positive significand start s = readPower positive true significand start s ∧
      skipExponent s = .ok (s.dropWhile Char.isDigit) := by
  constructor
  · unfold readExponent
    split
    · cases hstarts
    · cases hstarts
    · rfl
  · unfold skipExponent
    split
    · cases hstarts
    · cases hstarts
    · rw [if_pos hstarts]

theorem readExponent_cut {positive : Bool} {significand : Nat} {start : Int} {x : Float}
    (h : readExponent positive significand start s = .ok (x, r)) :
    CutApart (readExponent positive significand start) (fun t => (x, t)) s r ∧
      skipExponent s = .ok r := by
  unfold readExponent at h
  split at h
  · obtain ⟨⟨n, rfl, hread⟩, hstarts, hleft⟩ := readPower_cut h
    exact ⟨⟨'+' :: n, rfl, hread⟩, by rw [skipExponent, if_pos hstarts, hleft]⟩
  · obtain ⟨⟨n, rfl, hread⟩, hstarts, hleft⟩ := readPower_cut h
    exact ⟨⟨'-' :: n, rfl, hread⟩, by rw [skipExponent, if_pos hstarts, hleft]⟩
  · obtain ⟨⟨n, rfl, hread⟩, hstarts, hleft⟩ := readPower_cut h
    refine ⟨⟨n, rfl, fun t hapart => ?_⟩, ?_⟩
    · have hgiven := hread t hapart
      rw [(readExponent_digits positive significand start (readPower_cut hgiven).2.1).1]
      exact hgiven
    · rw [(readExponent_digits positive significand start hstarts).2, hleft]

/-- Passes over an exponent, if there is one. -/
def skipScale : List Char → Except Stop (List Char)
  | 'e' :: rest => skipExponent rest
  | 'E' :: rest => skipExponent rest
  | rest => .ok rest

def Plain (s : List Char) : Prop :=
  ∀ c ∈ s.head?, c ≠ '.' ∧ c ≠ 'e' ∧ c ≠ 'E'

theorem Apart.plain (hapart : Apart t) : Plain t := by
  obtain rfl | ⟨c, rest, rfl, rfl | rfl | rfl | rfl | rfl | rfl | rfl⟩ := hapart.cases <;>
    simp [Plain]

theorem Plain.readScale (hplain : Plain s) (positive : Bool) (significand : Nat)
    (exponent : Int) :
    Json.readScale positive significand exponent s = finish positive significand exponent s := by
  unfold Json.readScale
  split
  · exact absurd rfl (hplain _ rfl).2.1
  · exact absurd rfl (hplain _ rfl).2.2
  · rfl

theorem readScale_cut {positive : Bool} {significand : Nat} {exponent : Int} {x : Float}
    (h : readScale positive significand exponent s = .ok (x, r)) :
    CutApart (readScale positive significand exponent) (fun t => (x, t)) s r ∧
      skipScale s = .ok r := by
  unfold readScale at h
  split at h
  · obtain ⟨⟨n, rfl, hread⟩, hpassed⟩ := readExponent_cut h
    exact ⟨⟨'e' :: n, rfl, hread⟩, hpassed⟩
  · obtain ⟨⟨n, rfl, hread⟩, hpassed⟩ := readExponent_cut h
    exact ⟨⟨'E' :: n, rfl, hread⟩, hpassed⟩
  · next hsmall hlarge =>
    obtain ⟨rfl, hfinished⟩ := finish_cut h
    refine ⟨⟨[], rfl, fun t hapart => ?_⟩, ?_⟩
    · rw [List.nil_append, hapart.plain.readScale, hfinished]
    · rw [skipScale]
      · exact hsmall
      · exact hlarge

/-- After digits a fraction goes on with its exponent. -/
theorem readFraction_digits {ds : List Char} (hdigits : ∀ d ∈ ds, d.isDigit = true)
    (positive : Bool) (significand : Nat) (exponent : Int) (hsome : ds ≠ []) :
    ∃ f e, ∀ t, startsWithDigit t = false →
      readFraction positive significand exponent (ds ++ t) = readScale positive f e t := by
  obtain ⟨f, count, left, hrest, htaken, hsplit⟩ := absorb_split hdigits significand
  refine ⟨f, exponent - count, fun t hended => ?_⟩
  simp only [readFraction, hsplit t hended, startsWithDigit_append hrest hended]
  cases left with
  | nil =>
    have hcounted : count ≠ 0 := fun hnone => hsome (htaken hnone).symm
    rw [if_neg (by simp), if_neg hcounted, List.nil_append]
  | cons d left => rw [if_pos (by simp), dropWhile_digits hrest hended]

/-- Where there is no fraction, the rest of a number is its exponent. -/
theorem skipTail_scale (hnone : ∀ rest, s ≠ '.' :: rest) : skipTail s = skipScale s := by
  unfold skipTail
  split
  · exact absurd rfl (hnone _)
  · rfl
  · rfl
  · next hsmall hlarge =>
    rw [skipScale]
    · exact hsmall
    · exact hlarge

theorem skipTail_digits {ds : List Char} (hdigits : ∀ d ∈ ds, d.isDigit = true) (hsome : ds ≠ [])
    (hended : startsWithDigit t = false) : skipTail ('.' :: (ds ++ t)) = skipScale t := by
  rw [skipTail, startsWithDigit_append hdigits hended, dropWhile_digits hdigits hended,
    if_pos (by simp [hsome])]
  rfl

theorem readFraction_cut {positive : Bool} {significand : Nat} {exponent : Int} {x : Float}
    (h : readFraction positive significand exponent s = .ok (x, r)) :
    CutApart (readFraction positive significand exponent) (fun t => (x, t)) s r ∧
      skipTail ('.' :: s) = .ok r := by
  obtain ⟨ds, u, rfl, hdigits, hended⟩ := split_digits s
  by_cases hsome : ds = []
  · subst hsome
    rw [List.nil_append, readFraction, absorb_ended hended] at h
    simp [hended] at h
  · obtain ⟨f, e, hreads⟩ := readFraction_digits hdigits positive significand exponent hsome
    rw [hreads u hended] at h
    obtain ⟨⟨n, rfl, hread⟩, hpassed⟩ := readScale_cut h
    refine ⟨⟨ds ++ n, (List.append_assoc _ _ _).symm, fun t hapart => ?_⟩, ?_⟩
    · rw [List.append_assoc, hreads _ (startsWithDigit_replace hended hapart), hread t hapart]
    · rw [skipTail_digits hdigits hsome hended]
      exact hpassed

/-- A floating-point number behind its first character. -/
theorem cutApart_float {reader : List Char → Except Stop (Number × List Char)}
    {inner : List Char → Except Stop (Float × List Char)} {c : Char} {x : Number}
    (hsame : ∀ t, reader (c :: t) = (inner t >>= fun p => .ok (.float p.1, p.2)))
    (h : reader (c :: s) = .ok (x, r)) :
    ∃ y, inner s = .ok (y, r) ∧
      (CutApart inner (fun t => (y, t)) s r → CutApart reader (fun t => (x, t)) (c :: s) r) := by
  rw [hsame] at h
  obtain ⟨⟨y, left⟩, hgiven, h⟩ := bind_ok h
  obtain ⟨rfl, rfl⟩ := ok_inj h
  refine ⟨y, hgiven, ?_⟩
  rintro ⟨n, rfl, hread⟩
  refine ⟨c :: n, rfl, fun t hapart => ?_⟩
  rw [List.cons_append, hsame, hread t hapart]
  rfl

/-- How a number goes on after its integer digits. -/
theorem tail_cut {reader : List Char → Except Stop (Number × List Char)} {x : Number}
    (positive : Bool) (significand : Nat) (exponent : Int)
    (hpoint : ∀ t, reader ('.' :: t) =
      (readFraction positive significand exponent t >>= fun p => .ok (.float p.1, p.2)))
    (hletter : ∀ c t, c = 'e' ∨ c = 'E' → reader (c :: t) =
      (readExponent positive significand exponent t >>= fun p => .ok (.float p.1, p.2)))
    (hplain : Plain s → reader s = .ok (x, r) → r = s ∧ ∀ t, Apart t → reader t = .ok (x, t))
    (h : reader s = .ok (x, r)) :
    CutApart reader (fun t => (x, t)) s r ∧ skipTail s = .ok r := by
  by_cases hgoesOn : Plain s
  · obtain ⟨rfl, hread⟩ := hplain hgoesOn h
    refine ⟨⟨[], rfl, hread⟩, ?_⟩
    unfold skipTail
    split
    · exact absurd rfl (hgoesOn _ rfl).1
    · exact absurd rfl (hgoesOn _ rfl).2.1
    · exact absurd rfl (hgoesOn _ rfl).2.2
    · rfl
  · obtain ⟨c, rest, rfl, hone⟩ : ∃ c rest, s = c :: rest ∧ (c = '.' ∨ c = 'e' ∨ c = 'E') := by
      cases s with
      | nil => exact absurd nofun hgoesOn
      | cons c rest =>
        refine ⟨c, rest, rfl, ?_⟩
        simpa [Plain, -not_and, not_and_or] using hgoesOn
    rcases hone with rfl | hone
    · obtain ⟨y, hgiven, hcut⟩ := cutApart_float hpoint h
      obtain ⟨hinner, hpassed⟩ := readFraction_cut hgiven
      exact ⟨hcut hinner, hpassed⟩
    · obtain ⟨y, hgiven, hcut⟩ := cutApart_float (hletter c · hone) h
      obtain ⟨hinner, hpassed⟩ := readExponent_cut hgiven
      refine ⟨hcut hinner, ?_⟩
      rcases hone with rfl | rfl <;> exact hpassed

def wholeNumber (positive : Bool) (significand : Nat) : Number :=
  if positive then .natural significand
  else if significand = 0 ∨ UInt64.size / 2 < significand then .float (-Float.ofNat significand)
  else .negative significand

theorem Plain.readTail (hplain : Plain s) (positive : Bool) (significand : Nat) :
    Json.readTail positive significand s = .ok (wholeNumber positive significand, s) := by
  unfold Json.readTail wholeNumber
  split
  · exact absurd rfl (hplain _ rfl).1
  · exact absurd rfl (hplain _ rfl).2.1
  · exact absurd rfl (hplain _ rfl).2.2
  · split
    · rfl
    · split <;> rfl

theorem readTail_cut {positive : Bool} {significand : Nat} {x : Number}
    (h : readTail positive significand s = .ok (x, r)) :
    CutApart (readTail positive significand) (fun t => (x, t)) s r ∧ skipTail s = .ok r := by
  refine tail_cut positive significand 0 (fun t => rfl) (fun c t hone => ?_)
    (fun hplain hgiven => ?_) h
  · rcases hone with rfl | rfl <;> rfl
  · rw [hplain.readTail] at hgiven
    obtain ⟨rfl, rfl⟩ := ok_inj hgiven
    exact ⟨rfl, fun t hapart => hapart.plain.readTail positive significand⟩

/-- The digits that a significand has no room for, and what follows them. -/
theorem readLongTail_cut {positive : Bool} {significand : Nat} {x : Number} {ds : List Char}
    (hdigits : ∀ d ∈ ds, d.isDigit = true) (hended : startsWithDigit u = false)
    (h : readLongTail positive significand (ds ++ u) = .ok (x, r)) :
    CutApart (fun t => readLongTail positive significand (ds ++ t)) (fun t => (x, t)) u r ∧
      skipTail u = .ok r := by
  have hlong (c : Char) (t : List Char) (hother : c.isDigit = false) :
      (ds ++ c :: t).takeWhile Char.isDigit = ds ∧
        (ds ++ c :: t).dropWhile Char.isDigit = c :: t :=
    ⟨takeWhile_digits hdigits hother, dropWhile_digits hdigits hother⟩
  have hwhole (t : List Char) (hended : startsWithDigit t = false) (hplain : Plain t) :
      readLongTail positive significand (ds ++ t) =
        (finish positive significand ds.length t >>= fun p => .ok (.float p.1, p.2)) := by
    simp only [readLongTail, takeWhile_digits hdigits hended, dropWhile_digits hdigits hended]
    split
    · exact absurd rfl (hplain _ rfl).1
    · rw [hplain.readScale]
  refine tail_cut positive significand ds.length (fun t => ?_) (fun c t hone => ?_)
    (fun hplain hgiven => ?_) h
  · simp only [readLongTail, hlong '.' t rfl]
  · rcases hone with rfl | rfl
    · simp only [readLongTail, hlong 'e' t rfl]
      rfl
    · simp only [readLongTail, hlong 'E' t rfl]
      rfl
  · rw [hwhole u hended hplain] at hgiven
    obtain ⟨⟨y, left⟩, hfinished, hgiven⟩ := bind_ok hgiven
    obtain ⟨rfl, rfl⟩ := ok_inj hgiven
    obtain ⟨rfl, hanywhere⟩ := finish_cut hfinished
    refine ⟨rfl, fun t hapart => ?_⟩
    rw [hwhole t hapart.startsWithDigit hapart.plain, hanywhere]
    rfl

theorem readUnsigned_cut {positive : Bool} {x : Number}
    (h : readUnsigned positive s = .ok (x, r)) :
    CutApart (readUnsigned positive) (fun t => (x, t)) s r ∧ skipUnsigned s = .ok r := by
  unfold readUnsigned at h
  split at h
  · cases h
  · split at h
    · cases h
    · next hended =>
      obtain ⟨⟨n, rfl, hread⟩, hpassed⟩ := readTail_cut h
      refine ⟨⟨'0' :: n, rfl, fun t hapart => ?_⟩, by rw [skipUnsigned, if_neg hended, hpassed]⟩
      have hended := startsWithDigit_replace (Bool.eq_false_iff.mpr hended) hapart
      rw [List.cons_append, readUnsigned, hended, if_neg Bool.false_ne_true, hread t hapart]
  · next c rest hzero =>
    split at h
    · next hdigit =>
      obtain ⟨ds, u, rfl, hdigits, hended⟩ := split_digits rest
      obtain ⟨f, count, left, hmore, -, hsplit⟩ := absorb_split hdigits (digitValue c)
      -- what is read depends on whether the significand has taken all digits
      have hgoesOn (t : List Char) (hended : startsWithDigit t = false) :
          readUnsigned positive (c :: (ds ++ t)) =
            if left = [] then readTail positive f t else readLongTail positive f (left ++ t) := by
        rw [readUnsigned, if_pos hdigit, hsplit t hended]
        · simp only [startsWithDigit_append hmore hended]
          cases left <;> rfl
        · exact hzero
      have hpassed : skipUnsigned (c :: (ds ++ u)) = skipTail u := by
        rw [skipUnsigned, if_pos hdigit, dropWhile_digits hdigits hended]
        exact hzero
      have hgiven : readUnsigned positive (c :: (ds ++ u)) = .ok (x, r) := by
        rw [readUnsigned, if_pos hdigit]
        · exact h
        · exact hzero
      rw [hgoesOn u hended] at hgiven
      have hcut : CutApart (fun t => readUnsigned positive (c :: (ds ++ t))) (fun t => (x, t)) u r ∧
          skipTail u = .ok r := by
        split at hgiven
        · next hall =>
          obtain ⟨⟨n, rfl, hread⟩, hpassed⟩ := readTail_cut hgiven
          refine ⟨⟨n, rfl, fun t hapart => ?_⟩, hpassed⟩
          simp only [hgoesOn _ (startsWithDigit_replace hended hapart), if_pos hall, hread t hapart]
        · next hsome =>
          obtain ⟨⟨n, rfl, hread⟩, hpassed⟩ := readLongTail_cut hmore hended hgiven
          refine ⟨⟨n, rfl, fun t hapart => ?_⟩, hpassed⟩
          simp only [hgoesOn _ (startsWithDigit_replace hended hapart), if_neg hsome]
          exact hread t hapart
      obtain ⟨⟨n, rfl, hread⟩, hleft⟩ := hcut
      refine ⟨⟨c :: (ds ++ n), by simp, fun t hapart => ?_⟩, hpassed.trans hleft⟩
      rw [List.cons_append, List.append_assoc]
      exact hread t hapart
    · cases h

theorem isDigit_of_readUnsigned {positive : Bool} {c : Char} {x : Number}
    (h : readUnsigned positive (c :: s) = .ok (x, r)) : c.isDigit = true := by
  unfold readUnsigned at h
  split at h
  · cases h
  · next hgiven =>
    rw [(List.cons.inj hgiven).1]
    rfl
  · next hgiven =>
    rw [(List.cons.inj hgiven).1]
    split at h
    · assumption
    · cases h

/-- A number with its first character. -/
theorem readNumber_cut {c : Char} {x : Number} (h : readNumber (c :: s) = .ok (x, r)) :
    CutApart (fun t => readNumber (c :: t)) (fun t => (x, t)) s r ∧
      skipSimple (c :: s) = .ok (none, r) := by
  by_cases hminus : c = '-'
  · subst hminus
    obtain ⟨hcut, hpassed⟩ := readUnsigned_cut h
    refine ⟨hcut, ?_⟩
    rw [skipSimple, hpassed]
    rfl
  · have hsame (t : List Char) : readNumber (c :: t) = readUnsigned true (c :: t) := by
      rw [readNumber]
      rintro rest ⟨⟩
      exact hminus rfl
    rw [hsame] at h
    obtain ⟨hcut, hpassed⟩ := readUnsigned_cut h
    simp only [hsame]
    have hnothing : readUnsigned true [] ≠ .ok (x, []) := by
      intro h
      cases h
    refine ⟨hcut.behind hnothing, ?_⟩
    rw [skipSimple_digit (isDigit_of_readUnsigned h), hpassed]
    rfl

/-! ### Passing over a number -/

theorem split_some_digits (hstarts : startsWithDigit s = true) :
    ∃ ds u, s = ds ++ u ∧ ds ≠ [] ∧ (∀ d ∈ ds, d.isDigit = true) ∧ startsWithDigit u = false := by
  obtain ⟨ds, u, rfl, hdigits, hended⟩ := split_digits s
  refine ⟨ds, u, rfl, ?_, hdigits, hended⟩
  rintro rfl
  rw [List.nil_append, hended] at hstarts
  cases hstarts

/-- The digits of an exponent, its sign already passed. -/
theorem skipPower_cut (sign : List Char)
    (hsigned : ∀ s, startsWithDigit s = true →
      skipExponent (sign ++ s) = .ok (s.dropWhile Char.isDigit))
    (hstarts : startsWithDigit s = true) (hleft : s.dropWhile Char.isDigit = r) :
    CutApart skipExponent id (sign ++ s) r := by
  obtain ⟨ds, u, rfl, hsome, hdigits, hended⟩ := split_some_digits hstarts
  rw [dropWhile_digits hdigits hended] at hleft
  subst hleft
  refine ⟨sign ++ ds, (List.append_assoc _ _ _).symm, fun t hapart => ?_⟩
  have hstarts : startsWithDigit (ds ++ t) = true := by
    rw [startsWithDigit_append hdigits hapart.startsWithDigit]
    simpa using hsome
  rw [List.append_assoc, hsigned _ hstarts, dropWhile_digits hdigits hapart.startsWithDigit]
  rfl

theorem skipExponent_cut (h : skipExponent s = .ok r) : CutApart skipExponent id s r := by
  unfold skipExponent at h
  split at h <;> dsimp only at h <;> split at h
  · next hstarts =>
    exact skipPower_cut ['+'] (fun s hstarts => if_pos hstarts) hstarts (Except.ok.inj h)
  · cases h
  · next hstarts =>
    exact skipPower_cut ['-'] (fun s hstarts => if_pos hstarts) hstarts (Except.ok.inj h)
  · cases h
  · next hstarts =>
    exact skipPower_cut [] (fun s hstarts => (readExponent_digits true 0 0 hstarts).2) hstarts
      (Except.ok.inj h)
  · cases h

theorem skipScale_cut (h : skipScale s = .ok r) : CutApart skipScale id s r := by
  unfold skipScale at h
  split at h
  · obtain ⟨n, rfl, hskip⟩ := skipExponent_cut h
    exact ⟨'e' :: n, rfl, hskip⟩
  · obtain ⟨n, rfl, hskip⟩ := skipExponent_cut h
    exact ⟨'E' :: n, rfl, hskip⟩
  · obtain rfl := Except.ok.inj h
    refine ⟨[], rfl, fun t hapart => ?_⟩
    obtain rfl | ⟨c, rest, rfl, rfl | rfl | rfl | rfl | rfl | rfl | rfl⟩ := hapart.cases <;> rfl

theorem skipTail_cut (h : skipTail s = .ok r) : CutApart skipTail id s r := by
  by_cases hpoint : ∃ rest, s = '.' :: rest
  · obtain ⟨rest, rfl⟩ := hpoint
    cases hstarts : startsWithDigit rest with
    | false =>
      rw [skipTail, hstarts] at h
      cases h
    | true =>
      obtain ⟨ds, u, rfl, hsome, hdigits, hended⟩ := split_some_digits hstarts
      rw [skipTail_digits hdigits hsome hended] at h
      obtain ⟨n, rfl, hskip⟩ := skipScale_cut h
      refine ⟨'.' :: (ds ++ n), by simp, fun t hapart => ?_⟩
      rw [List.cons_append, List.append_assoc,
        skipTail_digits hdigits hsome (startsWithDigit_replace hended hapart), hskip t hapart]
  · have hpoint : ∀ rest, s ≠ '.' :: rest := fun rest hsame => hpoint ⟨rest, hsame⟩
    rw [skipTail_scale hpoint] at h
    obtain ⟨n, rfl, hskip⟩ := skipScale_cut h
    refine ⟨n, rfl, fun t hapart => ?_⟩
    rw [skipTail_scale, hskip t hapart]
    cases n with
    | nil =>
      rintro rest rfl
      exact (hapart.plain _ rfl).1 rfl
    | cons c n =>
      rintro rest ⟨⟩
      exact hpoint _ rfl

theorem skipUnsigned_cut (h : skipUnsigned s = .ok r) : CutApart skipUnsigned id s r := by
  unfold skipUnsigned at h
  split at h
  · split at h
    · cases h
    · next hended =>
      obtain ⟨n, rfl, hskip⟩ := skipTail_cut h
      refine ⟨'0' :: n, rfl, fun t hapart => ?_⟩
      have hended := startsWithDigit_replace (Bool.eq_false_iff.mpr hended) hapart
      rw [List.cons_append, skipUnsigned, hended, if_neg Bool.false_ne_true, hskip t hapart]
  · next c rest hzero =>
    split at h
    · next hdigit =>
      obtain ⟨ds, u, rfl, hdigits, hended⟩ := split_digits rest
      rw [dropWhile_digits hdigits hended] at h
      obtain ⟨n, rfl, hskip⟩ := skipTail_cut h
      refine ⟨c :: (ds ++ n), by simp, fun t hapart => ?_⟩
      rw [List.cons_append, List.append_assoc, skipUnsigned, if_pos hdigit,
        dropWhile_digits hdigits (startsWithDigit_replace hended hapart), hskip t hapart]
      exact hzero
    · cases h
  · cases h

end Json

end Skein
