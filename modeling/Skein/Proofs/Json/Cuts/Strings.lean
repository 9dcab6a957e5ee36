import Skein.Proofs.Json.Skipping

/-!
# What a reader takes off the front of a text

A reader that gives a value back has taken a piece off the front of its text, and what
it makes of the piece does not depend on what follows: it takes the same piece before
any other rest (`Cut`).  A number has no end of its own, so for numbers, and for all that
may be one, the other rest has to stand apart (`CutApart`).  Words, colons and strings
come first here.  Whoever only passes over a string takes off the same piece as whoever
reads it.
-/

namespace Skein

namespace Json

variable {α β : Type} {s t u r : List Char}

/-- The reader takes a piece off the front of `s` that leaves `r`, and takes it off
whatever follows. -/
def Cut (reader : List Char → Except Stop β) (out : List Char → β) (s r : List Char) : Prop :=
  ∃ n, s = n ++ r ∧ ∀ t, reader (n ++ t) = .ok (out t)

/-- The reader takes a piece off the front of `s` that leaves `r`, and takes it off
whenever what follows stands apart. -/
def CutApart (reader : List Char → Except Stop β) (out : List Char → β) (s r : List Char) :
    Prop :=
  ∃ n, s = n ++ r ∧ ∀ t, Apart t → reader (n ++ t) = .ok (out t)

theorem Cut.apart {reader : List Char → Except Stop β} {out : List Char → β}
    (h : Cut reader out s r) : CutApart reader out s r := by
  obtain ⟨n, htaken, hread⟩ := h
  exact ⟨n, htaken, fun t _ => hread t⟩

/-- Where there is nothing to take, the piece has a first character. -/
theorem CutApart.behind {reader : List Char → Except Stop β} {out : List Char → β} {c : Char}
    (h : CutApart reader out (c :: s) r) (hsome : reader [] ≠ .ok (out [])) :
    CutApart (fun t => reader (c :: t)) out s r := by
  obtain ⟨n, htaken, hread⟩ := h
  cases n with
  | nil => exact absurd (hread [] nofun) hsome
  | cons d n =>
    obtain ⟨rfl, rfl⟩ := List.cons.inj htaken
    exact ⟨n, rfl, hread⟩

/-- A reader that goes on after another one takes up what that one has left. -/
theorem bind_ok {γ : Type} {x : Except Stop γ} {f : γ → Except Stop β} {b : β}
    (h : (x >>= f) = .ok b) : ∃ a, x = .ok a ∧ f a = .ok b := by
  cases x with
  | error stop => cases h
  | ok a => exact ⟨a, rfl, h⟩

theorem ok_inj {a b : α} (h : (.ok (a, s) : Except Stop (α × List Char)) = .ok (b, t)) :
    a = b ∧ s = t :=
  Prod.mk.inj (Except.ok.inj h)

/-! ## Words, colons and strings -/

theorem readWord_cut {w : List Char} (h : readWord w s = .ok r) : Cut (readWord w) id s r := by
  induction w generalizing s with
  | nil =>
    obtain rfl : s = r := Except.ok.inj h
    exact ⟨[], rfl, fun t => rfl⟩
  | cons c w ih =>
    cases s with
    | nil => cases h
    | cons d s =>
      rw [readWord] at h
      split at h
      · next hsame =>
        subst hsame
        obtain ⟨n, rfl, hread⟩ := ih h
        refine ⟨d :: n, rfl, fun t => ?_⟩
        rw [List.cons_append, readWord, if_pos rfl]
        exact hread t
      · cases h

theorem Blanks.cut (h : Blanks s r) : ∃ n, s = n ++ r ∧ ∀ t, Blanks (n ++ t) t := by
  induction h with
  | none => exact ⟨[], rfl, .none⟩
  | more hblank _ ih =>
    obtain ⟨n, rfl, hblanks⟩ := ih
    exact ⟨_ :: n, rfl, fun t => .more hblank (hblanks t)⟩

theorem readColon_cut (h : readColon s = .ok r) : Cut readColon id s r := by
  have hblanks := blanks_skipBlank s
  unfold readColon at h
  split at h
  · next hcolon =>
    obtain rfl := Except.ok.inj h
    rw [hcolon] at hblanks
    obtain ⟨n, rfl, hanywhere⟩ := hblanks.cut
    refine ⟨n ++ [':'], List.append_cons _ _ _, fun t => ?_⟩
    rw [List.append_assoc]
    exact (hanywhere (':' :: t)).readColon
  · cases h
  · cases h

theorem readHex_cut {n : Nat} (h : readHex s = .ok (n, r)) :
    Cut readHex (fun t => (n, t)) s r := by
  have hsome : hexFour? s = some (n, r) := by
    unfold readHex at h
    split at h
    · next hgiven => rw [hgiven, Except.ok.inj h]
    · cases h
  match s with
  | a :: b :: c :: d :: rest =>
    simp only [hexFour?, Option.bind_eq_bind, Option.bind_eq_some_iff, Option.some.injEq,
      Prod.mk.injEq] at hsome
    obtain ⟨i, hfirst, j, hsecond, k, hthird, l, hfourth, hvalue, rfl⟩ := hsome
    refine ⟨[a, b, c, d], rfl, fun t => ?_⟩
    simp only [List.cons_append, List.nil_append, readHex, hexFour?, hfirst, hsecond, hthird,
      hfourth, Option.bind_eq_bind, Option.bind_some, hvalue]

theorem readLowSurrogate_cut {high : Nat} {c : Char} (h : readLowSurrogate high s = .ok (c, r)) :
    Cut (readLowSurrogate high) (fun t => (c, t)) s r := by
  unfold readLowSurrogate at h
  split at h
  · cases h
  · cases h
  · next rest =>
    obtain ⟨⟨low, left⟩, hex, hgiven⟩ := bind_ok h
    obtain ⟨n, rfl, hread⟩ := readHex_cut hex
    simp only at hgiven
    split at hgiven
    · next hisLow =>
      obtain ⟨rfl, rfl⟩ := ok_inj hgiven
      refine ⟨'\\' :: 'u' :: n, rfl, fun t => ?_⟩
      simp only [List.cons_append, readLowSurrogate, hread, bind, Except.bind, hisLow, if_true]
    · cases hgiven
  · cases h
  · cases h

theorem readEscape_cut {strict : Bool} {c : Char} (h : readEscape strict s = .ok (c, r)) :
    Cut (readEscape strict) (fun t => (c, t)) s r := by
  unfold readEscape at h
  split at h
  · cases h
  · next rest =>
    obtain ⟨⟨m, left⟩, hex, hgiven⟩ := bind_ok h
    obtain ⟨n, rfl, hread⟩ := readHex_cut hex
    simp only at hgiven
    split at hgiven
    · cases hgiven
    · next hwhole =>
      split at hgiven
      · next high =>
        obtain ⟨n', rfl, hread'⟩ := readLowSurrogate_cut hgiven
        refine ⟨'u' :: (n ++ n'), by simp, fun t => ?_⟩
        simp only [List.cons_append, List.append_assoc, readEscape, hread, bind, Except.bind,
          if_neg hwhole, if_pos high, hread']
      · next hlow =>
        obtain ⟨rfl, rfl⟩ := ok_inj hgiven
        refine ⟨'u' :: n, rfl, fun t => ?_⟩
        simp only [List.cons_append, readEscape, hread, bind, Except.bind, if_neg hwhole,
          if_neg hlow]
  · next l rest hother =>
    split at h
    · next hletter =>
      obtain ⟨rfl, rfl⟩ := ok_inj h
      refine ⟨[l], rfl, fun t => ?_⟩
      show readEscape strict (l :: t) = _
      rw [readEscape, hletter]
      exact hother
    · cases h

theorem readUnit_cut {strict : Bool} {o : Option Char} (h : readUnit strict s = .ok (o, r)) :
    ∃ c n, s = c :: (n ++ r) ∧ ∀ t, readUnit strict (c :: (n ++ t)) = .ok (o, t) := by
  unfold readUnit at h
  split at h
  · cases h
  · obtain ⟨rfl, rfl⟩ := ok_inj h
    exact ⟨'"', [], rfl, fun t => rfl⟩
  · obtain ⟨⟨c, left⟩, hescape, hgiven⟩ := bind_ok h
    obtain ⟨rfl, rfl⟩ := ok_inj hgiven
    obtain ⟨n, rfl, hread⟩ := readEscape_cut hescape
    refine ⟨'\\', n, rfl, fun t => ?_⟩
    simp only [readUnit, hread, bind, Except.bind]
  · next c rest hquote hbackslash =>
    split at h
    · cases h
    · next hprintable =>
      obtain ⟨rfl, rfl⟩ := ok_inj h
      refine ⟨c, [], rfl, fun t => ?_⟩
      show readUnit strict (c :: t) = _
      rw [readUnit, if_neg hprintable]
      · exact hquote
      · exact hbackslash

theorem readUnits_cut {strict : Bool} {fuel : Nat} {taken cs : List Char}
    (h : readUnits strict fuel taken s = .ok (cs, r)) :
    ∃ n, s = n ++ r ∧ ∀ t fuel', n.length < fuel' →
      readUnits strict fuel' taken (n ++ t) = .ok (cs, t) := by
  induction fuel generalizing s taken with
  | zero => cases h
  | succ fuel ih =>
    rw [readUnits] at h
    split at h
    · cases h
    · next hclosed =>
      obtain ⟨rfl, rfl⟩ := ok_inj h
      obtain ⟨c, n, rfl, hread⟩ := readUnit_cut hclosed
      refine ⟨c :: n, rfl, fun t fuel' henough => ?_⟩
      obtain ⟨fuel', rfl⟩ : ∃ k, fuel' = k + 1 := ⟨fuel' - 1, by omega⟩
      rw [List.cons_append, readUnits, hread]
    · next hgiven =>
      obtain ⟨c, n, rfl, hread⟩ := readUnit_cut hgiven
      obtain ⟨n', rfl, hread'⟩ := ih h
      refine ⟨c :: (n ++ n'), by simp, fun t fuel' henough => ?_⟩
      rw [List.length_cons, List.length_append] at henough
      obtain ⟨fuel', rfl⟩ : ∃ k, fuel' = k + 1 := ⟨fuel' - 1, by omega⟩
      rw [List.cons_append, List.append_assoc, readUnits, hread]
      exact hread' t fuel' (by omega)

theorem readString_cut {x : String} (h : readString s = .ok (x, r)) :
    Cut readString (fun t => (x, t)) s r := by
  unfold readString at h
  split at h
  · cases h
  · next hgiven =>
    obtain ⟨rfl, rfl⟩ := ok_inj h
    obtain ⟨n, rfl, hread⟩ := readUnits_cut hgiven
    refine ⟨n, rfl, fun t => ?_⟩
    rw [readString, hread t _ (by rw [List.length_append]; omega)]

theorem skipString_cut (h : skipString s = .ok r) : Cut skipString id s r := by
  unfold skipString at h
  split at h
  · cases h
  · next hgiven =>
    obtain rfl := Except.ok.inj h
    obtain ⟨n, rfl, hread⟩ := readUnits_cut hgiven
    refine ⟨n, rfl, fun t => ?_⟩
    rw [skipString, hread t _ (by rw [List.length_append]; omega)]
    rfl

/-! ### What is read may as well be passed over -/

theorem readEscape_lax {c : Char} (h : readEscape true s = .ok (c, r)) :
    (∃ d, readEscape false s = .ok (d, r)) ∨
      ∃ d e u, readEscape false s = .ok (d, '\\' :: u) ∧ readEscape false u = .ok (e, r) := by
  unfold readEscape at h
  split at h
  · cases h
  · next rest =>
    obtain ⟨⟨m, left⟩, hex, hgiven⟩ := bind_ok h
    have hfirst : readEscape false ('u' :: rest) = .ok (Char.ofNat m, left) := by
      simp [readEscape, hex, bind, Except.bind]
    simp only at hgiven
    split at hgiven
    · cases hgiven
    · split at hgiven
      · unfold readLowSurrogate at hgiven
        split at hgiven
        · cases hgiven
        · cases hgiven
        · next u =>
          obtain ⟨⟨low, left⟩, hex', hgiven⟩ := bind_ok hgiven
          have hsecond : readEscape false ('u' :: u) = .ok (Char.ofNat low, left) := by
            simp [readEscape, hex', bind, Except.bind]
          simp only at hgiven
          split at hgiven
          · exact .inr ⟨_, _, _, hfirst, (ok_inj hgiven).2 ▸ hsecond⟩
          · cases hgiven
        · cases hgiven
        · cases hgiven
      · exact .inl ⟨_, (ok_inj hgiven).2 ▸ hfirst⟩
  · next l rest hother =>
    refine .inl ⟨c, ?_⟩
    rw [readEscape]
    · exact h
    · exact hother

theorem readUnit_lax_quote (h : readUnit true s = .ok (none, r)) :
    readUnit false s = .ok (none, r) := by
  unfold readUnit at h
  split at h
  · cases h
  · exact h
  · obtain ⟨⟨c, left⟩, -, hgiven⟩ := bind_ok h
    cases (ok_inj hgiven).1
  · split at h
    · cases h
    · cases (ok_inj h).1

theorem readUnit_lax {c : Char} (h : readUnit true s = .ok (some c, r)) :
    (∃ d, readUnit false s = .ok (some d, r)) ∨
      ∃ d e u, readUnit false s = .ok (some d, u) ∧ readUnit false u = .ok (some e, r) := by
  unfold readUnit at h
  split at h
  · cases h
  · cases (ok_inj h).1
  · next rest =>
    obtain ⟨⟨c, left⟩, hescape, hgiven⟩ := bind_ok h
    obtain rfl : left = r := (ok_inj hgiven).2
    have hunit {s t : List Char} {d : Char} (h : readEscape false s = .ok (d, t)) :
        readUnit false ('\\' :: s) = .ok (some d, t) := by
      simp [readUnit, h, bind, Except.bind]
    rcases readEscape_lax hescape with ⟨d, hescape⟩ | ⟨d, e, u, hfirst, hsecond⟩
    · exact .inl ⟨d, hunit hescape⟩
    · exact .inr ⟨d, e, '\\' :: u, hunit hfirst, hunit hsecond⟩
  · next c rest hquote hbackslash =>
    split at h
    · cases h
    · next hprintable =>
      refine .inl ⟨c, ?_⟩
      rw [readUnit, if_neg hprintable, (ok_inj h).2]
      · exact hquote
      · exact hbackslash

theorem readUnits_lax {fuel : Nat} {taken cs : List Char}
    (h : readUnits true fuel taken s = .ok (cs, r)) (fuel' : Nat) (taken' : List Char)
    (henough : s.length < fuel') : ∃ cs', readUnits false fuel' taken' s = .ok (cs', r) := by
  have hshorter {strict : Bool} {s t : List Char} {o : Option Char}
      (h : readUnit strict s = .ok (o, t)) : t.length < s.length := by
    obtain ⟨c, n, rfl, -⟩ := readUnit_cut h
    rw [List.length_cons, List.length_append]
    omega
  induction fuel generalizing s taken fuel' taken' with
  | zero => cases h
  | succ fuel ih =>
    obtain ⟨fuel', rfl⟩ : ∃ k, fuel' = k + 1 := ⟨fuel' - 1, by omega⟩
    rw [readUnits] at h
    split at h
    · cases h
    · next hclosed =>
      obtain ⟨-, rfl⟩ := ok_inj h
      rw [readUnits, readUnit_lax_quote hclosed]
      exact ⟨_, rfl⟩
    · next c left hgiven =>
      have hless := hshorter hgiven
      rcases readUnit_lax hgiven with ⟨d, hunit⟩ | ⟨d, e, u, hfirst, hsecond⟩
      · rw [readUnits, hunit]
        exact ih h fuel' _ (by omega)
      · -- one character written as a pair is passed over as two
        have hmore := hshorter hfirst
        have hless := hshorter hsecond
        obtain ⟨fuel', rfl⟩ : ∃ k, fuel' = k + 1 := ⟨fuel' - 1, by omega⟩
        rw [readUnits, hfirst]
        simp only [readUnits, hsecond]
        exact ih h fuel' _ (by omega)

/-- Whoever passes over a string that can be read leaves the same. -/
theorem skipString_of_readString {x : String} (h : readString s = .ok (x, r)) :
    skipString s = .ok r := by
  unfold readString at h
  split at h
  · cases h
  · next hgiven =>
    obtain ⟨cs, hpassed⟩ := readUnits_lax hgiven (s.length + 1) [] (Nat.lt_succ_self _)
    rw [skipString, hpassed, (ok_inj h).2]

end Json

end Skein
