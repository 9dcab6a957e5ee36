import Skein.Json.Decode
import Skein.Proofs.Json.Cuts.Skipping

/-!
# A decoder reads a value wherever it stands

What a decoder makes of a value does not depend on where the value stands: it reads the
same from a text of its own as from the middle of another one, before anything that stands
apart (`Decoder.Local`).  And it goes neither less nor more far than whoever passes over
the value.  Decoders of lists and records have this from those of their elements and
members.
-/

namespace Skein

namespace Json

variable {α β σ : Type} {s t u r : List Char}

/-- The decoder reads a piece off the front of a text, blanks before it allowed: one that
could be passed over as well, and that it reads before any other rest that stands
apart. -/
structure Decoder.Local (decoder : Decoder α) : Prop where
  blank : ∀ s p, decoder (skipBlank s) = .ok p ↔ decoder s = .ok p
  nothing : ∀ p, decoder [] ≠ .ok p
  read : ∀ {c s a r}, isBlank c = false → decoder (c :: s) = .ok (a, r) →
    Passes (c :: s) r ∧ CutApart (fun t => decoder (c :: t)) (fun t => (a, t)) s r

namespace Decoder.Local

variable {decoder : Decoder α} {a : α}

/-- Blanks come before the first character of the piece. -/
theorem first (h : decoder.Local) (hgiven : decoder s = .ok (a, r)) :
    ∃ b c x, s = b ++ c :: x ∧ isBlank c = false ∧ decoder (c :: x) = .ok (a, r) ∧
      ∀ t, skipBlank (b ++ c :: t) = c :: t := by
  cases hbegins : skipBlank s with
  | nil =>
    rw [← h.blank, hbegins] at hgiven
    exact absurd hgiven (h.nothing _)
  | cons c x =>
    obtain ⟨hsolid, b, htaken, hblanks⟩ := skipBlank_cut hbegins
    rw [← h.blank, hbegins] at hgiven
    exact ⟨b, c, x, htaken, hsolid, hgiven, hblanks⟩

theorem passes (h : decoder.Local) (hgiven : decoder s = .ok (a, r)) : Passes s r := by
  obtain ⟨b, c, x, rfl, hsolid, hgiven, hblanks⟩ := h.first hgiven
  rw [← passes_skipBlank, hblanks]
  exact (h.read hsolid hgiven).1

theorem cut (h : decoder.Local) (hgiven : decoder s = .ok (a, r)) :
    CutApart decoder (fun t => (a, t)) s r := by
  obtain ⟨b, c, x, rfl, hsolid, hgiven, hblanks⟩ := h.first hgiven
  obtain ⟨n, rfl, hread⟩ := (h.read hsolid hgiven).2
  refine ⟨b ++ c :: n, by simp, fun t hapart => ?_⟩
  rw [List.append_assoc, List.cons_append, ← h.blank, hblanks]
  exact hread t hapart

/-- A decoder that accepts some of the values of another one, in a form of its own. -/
theorem filterMap (h : decoder.Local) {other : Decoder β} (f : α → Option β)
    (hsame : ∀ s b r, other s = .ok (b, r) ↔ ∃ a, decoder s = .ok (a, r) ∧ f a = some b) :
    other.Local where
  blank s p := by simp only [hsame s, hsame (skipBlank s), h.blank]
  nothing p hgiven := by
    obtain ⟨a, hgiven, -⟩ := (hsame [] p.1 p.2).mp hgiven
    exact h.nothing _ hgiven
  read := by
    intro c s b r hsolid hgiven
    obtain ⟨a, hgiven, hvalue⟩ := (hsame _ b r).mp hgiven
    obtain ⟨hpasses, n, rfl, hread⟩ := h.read hsolid hgiven
    exact ⟨hpasses, n, rfl, fun t hapart => (hsame _ b t).mpr ⟨a, hread t hapart, hvalue⟩⟩

/-- What is read may be made into something else at once. -/
theorem map (h : decoder.Local) (f : α → β) :
    Decoder.Local (fun s => decoder s >>= fun p => .ok (f p.1, p.2)) := by
  refine h.filterMap (fun a => some (f a)) fun s b r => ?_
  constructor
  · intro hgiven
    obtain ⟨⟨a, left⟩, hinner, hvalue⟩ := bind_ok hgiven
    obtain ⟨rfl, rfl⟩ := ok_inj hvalue
    exact ⟨a, hinner, rfl⟩
  · rintro ⟨a, hinner, hvalue⟩
    obtain rfl := Option.some.inj hvalue
    rw [hinner]
    rfl

end Decoder.Local

/-! ## Simple values -/

/-- A word, behind its first character. -/
theorem word_read {decoder : Decoder α} {w : List Char} {c : Char} {a : α} (b : α)
    (hsolid : isBlank c = false)
    (hpassed : ∀ t, skipSimple (c :: t) = (readWord w t >>= fun t => .ok (none, t)))
    (hsame : ∀ t, decoder (c :: t) = (readWord w t >>= fun t => .ok (b, t)))
    (hgiven : decoder (c :: s) = .ok (a, r)) :
    Passes (c :: s) r ∧ CutApart (fun t => decoder (c :: t)) (fun t => (a, t)) s r := by
  rw [hsame] at hgiven
  obtain ⟨left, hword, hgiven⟩ := bind_ok hgiven
  obtain ⟨rfl, rfl⟩ := ok_inj hgiven
  constructor
  · refine passes_simple ?_
    rw [skipBlank_cons hsolid, hpassed, hword]
    rfl
  · obtain ⟨n, rfl, hread⟩ := readWord_cut hword
    refine ⟨n, rfl, fun t _ => ?_⟩
    show decoder (c :: (n ++ t)) = _
    rw [hsame, hread t]
    rfl

theorem boolean_local : Decoder.boolean.Local where
  blank s p := by rw [Decoder.boolean, Decoder.boolean, skipBlank_skipBlank]
  nothing _ := nofun
  read := by
    intro c s b r hsolid hgiven
    have hshown (t : List Char) := skipBlank_cons hsolid t
    by_cases hyes : c = 't'
    · subst hyes
      exact word_read true hsolid (fun t => rfl)
        (fun t => by rw [Decoder.boolean, hshown]; rfl) hgiven
    by_cases hno : c = 'f'
    · subst hno
      exact word_read false hsolid (fun t => rfl) (fun t => by rw [Decoder.boolean, hshown]; rfl)
        hgiven
    rw [Decoder.boolean, hshown] at hgiven
    split at hgiven
    · cases hgiven
    · next hsame => exact absurd (List.cons.inj hsame).1 hyes
    · next hsame => exact absurd (List.cons.inj hsame).1 hno
    · cases hgiven

theorem null_local (wanted : String) : (Decoder.null wanted).Local where
  blank s p := by rw [Decoder.null, Decoder.null, skipBlank_skipBlank]
  nothing _ := nofun
  read := by
    intro c s b r hsolid hgiven
    have hshown (t : List Char) := skipBlank_cons hsolid t
    by_cases hnull : c = 'n'
    · subst hnull
      exact word_read () hsolid (fun t => rfl) (fun t => by rw [Decoder.null, hshown]; rfl) hgiven
    rw [Decoder.null, hshown] at hgiven
    split at hgiven
    · cases hgiven
    · next hsame => exact absurd (List.cons.inj hsame).1 hnull
    · cases hgiven

theorem optional_local {decoder : Decoder α} (h : decoder.Local) :
    (Decoder.optional decoder).Local where
  blank s p := by rw [Decoder.optional, Decoder.optional, skipBlank_skipBlank]
  nothing p hgiven := by
    obtain ⟨⟨a, left⟩, hinner, -⟩ := bind_ok hgiven
    exact h.nothing _ hinner
  read := by
    intro c s b r hsolid hgiven
    have hshown (t : List Char) := skipBlank_cons hsolid t
    by_cases hnull : c = 'n'
    · subst hnull
      exact word_read none hsolid (fun t => rfl) (fun t => by rw [Decoder.optional, hshown]; rfl)
        hgiven
    have hsame (t : List Char) : Decoder.optional decoder (c :: t) =
        (decoder (c :: t) >>= fun p => .ok (some p.1, p.2)) := by
      rw [Decoder.optional, hshown]
      split
      · next hsame => exact absurd (List.cons.inj hsame).1 hnull
      · rfl
    rw [hsame] at hgiven
    obtain ⟨⟨a, left⟩, hinner, hvalue⟩ := bind_ok hgiven
    obtain ⟨rfl, rfl⟩ := ok_inj hvalue
    obtain ⟨hpasses, n, rfl, hread⟩ := h.read hsolid hinner
    refine ⟨hpasses, n, rfl, fun t hapart => ?_⟩
    have hagain : decoder (c :: (n ++ t)) = .ok (a, t) := hread t hapart
    show Decoder.optional decoder (c :: (n ++ t)) = _
    rw [hsame, hagain]
    rfl

theorem text_local (wanted : String) : (Decoder.text wanted).Local where
  blank s p := by rw [Decoder.text, Decoder.text, skipBlank_skipBlank]
  nothing _ := nofun
  read := by
    intro c s x r hsolid hgiven
    have hshown (t : List Char) := skipBlank_cons hsolid t
    rw [Decoder.text, hshown] at hgiven
    split at hgiven
    · cases hgiven
    · next hsame =>
      obtain ⟨rfl, rfl⟩ := List.cons.inj hsame
      constructor
      · refine passes_simple ?_
        rw [hshown, skipSimple, skipString_of_readString hgiven]
        rfl
      · obtain ⟨n, rfl, hread⟩ := readString_cut hgiven
        refine ⟨n, rfl, fun t _ => ?_⟩
        show Decoder.text wanted ('"' :: (n ++ t)) = _
        rw [Decoder.text, hshown]
        exact hread t
    · cases hgiven

theorem number_local (wanted : String) : (Decoder.number wanted).Local where
  blank s p := by rw [Decoder.number, Decoder.number, skipBlank_skipBlank]
  nothing _ := nofun
  read := by
    intro c s x r hsolid hgiven
    have hshown (t : List Char) := skipBlank_cons hsolid t
    simp only [Decoder.number, hshown] at hgiven ⊢
    split at hgiven
    · next hnumber =>
      obtain ⟨hcut, hpassed⟩ := readNumber_cut hgiven
      simp only [if_pos hnumber]
      refine ⟨passes_simple ?_, hcut⟩
      rw [hshown, hpassed]
    · cases hgiven

theorem naturalBelow_local (limit : Nat) (wanted : String) :
    (Decoder.naturalBelow limit wanted).Local := by
  let value : Number → Option Nat
    | .natural k => if k < limit then some k else none
    | _ => none
  refine (number_local wanted).filterMap value fun s b r => ?_
  constructor
  · intro hgiven
    obtain ⟨⟨n, left⟩, hread, hgiven⟩ := bind_ok hgiven
    cases n with
    | natural k =>
      simp only at hgiven
      split at hgiven
      · next hbelow =>
        obtain ⟨rfl, rfl⟩ := ok_inj hgiven
        exact ⟨.natural k, hread, if_pos hbelow⟩
      · cases hgiven
    | negative => cases hgiven
    | float => cases hgiven
  · rintro ⟨n, hread, hgiven⟩
    rw [Decoder.naturalBelow, hread]
    cases n with
    | natural k =>
      simp only [value, Option.ite_none_right_eq_some, Option.some.injEq] at hgiven
      obtain ⟨hbelow, rfl⟩ := hgiven
      exact if_pos hbelow
    | negative => cases hgiven
    | float => cases hgiven

theorem float_local : Decoder.float.Local :=
  (number_local "f64").map Number.toFloat

end Json

end Skein
