import Skein.Proofs.Json.Cuts.Brackets
import Skein.Proofs.Json.Cuts.Numerals
import Skein.Proofs.Json.Members

/-!
# The members of an object are judged one by one

A value in the middle of a text is accepted exactly when it is accepted as a text of its
own, and read as the same (`Decoder.Local.verdict`).  So an object that gives each of its
members at most once is accepted exactly when the values of all known ones are
(`parse_judged`).
-/

namespace Skein

namespace Json

variable {α ξ σ : Type} {s t u v r : List Char}

theorem whole_ok {decoder : Decoder α} {a : α} :
    decoder.whole s = .ok a ↔ ∃ r, decoder s = .ok (a, r) ∧ skipBlank r = [] := by
  constructor
  · intro hgiven
    obtain ⟨⟨a', r⟩, hread, hended⟩ := bind_ok hgiven
    simp only at hended
    split at hended
    · next hnothing =>
      obtain rfl := Except.ok.inj hended
      exact ⟨r, hread, hnothing⟩
    · cases hended
  · rintro ⟨r, hread, hended⟩
    rw [Decoder.whole, hread]
    simp only [bind, Except.bind, hended]

theorem parse_ok {decoder : Decoder α} {text : String} {a : α} :
    parse decoder text = .ok a ↔ decoder.whole text.toList = .ok a := by
  rw [parse]
  cases decoder.whole text.toList with
  | error stop => simp only [Except.mapError, reduceCtorEq]
  | ok a' => simp only [Except.mapError, Except.ok.injEq]

theorem apart_of_ended (h : skipBlank r = []) (hapart : Apart t) : Apart (r ++ t) := by
  cases r with
  | nil => exact hapart
  | cons c r =>
    cases hblank : isBlank c with
    | true => exact apart_cons (.inl hblank) _
    | false =>
      rw [skipBlank_cons hblank] at h
      cases h

section Alone

variable {decoder : Decoder α} (h : decoder.Local) (hvalue : Derives .value (v ++ t) t)
  (hapart : Apart t)
include h hvalue hapart

/-- Of a value alone a decoder leaves nothing. -/
theorem Decoder.Local.alone {a : α} : decoder.whole v = .ok a ↔ decoder v = .ok (a, []) := by
  constructor
  · intro hwhole
    obtain ⟨r, hgiven, hended⟩ := whole_ok.mp hwhole
    obtain ⟨n, rfl, hread⟩ := h.cut hgiven
    -- blanks behind the value would be left behind it before the rest of the text as well
    have hbefore := hread (r ++ t) (apart_of_ended hended hapart)
    rw [← List.append_assoc] at hbefore
    have hsame := (h.passes hbefore).unique (hvalue.passes hapart)
    obtain rfl : r = [] := by simpa using hsame
    exact hgiven
  · intro hgiven
    exact whole_ok.mpr ⟨[], hgiven, rfl⟩

/-- What a decoder makes of a value before the rest of a text is what it makes of the
value alone. -/
theorem Decoder.Local.verdict (hblanks : Blanks u (v ++ t)) {a : α} :
    decoder u = .ok (a, r) ↔ r = t ∧ decoder v = .ok (a, []) := by
  have hsame (p : α × List Char) : decoder u = .ok p ↔ decoder (v ++ t) = .ok p := by
    rw [← h.blank, hblanks.skipBlank, h.blank]
  rw [hsame]
  constructor
  · intro hgiven
    obtain rfl := (h.passes hgiven).unique (hvalue.passes hapart)
    obtain ⟨n, htaken, hread⟩ := h.cut hgiven
    obtain rfl := List.append_cancel_right htaken
    have halone := hread [] nofun
    rw [List.append_nil] at halone
    exact ⟨rfl, halone⟩
  · rintro ⟨rfl, hgiven⟩
    obtain ⟨n, htaken, hread⟩ := h.cut hgiven
    rw [htaken, List.append_nil]
    exact hread r hapart

/-- A member with a decoder of its own is judged by its value alone. -/
theorem Decoder.Local.judged (name : String) (put : α → σ → σ) (hblanks : Blanks u (v ++ t))
    {c c' : σ} : (Member.of name decoder put).read c u = .ok (c', r) ↔
      r = t ∧ ∃ a, decoder v = .ok (a, []) ∧ c' = put a c := by
  constructor
  · intro hgiven
    obtain ⟨⟨a, left⟩, hread, hgiven⟩ := bind_ok hgiven
    obtain ⟨rfl, rfl⟩ := ok_inj hgiven
    obtain ⟨rfl, halone⟩ := (h.verdict hvalue hapart hblanks).mp hread
    exact ⟨rfl, a, halone, rfl⟩
  · rintro ⟨rfl, a, halone, rfl⟩
    have hread := (h.verdict hvalue hapart hblanks).mpr ⟨rfl, halone⟩
    show (decoder u >>= fun p => Except.ok (put p.1 c, p.2)) = _
    rw [hread]
    rfl

end Alone

/-- The record reads exactly those settings as members of it that are accepted. -/
structure Form.Judges (form : Form ξ σ) (shape : Record σ) (accepted : ξ → Prop) : Prop where
  names : shape.names.Nodup
  takes : Takes form.Written
  reads : ∀ x, ∃ m ∈ shape.members, m.name = form.field x ∧
    ∀ ⦃s t u⦄, form.Written s x t → Apart t → Blanks u s → ∀ c c' r,
      m.read c u = .ok (c', r) ↔ r = t ∧ accepted x ∧ c' = form.put x c

section

variable {form : Form ξ σ} {shape : Record σ} {accepted : ξ → Prop}

theorem readMember_judged (hjudges : form.Judges shape accepted) {seen : List String} {x : ξ}
    (hnew : form.field x ∉ seen) (hbetween : Blanks s (':' :: u)) (hafter : Blanks u v)
    (hvalue : form.Written v x t) (hapart : Apart t) (c c' : σ) :
    shape.readMember seen (form.field x) c s = .ok (c', r) ↔
      r = t ∧ accepted x ∧ c' = form.put x c := by
  obtain ⟨m, hmember, hname, hreads⟩ := hjudges.reads x
  have hfound : shape.members.find? (·.name == form.field x) = some m := by
    rw [← hname]
    exact find_name hjudges.names hmember
  have hunseen : seen.contains (form.field x) = false := by simpa using hnew
  simp only [Record.readMember, hfound, hunseen, Bool.false_eq_true, if_false, hbetween.readColon]
  exact hreads hvalue hapart hafter c c' r

/-- The rest of an object is accepted when its settings are. -/
theorem object_judged (hjudges : form.Judges shape accepted)
    (hcomplete : ∀ r, shape.complete r = .ok ()) {first : Bool} {entries : List (Option ξ)}
    (hlisting : Listing (Entry form shape.names) .object first s entries t) (fuel : Nat)
    (seen : List String) (c : σ) (henough : entries.length < fuel)
    (hfresh : form.Fresh seen entries.reduceOption) (c' : σ) :
    shape.object fuel first seen c s = .ok (c', r) ↔
      r = t ∧ (∀ x ∈ entries.reduceOption, accepted x) ∧
        c' = form.putAll entries.reduceOption c := by
  induction hlisting generalizing fuel seen c with
  | close hblanks =>
    obtain ⟨fuel, rfl⟩ : ∃ n, fuel = n + 1 := ⟨fuel - 1, by omega⟩
    rw [object_close hblanks (hcomplete c) fuel]
    constructor
    · intro hsame
      obtain ⟨rfl, rfl⟩ := ok_inj hsame
      exact ⟨rfl, nofun, rfl⟩
    · rintro ⟨rfl, -, rfl⟩
      rfl
  | item hcomma hentry hrest ih =>
    rw [List.length_cons] at henough
    obtain ⟨fuel, rfl⟩ : ∃ n, fuel = n + 1 := ⟨fuel - 1, by omega⟩
    cases hentry with
    | @setting u _ _ _ x hname hbetween hafter hvalue =>
      rw [List.reduceOption_cons_of_some] at hfresh ⊢
      obtain ⟨hnew, hfresh⟩ := fresh_cons.mp hfresh
      rw [List.forall_mem_cons]
      have hjudged (r : List Char) := readMember_judged (r := r) hjudges hnew hbetween hafter hvalue
        hrest.apart c
      cases hread : shape.readMember seen (form.field x) c u with
      | error stop =>
        rw [object_refused hcomma hname hread]
        refine ⟨nofun, ?_⟩
        rintro ⟨-, ⟨hgood, -⟩, -⟩
        rw [(hjudged _ _).mpr ⟨rfl, hgood, rfl⟩] at hread
        cases hread
      | ok p =>
        obtain ⟨rfl, hgood, hmember⟩ := (hjudged _ _).mp hread
        rw [object_member hcomma hname hread, hmember, ih fuel _ _ (by omega) hfresh,
          and_iff_right hgood]
        rfl
    | @stranger _ _ _ _ name htext hbetween hafter hvalue hunknown =>
      have hnew (x : ξ) : form.field x ≠ name := by
        obtain ⟨m, hmember, hsame, -⟩ := hjudges.reads x
        rintro rfl
        exact hunknown (hsame ▸ List.mem_map_of_mem hmember)
      rw [List.reduceOption_cons_of_none] at hfresh ⊢
      rw [object_member hcomma htext
        (readMember_stranger hunknown hbetween hafter hvalue hrest.apart),
        ih fuel _ _ (by omega) ((fresh_stranger hnew).mpr hfresh)]

/-- An object that gives each of its members at most once is accepted exactly when the
values of the known ones are, each on its own. -/
theorem parse_judged (hjudges : form.Judges shape accepted)
    (hcomplete : ∀ r, shape.complete r = .ok ()) {text : String} {settings : List ξ}
    (hwrites : Writes form shape text settings) (hnodup : (settings.map form.field).Nodup) (c : σ) :
    parse shape.decoder text = .ok c ↔
      (∀ x ∈ settings, accepted x) ∧ c = form.putAll settings shape.start := by
  obtain ⟨s, t, hbefore, hobject, hafter⟩ := hwrites.object
  have hended : skipBlank t = [] := hafter.skipBlank
  obtain ⟨hlisting⟩ := hobject
  have henough := Nat.lt_succ_of_le (hlisting.count_le (takes_entry hjudges.takes _))
  have hverdict (r : List Char) :=
    object_judged (r := r) hjudges hcomplete hlisting _ [] shape.start
    henough (fresh_start.mpr hnodup) c
  rw [parse_ok, whole_ok, Record.decoder, hbefore.skipBlank_cons rfl]
  simp only [hverdict]
  constructor
  · rintro ⟨r, ⟨-, hjudged⟩, -⟩
    exact hjudged
  · intro hjudged
    exact ⟨t, ⟨rfl, hjudged⟩, hended⟩

end

end Json

end Skein
