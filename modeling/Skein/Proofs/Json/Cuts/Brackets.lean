import Skein.Proofs.Json.Cuts.Decoders

/-!
# Lists and records are read wherever they stand

Between brackets a decoder takes off one item after the other, each with what leads to
it, and the closing bracket at last (`Inside`).  Whatever the items are, the rest of them
stands apart from the one before, so a decoder of lists or records is as local as those
of its items.
-/

namespace Skein

namespace Json

variable {α β σ : Type} {s t u v r : List Char}

/-- Where a reader stands between brackets, before the first item or behind another. -/
def Place.before (first : Bool) : Place :=
  if first then .opened else .element

/-- Whoever passes over the items stands before the value of the next one in one step. -/
def Enters (bracket : Bracket) (first : Bool) (s u : List Char) : Prop :=
  ∀ fuel pending, skipFrom (fuel + 1) (.before first) (bracket :: pending) s =
    skipFrom fuel .value (bracket :: pending) u

/-- From before the first item or behind another, the reader takes off all the items and
the closing bracket.  Its fuel may be any that is more than the characters it takes. -/
structure Inside (bracket : Bracket) (first : Bool)
    (reader : Nat → List Char → Except Stop (β × List Char)) (b : β) (s r : List Char) : Prop where
  passes : ∃ k, ∀ fuel pending, skipFrom (fuel + k) (.before first) (bracket :: pending) s =
    skipFrom fuel .element pending r
  cut : ∃ n, s = n ++ r ∧ (first = false → ∀ t, Apart (n ++ t)) ∧
    ∀ t fuel, n.length < fuel → reader fuel (n ++ t) = .ok (b, t)

section

variable {bracket : Bracket} {first : Bool}
  {reader reader' : Nat → List Char → Except Stop (β × List Char)} {b : β}

theorem Inside.close (hclosing : skipBlank s = bracket.closing :: r)
    (hreads : ∀ s t fuel, skipBlank s = bracket.closing :: t → reader (fuel + 1) s = .ok (b, t)) :
    Inside bracket first reader b s r := by
  obtain ⟨-, n, rfl, hblanks⟩ := skipBlank_cut hclosing
  constructor
  · refine ⟨1, fun fuel pending => ?_⟩
    cases first with
    | true => exact skipFrom_empty hclosing
    | false => exact skipFrom_closing hclosing
  · refine ⟨n ++ [bracket.closing], by simp, fun _ t => ?_, fun t fuel henough => ?_⟩
    · rw [List.append_assoc]
      exact apart_of_skipBlank (hblanks t) (apart_closing bracket t)
    · obtain ⟨fuel, rfl⟩ : ∃ k, fuel = k + 1 := ⟨fuel - 1, by omega⟩
      rw [List.append_assoc]
      exact hreads _ t fuel (hblanks t)

theorem Inside.item {m : List Char} (henters : Enters bracket first (m ++ v) u)
    (hpasses : Passes u v)
    (hsome : m ≠ []) (hapart : first = false → ∀ t, Apart (m ++ t))
    (hrest : Inside bracket false reader' b v r)
    (hreads : ∀ t fuel, Apart t → reader (fuel + 1) (m ++ t) = reader' fuel t) :
    Inside bracket first reader b (m ++ v) r := by
  constructor
  · obtain ⟨k, hsteps⟩ := hpasses
    obtain ⟨k', hsteps'⟩ := hrest.passes
    refine ⟨k' + k + 1, fun fuel pending => ?_⟩
    have hafter : skipFrom (fuel + k') .element (bracket :: pending) v = _ := hsteps' fuel pending
    rw [← Nat.add_assoc, ← Nat.add_assoc, henters, hsteps, hafter]
  · obtain ⟨n, rfl, hfollows, hreads'⟩ := hrest.cut
    have hlength := List.length_pos_iff.mpr hsome
    refine ⟨m ++ n, by simp, fun hnext t => ?_, fun t fuel henough => ?_⟩
    · rw [List.append_assoc]
      exact hapart hnext (n ++ t)
    · rw [List.length_append] at henough
      obtain ⟨fuel, rfl⟩ : ∃ k, fuel = k + 1 := ⟨fuel - 1, by omega⟩
      rw [List.append_assoc, hreads _ _ (hfollows rfl t)]
      exact hreads' t fuel (by omega)

/-- Between its brackets it is a value. -/
theorem Inside.enclosed {decoder : Decoder β} (hinside : Inside bracket true reader b s r)
    (hreads : ∀ s, decoder (bracket.opening :: s) = reader (s.length + 1) s) :
    Passes (bracket.opening :: s) r ∧
      CutApart (fun t => decoder (bracket.opening :: t)) (fun t => (b, t)) s r := by
  constructor
  · obtain ⟨k, hsteps⟩ := hinside.passes
    have hsolid : isBlank bracket.opening = false := by cases bracket <;> rfl
    refine ⟨k + 1, fun fuel pending => ?_⟩
    rw [← Nat.add_assoc, skipFrom_opening (skipBlank_cons hsolid s)]
    exact hsteps fuel pending
  · obtain ⟨n, rfl, -, hread⟩ := hinside.cut
    refine ⟨n, rfl, fun t _ => ?_⟩
    show decoder (bracket.opening :: (n ++ t)) = _
    rw [hreads, hread]
    rw [List.length_append]
    omega

end

/-! ## Lists -/

theorem closeList_closing (h : closeList s = .ok r) : skipBlank s = ']' :: r := by
  unfold closeList at h
  split at h
  · cases h
  · next hclosing => rw [hclosing, Except.ok.inj h]
  · split at h <;> cases h
  · cases h

theorem closeList_ok (h : skipBlank s = ']' :: r) : closeList s = .ok r := by
  rw [closeList, h]
  rfl

theorem nextElement_closing {first : Bool} (h : nextElement first s = .ok (false, u)) :
    ∃ v, u = ']' :: v ∧ skipBlank s = ']' :: v := by
  unfold nextElement at h
  split at h
  · cases h
  · next c rest hbegins =>
    split at h
    · next hclosing =>
      obtain ⟨-, rfl⟩ := Prod.mk.inj (Except.ok.inj h)
      exact ⟨rest, hclosing ▸ rfl, hclosing ▸ hbegins⟩
    · split at h
      · cases h
      · split at h
        · split at h
          · cases h
          · split at h <;> cases h
        · cases h

theorem nextElement_end (first : Bool) (h : skipBlank s = ']' :: r) :
    nextElement first s = .ok (false, ']' :: r) := by
  simp only [nextElement, h, if_true]

theorem nextElement_cut {first : Bool} (h : nextElement first s = .ok (true, u)) :
    ∃ m c x, s = m ++ c :: x ∧ u = c :: x ∧ isBlank c = false ∧ Enters .list first s u ∧
      (first = false → ∀ t, Apart (m ++ t)) ∧
      ∀ t, nextElement first (m ++ c :: t) = .ok (true, c :: t) := by
  unfold nextElement at h
  split at h
  · cases h
  · next c rest hbegins =>
    obtain ⟨hsolid, n, rfl, hblanks⟩ := skipBlank_cut hbegins
    split at h
    · cases h
    · next hgoing =>
      split at h
      · next hisFirst =>
        obtain ⟨-, rfl⟩ := Prod.mk.inj (Except.ok.inj h)
        subst hisFirst
        refine ⟨n, c, rest, rfl, rfl, hsolid, fun fuel pending => ?_, nofun, fun t => ?_⟩
        · exact skipFrom_first hbegins hgoing rfl
        · simp only [nextElement, hblanks t, hgoing, if_false, if_true]
      · next hnotFirst =>
        split at h
        · next hcomma =>
          subst hcomma
          split at h
          · cases h
          · next d rest' hbegins' =>
            obtain ⟨hsolid', n', rfl, hblanks'⟩ := skipBlank_cut hbegins'
            split at h
            · cases h
            · next hgoing' =>
              obtain ⟨-, rfl⟩ := Prod.mk.inj (Except.ok.inj h)
              obtain rfl := Bool.eq_false_iff.mpr hnotFirst
              refine ⟨n ++ ',' :: n', d, rest', by simp, rfl, hsolid', fun fuel pending => ?_,
                fun _ t => ?_, fun t => ?_⟩
              · have hstep := @skipFrom_comma
                  (n ++ ',' :: (n' ++ d :: rest')) _ _ fuel .list pending hbegins rfl
                show skipFrom (fuel + 1) .element _ _ = _
                rw [hstep, ← skipFrom_skipBlank, hbegins']
              · rw [List.append_assoc]
                exact apart_of_skipBlank (hblanks _) (apart_comma (n' ++ t))
              · rw [List.append_assoc]
                simp only [nextElement, List.cons_append, hblanks (n' ++ d :: t), hblanks' t,
                  hgoing', Char.reduceEq, Bool.false_eq_true, if_false, if_true]
        · cases h

/-- The list has ended, and nothing more is wanted from it. -/
theorem closing_of_ended {first : Bool} (hended : nextElement first s = .ok (false, u))
    (hclosed : closeList u = .ok r) : skipBlank s = ']' :: r := by
  obtain ⟨v, rfl, hclosing⟩ := nextElement_closing hended
  obtain rfl : v = r := Except.ok.inj hclosed
  exact hclosing

/-- One element more, read by a decoder that is local. -/
theorem Inside.element {decoder : Decoder α} (h : decoder.Local) {first : Bool} {a : α}
    {reader reader' : Nat → List Char → Except Stop (β × List Char)} {b : β}
    (hnext : nextElement first s = .ok (true, u)) (hread : decoder u = .ok (a, v))
    (hrest : Inside .list false reader' b v r)
    (hreads : ∀ {s u t} fuel, nextElement first s = .ok (true, u) → decoder u = .ok (a, t) →
      reader (fuel + 1) s = reader' fuel t) : Inside .list first reader b s r := by
  obtain ⟨m, c, x, rfl, rfl, hsolid, henters, hapart, hagain⟩ := nextElement_cut hnext
  obtain ⟨hpasses, n, rfl, helement⟩ := h.read hsolid hread
  rw [show m ++ c :: (n ++ v) = (m ++ c :: n) ++ v by simp] at henters ⊢
  refine .item henters hpasses (by simp) (fun hisNext t => ?_) hrest fun t fuel hstands => ?_
  · rw [List.append_assoc]
    exact hapart hisNext _
  · rw [List.append_assoc]
    exact hreads fuel (hagain (n ++ t)) (helement t hstands)

theorem elements_inside {decoder : Decoder α} (h : decoder.Local) {fuel : Nat} {first : Bool}
    {taken as : List α} (hgiven : decoder.elements fuel first taken s = .ok (as, r)) :
    Inside .list first (fun fuel => decoder.elements fuel first taken) as s r := by
  induction fuel generalizing first taken s with
  | zero => cases hgiven
  | succ fuel ih =>
    rw [Decoder.elements] at hgiven
    split at hgiven
    · cases hgiven
    · next hended =>
      obtain ⟨left, hclosed, hgiven⟩ := bind_ok hgiven
      obtain ⟨rfl, rfl⟩ := ok_inj hgiven
      refine .close (closing_of_ended hended hclosed) fun s t fuel hclosing => ?_
      rw [Decoder.elements, nextElement_end first hclosing]
      rfl
    · next hnext =>
      split at hgiven
      · cases hgiven
      · next a left hread =>
        refine .element h hnext hread (ih hgiven) fun fuel hnext hread => ?_
        simp only [Decoder.elements, hnext, hread]

theorem list_local {decoder : Decoder α} (h : decoder.Local) : (Decoder.list decoder).Local where
  blank s p := by rw [Decoder.list, Decoder.list, skipBlank_skipBlank]
  nothing _ := nofun
  read := by
    intro c s as r hsolid hgiven
    have hshown (t : List Char) := skipBlank_cons hsolid t
    rw [Decoder.list, hshown] at hgiven
    split at hgiven
    · cases hgiven
    · next hsame =>
      obtain ⟨rfl, rfl⟩ := List.cons.inj hsame
      exact (elements_inside h hgiven).enclosed fun s => rfl
    · cases hgiven

/-! ## Objects -/

theorem nextMember_closing {first : Bool} (h : nextMember first s = .ok (false, u)) :
    skipBlank s = '\x7d' :: u := by
  unfold nextMember at h
  split at h
  · cases h
  · next c rest hbegins =>
    split at h
    · next hclosing =>
      obtain ⟨-, rfl⟩ := Prod.mk.inj (Except.ok.inj h)
      rw [hbegins, hclosing]
    · split at h
      · split at h <;> cases h
      · split at h
        · split at h <;> cases h
        · cases h

theorem nextMember_end (first : Bool) (h : skipBlank s = '\x7d' :: r) :
    nextMember first s = .ok (false, r) := by
  simp only [nextMember, h, if_true]

theorem enter_name (hbegins : skipBlank s = '"' :: u) (hname : skipString u = .ok v)
    (hcolon : readColon v = .ok t) : enter .object s = .ok t := by
  show skipKey s = _
  simp only [skipKey, hbegins, hname]
  exact hcolon

theorem nextMember_cut {first : Bool} (h : nextMember first s = .ok (true, u)) :
    ∃ m, s = m ++ '"' :: u ∧ (first = false → ∀ t, Apart (m ++ t)) ∧
      (∀ t, nextMember first (m ++ '"' :: t) = .ok (true, t)) ∧
      ∀ v w, skipString u = .ok v → readColon v = .ok w → Enters .object first s w := by
  unfold nextMember at h
  split at h
  · cases h
  · next c rest hbegins =>
    obtain ⟨hsolid, n, rfl, hblanks⟩ := skipBlank_cut hbegins
    split at h
    · cases h
    · next hgoing =>
      split at h
      · next hisFirst =>
        split at h
        · next hquote =>
          obtain ⟨-, rfl⟩ := Prod.mk.inj (Except.ok.inj h)
          subst hisFirst hquote
          refine ⟨n, rfl, nofun, fun t => ?_, fun v w hname hcolon fuel pending => ?_⟩
          · simp only [nextMember, hblanks t, hgoing, if_false, if_true]
          · exact skipFrom_first hbegins hgoing (enter_name (skipBlank_cons rfl _) hname hcolon)
        · cases h
      · next hnotFirst =>
        split at h
        · next hcomma =>
          subst hcomma
          obtain rfl := Bool.eq_false_iff.mpr hnotFirst
          split at h
          · cases h
          · next rest' hbegins' =>
            obtain ⟨-, rfl⟩ := Prod.mk.inj (Except.ok.inj h)
            obtain ⟨-, n', rfl, hblanks'⟩ := skipBlank_cut hbegins'
            refine ⟨n ++ ',' :: n', by simp, fun _ t => ?_, fun t => ?_,
              fun v w hname hcolon fuel pending => ?_⟩
            · rw [List.append_assoc]
              exact apart_of_skipBlank (hblanks _) (apart_comma (n' ++ t))
            · rw [List.append_assoc]
              simp only [nextMember, List.cons_append, hblanks (n' ++ '"' :: t), hblanks' t,
                Char.reduceEq, Bool.false_eq_true, if_false, if_true]
            · exact skipFrom_comma hbegins (enter_name hbegins' hname hcolon)
          · cases h
          · cases h
        · cases h

def Record.Local (shape : Record σ) : Prop :=
  ∀ m ∈ shape.members, ∀ r, Decoder.Local (m.read r)

theorem readMember_cut {shape : Record σ} (h : shape.Local) {seen : List String} {name : String}
    {r r' : σ} (hgiven : shape.readMember seen name r s = .ok (r', t)) :
    ∃ w, readColon s = .ok w ∧ Passes w t ∧
      CutApart (shape.readMember seen name r) (fun t => (r', t)) s t := by
  unfold Record.readMember at hgiven ⊢
  split at hgiven
  · next hunknown =>
    obtain ⟨w, hcolon, hgiven⟩ := bind_ok hgiven
    obtain ⟨left, hskipped, hgiven⟩ := bind_ok hgiven
    obtain ⟨rfl, rfl⟩ := ok_inj hgiven
    obtain ⟨n, rfl, hread⟩ := readColon_cut hcolon
    obtain ⟨n', rfl, hskip⟩ := skipValue_cut hskipped
    refine ⟨_, hcolon, passes_of_skipValue hskipped, n ++ n', by simp, fun t hapart => ?_⟩
    rw [List.append_assoc]
    simp only [hread, hskip t hapart, bind, Except.bind, id]
  · next m hfound =>
    split at hgiven
    · cases hgiven
    · next hnew =>
      obtain ⟨w, hcolon, hvalue⟩ := bind_ok hgiven
      have hmember := h m (List.mem_of_find?_eq_some hfound) r
      have hpasses := hmember.passes hvalue
      obtain ⟨n, rfl, hread⟩ := readColon_cut hcolon
      obtain ⟨n', rfl, hreads⟩ := hmember.cut hvalue
      refine ⟨_, hcolon, hpasses, n ++ n', by simp, fun t hapart => ?_⟩
      rw [List.append_assoc]
      simp only [hread, hreads t hapart, bind, Except.bind, id, hnew, Bool.false_eq_true, if_false]

/-- What is asked of a record as a whole does not depend on where the record stands. -/
theorem ok_of_mapError {x : Except Fault Unit} {place : Fault → Stop}
    (h : x.mapError place = .ok ()) : x = .ok () := by
  cases x with
  | error fault => cases h
  | ok => rfl

theorem object_inside {shape : Record σ} (h : shape.Local) {fuel : Nat} {first : Bool}
    {seen : List String} {r c : σ} (hgiven : shape.object fuel first seen r s = .ok (c, t)) :
    Inside .object first (fun fuel => shape.object fuel first seen r) c s t := by
  induction fuel generalizing first seen r s with
  | zero => cases hgiven
  | succ fuel ih =>
    rw [Record.object] at hgiven
    split at hgiven
    · cases hgiven
    · next hended =>
      obtain ⟨⟨⟩, hchecked, hgiven⟩ := bind_ok hgiven
      obtain ⟨rfl, rfl⟩ := ok_inj hgiven
      have hcomplete := ok_of_mapError hchecked
      refine .close (nextMember_closing hended) fun s t fuel hclosing => ?_
      simp only [Record.object, nextMember_end first hclosing, hcomplete]
      rfl
    · next hnext =>
      split at hgiven
      · cases hgiven
      · next name left htext =>
        split at hgiven
        · cases hgiven
        · next r' left' hmember =>
          obtain ⟨m, rfl, hapart, hagain, henters⟩ := nextMember_cut hnext
          obtain ⟨w, hcolon, hpasses, n', rfl, hreads⟩ := readMember_cut h hmember
          have henters := henters _ _ (skipString_of_readString htext) hcolon
          obtain ⟨n, rfl, hnamed⟩ := readString_cut htext
          have hrest := ih hgiven
          rw [show m ++ '"' :: (n ++ (n' ++ left')) = (m ++ '"' :: (n ++ n')) ++ left' by simp]
            at henters ⊢
          refine .item henters hpasses (by simp) (fun hisNext t => ?_) hrest
            fun t fuel hstands => ?_
          · rw [List.append_assoc]
            exact hapart hisNext _
          · rw [List.append_assoc, List.cons_append, List.append_assoc]
            simp only [Record.object, hagain, hnamed, hreads t hstands]

/-! ## Records -/

theorem positional_inside {shape : Record σ} {members : List (Member σ)}
    (h : ∀ m ∈ members, ∀ r, Decoder.Local (m.read r)) {taken : Nat} {r c : σ}
    (hgiven : shape.positional members taken r s = .ok (c, t)) :
    Inside .list (taken == 0) (fun _ => shape.positional members taken r) c s t := by
  induction members generalizing taken r s with
  | nil =>
    obtain ⟨left, hclosed, hgiven⟩ := bind_ok hgiven
    obtain ⟨rfl, rfl⟩ := ok_inj hgiven
    refine .close (closeList_closing hclosed) fun s t fuel hclosing => ?_
    rw [Record.positional, closeList_ok hclosing]
    rfl
  | cons m members ih =>
    rw [Record.positional] at hgiven
    split at hgiven
    · cases hgiven
    · next hended =>
      obtain ⟨⟨⟩, hchecked, hgiven⟩ := bind_ok hgiven
      obtain ⟨left, hclosed, hgiven⟩ := bind_ok hgiven
      obtain ⟨rfl, rfl⟩ := ok_inj hgiven
      have henough := ok_of_mapError hchecked
      refine .close (closing_of_ended hended hclosed) fun s t fuel hclosing => ?_
      simp only [Record.positional, nextElement_end _ hclosing, henough]
      rfl
    · next hnext =>
      split at hgiven
      · cases hgiven
      · next r' left hread =>
        have hrest := ih (fun m' hm => h m' (List.mem_cons_of_mem _ hm)) hgiven
        refine .element (h m List.mem_cons_self r) hnext hread hrest fun fuel hnext hread => ?_
        simp only [Record.positional, hnext, hread]

/-- A record is read wherever it stands, as a list or as an object, if its members
are. -/
theorem record_local {shape : Record σ} (h : shape.Local) : shape.decoder.Local where
  blank s p := by rw [Record.decoder, Record.decoder, skipBlank_skipBlank]
  nothing _ := nofun
  read := by
    intro c s a r hsolid hgiven
    have hshown (t : List Char) := skipBlank_cons hsolid t
    rw [Record.decoder, hshown] at hgiven
    split at hgiven
    · cases hgiven
    · next hsame =>
      obtain ⟨rfl, rfl⟩ := List.cons.inj hsame
      exact (positional_inside h hgiven).enclosed fun s => rfl
    · next hsame =>
      obtain ⟨rfl, rfl⟩ := List.cons.inj hsame
      exact (object_inside h hgiven).enclosed fun s => rfl
    · cases hgiven

/-- A member with a decoder of its own. -/
theorem Decoder.Local.member {decoder : Decoder α} (h : decoder.Local) (name : String)
    (put : α → σ → σ) (r : σ) : Decoder.Local ((Member.of name decoder put).read r) :=
  h.map fun a => put a r

/-! ## Choices -/

theorem variant_ok {variants : List (String × α)} {name : String} {a : α}
    (h : Decoder.variant variants name s = .ok (a, r)) :
    s = r ∧ ∀ t, Decoder.variant variants name t = .ok (a, t) := by
  unfold Decoder.variant at h ⊢
  split at h
  · next hfound =>
    obtain ⟨rfl, rfl⟩ := ok_inj h
    exact ⟨rfl, fun t => rfl⟩
  · cases h

theorem variantName_cut {name : String} (h : Decoder.variantName s = .ok (name, r)) :
    ∃ b x, s = b ++ '"' :: x ∧ readString x = .ok (name, r) ∧
      ∀ t, skipBlank (b ++ '"' :: t) = '"' :: t := by
  unfold Decoder.variantName at h
  split at h
  · cases h
  · next hquote =>
    obtain ⟨-, b, rfl, hblanks⟩ := skipBlank_cut hquote
    exact ⟨b, _, rfl, h, hblanks⟩
  · cases h
  · cases h

/-- The object whose one member has the name of a variant. -/
theorem choice_inside {variants : List (String × α)} {a : α}
    (hgiven : Decoder.choice variants ('\x7b' :: s) = .ok (a, r)) :
    Inside .object true (fun _ t => Decoder.choice variants ('\x7b' :: t)) a s r := by
  have hshown (t : List Char) := skipBlank_cons (c := '\x7b') rfl t
  simp only [Decoder.choice, hshown] at hgiven
  obtain ⟨⟨name, left⟩, hnamed, hgiven⟩ := bind_ok hgiven
  obtain ⟨⟨a', left⟩, hisVariant, hgiven⟩ := bind_ok hgiven
  obtain ⟨w, hcolon, hgiven⟩ := bind_ok hgiven
  obtain ⟨⟨⟨⟩, x⟩, hnull, hgiven⟩ := bind_ok hgiven
  obtain ⟨rfl, hvariant⟩ := variant_ok hisVariant
  split at hgiven
  · cases hgiven
  · next left hclosing =>
    obtain ⟨rfl, rfl⟩ := ok_inj hgiven
    have hpasses := (null_local "unit").passes hnull
    obtain ⟨b, y, rfl, htext, hblanks⟩ := variantName_cut hnamed
    have henters : Enters .object true (b ++ '"' :: y) w := fun fuel pending =>
      skipFrom_first (hblanks y) (by decide)
        (enter_name (skipBlank_cons rfl y) (skipString_of_readString htext) hcolon)
    obtain ⟨n, rfl, hstring⟩ := readString_cut htext
    obtain ⟨n', rfl, hread⟩ := readColon_cut hcolon
    obtain ⟨n'', rfl, hunit⟩ := (null_local "unit").cut hnull
    let m := b ++ '"' :: (n ++ (n' ++ n''))
    rw [show b ++ '"' :: (n ++ (n' ++ (n'' ++ x))) = m ++ x by simp [m]] at henters ⊢
    have hends : Inside .object false (fun _ t => Decoder.choice variants ('\x7b' :: (m ++ t))) a' x
        left := by
      refine .close hclosing fun s t _ hclosing => ?_
      have hapart := apart_of_skipBlank hclosing (apart_closing .object t)
      have hnamed : Decoder.variantName (m ++ s) = .ok (name, n' ++ (n'' ++ s)) := by
        simp only [m, List.append_assoc, List.cons_append, Decoder.variantName, hblanks, hstring]
      simp only [Decoder.choice, hshown, hnamed, hvariant, hread, hunit s hapart, bind, Except.bind,
        id, hclosing]
      rfl
    exact .item henters hpasses (by simp [m]) nofun hends fun t fuel _ => rfl
  · cases hgiven

theorem choice_local (variants : List (String × α)) : (Decoder.choice variants).Local where
  blank s p := by rw [Decoder.choice, Decoder.choice, skipBlank_skipBlank]
  nothing _ := nofun
  read := by
    intro c s a r hsolid hgiven
    have hshown (t : List Char) := skipBlank_cons hsolid t
    have hwhole := hgiven
    rw [Decoder.choice, hshown] at hgiven
    split at hgiven
    · cases hgiven
    · next hsame =>
      obtain ⟨rfl, rfl⟩ := List.cons.inj hsame
      obtain ⟨⟨name, left⟩, htext, hgiven⟩ := bind_ok hgiven
      obtain ⟨rfl, hvariant⟩ := variant_ok hgiven
      constructor
      · refine passes_simple ?_
        rw [hshown, skipSimple, skipString_of_readString htext]
        rfl
      · obtain ⟨n, rfl, hread⟩ := readString_cut htext
        refine ⟨n, rfl, fun t _ => ?_⟩
        show Decoder.choice variants ('"' :: (n ++ t)) = _
        rw [Decoder.choice, hshown]
        show (readString (n ++ t) >>= fun p => Decoder.variant variants p.1 p.2) = _
        rw [hread]
        exact hvariant t
    · next hsame =>
      obtain ⟨rfl, rfl⟩ := List.cons.inj hsame
      exact (choice_inside hwhole).enclosed fun s => rfl
    · cases hgiven

end Json

end Skein
