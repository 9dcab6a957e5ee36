import Skein.Proofs.Json.Cuts.Numbers

/-!
# What is taken off for a value that is passed over

Whoever passes over a value needs no other brackets than those it opens itself.  So what
has been passed over once is passed over under any brackets (`Passes`), and before any
rest that stands apart.  `skipFrom_cut` says both of a reader that stands anywhere in a
value, by induction on its steps.
-/

namespace Skein

namespace Json

variable {s t u r : List Char}

/-- In some number of steps one passes over a value at the front of `s` and stands before
`r`, whatever brackets are open around it. -/
def Passes (s r : List Char) : Prop :=
  ∃ k, ∀ fuel pending, skipFrom (fuel + k) .value pending s = skipFrom fuel .element pending r

/-! ## Pieces -/

theorem skipBlank_cut {c : Char} (h : skipBlank s = c :: r) :
    isBlank c = false ∧ ∃ b, s = b ++ c :: r ∧ ∀ t, skipBlank (b ++ c :: t) = c :: t := by
  have hsolid : isBlank c = false := by
    have hhead := List.head?_dropWhile_not isBlank s
    unfold skipBlank at h
    simpa [h] using hhead
  obtain ⟨b, htaken, hblanks⟩ := (blanks_skipBlank s).cut
  rw [h] at htaken
  exact ⟨hsolid, b, htaken, fun t => (hblanks (c :: t)).skipBlank_cons hsolid⟩

theorem apart_of_skipBlank (h : skipBlank s = t) (hapart : Apart t) : Apart s :=
  (blanks_skipBlank s).apart (h ▸ hapart)

/-- A value that holds no other, behind its first character. -/
theorem simple_cut {inner : List Char → Except Stop (List Char)} {c : Char}
    {o : Option Bracket} (hsame : ∀ t, skipSimple (c :: t) = (inner t >>= fun t => .ok (none, t)))
    (hcut : ∀ {r}, inner s = .ok r → CutApart inner id s r)
    (h : (inner s >>= fun t => .ok (none, t)) = (.ok (o, r) : Except Stop (Option Bracket × _))) :
    o = none ∧ ∃ c' n, c :: s = c' :: (n ++ r) ∧
      ∀ t, Apart t → skipSimple (c' :: (n ++ t)) = .ok (none, t) := by
  obtain ⟨left, hgiven, h⟩ := bind_ok h
  obtain ⟨rfl, rfl⟩ := ok_inj h
  obtain ⟨n, rfl, hread⟩ := hcut hgiven
  refine ⟨rfl, c, n, rfl, fun t hapart => ?_⟩
  rw [hsame, hread t hapart]
  rfl

/-- A bracket comes with nothing else; any other value is passed over as a whole. -/
theorem skipSimple_cases {o : Option Bracket} (h : skipSimple s = .ok (o, r)) :
    (∃ bracket : Bracket, o = some bracket ∧ s = bracket.opening :: r) ∨
      o = none ∧ ∃ c n, s = c :: (n ++ r) ∧
        ∀ t, Apart t → skipSimple (c :: (n ++ t)) = .ok (none, t) := by
  unfold skipSimple at h
  split at h
  · exact .inr (simple_cut (fun t => rfl) (readWord_cut · |>.apart) h)
  · exact .inr (simple_cut (fun t => rfl) (readWord_cut · |>.apart) h)
  · exact .inr (simple_cut (fun t => rfl) (readWord_cut · |>.apart) h)
  · exact .inr (simple_cut (fun t => rfl) (skipString_cut · |>.apart) h)
  · exact .inr (simple_cut (fun t => rfl) skipUnsigned_cut h)
  · obtain ⟨rfl, rfl⟩ := ok_inj h
    exact .inl ⟨.list, rfl, rfl⟩
  · obtain ⟨rfl, rfl⟩ := ok_inj h
    exact .inl ⟨.object, rfl, rfl⟩
  · cases h
  · next c rest _ _ _ _ _ _ _ =>
    split at h
    · next hdigit =>
      exact .inr (simple_cut (fun t => skipSimple_digit hdigit t)
        (fun hgiven => (skipUnsigned_cut hgiven).behind nofun) h)
    · cases h

theorem enter_cut {bracket : Bracket} (h : enter bracket s = .ok r) :
    Cut (enter bracket) id s r := by
  cases bracket with
  | list =>
    obtain rfl := Except.ok.inj h
    exact ⟨[], rfl, fun t => rfl⟩
  | object =>
    have hkey : skipKey s = .ok r := h
    unfold skipKey at hkey
    split at hkey
    · next hquote =>
      obtain ⟨left, hstring, hcolon⟩ := bind_ok hkey
      obtain ⟨-, b, rfl, hblanks⟩ := skipBlank_cut hquote
      obtain ⟨n, rfl, hskip⟩ := skipString_cut hstring
      obtain ⟨m, rfl, hread⟩ := readColon_cut hcolon
      refine ⟨b ++ '"' :: (n ++ m), by simp, fun t => ?_⟩
      have hagain : skipBlank (b ++ '"' :: (n ++ (m ++ t))) = '"' :: (n ++ (m ++ t)) := hblanks _
      show skipKey _ = _
      simp only [List.append_assoc, List.cons_append, skipKey, hagain, hskip, bind, Except.bind, id]
      exact hread t
    · cases hkey
    · cases hkey

/-! ## Steps -/

/-- Steps for which no character pays: right behind an opening bracket, one more. -/
def Place.cost : Place → Nat
  | .opened => 1
  | _ => 0

/-- Behind an element of an open bracket there is only what stands apart. -/
theorem apart_of_element {fuel : Nat} {pending : List Bracket}
    (h : skipFrom fuel .element pending s = .ok r) : s = r ∨ Apart s := by
  cases fuel with
  | zero => cases h
  | succ fuel =>
    cases pending with
    | nil => exact .inl (Except.ok.inj h)
    | cons bracket pending =>
      right
      rw [skipFrom] at h
      split at h
      · cases h
      · next c rest hfirst =>
        refine apart_of_skipBlank hfirst ?_
        split at h
        · next hclosing => exact hclosing ▸ apart_closing bracket rest
        · split at h
          · next hcomma => exact hcomma ▸ apart_comma rest
          · cases h

theorem Apart.replace {n : List Char} (h : Apart (n ++ r)) (hapart : Apart t) : Apart (n ++ t) := by
  cases n with
  | nil => exact hapart
  | cons c n => exact h

/-- From the place on the reader passes over `n`, and over all that the open brackets ask
for, whatever other brackets are open and whatever stands apart from `n`. -/
structure Over (place : Place) (pending : List Bracket) (n r : List Char) : Prop where
  some : place = .value → n ≠ []
  steps : ∃ k, k ≤ 2 * n.length + place.cost ∧ ∀ t, t = r ∨ Apart t → ∀ fuel others,
    skipFrom (fuel + k) place (pending ++ others) (n ++ t) = skipFrom fuel .element others t

/-- One step more, over a piece that pays for it. -/
theorem Over.behind {place place' : Place} {pending pending' : List Bracket} {m n : List Char}
    (hgoes : Over place' pending' n r) (hsome : place = .value → m ≠ [])
    (hpaid : 1 + place'.cost ≤ 2 * m.length + place.cost)
    (hstep : ∀ t, t = r ∨ Apart t → ∀ fuel others,
      skipFrom (fuel + 1) place (pending ++ others) (m ++ (n ++ t)) =
        skipFrom fuel place' (pending' ++ others) (n ++ t)) :
    Over place pending (m ++ n) r where
  some hvalue := fun hnothing => hsome hvalue (List.append_eq_nil_iff.mp hnothing).1
  steps := by
    obtain ⟨k, hbound, hsteps⟩ := hgoes.steps
    refine ⟨k + 1, ?_, fun t hfollows fuel others => ?_⟩
    · rw [List.length_append]
      omega
    · rw [← Nat.add_assoc, List.append_assoc, hstep t hfollows, hsteps t hfollows]

def Cuts (fuel : Nat) (r : List Char) : Prop :=
  ∀ {place pending s}, (place = .opened → pending ≠ []) → skipFrom fuel place pending s = .ok r →
    ∃ n, s = n ++ r ∧ Over place pending n r

section

variable {fuel : Nat} {bracket : Bracket} {pending : List Bracket} (ih : Cuts fuel r)
include ih

theorem value_cut (h : skipFrom (fuel + 1) .value pending s = .ok r) :
    ∃ n, s = n ++ r ∧ Over .value pending n r := by
  rw [skipFrom] at h
  split at h
  · cases h
  · next bracket rest hgiven =>
    obtain ⟨n, rfl, hgoes⟩ := ih (fun _ => List.cons_ne_nil _ _) h
    obtain ⟨_, hsame, hfirst⟩ | ⟨hnone, -⟩ := skipSimple_cases hgiven
    · obtain rfl := Option.some.inj hsame
      obtain ⟨-, b, rfl, hblanks⟩ := skipBlank_cut hfirst
      refine ⟨(b ++ [bracket.opening]) ++ n, by simp, hgoes.behind (by simp)
        (by simp only [List.length_append, List.length_cons, Place.cost]; omega)
        fun t _ fuel others => ?_⟩
      rw [List.append_assoc]
      exact skipFrom_opening (hblanks (n ++ t))
    · cases hnone
  · next rest hgiven =>
    obtain ⟨n, rfl, hgoes⟩ := ih (by simp) h
    obtain ⟨_, hsame, -⟩ | ⟨-, c, m, hfirst, hskip⟩ := skipSimple_cases hgiven
    · cases hsame
    · obtain ⟨-, b, rfl, hblanks⟩ := skipBlank_cut hfirst
      refine ⟨(b ++ c :: m) ++ n, by simp, hgoes.behind (by simp)
        (by simp only [List.length_append, List.length_cons, Place.cost]; omega)
        fun t hfollows fuel others => ?_⟩
      have hpassed : skipSimple (c :: (m ++ (n ++ t))) = .ok (none, n ++ t) := by
        rcases hfollows with rfl | hapart
        · rw [← hfirst]
          exact hgiven
        · refine hskip _ ?_
          rcases apart_of_element h with hlast | hbetween
          · have hnothing : n = [] := by simpa using hlast
            rw [hnothing]
            exact hapart
          · exact hbetween.replace hapart
      rw [List.append_assoc, List.cons_append]
      exact skipFrom_simple (by rw [hblanks]; exact hpassed)

theorem opened_cut (h : skipFrom (fuel + 1) .opened (bracket :: pending) s = .ok r) :
    ∃ n, s = n ++ r ∧ Over .opened (bracket :: pending) n r := by
  rw [skipFrom] at h
  split at h
  · cases h
  · next c rest hfirst =>
    obtain ⟨-, b, rfl, hblanks⟩ := skipBlank_cut hfirst
    split at h
    · next hclosing =>
      subst hclosing
      obtain ⟨n, rfl, hgoes⟩ := ih (by simp) h
      refine ⟨(b ++ [bracket.closing]) ++ n, by simp, hgoes.behind (by simp)
        (by simp only [List.length_append, List.length_cons, Place.cost]; omega)
        fun t _ fuel others => ?_⟩
      rw [List.append_assoc]
      exact skipFrom_empty (hblanks (n ++ t))
    · next hgoing =>
      split at h
      · cases h
      · next left hentered =>
        obtain ⟨n, rfl, hgoes⟩ := ih (by simp) h
        obtain ⟨m, htaken, hagain⟩ := enter_cut hentered
        -- the element has a first character, so one cannot come upon the closing bracket
        obtain ⟨x, hall, rfl⟩ : ∃ x, m ++ n = c :: x ∧ rest = x ++ r := by
          rw [← List.append_assoc] at htaken
          cases hboth : m ++ n with
          | nil => exact absurd (List.append_eq_nil_iff.mp hboth).2 (hgoes.some rfl)
          | cons d x =>
            rw [hboth] at htaken
            obtain ⟨rfl, rfl⟩ := List.cons.inj htaken
            exact ⟨x, rfl, rfl⟩
        have htext (t : List Char) : (b ++ m) ++ (n ++ t) = b ++ c :: (x ++ t) := by
          rw [List.append_assoc, ← List.append_assoc m, hall, List.cons_append]
        refine ⟨(b ++ m) ++ n, by rw [List.append_assoc _ n, htext], hgoes.behind (by simp)
          (by simp only [Place.cost]; omega) fun t _ fuel others => ?_⟩
        have hentered : enter bracket (c :: (x ++ t)) = .ok (n ++ t) := by
          rw [← List.cons_append, ← hall, List.append_assoc]
          exact hagain (n ++ t)
        rw [htext]
        exact skipFrom_first (hblanks _) hgoing hentered

theorem element_cut (h : skipFrom (fuel + 1) .element (bracket :: pending) s = .ok r) :
    ∃ n, s = n ++ r ∧ Over .element (bracket :: pending) n r := by
  rw [skipFrom] at h
  split at h
  · cases h
  · next c rest hfirst =>
    obtain ⟨-, b, rfl, hblanks⟩ := skipBlank_cut hfirst
    split at h
    · next hclosing =>
      subst hclosing
      obtain ⟨n, rfl, hgoes⟩ := ih (by simp) h
      refine ⟨(b ++ [bracket.closing]) ++ n, by simp, hgoes.behind (by simp)
        (by simp only [List.length_append, List.length_cons, Place.cost]; omega)
        fun t _ fuel others => ?_⟩
      rw [List.append_assoc]
      exact skipFrom_closing (hblanks (n ++ t))
    · split at h
      · next hcomma =>
        subst hcomma
        split at h
        · cases h
        · next left hentered =>
          obtain ⟨n, rfl, hgoes⟩ := ih (by simp) h
          obtain ⟨m, rfl, hagain⟩ := enter_cut hentered
          refine ⟨(b ++ ',' :: m) ++ n, by simp, hgoes.behind (by simp)
            (by simp only [List.length_append, List.length_cons, Place.cost]; omega)
            fun t _ fuel others => ?_⟩
          rw [List.append_assoc, List.cons_append]
          exact skipFrom_comma (hblanks _) (hagain (n ++ t))
      · cases h

end

/-- What has been passed over, with all the brackets that were open, is passed over under
any other brackets and before any rest that stands apart. -/
theorem skipFrom_cut (fuel : Nat) (r : List Char) : Cuts fuel r := by
  induction fuel with
  | zero =>
    intro place pending s hinside h
    cases h
  | succ fuel ih =>
    intro place pending s hinside h
    cases place with
    | value => exact value_cut ih h
    | opened =>
      cases pending with
      | nil => exact absurd rfl (hinside rfl)
      | cons bracket pending => exact opened_cut ih h
    | element =>
      cases pending with
      | nil =>
        obtain rfl := Except.ok.inj h
        exact ⟨[], rfl, by simp, 0, Nat.zero_le _, fun t _ fuel others => rfl⟩
      | cons bracket pending => exact element_cut ih h

/-! ## Values -/

/-- Only one rest is left when a value has been passed over. -/
theorem Passes.unique (h : Passes s r) (h' : Passes s t) : r = t := by
  obtain ⟨k, hsteps⟩ := h
  obtain ⟨k', hsteps'⟩ := h'
  have hfirst : skipFrom (k' + 1 + k) .value [] s = .ok r := hsteps (k' + 1) []
  have hsecond : skipFrom (k + 1 + k') .value [] s = .ok t := hsteps' (k + 1) []
  rw [show k' + 1 + k = k + 1 + k' by omega, hsecond] at hfirst
  exact (Except.ok.inj hfirst).symm

theorem skipBlank_skipBlank (s : List Char) : skipBlank (skipBlank s) = skipBlank s :=
  (blanks_skipBlank s).skipBlank.symm

theorem skipFrom_skipBlank (fuel : Nat) (pending : List Bracket) (s : List Char) :
    skipFrom fuel .value pending (skipBlank s) = skipFrom fuel .value pending s := by
  cases fuel with
  | zero => rfl
  | succ fuel => rw [skipFrom, skipFrom, skipBlank_skipBlank]

theorem passes_skipBlank : Passes (skipBlank s) r ↔ Passes s r := by
  unfold Passes
  simp only [skipFrom_skipBlank]

/-- A value that holds no other is passed over in one step. -/
theorem passes_simple (h : skipSimple (skipBlank s) = .ok (none, r)) : Passes s r :=
  ⟨1, fun _ _ => skipFrom_simple h⟩

theorem passes_of_skipValue (h : skipValue s = .ok r) : Passes s r := by
  obtain ⟨n, rfl, hgoes⟩ := skipFrom_cut _ _ (by simp) h
  obtain ⟨k, -, hsteps⟩ := hgoes.steps
  exact ⟨k, fun fuel others => hsteps r (.inl rfl) fuel others⟩

theorem Derives.passes (hvalue : Derives .value s t) (hapart : Apart t) : Passes s t :=
  passes_of_skipValue (hvalue.skipValue hapart (.none _))

theorem skipValue_cut (h : skipValue s = .ok r) : CutApart skipValue id s r := by
  obtain ⟨n, rfl, hgoes⟩ := skipFrom_cut _ _ (by simp) h
  obtain ⟨k, hbound, hsteps⟩ := hgoes.steps
  refine ⟨n, rfl, fun t hapart => ?_⟩
  obtain ⟨fuel, henough⟩ : ∃ fuel, 2 * (n ++ t).length + 2 = fuel + 1 + k := by
    refine ⟨2 * (n ++ t).length + 1 - k, ?_⟩
    simp only [List.length_append, Place.cost] at hbound ⊢
    omega
  rw [skipValue, henough]
  exact hsteps t (.inr hapart) (fuel + 1) []

end Json

end Skein
