import Mathlib.Data.List.Nodup
import Mathlib.Data.List.ReduceOption
import Skein.Proofs.Json.Values

/-!
# A record is read from its members in any order

An object that stands for a record may have some of its members, in any order, and any
others in between.  Reading it member by member, each setting is put into the record,
and a member that the record does not know changes nothing.  So the record comes to be
the one it started from with all the settings put into it, unless a member comes twice:
then the whole text is refused, whatever the values (`parse_settings`).  Where settings
of different members may change places, their order does not matter (`Form.put_perm`).
-/

namespace Skein

namespace Json

variable {ξ σ : Type}

/-- Settings of a record: the member that each is of, what may be written for it there,
and what it does to the record. -/
structure Form (ξ σ : Type) where
  field : ξ → String
  Written : List Char → ξ → List Char → Prop
  put : ξ → σ → σ

namespace Record

def names (shape : Record σ) : List String :=
  shape.members.map Member.name

end Record

structure Form.Fits (form : Form ξ σ) (shape : Record σ) : Prop where
  names : shape.names.Nodup
  takes : Takes form.Written
  reads : ∀ x, ∃ m ∈ shape.members, m.name = form.field x ∧
    ∀ ⦃s t u⦄, form.Written s x t → Apart t → Blanks u s → ∀ r, m.read r u = .ok (form.put x r, t)

inductive Entry (form : Form ξ σ) (known : List String) :
    List Char → Option ξ → List Char → Prop
  | setting {s u v w t : List Char} {x : ξ} (hname : Quoted s (form.field x) u)
      (hbetween : Blanks u (':' :: v)) (hafter : Blanks v w) (hvalue : form.Written w x t) :
      Entry form known s (some x) t
  | stranger {s u v w t : List Char} {name : String} (htext : Quoted s name u)
      (hbetween : Blanks u (':' :: v)) (hafter : Blanks v w) (hvalue : Derives .value w t)
      (hunknown : name ∉ known) : Entry form known s none t

inductive Object (form : Form ξ σ) (known : List String) : List Char → List ξ → List Char → Prop
  | entries {s t : List Char} {entries : List (Option ξ)}
      (hlisting : Listing (Entry form known) .object true s entries t) :
      Object form known ('\x7b' :: s) entries.reduceOption t

/-- The whole text is such an object. -/
structure Writes (form : Form ξ σ) (shape : Record σ) (text : String) (settings : List ξ) :
    Prop where
  object : ∃ s t, Blanks text.toList s ∧ Object form shape.names s settings t ∧ Blanks t []

/-- No two of the settings are of the same member, or of one that has been read before. -/
def Form.Fresh (form : Form ξ σ) (seen : List String) (settings : List ξ) : Prop :=
  (settings.map form.field).Nodup ∧ ∀ x ∈ settings, form.field x ∉ seen

def Form.putAll (form : Form ξ σ) (settings : List ξ) (r : σ) : σ :=
  settings.foldl (fun r x => form.put x r) r

/-! ## Settings -/

section Settings

variable {form : Form ξ σ} {seen : List String} {settings : List ξ} {x : ξ}

theorem fresh_nil (form : Form ξ σ) (seen : List String) : form.Fresh seen [] :=
  ⟨List.nodup_nil, nofun⟩

theorem fresh_start : form.Fresh [] settings ↔ (settings.map form.field).Nodup :=
  and_iff_left fun _ _ => List.not_mem_nil

theorem fresh_cons : form.Fresh seen (x :: settings) ↔
    form.field x ∉ seen ∧ form.Fresh (form.field x :: seen) settings := by
  unfold Form.Fresh
  rw [List.map_cons, List.nodup_cons, List.mem_map, List.forall_mem_cons]
  simp only [List.mem_cons, not_or, not_exists, not_and]
  constructor
  · rintro ⟨⟨hnew, hnodup⟩, hunseen, hothers⟩
    exact ⟨hunseen, hnodup, fun y hy => ⟨hnew y hy, hothers y hy⟩⟩
  · rintro ⟨hunseen, hnodup, hothers⟩
    exact ⟨⟨fun y hy => (hothers y hy).1, hnodup⟩, hunseen, fun y hy => (hothers y hy).2⟩

/-- A name that no setting has makes no difference. -/
theorem fresh_stranger {name : String} (hunknown : ∀ x, form.field x ≠ name) :
    form.Fresh (name :: seen) settings ↔ form.Fresh seen settings := by
  refine and_congr_right fun _ => forall_congr' fun x => imp_congr_right fun _ => ?_
  rw [List.mem_cons, not_or, and_iff_right (hunknown x)]

/-- Settings of different members may be put into the record in any order. -/
theorem Form.put_perm
    (hswap : ∀ x y r, form.field x ≠ form.field y →
      form.put x (form.put y r) = form.put y (form.put x r))
    {order : List ξ} (hperm : order.Perm settings) (hnodup : (settings.map form.field).Nodup)
    (r : σ) : form.putAll order r = form.putAll settings r := by
  refine (hperm.symm.foldl_eq' (fun x hx y hy r => ?_) r).symm
  by_cases hsame : form.field x = form.field y
  · rw [List.inj_on_of_nodup_map hnodup hx hy hsame]
  · exact hswap y x r (Ne.symm hsame)

end Settings

/-! ## Members -/

section

variable {form : Form ξ σ} {shape : Record σ} {s t u v : List Char} {name : String}
  {seen : List String} {r : σ} {x : ξ}

/-- A member with a decoder of its own reads what the decoder accepts. -/
theorem Decoder.Accepts.member {α : Type} {decoder : Decoder α}
    {Written : List Char → α → List Char → Prop} (haccepts : decoder.Accepts Written)
    (name : String) (put : α → σ → σ) (a : α) :
    ∀ ⦃s t u⦄, Written s a t → Apart t → Blanks u s →
      ∀ r, (Member.of name decoder put).read r u = .ok (put a r, t) := by
  intro s t u hwritten hapart hblanks r
  show (decoder u >>= fun p => Except.ok (put p.1 r, p.2)) = _
  rw [haccepts hwritten hapart hblanks]
  rfl

theorem takes_entry (htakes : Takes form.Written) (known : List String) :
    Takes (Entry form known) := by
  have htaken {s u v w t : List Char} {name : String} (htext : Quoted s name u)
      (hbetween : Blanks u (':' :: v)) (hafter : Blanks v w) (hvalue : t.length ≤ w.length) :
      t.length < s.length := by
    have hfirst := takes_quoted htext
    have hsecond := hbetween.length_le
    have hthird := hafter.length_le
    rw [List.length_cons] at hsecond
    omega
  rintro s i t (⟨hname, hbetween, hafter, hvalue⟩ | ⟨htext, hbetween, hafter, hvalue, _⟩)
  · exact htaken hname hbetween hafter (Nat.le_of_lt (htakes hvalue))
  · exact htaken htext hbetween hafter (Nat.le_of_lt hvalue.length_lt)

theorem Form.Fits.find (hfits : form.Fits shape) (x : ξ) :
    ∃ m, shape.members.find? (·.name == form.field x) = some m ∧
      ∀ ⦃s t u⦄, form.Written s x t → Apart t → Blanks u s →
        ∀ r, m.read r u = .ok (form.put x r, t) := by
  obtain ⟨m, hmember, hname, hreads⟩ := hfits.reads x
  refine ⟨m, ?_, hreads⟩
  rw [← hname]
  exact find_name hfits.names hmember

theorem Form.Fits.known (hfits : form.Fits shape) (x : ξ) : form.field x ∈ shape.names := by
  obtain ⟨m, hmember, hname, -⟩ := hfits.reads x
  exact hname ▸ List.mem_map_of_mem hmember

theorem readMember_setting (hfits : form.Fits shape) (hnew : form.field x ∉ seen)
    (hbetween : Blanks s (':' :: u)) (hafter : Blanks u v) (hvalue : form.Written v x t)
    (hapart : Apart t) : shape.readMember seen (form.field x) r s = .ok (form.put x r, t) := by
  obtain ⟨m, hfound, hreads⟩ := hfits.find x
  have hunseen : seen.contains (form.field x) = false := by simpa using hnew
  simp only [Record.readMember, hfound, hunseen, Bool.false_eq_true, if_false, hbetween.readColon]
  exact hreads hvalue hapart hafter r

theorem readMember_repeated (hfits : form.Fits shape) (hold : form.field x ∈ seen) (r : σ)
    (s : List Char) :
    ∃ stop, shape.readMember seen (form.field x) r s = .error stop ∧
      stop.fault = .repeatedMember (form.field x) := by
  obtain ⟨m, hfound, -⟩ := hfits.find x
  have hrepeated : seen.contains (form.field x) = true := by simpa using hold
  simp only [Record.readMember, hfound, hrepeated, if_true]
  exact ⟨_, rfl, rfl⟩

theorem readMember_stranger (hunknown : name ∉ shape.names) (hbetween : Blanks s (':' :: u))
    (hafter : Blanks u v) (hvalue : Derives .value v t) (hapart : Apart t) :
    shape.readMember seen name r s = .ok (r, t) := by
  have hmissing : shape.members.find? (·.name == name) = none := by
    refine List.find?_eq_none.mpr fun m hmember hsame => hunknown ?_
    exact beq_iff_eq.mp hsame ▸ List.mem_map_of_mem hmember
  simp only [Record.readMember, hmissing, hbetween.readColon, bind, Except.bind,
    hvalue.skipValue hapart hafter]

/-- The writer writes such an object. -/
theorem object_write (known : List String) {write : ξ → List Char} {settings : List ξ}
    (hwritten : ∀ x ∈ settings, ∀ t, form.Written (write x ++ t) x t) (t : List Char) :
    Object form known (writeObject (settings.map fun x => (form.field x, write x)) ++ t) settings
      t := by
  have hentry : ∀ x ∈ settings, ∀ t,
      Entry form known (pair (form.field x, write x) ++ t) (some x) t := by
    intro x hx t
    rw [pair, List.append_assoc]
    exact .setting (quoted_write _ _) (.none _) (.none _) (hwritten x hx t)
  have hall : (settings.map some).reduceOption = settings := by
    rw [List.reduceOption, List.filterMap_map]
    exact List.filterMap_some
  have hobject := Object.entries (listing_write .object hentry true t)
  rw [hall] at hobject
  rw [writeObject, List.map_map, List.append_assoc]
  exact hobject

theorem Object.writes {text : String} {settings : List ξ}
    (h : Object form shape.names text.toList settings []) : Writes form shape text settings :=
  ⟨_, [], .none _, h, .none _⟩

theorem writes_write (shape : Record σ) {write : ξ → List Char} {settings : List ξ}
    (hwritten : ∀ x ∈ settings, ∀ t, form.Written (write x ++ t) x t) :
    Writes form shape
      (String.ofList (writeObject (settings.map fun x => (form.field x, write x)))) settings := by
  have hobject := object_write shape.names hwritten []
  rw [List.append_nil] at hobject
  refine Object.writes ?_
  rw [String.toList_ofList]
  exact hobject

/-- The writer may be made to write the same setting again and again. -/
theorem writes_replicate (shape : Record σ) {x : ξ} {value : List Char}
    (hwritten : ∀ t, form.Written (value ++ t) x t) (n : Nat) :
    Writes form shape (String.ofList (writeObject (List.replicate n (form.field x, value))))
      (List.replicate n x) := by
  have hwrites := @writes_write _ _ form shape (fun _ => value) (List.replicate n x)
    fun y hy t => by
      rw [List.eq_of_mem_replicate hy]
      exact hwritten t
  rwa [List.map_replicate] at hwrites

/-! ## Objects -/

theorem Comma.nextMember {first : Bool} (hcomma : Comma first s ('"' :: u)) :
    Json.nextMember first s = .ok (true, u) := by
  cases hcomma with
  | first hblanks =>
    rw [Json.nextMember, hblanks.skipBlank_cons rfl]
    rfl
  | next hbefore hafter =>
    simp only [Json.nextMember, hbefore.skipBlank_cons rfl, hafter.skipBlank_cons rfl,
      Char.reduceEq, Bool.false_eq_true, if_false, if_true]

theorem object_close {first : Bool} (hblanks : Blanks s ('\x7d' :: t))
    (hcomplete : shape.complete r = .ok ()) (fuel : Nat) :
    shape.object (fuel + 1) first seen r s = .ok (r, t) := by
  have hnext : nextMember first s = .ok (false, t) := by
    rw [nextMember, hblanks.skipBlank_cons rfl]
    rfl
  simp only [Record.object, hnext, hcomplete]
  rfl

theorem object_member {first : Bool} (hcomma : Comma first s u) (htext : Quoted u name v) {r' : σ}
    {w : List Char} (hread : shape.readMember seen name r v = .ok (r', w)) (fuel : Nat) :
    shape.object (fuel + 1) first seen r s = shape.object fuel false (name :: seen) r' w := by
  obtain ⟨rest, rfl, hnamed⟩ := htext.begins
  simp only [Record.object, hcomma.nextMember, hnamed, hread]

theorem object_refused {first : Bool} (hcomma : Comma first s u) (htext : Quoted u name v)
    {stop : Stop} (hrefused : shape.readMember seen name r v = .error stop) (fuel : Nat) :
    shape.object (fuel + 1) first seen r s = .error stop := by
  obtain ⟨rest, rfl, hnamed⟩ := htext.begins
  simp only [Record.object, hcomma.nextMember, hnamed, hrefused]

/-- The rest of an object is read onto the record, or refused for a member that comes
twice. -/
theorem object_entries (hfits : form.Fits shape) (hcomplete : ∀ r, shape.complete r = .ok ())
    {first : Bool} {entries : List (Option ξ)}
    (hlisting : Listing (Entry form shape.names) .object first s entries t) (fuel : Nat)
    (seen : List String) (r : σ) (henough : entries.length < fuel) :
    (form.Fresh seen entries.reduceOption →
      shape.object fuel first seen r s = .ok (form.putAll entries.reduceOption r, t)) ∧
    (¬ form.Fresh seen entries.reduceOption →
      ∃ stop name, shape.object fuel first seen r s = .error stop ∧
        stop.fault = .repeatedMember name) := by
  induction hlisting generalizing fuel seen r with
  | close hblanks =>
    obtain ⟨fuel, rfl⟩ : ∃ n, fuel = n + 1 := ⟨fuel - 1, by omega⟩
    exact ⟨fun _ => object_close hblanks (hcomplete r) fuel,
      fun hrepeated => absurd (fresh_nil form seen) hrepeated⟩
  | item hcomma hentry hrest ih =>
    rw [List.length_cons] at henough
    obtain ⟨fuel, rfl⟩ : ∃ n, fuel = n + 1 := ⟨fuel - 1, by omega⟩
    cases hentry with
    | @setting u _ _ _ x hname hbetween hafter hvalue =>
      rw [List.reduceOption_cons_of_some, fresh_cons]
      by_cases hold : form.field x ∈ seen
      · obtain ⟨stop, hrefused, hfault⟩ := readMember_repeated hfits hold r u
        exact ⟨fun hfresh => absurd hold hfresh.1,
          fun _ => ⟨stop, _, object_refused hcomma hname hrefused fuel, hfault⟩⟩
      · rw [object_member hcomma hname
          (readMember_setting hfits hold hbetween hafter hvalue hrest.apart)]
        obtain ⟨hread, hrefused⟩ := ih fuel (form.field x :: seen) (form.put x r) (by omega)
        exact ⟨fun hfresh => hread hfresh.2,
          fun hrepeated => hrefused fun hfresh => hrepeated ⟨hold, hfresh⟩⟩
    | @stranger _ _ _ _ name htext hbetween hafter hvalue hunknown =>
      -- The reader keeps this name as well, but only known names are looked up.
      have hnew : ∀ x, form.field x ≠ name := fun x hsame => hunknown (hsame ▸ hfits.known x)
      obtain ⟨hread, hrefused⟩ := ih fuel (name :: seen) r (by omega)
      rw [fresh_stranger hnew] at hread hrefused
      rw [object_member hcomma htext
        (readMember_stranger hunknown hbetween hafter hvalue hrest.apart),
        List.reduceOption_cons_of_none]
      exact ⟨hread, hrefused⟩

/-- What comes of an object that makes settings of a record. -/
theorem decoder_settings (hfits : form.Fits shape) (hcomplete : ∀ r, shape.complete r = .ok ())
    {settings : List ξ} (hobject : Object form shape.names s settings t) (hblanks : Blanks u s) :
    ((settings.map form.field).Nodup →
      shape.decoder u = .ok (form.putAll settings shape.start, t)) ∧
    (¬ (settings.map form.field).Nodup →
      ∃ stop name, shape.decoder u = .error stop ∧ stop.fault = .repeatedMember name) := by
  obtain ⟨hlisting⟩ := hobject
  have henough := Nat.lt_succ_of_le (hlisting.count_le (takes_entry hfits.takes _))
  rw [Record.decoder, hblanks.skipBlank_cons rfl, ← fresh_start]
  exact object_entries hfits hcomplete hlisting _ [] shape.start henough

/-- What comes of a text that makes settings of a record. -/
theorem parse_settings (hfits : form.Fits shape) (hcomplete : ∀ r, shape.complete r = .ok ())
    {text : String} {settings : List ξ} (hwrites : Writes form shape text settings) :
    ((settings.map form.field).Nodup →
      parse shape.decoder text = .ok (form.putAll settings shape.start)) ∧
    (¬ (settings.map form.field).Nodup →
      ∃ refusal name, parse shape.decoder text = .error refusal ∧
        refusal.fault = .repeatedMember name) := by
  obtain ⟨s, t, hbefore, hobject, hafter⟩ := hwrites.object
  obtain ⟨hread, hrefused⟩ := decoder_settings hfits hcomplete hobject hbefore
  constructor
  · intro hnodup
    have hended : skipBlank t = [] := hafter.skipBlank
    rw [parse, Decoder.whole, hread hnodup]
    simp only [bind, Except.bind, hended]
    rfl
  · intro hrepeated
    obtain ⟨stop, name, hrefused, hfault⟩ := hrefused hrepeated
    refine ⟨stop.refusal text.toList, name, ?_, hfault⟩
    rw [parse, Decoder.whole, hrefused]
    rfl

/-- Settings of different members may be given in any order. -/
theorem parse_order (hfits : form.Fits shape) (hcomplete : ∀ r, shape.complete r = .ok ())
    (hswap : ∀ x y r, form.field x ≠ form.field y →
      form.put x (form.put y r) = form.put y (form.put x r))
    {text : String} {order settings : List ξ} (hwrites : Writes form shape text order)
    (hperm : order.Perm settings) (hnodup : (settings.map form.field).Nodup) :
    parse shape.decoder text = .ok (form.putAll settings shape.start) := by
  rw [(parse_settings hfits hcomplete hwrites).1 ((hperm.map _).nodup_iff.mpr hnodup),
    Form.put_perm hswap hperm hnodup]

end

end Json

end Skein
