import Skein.Proofs.Json.RoundTrip

/-!
# Values are read however they are written

For each kind of value that a decoder reads there is a relation that says which texts
stand for which value: strings in any spelling, lists with blanks wherever they may be.
A decoder of that kind reads them all (`Decoder.Accepts`).
-/

namespace Skein

namespace Json

variable {α ι : Type}

/-- The decoder reads what may be written for a value, after any blanks and before
anything that stands apart. -/
def Decoder.Accepts (decoder : Decoder α) (Written : List Char → α → List Char → Prop) : Prop :=
  ∀ ⦃s a t u⦄, Written s a t → Apart t → Blanks u s → decoder u = .ok (a, t)

/-- What may be written for a value begins with something that is neither a blank nor
`null` nor the end of a list. -/
def Starts (Written : List Char → α → List Char → Prop) : Prop :=
  ∀ ⦃s a t⦄, Written s a t → Begins s

def Takes (Written : List Char → α → List Char → Prop) : Prop :=
  ∀ ⦃s a t⦄, Written s a t → t.length < s.length

/-! ## What may be written -/

inductive Truth : List Char → Bool → List Char → Prop
  | yes (t : List Char) : Truth ('t' :: 'r' :: 'u' :: 'e' :: t) true t
  | no (t : List Char) : Truth ('f' :: 'a' :: 'l' :: 's' :: 'e' :: t) false t

inductive Below (limit : Nat) : List Char → Nat → List Char → Prop
  | digits {n : Nat} (hsmall : n < limit) (t : List Char) : Below limit (writeNat n ++ t) n t

inductive Quoted : List Char → String → List Char → Prop
  | text {s cs t : List Char} (hspelling : Spelling true s cs t) :
      Quoted ('"' :: s) (String.ofList cs) t

inductive Nullable (Written : List Char → α → List Char → Prop) :
    List Char → Option α → List Char → Prop
  | null (t : List Char) : Nullable Written ('n' :: 'u' :: 'l' :: 'l' :: t) none t
  | value {s t : List Char} {a : α} (hwritten : Written s a t) : Nullable Written s (some a) t

/-- What stands before an item: blanks, and a comma if it is not the first one. -/
inductive Comma : Bool → List Char → List Char → Prop
  | first {s t : List Char} (hblanks : Blanks s t) : Comma true s t
  | next {s u t : List Char} (hbefore : Blanks s (',' :: u)) (hafter : Blanks u t) : Comma false s t

/-- Items from the first one on, or after another one, and the closing bracket. -/
inductive Listing (Item : List Char → ι → List Char → Prop) (bracket : Bracket) :
    Bool → List Char → List ι → List Char → Prop
  | close {first : Bool} {s t : List Char} (hblanks : Blanks s (bracket.closing :: t)) :
      Listing Item bracket first s [] t
  | item {first : Bool} {s u v t : List Char} {i : ι} {is : List ι} (hcomma : Comma first s u)
      (hitem : Item u i v) (hrest : Listing Item bracket false v is t) :
      Listing Item bracket first s (i :: is) t

inductive Listed (Item : List Char → ι → List Char → Prop) :
    List Char → List ι → List Char → Prop
  | items {s t : List Char} {is : List ι} (hlisting : Listing Item .list true s is t) :
      Listed Item ('[' :: s) is t

/-- One of several names, as a string or as the one member of an object. -/
inductive Named (variants : List (String × α)) : List Char → α → List Char → Prop
  | string {s t : List Char} {name : String} {a : α} (hknown : (name, a) ∈ variants)
      (htext : Quoted s name t) : Named variants s a t
  | object {s u v w x t : List Char} {name : String} {a : α} (hknown : (name, a) ∈ variants)
      (hbefore : Blanks s u) (htext : Quoted u name v) (hbetween : Blanks v (':' :: w))
      (hafter : Blanks w ('n' :: 'u' :: 'l' :: 'l' :: x)) (hlast : Blanks x ('\x7d' :: t)) :
      Named variants ('\x7b' :: s) a t

section

variable {s t u : List Char}

/-! ## Simple values -/

theorem takes_truth : Takes Truth := by
  rintro _ b t (_ | _) <;> simp only [List.length_cons] <;> omega

theorem boolean_accepts : Decoder.boolean.Accepts Truth := by
  intro s b t u hwritten _ hblanks
  cases hwritten with
  | yes =>
    rw [Decoder.boolean, hblanks.skipBlank_cons rfl]
    rfl
  | no =>
    rw [Decoder.boolean, hblanks.skipBlank_cons rfl]
    rfl

theorem naturalBelow_accepts {limit : Nat} (wanted : String) (hfits : limit ≤ UInt64.size) :
    (Decoder.naturalBelow limit wanted).Accepts (Below limit) := by
  intro s n t u hwritten hapart hblanks
  obtain ⟨hsmall, _⟩ := hwritten
  have hread : Decoder.number wanted u = .ok (.natural n, t) := by
    rw [Decoder.number, hblanks.skipBlank]
    exact number_write wanted (Nat.lt_of_lt_of_le hsmall hfits) hapart
  rw [Decoder.naturalBelow, hread]
  show (if n < limit then _ else _) = _
  rw [if_pos hsmall]

theorem starts_below (limit : Nat) : Starts (Below limit) := by
  rintro _ n t ⟨hsmall, _⟩
  obtain ⟨c, tail, hwritten, hbegins⟩ := begins_writeNat n
  exact ⟨c, tail ++ t, by rw [hwritten, List.cons_append], hbegins⟩

theorem takes_below (limit : Nat) : Takes (Below limit) := by
  rintro _ n t ⟨_, _⟩
  have hsome := Nat.length_toDigits_pos (b := 10) (n := n)
  rw [List.length_append, writeNat]
  omega

theorem Quoted.begins {name : String} (h : Quoted s name t) :
    ∃ rest, s = '"' :: rest ∧ readString rest = .ok (name, t) := by
  obtain ⟨hspelling⟩ := h
  exact ⟨_, rfl, hspelling.readString⟩

theorem quoted_write (name : String) (t : List Char) : Quoted (writeText name ++ t) name t := by
  have htext := Quoted.text (spelling_write name.toList t)
  rw [String.ofList_toList] at htext
  rw [writeText_append]
  exact htext

theorem text_accepts (wanted : String) : (Decoder.text wanted).Accepts Quoted := by
  intro s name t u hwritten _ hblanks
  obtain ⟨rest, rfl, hread⟩ := hwritten.begins
  rw [Decoder.text, hblanks.skipBlank_cons rfl]
  exact hread

theorem starts_quoted : Starts Quoted := by
  rintro _ _ _ ⟨hspelling⟩
  exact ⟨_, _, rfl, rfl, by decide, by decide⟩

theorem takes_quoted : Takes Quoted := by
  rintro _ _ t ⟨hspelling⟩
  exact Nat.lt_succ_of_lt hspelling.length_lt

theorem takes_nullable {Written : List Char → α → List Char → Prop} (htakes : Takes Written) :
    Takes (Nullable Written) := by
  rintro _ o t (_ | hwritten)
  · simp only [List.length_cons]
    omega
  · exact htakes hwritten

theorem optional_accepts {decoder : Decoder α} {Written : List Char → α → List Char → Prop}
    (hstarts : Starts Written) (haccepts : decoder.Accepts Written) :
    (Decoder.optional decoder).Accepts (Nullable Written) := by
  intro s o t u hwritten hapart hblanks
  cases hwritten with
  | null =>
    rw [Decoder.optional, hblanks.skipBlank_cons rfl]
    rfl
  | value hwritten =>
    obtain ⟨c, tail, rfl, hsolid, -, hgoing⟩ := hstarts hwritten
    rw [Decoder.optional, hblanks.skipBlank_cons hsolid]
    split
    · next heq => exact absurd (List.cons.inj heq).1 hgoing
    · rw [haccepts hwritten hapart (.none _)]
      rfl

theorem takes_named (variants : List (String × α)) : Takes (Named variants) := by
  rintro s a t (⟨_, htext⟩ | ⟨_, hbefore, htext, hbetween, hafter, hlast⟩)
  · exact takes_quoted htext
  · have htaken := hbefore.length_le
    have htaken' := takes_quoted htext
    have htaken'' := hbetween.length_le
    have htaken''' := hafter.length_le
    have htaken'''' := hlast.length_le
    simp only [List.length_cons] at *
    omega

theorem Blanks.null (hblanks : Blanks s ('n' :: 'u' :: 'l' :: 'l' :: t)) (wanted : String) :
    Decoder.null wanted s = .ok ((), t) := by
  rw [Decoder.null, hblanks.skipBlank_cons rfl]
  rfl

theorem Blanks.variantName {name : String} (hblanks : Blanks s u) (htext : Quoted u name t) :
    Decoder.variantName s = .ok (name, t) := by
  obtain ⟨rest, rfl, hread⟩ := htext.begins
  rw [Decoder.variantName, hblanks.skipBlank_cons rfl]
  exact hread

theorem choice_accepts {variants : List (String × α)}
    (hunique : ∀ v ∈ variants, variants.find? (·.1 == v.1) = some v) :
    (Decoder.choice variants).Accepts (Named variants) := by
  have hfound {name : String} {a : α} (hknown : (name, a) ∈ variants) (t : List Char) :
      Decoder.variant variants name t = .ok (a, t) := by
    rw [Decoder.variant, hunique _ hknown]
  intro s a t u hwritten _ hblanks
  cases hwritten with
  | string hknown htext =>
    obtain ⟨rest, rfl, hread⟩ := htext.begins
    rw [Decoder.choice, hblanks.skipBlank_cons rfl]
    show (readString rest >>= fun r => Decoder.variant variants r.1 r.2) = _
    rw [hread]
    exact hfound hknown t
  | object hknown hbefore htext hbetween hafter hlast =>
    rw [Decoder.choice, hblanks.skipBlank_cons rfl]
    simp only [hbefore.variantName htext, hfound hknown, hbetween.readColon, hafter.null, bind,
      Except.bind, hlast.skipBlank_cons rfl]

/-! ## Lists -/

theorem Comma.apart (hcomma : Comma false s t) : Apart s := by
  cases hcomma with
  | next hbefore => exact hbefore.apart (apart_comma _)

theorem Comma.length_le {first : Bool} (hcomma : Comma first s t) : t.length ≤ s.length := by
  cases hcomma with
  | first hblanks => exact hblanks.length_le
  | next hbefore hafter =>
    have htaken := hbefore.length_le
    have htaken' := hafter.length_le
    rw [List.length_cons] at htaken
    omega

theorem Listing.apart {Item : List Char → ι → List Char → Prop} {bracket : Bracket} {is : List ι}
    (h : Listing Item bracket false s is t) : Apart s := by
  cases h with
  | close hblanks => exact hblanks.apart (apart_closing bracket t)
  | item hcomma => exact hcomma.apart

/-- There are no more items than characters. -/
theorem Listing.count_le {Item : List Char → ι → List Char → Prop} {bracket : Bracket}
    (htakes : Takes Item) {first : Bool} {is : List ι}
    (h : Listing Item bracket first s is t) : is.length ≤ s.length := by
  induction h with
  | close => exact Nat.zero_le _
  | item hcomma hitem _ ih =>
    exact Nat.le_trans (Nat.lt_of_le_of_lt ih (htakes hitem)) hcomma.length_le

theorem Listing.length_lt {Item : List Char → ι → List Char → Prop} {bracket : Bracket}
    (htakes : Takes Item) {first : Bool} {is : List ι}
    (h : Listing Item bracket first s is t) : t.length < s.length := by
  induction h with
  | close hblanks => exact hblanks.length_le
  | item hcomma hitem _ ih =>
    exact Nat.lt_of_lt_of_le (Nat.lt_trans ih (htakes hitem)) hcomma.length_le

/-- The writer separates items by commas alone. -/
theorem listing_write {Item : List Char → ι → List Char → Prop} {write : α → List Char}
    {item : α → ι} (bracket : Bracket) {as : List α}
    (hwritten : ∀ a ∈ as, ∀ t, Item (write a ++ t) (item a) t) (first : Bool) (t : List Char) :
    Listing Item bracket first (listed first (as.map write) ++ bracket.closing :: t) (as.map item)
      t := by
  induction as generalizing first with
  | nil =>
    rw [List.map_nil, listed_nil]
    exact .close (.none _)
  | cons a as ih =>
    have hitem := hwritten a List.mem_cons_self
    have hrest := ih (fun b hb => hwritten b (List.mem_cons_of_mem _ hb)) false
    rw [List.map_cons, listed_cons, List.append_assoc]
    cases first with
    | true => exact .item (.first (.none _)) (hitem _) hrest
    | false => exact .item (.next (.none _) (.none _)) (hitem _) hrest

theorem Comma.nextElement {first : Bool} (hcomma : Comma first s u) (hbegins : Begins u) :
    Json.nextElement first s = .ok (true, u) := by
  obtain ⟨c, tail, rfl, hsolid, hgoing, -⟩ := hbegins
  cases hcomma with
  | first hblanks =>
    simp only [Json.nextElement, hblanks.skipBlank_cons hsolid, hgoing, if_false, if_true]
  | next hbefore hafter =>
    simp only [Json.nextElement, hbefore.skipBlank_cons rfl, hafter.skipBlank_cons hsolid, hgoing,
      Char.reduceEq, Bool.false_eq_true, if_false, if_true]

theorem elements_accepts {decoder : Decoder α} {Written : List Char → α → List Char → Prop}
    (hstarts : Starts Written) (haccepts : decoder.Accepts Written) {first : Bool} {as : List α}
    (hlisting : Listing Written .list first s as t) (fuel : Nat) (taken : List α)
    (henough : as.length < fuel) :
    decoder.elements fuel first taken s = .ok (taken.reverse ++ as, t) := by
  induction hlisting generalizing fuel taken with
  | @close first s t hblanks =>
    obtain ⟨fuel, rfl⟩ : ∃ n, fuel = n + 1 := ⟨fuel - 1, by omega⟩
    have hnext : nextElement first s = .ok (false, ']' :: t) := by
      rw [nextElement, hblanks.skipBlank_cons rfl]
      rfl
    rw [Decoder.elements, hnext, List.append_nil]
    rfl
  | @item first s u v t a as hcomma hwritten hrest ih =>
    rw [List.length_cons] at henough
    obtain ⟨fuel, rfl⟩ : ∃ n, fuel = n + 1 := ⟨fuel - 1, by omega⟩
    rw [Decoder.elements, hcomma.nextElement (hstarts hwritten)]
    simp only [haccepts hwritten hrest.apart (.none _)]
    rw [ih fuel (a :: taken) (by omega), List.reverse_cons, List.append_assoc]
    rfl

theorem takes_listed {Written : List Char → α → List Char → Prop} (htakes : Takes Written) :
    Takes (Listed Written) := by
  rintro _ as t ⟨hlisting⟩
  exact Nat.lt_succ_of_lt (hlisting.length_lt htakes)

theorem list_accepts {decoder : Decoder α} {Written : List Char → α → List Char → Prop}
    (hstarts : Starts Written) (htakes : Takes Written) (haccepts : decoder.Accepts Written) :
    (Decoder.list decoder).Accepts (Listed Written) := by
  intro s as t u hwritten _ hblanks
  obtain ⟨hlisting⟩ := hwritten
  rw [Decoder.list, hblanks.skipBlank_cons rfl]
  exact elements_accepts hstarts haccepts hlisting _ []
    (Nat.lt_succ_of_le (hlisting.count_le htakes))

end

end Json

end Skein
