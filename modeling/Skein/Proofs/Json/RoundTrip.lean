import Skein.Fiber.Config
import Skein.Proofs.Json.Skipping
import Skein.Retry.Settings

/-!
# What is written is read back

A decoder reads a written value whatever follows it, so long as that can follow
a value at all.  The decoders of lists and records have this from those of their
elements and members, and so have, in the end, the two configurations that are
kept as texts: a fiber's, which is checked once it has been read, and the
settings of a retry policy.
-/

namespace Skein

namespace Json

variable {α : Type}

/-- The decoder reads the written value as `a`, and nothing of what follows. -/
def Decoder.Reads (decoder : Decoder α) (written : List Char) (a : α) : Prop :=
  ∀ rest, Ends rest → decoder (written ++ rest) = .ok (a, rest)

/-- The text begins neither with a blank nor with a closing bracket, and is not
`null`. -/
def Begins (written : List Char) : Prop :=
  ∃ c tail, written = c :: tail ∧ isBlank c = false ∧ c ≠ ']' ∧ c ≠ 'n'

theorem parse_of_reads {decoder : Decoder α} {written : List Char} {a : α}
    (h : decoder.Reads written a) : parse decoder (String.ofList written) = .ok a := by
  have hread := h [] ends_nil
  rw [List.append_nil] at hread
  rw [parse, String.toList_ofList, Decoder.whole, hread]
  rfl

/-! ## Simple values -/

theorem boolean_reads (b : Bool) : Decoder.boolean.Reads (writeBool b) b := by
  intro rest _
  cases b <;> rfl

theorem writeText_append (s : String) (rest : List Char) :
    writeText s ++ rest = '"' :: (s.toList.flatMap writeChar ++ '"' :: rest) := by
  rw [writeText, List.append_assoc]
  rfl

theorem begins_writeText (s : String) : Begins (writeText s) :=
  ⟨'"', _, rfl, rfl, by decide, by decide⟩

theorem text_reads (wanted s : String) : (Decoder.text wanted).Reads (writeText s) s := by
  intro rest _
  rw [writeText_append]
  exact readString_write s rest

theorem begins_writeNat (n : Nat) : Begins (writeNat n) := by
  cases hdigits : Nat.toDigits 10 n with
  | nil =>
    have hpos := Nat.length_toDigits_pos (b := 10) (n := n)
    rw [hdigits] at hpos
    cases hpos
  | cons d ds =>
    have hdigit := isDigit_of_digits hdigits
    refine ⟨d, ds, hdigits, isBlank_of_isDigit hdigit, ?_, ?_⟩ <;> rintro rfl <;> cases hdigit

theorem number_write (wanted : String) {n : Nat} (hn : n < UInt64.size) {rest : List Char}
    (hrest : Apart rest) :
    Decoder.number wanted (writeNat n ++ rest) = .ok (.natural n, rest) := by
  have hread := readUnsigned_write hn hrest
  obtain ⟨d, ds, hdigits, hblank, -, -⟩ := begins_writeNat n
  have hdigit : d.isDigit = true := isDigit_of_digits hdigits
  have hsign : d ≠ '-' := by rintro rfl; cases hdigit
  rw [hdigits, List.cons_append] at hread ⊢
  rw [Decoder.number, skipBlank_cons hblank]
  simp only [hdigit, Bool.or_true, if_true]
  rw [readNumber, hread]
  rintro _ ⟨⟩
  exact hsign rfl

theorem naturalBelow_reads {limit n : Nat} (wanted : String) (hlimit : limit ≤ UInt64.size)
    (hn : n < limit) : (Decoder.naturalBelow limit wanted).Reads (writeNat n) n := by
  intro rest hrest
  rw [Decoder.naturalBelow, number_write wanted (by omega) hrest.apart]
  show (if n < limit then _ else _) = _
  rw [if_pos hn]

theorem optional_reads {decoder : Decoder α} {write : α → List Char} (o : Option α)
    (h : ∀ a ∈ o, Begins (write a) ∧ decoder.Reads (write a) a) :
    (Decoder.optional decoder).Reads (writeOptional write o) o := by
  intro rest hrest
  cases o with
  | none => rfl
  | some a =>
    obtain ⟨⟨c, tail, hwrite, hblank, -, hnull⟩, hreads⟩ := h a rfl
    have hread := hreads rest hrest
    rw [hwrite] at hread
    rw [Decoder.optional, writeOptional, hwrite, List.cons_append, skipBlank_cons hblank]
    split
    · next heq => exact absurd (List.cons.inj heq).1 hnull
    · rw [List.cons_append] at hread
      rw [hread]
      rfl

theorem choice_reads {variants : List (String × α)} {name : String} {a : α}
    (h : variants.find? (·.1 == name) = some (name, a)) :
    (Decoder.choice variants).Reads (writeText name) a := by
  intro rest _
  rw [writeText_append]
  show (readString _ >>= fun r => Decoder.variant variants r.1 r.2) = _
  rw [readString_write]
  show Decoder.variant variants name rest = _
  rw [Decoder.variant, h]

/-! ## Lists -/

/-- Items as they are listed from the first one on, or after another one. -/
def listed (first : Bool) (items : List (List Char)) : List Char :=
  if first then separate items else items.flatMap (',' :: ·)

theorem listed_nil (first : Bool) : listed first [] = [] := by
  cases first <;> rfl

theorem listed_cons (first : Bool) (item : List Char) (items : List (List Char)) :
    listed first (item :: items) =
      (if first then item else ',' :: item) ++ listed false items := by
  have hseparate : ∀ (items : List (List Char)) (item : List Char),
      separate (item :: items) = item ++ items.flatMap (',' :: ·) := by
    intro items
    induction items with
    | nil => exact fun item => (List.append_nil item).symm
    | cons next items ih =>
      intro item
      rw [separate, ih next]
      · rfl
      · exact List.cons_ne_nil next items
  cases first with
  | false => rfl
  | true => exact hseparate items item

theorem length_le_listed (first : Bool) (items : List (List Char))
    (h : ∀ item ∈ items, item ≠ []) : items.length ≤ (listed first items).length := by
  induction items generalizing first with
  | nil => exact Nat.zero_le _
  | cons item items ih =>
    have htail := ih false fun next hnext => h next (List.mem_cons_of_mem _ hnext)
    have hitem := List.length_pos_of_ne_nil (h item List.mem_cons_self)
    rw [listed_cons, List.length_append, List.length_cons]
    cases first <;> simp only [Bool.false_eq_true, if_false, if_true, List.length_cons] <;> omega

theorem ends_listed {rest : List Char} (h : Ends rest) (items : List (List Char)) :
    Ends (listed false items ++ rest) := by
  cases items with
  | nil => exact h
  | cons item items => exact ends_comma _

theorem nextElement_item {item : List Char} (h : Begins item) (first : Bool)
    (items : List (List Char)) (rest : List Char) :
    nextElement first (listed first (item :: items) ++ rest) =
      .ok (true, item ++ (listed false items ++ rest)) := by
  obtain ⟨c, tail, rfl, hblank, hclosing, -⟩ := h
  rw [listed_cons, List.append_assoc]
  cases first with
  | true =>
    rw [if_pos rfl, List.cons_append, nextElement, skipBlank_cons hblank]
    show (if c = ']' then _ else _) = _
    rw [if_neg hclosing]
    rfl
  | false =>
    have hcomma : isBlank ',' = false := rfl
    rw [if_neg Bool.false_ne_true, List.cons_append, nextElement, skipBlank_cons hcomma]
    simp only [List.cons_append, skipBlank_cons hblank, hclosing, Char.reduceEq, Bool.false_eq_true,
      if_false, if_true]

theorem elements_reads {decoder : Decoder α} {write : α → List Char} (rest : List Char)
    (as : List α) (h : ∀ a ∈ as, Begins (write a) ∧ decoder.Reads (write a) a) :
    ∀ (fuel : Nat) (first : Bool) (taken : List α), as.length < fuel →
      decoder.elements fuel first taken (listed first (as.map write) ++ ']' :: rest) =
        .ok (taken.reverse ++ as, rest) := by
  induction as with
  | nil =>
    intro fuel first taken hfuel
    obtain ⟨fuel, rfl⟩ : ∃ n, fuel = n + 1 := ⟨fuel - 1, by omega⟩
    rw [List.map_nil, listed_nil, List.append_nil]
    rfl
  | cons a as ih =>
    intro fuel first taken hfuel
    rw [List.length_cons] at hfuel
    obtain ⟨fuel, rfl⟩ : ∃ n, fuel = n + 1 := ⟨fuel - 1, by omega⟩
    obtain ⟨hbegins, hreads⟩ := h a List.mem_cons_self
    rw [List.map_cons, Decoder.elements, nextElement_item hbegins]
    simp only [hreads _ (ends_listed (ends_list rest) _)]
    rw [ih (fun b hb => h b (List.mem_cons_of_mem _ hb)) fuel false (a :: taken) (by omega),
      List.reverse_cons, List.append_assoc]
    rfl

theorem list_reads {decoder : Decoder α} {write : α → List Char} (as : List α)
    (h : ∀ a ∈ as, Begins (write a) ∧ decoder.Reads (write a) a) :
    (Decoder.list decoder).Reads (writeList write as) as := by
  intro rest _
  have hwrite : writeList write as ++ rest =
      '[' :: (listed true (as.map write) ++ ']' :: rest) := by
    rw [writeList, List.append_assoc]
    rfl
  have hlength : as.length ≤ (listed true (as.map write)).length := by
    rw [← List.length_map write]
    refine length_le_listed true _ ?_
    intro item hitem
    obtain ⟨a, ha, rfl⟩ := List.mem_map.mp hitem
    obtain ⟨⟨c, tail, hbegins, -⟩, -⟩ := h a ha
    rw [hbegins]
    exact List.cons_ne_nil c tail
  rw [hwrite]
  show decoder.elements ((listed true (as.map write) ++ ']' :: rest).length + 1) true [] _ = _
  rw [elements_reads rest as h _ true [] (by rw [List.length_append]; omega)]
  rfl

/-! ## Records -/

variable {σ : Type}

/-- The members read the written values one after the other, and so make `r'` of
the record `r`. -/
inductive Fills : List (Member σ) → List (String × List Char) → σ → σ → Prop
  | nil (r : σ) : Fills [] [] r r
  | cons {m : Member σ} {written : List Char} {r r' r'' : σ} {ms : List (Member σ)}
      {more : List (String × List Char)} (hfirst : (m.read r).Reads written r')
      (hrest : Fills ms more r' r'') : Fills (m :: ms) ((m.name, written) :: more) r r''

theorem of_reads {decoder : Decoder α} {written : List Char} {a : α} (name : String)
    (put : α → σ → σ) (r : σ) (h : decoder.Reads written a) :
    ((Member.of name decoder put).read r).Reads written (put a r) := by
  intro rest hrest
  show (decoder (written ++ rest) >>= fun p => Except.ok (put p.1 r, p.2)) = _
  rw [h rest hrest]
  rfl

def pair (m : String × List Char) : List Char :=
  writeText m.1 ++ ':' :: m.2

theorem nextMember_pair (m : String × List Char) (first : Bool) (items : List (List Char))
    (rest : List Char) :
    nextMember first (listed first (pair m :: items) ++ rest) =
      .ok (true, m.1.toList.flatMap writeChar ++
        '"' :: ':' :: (m.2 ++ (listed false items ++ rest))) := by
  have hpair : pair m ++ (listed false items ++ rest) =
      '"' :: (m.1.toList.flatMap writeChar ++
        '"' :: ':' :: (m.2 ++ (listed false items ++ rest))) := by
    rw [pair, List.append_assoc, writeText_append]
    rfl
  rw [listed_cons, List.append_assoc]
  cases first with
  | true =>
    rw [if_pos rfl, hpair]
    rfl
  | false =>
    rw [if_neg Bool.false_ne_true, List.cons_append, hpair]
    rfl

theorem readMember_known {shape : Record σ} {m : Member σ} {written : List Char} {r r' : σ}
    {seen : List String} (hknown : shape.members.find? (·.name == m.name) = some m)
    (hfresh : m.name ∉ seen) (hreads : (m.read r).Reads written r') {rest : List Char}
    (hrest : Ends rest) :
    shape.readMember seen m.name r (':' :: (written ++ rest)) = .ok (r', rest) := by
  have hseen : seen.contains m.name = false := by simpa using hfresh
  rw [Record.readMember, hknown]
  show (if seen.contains m.name then _ else m.read r (written ++ rest)) = _
  rw [hseen, if_neg Bool.false_ne_true, hreads rest hrest]

theorem object_reads {shape : Record σ} {ms : List (Member σ)}
    {written : List (String × List Char)} {r r' : σ} (h : Fills ms written r r')
    (hcomplete : shape.complete r' = .ok ()) (rest : List Char) :
    ∀ (fuel : Nat) (first : Bool) (seen : List String), ms.length < fuel →
      (∀ m ∈ ms, shape.members.find? (·.name == m.name) = some m) →
      (ms.map Member.name).Nodup → (∀ m ∈ ms, m.name ∉ seen) →
      shape.object fuel first seen r (listed first (written.map pair) ++ '\x7d' :: rest) =
        .ok (r', rest) := by
  induction h with
  | nil r =>
    intro fuel first seen hfuel _ _ _
    obtain ⟨fuel, rfl⟩ : ∃ n, fuel = n + 1 := ⟨fuel - 1, by omega⟩
    rw [List.map_nil, listed_nil]
    show ((shape.complete r).mapError _ >>= fun _ => Except.ok (r, rest)) = _
    rw [hcomplete]
    rfl
  | @cons m value r r₁ r' ms more hreads _ ih =>
    intro fuel first seen hfuel hknown hnodup hfresh
    rw [List.length_cons] at hfuel
    obtain ⟨fuel, rfl⟩ : ∃ n, fuel = n + 1 := ⟨fuel - 1, by omega⟩
    obtain ⟨hnew, hnodup⟩ := List.nodup_cons.mp hnodup
    rw [List.map_cons, Record.object, nextMember_pair]
    simp only [readString_write]
    rw [readMember_known (hknown m List.mem_cons_self) (hfresh m List.mem_cons_self) hreads
      (ends_listed (ends_object rest) _)]
    refine ih hcomplete fuel false (m.name :: seen) (by omega)
      (fun n hn => hknown n (List.mem_cons_of_mem _ hn)) hnodup ?_
    intro n hn hmem
    obtain hname | hmem := List.mem_cons.mp hmem
    · exact hnew (hname ▸ List.mem_map_of_mem hn)
    · exact hfresh n (List.mem_cons_of_mem _ hn) hmem

theorem find_name {ms : List (Member σ)} (h : (ms.map Member.name).Nodup) {m : Member σ}
    (hm : m ∈ ms) : ms.find? (·.name == m.name) = some m := by
  induction ms with
  | nil => cases hm
  | cons n ms ih =>
    obtain ⟨hnew, hnodup⟩ := List.nodup_cons.mp h
    cases hm with
    | head => exact List.find?_cons_of_pos (beq_self_eq_true m.name)
    | tail _ hm =>
      have hne : n.name ≠ m.name := fun heq => hnew (heq ▸ List.mem_map_of_mem hm)
      rw [List.find?_cons_of_neg (by simpa using hne)]
      exact ih hnodup hm

theorem length_fills {ms : List (Member σ)} {written : List (String × List Char)} {r r' : σ}
    (h : Fills ms written r r') : written.length = ms.length := by
  induction h with
  | nil => rfl
  | cons _ _ ih => rw [List.length_cons, List.length_cons, ih]

theorem record_reads {shape : Record σ} {written : List (String × List Char)} {r : σ}
    (hnames : (shape.members.map Member.name).Nodup)
    (h : Fills shape.members written shape.start r) (hcomplete : shape.complete r = .ok ()) :
    shape.decoder.Reads (writeObject written) r := by
  intro rest _
  have hwrite : writeObject written ++ rest =
      '\x7b' :: (listed true (written.map pair) ++ '\x7d' :: rest) := by
    rw [writeObject, List.append_assoc]
    rfl
  have hlength : shape.members.length ≤ (listed true (written.map pair)).length := by
    rw [← length_fills h, ← List.length_map pair]
    refine length_le_listed true _ ?_
    intro item hitem
    obtain ⟨m, -, rfl⟩ := List.mem_map.mp hitem
    exact List.cons_ne_nil _ _
  rw [hwrite]
  show shape.object ((listed true (written.map pair) ++ '\x7d' :: rest).length + 1) true [] _ _ = _
  exact object_reads h hcomplete rest _ true [] (by rw [List.length_append]; omega)
    (fun m hm => find_name hnames hm) hnames (fun m _ => List.not_mem_nil)

end Json

/-! ## The two configurations -/

theorem Queue.Strategy.reads (strategy : Queue.Strategy) :
    Queue.Strategy.decoder.Reads strategy.write strategy := by
  cases strategy <;> exact Json.choice_reads rfl

theorem Retry.Settings.readCount_reads (n : UInt32) :
    Retry.Settings.readCount.Reads (Json.writeNat n.toNat) n := by
  intro rest hrest
  rw [readCount, Json.naturalBelow_reads "u32" (by decide) n.toNat_lt rest hrest]
  show Except.ok (UInt32.ofNat n.toNat, rest) = _
  rw [UInt32.ofNat_toNat]

theorem Fiber.Config.record_reads (c : Fiber.Config) (h : ∀ n ∈ c.stackSize, n < UInt64.size) :
    (Fiber.Config.record {}).decoder.Reads c.write c := by
  have hname := Json.optional_reads c.name fun name _ =>
    ⟨Json.begins_writeText name, Json.text_reads "a string" name⟩
  have hstack := Json.optional_reads c.stackSize fun n hn =>
    ⟨Json.begins_writeNat n, Json.naturalBelow_reads "usize" (Nat.le_refl _) (h n hn)⟩
  refine Json.record_reads (by decide) ?_ rfl
  exact .cons (Json.of_reads _ _ _ hname) <| .cons (Json.of_reads _ _ _ hstack) <|
    .cons (Json.of_reads _ _ _ c.queue.reads) <|
    .cons (Json.of_reads _ _ _ (Json.boolean_reads c.joinOnDrop)) <| .nil c

theorem Retry.Settings.record_reads (s : Retry.Settings) (h : ∀ w ∈ s.waits, w < UInt64.size) :
    (Retry.Settings.record {}).decoder.Reads s.write s := by
  have hwaits := Json.list_reads s.waits fun w hw =>
    ⟨Json.begins_writeNat w, Json.naturalBelow_reads "u64" (Nat.le_refl _) (h w hw)⟩
  have hlimit := Json.optional_reads s.maxRetries fun n _ =>
    ⟨Json.begins_writeNat n.toNat, Retry.Settings.readCount_reads n⟩
  refine Json.record_reads (by decide) ?_ rfl
  exact .cons (Json.of_reads _ _ _ hwaits) <| .cons (Json.of_reads _ _ _ hlimit) <| .nil s

theorem Fiber.Config.validate_error {c : Fiber.Config} {e : ConfigError}
    (h : c.validate = .error e) : ∃ message, e = .invalid message := by
  rw [validate] at h
  split at h
  · cases h
    exact ⟨_, rfl⟩
  · split at h
    · cases h
      exact ⟨_, rfl⟩
    · cases h

/-- A configuration that has been written is read as it was, unless no worker can
be started with it: then it is refused in the words of its own check.  It is
never refused as a text.  The settings of a retry policy are read as they were. -/
theorem Json.parse_write :
    (∀ c : Fiber.Config, (∀ n ∈ c.stackSize, n < UInt64.size) →
      c.validate = .ok () ∧ Fiber.Config.parse (String.ofList c.write) = .ok c ∨
      ∃ message, c.validate = .error (.invalid message) ∧
        Fiber.Config.parse (String.ofList c.write) = .error (.invalid message)) ∧
    ∀ s : Retry.Settings, (∀ w ∈ s.waits, w < UInt64.size) →
      Retry.Settings.parse (String.ofList s.write) = .ok s := by
  constructor
  · intro c hstack
    have hread := Json.parse_of_reads (Fiber.Config.record_reads c hstack)
    simp only [Fiber.Config.parse, hread]
    cases hvalid : c.validate with
    | ok => exact .inl ⟨rfl, rfl⟩
    | error e =>
      obtain ⟨message, rfl⟩ := Fiber.Config.validate_error hvalid
      exact .inr ⟨message, rfl, rfl⟩
  · intro s hwaits
    rw [Retry.Settings.parse, Json.parse_of_reads (Retry.Settings.record_reads s hwaits)]

/-- A name with all that has to be escaped and a character outside the basic
plane, the same with a NUL in it, and the largest numbers. -/
theorem Json.parse_write_extremes :
    let c : Fiber.Config :=
      { name := some "a\"b\\\n\x01\x7f😀", stackSize := some (UInt64.size - 1), queue := .blocking,
        joinOnDrop := false }
    let refused : Fiber.Config := { c with name := some "a\x00b" }
    let s : Retry.Settings :=
      { waits := [0, 250, UInt64.size - 1], maxRetries := some 4294967295 }
    (∀ n ∈ c.stackSize, n < UInt64.size) ∧ (∀ w ∈ s.waits, w < UInt64.size) ∧
      Fiber.Config.parse (String.ofList c.write) = .ok c ∧
      Fiber.Config.parse (String.ofList refused.write) =
        .error (.invalid "fiber name must not contain NUL bytes") ∧
      Retry.Settings.parse (String.ofList s.write) = .ok s := by
  intro c refused s
  have hstack : ∀ n ∈ c.stackSize, n < UInt64.size := by
    rintro n ⟨⟩
    decide
  have hwaits : ∀ w ∈ s.waits, w < UInt64.size := by decide
  have hvalid : c.validate = .ok () := by decide
  have hrefused : refused.validate = .error (.invalid "fiber name must not contain NUL bytes") := by
    decide
  refine ⟨hstack, hwaits, ?_, ?_, parse_write.2 s hwaits⟩
  · obtain ⟨-, hread⟩ | ⟨message, hinvalid, -⟩ := parse_write.1 c hstack
    · exact hread
    · rw [hvalid] at hinvalid
      cases hinvalid
  · obtain ⟨hok, -⟩ | ⟨message, hinvalid, hread⟩ := parse_write.1 refused hstack
    · rw [hrefused] at hok
      cases hok
    · rw [hrefused] at hinvalid
      cases hinvalid
      exact hread

end Skein
