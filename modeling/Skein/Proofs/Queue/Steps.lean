import Mathlib.Data.Finset.Card
import Skein.Queue.Race

/-!
# What one step can change

Each step of a race moves one agent and touches one cell of the memory.  A
producer only appends, never opens or shuts the gate, and leaves the consumer's
two flags alone; a call that closes the queue only sets the closed flag and the
permit; the consumer never touches the gate.  Everything that is proved of
schedules goes back to these lemmas.

The one fact about all producers at once is `counted_run`: the number at the
gate is the number of calls whose announcement stands.  It is stated with a set
of those calls, since the items need not be finitely many.
-/

namespace Skein

namespace Queue

variable {ι : Type}

namespace Offer

def inside : Offer → Bool
  | announced | admitted | stored | refused => true
  | _ => false

theorem items_step (g : Gated) (a : ι) (q : Blocking ι) (place : Offer) :
    (place.step g a q).1.items = q.items ++ place.stores a := by
  cases place <;> simp [step, stores]

theorem closed_step (g : Gated) (a : ι) (q : Blocking ι) (place : Offer) :
    (place.step g a q).1.gate.closed = q.gate.closed := by
  cases place <;> rfl

theorem registered_step (g : Gated) (a : ι) (q : Blocking ι) (place : Offer) :
    (place.step g a q).1.registered = q.registered := by
  cases place <;> rfl

theorem parked_step (g : Gated) (a : ι) (q : Blocking ι) (place : Offer) :
    (place.step g a q).1.parked = q.parked := by
  cases place <;> rfl

/-- A producer grants wake-ups and uses none. -/
theorem permit_of_step {g : Gated} {a : ι} {q : Blocking ι} {place : Offer}
    (h : (place.step g a q).1.permit = false) :
    q.permit = false := by
  cases place with
  | unparking b => cases h
  | _ => exact h

theorem stores_of_ne (a : ι) {place : Offer} (h : place ≠ admitted) : place.stores a = [] := by
  cases place with
  | admitted => exact absurd rfl h
  | _ => rfl

theorem inside_woken (accepted : Bool) : (woken accepted).inside = false := by
  cases accepted <;> rfl

theorem inside_released (accepted : Bool) (g : Gated) : (released accepted g).inside = false := by
  cases g with
  | spinning => exact inside_woken accepted
  | blocking => rfl

/-- The number at the gate moves with the announcement of the one call that
steps. -/
theorem inFlight_step (g : Gated) (a : ι) {q : Blocking ι} (place : Offer)
    (h : place.inside = true → 0 < q.gate.inFlight) :
    (place.step g a q).1.gate.inFlight + place.inside.toNat =
      q.gate.inFlight + (place.step g a q).2.inside.toNat := by
  cases place with
  | ahead => rfl
  | announced =>
    show q.gate.inFlight + 1 =
      q.gate.inFlight + (if q.gate.closed then refused else admitted).inside.toNat
    cases q.gate.closed <;> rfl
  | admitted => rfl
  | stored =>
    have hpos := h rfl
    show q.gate.inFlight - 1 + 1 = q.gate.inFlight + (released true g).inside.toNat
    rw [inside_released]
    show q.gate.inFlight - 1 + 1 = q.gate.inFlight
    omega
  | refused =>
    have hpos := h rfl
    show q.gate.inFlight - 1 + 1 = q.gate.inFlight + (released false g).inside.toNat
    rw [inside_released]
    show q.gate.inFlight - 1 + 1 = q.gate.inFlight
    omega
  | waking accepted =>
    show q.gate.inFlight =
      q.gate.inFlight + (if q.parked then calling accepted else woken accepted).inside.toNat
    cases q.parked <;> cases accepted <;> rfl
  | calling accepted =>
    show q.gate.inFlight =
      q.gate.inFlight + (if q.registered then unparking accepted else woken accepted).inside.toNat
    cases q.registered <;> cases accepted <;> rfl
  | unparking accepted =>
    show q.gate.inFlight = q.gate.inFlight + (woken accepted).inside.toNat
    cases accepted <;> rfl
  | rejecting => rfl
  | returned accepted => rfl

end Offer

namespace Closing

theorem items_step (g : Gated) (q : Blocking ι) (place : Closing) :
    (place.step g q).1.items = q.items := by
  cases place <;> rfl

theorem inFlight_step (g : Gated) (q : Blocking ι) (place : Closing) :
    (place.step g q).1.gate.inFlight = q.gate.inFlight := by
  cases place <;> rfl

theorem closed_step (g : Gated) {q : Blocking ι} (place : Closing) (h : q.gate.closed = true) :
    (place.step g q).1.gate.closed = true := by
  cases place <;> first | rfl | exact h

theorem registered_step (g : Gated) (q : Blocking ι) (place : Closing) :
    (place.step g q).1.registered = q.registered := by
  cases place <;> rfl

theorem parked_step (g : Gated) (q : Blocking ι) (place : Closing) :
    (place.step g q).1.parked = q.parked := by
  cases place <;> rfl

theorem permit_of_step {g : Gated} {q : Blocking ι} {place : Closing}
    (h : (place.step g q).1.permit = false) :
    q.permit = false := by
  cases place with
  | unparking => cases h
  | _ => exact h

end Closing

namespace Consumer

/-- All that one step of the consumer can do, and when. -/
inductive Moves (g : Gated) (q : Blocking ι) : Consumer ι → Blocking ι × Consumer ι → Prop
  | arrive : Moves g q away
      ({ q with registered := q.registered || g == .blocking }, looking false .pop)
  | callAgain (r : Option ι) :
      Moves g q (returned r)
      ({ q with registered := q.registered || g == .blocking }, looking false .pop)
  | take (again : Bool) (place : Look) (a : ι) (rest : List ι)
      (hplace : place = .pop ∨ place = .last)
      (h : q.items = a :: rest) :
      Moves g q (looking again place) ({ q with items := rest }, found again (some a))
  | empty (again : Bool) (h : q.items = []) :
      Moves g q (looking again .pop) (q, looking again .flag)
  | shut (again : Bool) (h : q.gate.closed = true) :
      Moves g q (looking again .flag) (q, looking again .count)
  | alone (again : Bool) (h : q.gate.inFlight = 0) :
      Moves g q (looking again .count) (q, looking again .last)
  | inVain (again : Bool) (place : Look)
      (h : place = .flag ∧ q.gate.closed = false ∨ place = .count ∧ q.gate.inFlight ≠ 0) :
      Moves g q (looking again place) (q, vain g again)
  | finish (again : Bool) (h : q.items = []) : Moves g q (looking again .last) (q, found again none)
  | mark : Moves g q marking ({ q with parked := true }, looking true .pop)
  | block (h : q.permit = false) : Moves g q parked (q, parked)
  | wake (h : q.permit = true) : Moves g q parked ({ q with permit := false }, waking)
  | unmark : Moves g q waking ({ q with parked := false }, looking false .pop)
  | leave (r : Option ι) : Moves g q (leaving r) ({ q with parked := false }, returned r)

theorem step_moves (g : Gated) (q : Blocking ι) (place : Consumer ι) :
    Moves g q place (place.step g q) := by
  cases place with
  | away => exact .arrive
  | looking again place =>
    cases place with
    | pop =>
      rw [step]
      split
      next a rest h => exact .take again .pop a rest (.inl rfl) h
      next h => exact .empty again h
    | flag =>
      rw [step]
      split
      next h => exact .shut again h
      next h => exact .inVain again .flag (.inl ⟨rfl, Bool.eq_false_iff.mpr h⟩)
    | count =>
      rw [step]
      split
      next h => exact .alone again h
      next h => exact .inVain again .count (.inr ⟨rfl, h⟩)
    | last =>
      rw [step]
      split
      next a rest h => exact .take again .last a rest (.inr rfl) h
      next h => exact .finish again h
  | marking => exact .mark
  | parked =>
    rw [step]
    split
    next h => exact .wake h
    next h => exact .block (Bool.eq_false_iff.mpr h)
  | waking => exact .unmark
  | leaving r => exact .leave r
  | returned r => exact .callAgain r

theorem gate_step (g : Gated) (q : Blocking ι) (place : Consumer ι) :
    (place.step g q).1.gate = q.gate := by
  have hmove := step_moves g q place
  generalize place.step g q = out at hmove ⊢
  cases hmove <;> rfl

end Consumer

namespace Race

section Moves

variable [DecidableEq ι] (g : Gated) (s : Race ι)

theorem offers_producer (a : ι) :
    (s.step g (.producer a)).offers a = ((s.offers a).step g a s.queue).2 :=
  Function.update_self a _ _

theorem offers_producer_of_ne {a b : ι} (h : b ≠ a) :
    (s.step g (.producer a)).offers b = s.offers b :=
  Function.update_of_ne h _ _

theorem closings_closer (k : Nat) :
    (s.step g (.closer k)).closings k = ((s.closings k).step g s.queue).2 :=
  Function.update_self k _ _

theorem closings_closer_of_ne {j k : Nat} (h : j ≠ k) :
    (s.step g (.closer k)).closings j = s.closings j :=
  Function.update_of_ne h _ _

end Moves

def Counted (s : Race ι) : Prop :=
  ∃ inside : Finset ι, (∀ a, a ∈ inside ↔ (s.offers a).inside = true) ∧
    s.queue.gate.inFlight = inside.card

theorem counted_start : Counted ({} : Race ι) :=
  ⟨∅, by simp [Offer.inside], rfl⟩

theorem Counted.none_inside {s : Race ι} (h : Counted s)
    (hzero : s.queue.gate.inFlight = 0) (a : ι) :
    (s.offers a).inside = false := by
  obtain ⟨inside, hmem, hcard⟩ := h
  have hempty : inside = ∅ := Finset.card_eq_zero.mp (by omega)
  by_contra hin
  have ha := (hmem a).mpr (by simpa using hin)
  rw [hempty] at ha
  exact absurd ha (Finset.notMem_empty a)

theorem Counted.some_inside {s : Race ι} (h : Counted s) (hpos : s.queue.gate.inFlight ≠ 0) :
    ∃ a, (s.offers a).inside = true := by
  obtain ⟨inside, hmem, hcard⟩ := h
  obtain ⟨a, ha⟩ := Finset.card_pos.mp (show 0 < inside.card by omega)
  exact ⟨a, (hmem a).mp ha⟩

variable [DecidableEq ι]

/-- A closed queue stays closed. -/
theorem closed_step (g : Gated) {s : Race ι} (agent : Agent ι) (h : s.queue.gate.closed = true) :
    (s.step g agent).queue.gate.closed = true := by
  cases agent with
  | producer a =>
    show ((s.offers a).step g a s.queue).1.gate.closed = true
    rw [Offer.closed_step]
    exact h
  | closer k => exact Closing.closed_step g _ h
  | consumer =>
    show (s.consumer.step g s.queue).1.gate.closed = true
    rw [Consumer.gate_step]
    exact h
  | stranger => exact h

theorem counted_producer (g : Gated) {s : Race ι} (a : ι) (h : Counted s) :
    Counted (s.step g (.producer a)) := by
  obtain ⟨inside, hmem, hcard⟩ := h
  -- the calls inside other than that of `a`; whether that one is inside is read off its old and
  -- its new place
  have hold : inside.card = (inside.erase a).card + (s.offers a).inside.toNat := by
    cases hin : (s.offers a).inside with
    | true =>
      have ha := (hmem a).mpr hin
      rw [Finset.card_erase_of_mem ha]
      have hpos := Finset.card_pos.mpr ⟨a, ha⟩
      show inside.card = inside.card - 1 + 1
      omega
    | false =>
      have ha : a ∉ inside := fun ha => by
        rw [(hmem a).mp ha] at hin
        cases hin
      rw [Finset.erase_eq_of_notMem ha]
      rfl
  have hpos : (s.offers a).inside = true → 0 < s.queue.gate.inFlight := fun hin => by
    rw [hcard]
    exact Finset.card_pos.mpr ⟨a, (hmem a).mpr hin⟩
  have hmove := Offer.inFlight_step g a (s.offers a) hpos
  cases hin : ((s.offers a).step g a s.queue).2.inside with
  | true =>
    rw [hin] at hmove
    refine ⟨insert a (inside.erase a), fun b => ?_, ?_⟩
    · by_cases hb : b = a
      · subst hb
        simp [offers_producer, hin]
      · rw [offers_producer_of_ne g s hb, ← hmem b]
        simp [hb]
    · rw [Finset.card_insert_of_notMem (Finset.notMem_erase a inside)]
      show ((s.offers a).step g a s.queue).1.gate.inFlight = (inside.erase a).card + 1
      simp only [Bool.toNat_true] at hmove
      omega
  | false =>
    rw [hin] at hmove
    refine ⟨inside.erase a, fun b => ?_, ?_⟩
    · by_cases hb : b = a
      · subst hb
        simp [offers_producer, hin]
      · rw [offers_producer_of_ne g s hb, ← hmem b]
        simp [hb]
    · show ((s.offers a).step g a s.queue).1.gate.inFlight = (inside.erase a).card
      simp only [Bool.toNat_false] at hmove
      omega

theorem counted_step (g : Gated) (s : Race ι) (agent : Agent ι) (h : Counted s) :
    Counted (s.step g agent) := by
  cases agent with
  | producer a => exact counted_producer g a h
  | closer k =>
    obtain ⟨inside, hmem, hcard⟩ := h
    exact ⟨inside, hmem, (Closing.inFlight_step g s.queue (s.closings k)).trans hcard⟩
  | consumer =>
    obtain ⟨inside, hmem, hcard⟩ := h
    refine ⟨inside, hmem, ?_⟩
    show (s.consumer.step g s.queue).1.gate.inFlight = inside.card
    rw [Consumer.gate_step, hcard]
  | stranger => exact h

theorem counted_run (g : Gated) (schedule : List (Agent ι)) : Counted (run g {} schedule) :=
  run_preserves (counted_step g) counted_start schedule

end Race

end Queue

end Skein
