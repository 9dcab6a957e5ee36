import Skein.Proofs.Queue.Steps

/-!
# Nothing is lost, doubled or left behind

`run_conserved` is about every order in which the steps of producers, closing
calls and the consumer can fall.  An item that is offered is with its producer,
in the queue, delivered, or rejected without ever having been in the queue; it
is in one of these places and there once.  Items are delivered in the order in
which they were appended.  Once a call of the consumer has returned without an
item, the queue is empty, nobody is about to append, and so it stays.

The last part is the delicate one, since the consumer reads the closed flag and
the number at the gate at different moments, and the number does not stay zero:
a producer that comes late announces itself before it is turned away.  What stays
is weaker.  When the flag was set and the number was zero after that, nobody is
between the gate and the queue, and whoever comes later finds the flag set.
-/

namespace Skein

namespace Queue

variable {ι : Type}

namespace Offer

def held : Offer → Bool
  | announced | admitted | refused => true
  | waking false | calling false | unparking false | rejecting => true
  | _ => false

def accepted : Offer → Bool
  | stored | waking true | calling true | unparking true | returned true => true
  | _ => false

def turnedAway : Offer → Bool
  | returned false => true
  | _ => false

theorem count_stores_of_ne [DecidableEq ι] {a b : ι} (h : b ≠ a) (place : Offer) :
    (place.stores a).count b = 0 := by
  cases place <;> simp [stores, Ne.symm h]

theorem count_rejects_of_ne [DecidableEq ι] {a b : ι} (h : b ≠ a) (place : Offer) :
    (place.rejects a).count b = 0 := by
  cases place <;> simp [rejects, Ne.symm h]

theorem accepted_step [DecidableEq ι] (g : Gated) (a : ι) (q : Blocking ι) (place : Offer) :
    (place.step g a q).2.accepted.toNat = (place.stores a).count a + place.accepted.toNat := by
  cases place with
  | announced =>
    show (if q.gate.closed then refused else Offer.admitted).accepted.toNat = 0
    cases q.gate.closed <;> rfl
  | admitted => simp [step, stores, accepted]
  | stored => cases g <;> rfl
  | refused => cases g <;> rfl
  | waking b =>
    show (if q.parked then calling b else woken b).accepted.toNat = 0 + (waking b).accepted.toNat
    cases q.parked <;> cases b <;> rfl
  | calling b =>
    show (if q.registered then unparking b else woken b).accepted.toNat =
      0 + (calling b).accepted.toNat
    cases q.registered <;> cases b <;> rfl
  | unparking b => cases b <;> rfl
  | returned b => cases b <;> rfl
  | _ => rfl

theorem turnedAway_step [DecidableEq ι] (g : Gated) (a : ι) (q : Blocking ι) (place : Offer) :
    (place.step g a q).2.turnedAway.toNat = (place.rejects a).count a + place.turnedAway.toNat := by
  cases place with
  | announced =>
    show (if q.gate.closed then refused else Offer.admitted).turnedAway.toNat = 0
    cases q.gate.closed <;> rfl
  | stored => cases g <;> rfl
  | refused => cases g <;> rfl
  | waking b =>
    show (if q.parked then calling b else woken b).turnedAway.toNat = 0
    cases q.parked <;> cases b <;> rfl
  | calling b =>
    show (if q.registered then unparking b else woken b).turnedAway.toNat = 0
    cases q.registered <;> cases b <;> rfl
  | unparking b => cases b <;> rfl
  | rejecting => simp [step, rejects, turnedAway]
  | returned b => cases b <;> rfl
  | _ => rfl

/-- Whoever looks at the flag of a closed queue is not let in. -/
theorem step_ne_admitted (g : Gated) (a : ι) {q : Blocking ι} (hclosed : q.gate.closed = true)
    (place : Offer) :
    (place.step g a q).2 ≠ admitted := by
  cases place with
  | announced =>
    show (if q.gate.closed then refused else admitted) ≠ admitted
    rw [hclosed]
    intro h
    cases h
  | stored => cases g <;> exact Offer.noConfusion
  | refused => cases g <;> exact Offer.noConfusion
  | waking b =>
    show (if q.parked then calling b else woken b) ≠ admitted
    cases q.parked <;> cases b <;> exact Offer.noConfusion
  | calling b =>
    show (if q.registered then unparking b else woken b) ≠ admitted
    cases q.registered <;> cases b <;> exact Offer.noConfusion
  | unparking b => cases b <;> exact Offer.noConfusion
  | _ => exact Offer.noConfusion

end Offer

namespace Consumer

/-- What the step into a place brings the consumer: the item of a call that
returns, or the item in its hand. -/
def taken (place : Consumer ι) : List ι :=
  place.answer.filterMap id ++ place.inHand

theorem taken_vain (g : Gated) (again : Bool) : (vain g again : Consumer ι).taken = [] := by
  cases g <;> cases again <;> rfl

theorem taken_found (again : Bool) (r : Option ι) : (found again r).taken = r.toList := by
  cases again <;> cases r <;> rfl

/-- The consumer neither loses nor invents an item. -/
theorem taken_step (g : Gated) (q : Blocking ι) (place : Consumer ι) :
    (place.step g q).2.taken ++ (place.step g q).1.items = place.inHand ++ q.items := by
  have hmove := step_moves g q place
  generalize place.step g q = out at hmove ⊢
  cases hmove with
  | take again place a rest _ h =>
    rw [taken_found, h]
    rfl
  | inVain =>
    rw [taken_vain]
    rfl
  | finish =>
    rw [taken_found]
    rfl
  | leave r => cases r <;> rfl
  | _ => rfl

/-! ### Where a step comes from -/

theorem found_ne_looking (again b : Bool) (r : Option ι) (place : Look) :
    found again r ≠ looking b place := by
  intro h
  cases again <;> cases h

theorem vain_eq_looking {g : Gated} {again b : Bool} {place : Look}
    (h : (vain g again : Consumer ι) = looking b place) :
    place = .pop := by
  cases g <;> cases again <;> cases h <;> rfl

theorem of_step_count {g : Gated} {q : Blocking ι} {place : Consumer ι} {again : Bool}
    (h : (place.step g q).2 = looking again .count) : q.gate.closed = true := by
  have hmove := step_moves g q place
  generalize place.step g q = out at hmove h
  cases hmove with
  | shut _ hclosed => exact hclosed
  | take => exact absurd h (found_ne_looking _ _ _ _)
  | inVain => cases vain_eq_looking h
  | finish => exact absurd h (found_ne_looking _ _ _ _)
  | _ => cases h

theorem of_step_last {g : Gated} {q : Blocking ι} {place : Consumer ι} {again : Bool}
    (h : (place.step g q).2 = looking again .last) : place = looking again .count ∧
    q.gate.inFlight = 0 := by
  have hmove := step_moves g q place
  generalize place.step g q = out at hmove h
  cases hmove with
  | alone _ hzero =>
    cases h
    exact ⟨rfl, hzero⟩
  | take => exact absurd h (found_ne_looking _ _ _ _)
  | inVain => cases vain_eq_looking h
  | finish => exact absurd h (found_ne_looking _ _ _ _)
  | _ => cases h

/-- The consumer is told that no more will come, or is about to be. -/
def Ends (place : Consumer ι) : Prop :=
  place = leaving none ∨ place = returned none

theorem eq_returned_of_mem_answer {r : Option ι} {place : Consumer ι} (h : r ∈ place.answer) :
    place = returned r := by
  cases place with
  | returned r' => rw [List.mem_singleton.mp h]
  | _ => cases h

theorem of_step_ends {g : Gated} {q : Blocking ι} {place : Consumer ι}
    (h : (place.step g q).2.Ends) :
    (∃ again, place = looking again .last ∧ q.items = []) ∨ place = leaving none := by
  have hmove := step_moves g q place
  generalize place.step g q = out at hmove h
  cases hmove with
  | finish again hempty => exact .inl ⟨again, rfl, hempty⟩
  | leave r =>
    rcases h with h | h
    · cases h
    · cases h
      exact .inr rfl
  | take again => cases again <;> rcases h with h | h <;> cases h
  | inVain again => cases g <;> cases again <;> rcases h with h | h <;> cases h
  | _ => rcases h with h | h <;> cases h

end Consumer

namespace Race

/-! ## Where each item is -/

section Books

variable [DecidableEq ι]

/-- The histories agree with the places of the calls, and the consumer takes in
the order in which items are appended. -/
structure Books (s : Race ι) : Prop where
  appended : ∀ a, s.pushed.count a = (s.offers a).accepted.toNat
  rejected : ∀ a, s.rejected.count a = (s.offers a).turnedAway.toNat
  order : s.pushed = s.delivered ++ s.queue.items

theorem books_start : Books ({} : Race ι) :=
  ⟨fun _ => rfl, fun _ => rfl, rfl⟩

theorem books_producer (g : Gated) {s : Race ι} (a : ι) (h : Books s) :
    Books (s.step g (.producer a)) := by
  refine ⟨fun b => ?_, fun b => ?_, ?_⟩
  · show (s.pushed ++ (s.offers a).stores a).count b = _
    rw [List.count_append, h.appended b]
    by_cases hb : b = a
    · subst hb
      rw [offers_producer, Offer.accepted_step]
      omega
    · rw [offers_producer_of_ne g s hb, Offer.count_stores_of_ne hb]
      rfl
  · show (s.rejected ++ (s.offers a).rejects a).count b = _
    rw [List.count_append, h.rejected b]
    by_cases hb : b = a
    · subst hb
      rw [offers_producer, Offer.turnedAway_step]
      omega
    · rw [offers_producer_of_ne g s hb, Offer.count_rejects_of_ne hb]
      rfl
  · show s.pushed ++ (s.offers a).stores a = s.delivered ++ ((s.offers a).step g a s.queue).1.items
    rw [Offer.items_step, h.order, List.append_assoc]

/-- A step of the consumer hands on what it takes out. -/
theorem delivered_consumer (g : Gated) (s : Race ι) :
    (s.step g .consumer).delivered =
      s.answers.filterMap id ++ (s.consumer.step g s.queue).2.taken := by
  show (s.answers ++ (s.consumer.step g s.queue).2.answer).filterMap id ++
    (s.consumer.step g s.queue).2.inHand = _
  rw [List.filterMap_append, List.append_assoc]
  rfl

theorem books_step (g : Gated) (s : Race ι) (agent : Agent ι) (h : Books s) :
    Books (s.step g agent) := by
  cases agent with
  | producer a => exact books_producer g a h
  | closer k =>
    refine ⟨h.appended, h.rejected, ?_⟩
    show s.pushed = s.delivered ++ ((s.closings k).step g s.queue).1.items
    rw [Closing.items_step, h.order]
  | consumer =>
    refine ⟨h.appended, h.rejected, ?_⟩
    rw [delivered_consumer]
    show s.pushed = _ ++ (s.consumer.step g s.queue).1.items
    rw [List.append_assoc, Consumer.taken_step, ← List.append_assoc]
    exact h.order
  | stranger => exact ⟨h.appended, h.rejected, h.order⟩

theorem books_run (g : Gated) (schedule : List (Agent ι)) : Books (run g {} schedule) :=
  run_preserves (books_step g) books_start schedule

end Books

/-! ## The end of the queue -/

/-- The queue is closed, and nobody who was let in is still to append. -/
structure Sealed (s : Race ι) : Prop where
  closed : s.queue.gate.closed = true
  none_admitted : ∀ a, s.offers a ≠ .admitted

/-- The queue is sealed, and everything that was in it is with the consumer's
callers. -/
structure Over (s : Race ι) : Prop extends Sealed s where
  items : s.queue.items = []
  inHand : s.consumer.inHand = []

theorem Over.delivered {s : Race ι} (h : Over s) : s.delivered = s.answers.filterMap id := by
  rw [Race.delivered, h.inHand, List.append_nil]

/-- What the consumer knows at each place of a look: the flag was set when it
counts, the queue is sealed when it takes the last look, and the queue is over
when it says so. -/
structure Knows (s : Race ι) : Prop where
  count : ∀ again, s.consumer = .looking again .count → s.queue.gate.closed = true
  last : ∀ again, s.consumer = .looking again .last → Sealed s
  ends : s.consumer.Ends ∨ none ∈ s.answers → Over s

theorem knows_start : Knows ({} : Race ι) := by
  refine ⟨fun again h => ?_, fun again h => ?_, fun h => ?_⟩
  · cases h
  · cases h
  · rcases h with (h | h) | h <;> cases h

variable [DecidableEq ι]

/-- An announcement that comes late does no harm: it is met by the closed flag. -/
theorem Sealed.step (g : Gated) {s : Race ι} (h : Sealed s) (agent : Agent ι) :
    Sealed (s.step g agent) := by
  refine ⟨closed_step g agent h.closed, fun b => ?_⟩
  cases agent with
  | producer a =>
    by_cases hb : b = a
    · subst hb
      rw [offers_producer]
      exact Offer.step_ne_admitted g b h.closed (s.offers b)
    · rw [offers_producer_of_ne g s hb]
      exact h.none_admitted b
  | closer k => exact h.none_admitted b
  | consumer => exact h.none_admitted b
  | stranger => exact h.none_admitted b

/-- What a finished queue goes on to do: it stays finished, and whoever asks is
told so. -/
theorem Over.step (g : Gated) {s : Race ι} (h : Over s) (agent : Agent ι) :
    Over (s.step g agent) ∧ ∃ more, (s.step g agent).answers = s.answers ++ more ∧
    ∀ r ∈ more, r = none := by
  have hsealed := h.toSealed.step g agent
  cases agent with
  | producer a =>
    refine ⟨⟨hsealed, ?_, h.inHand⟩, [], (List.append_nil _).symm, by simp⟩
    show ((s.offers a).step g a s.queue).1.items = []
    rw [Offer.items_step, h.items, Offer.stores_of_ne a (h.none_admitted a)]
    rfl
  | closer k =>
    refine ⟨⟨hsealed, ?_, h.inHand⟩, [], (List.append_nil _).symm, by simp⟩
    show ((s.closings k).step g s.queue).1.items = []
    rw [Closing.items_step, h.items]
  | consumer =>
    have htaken := Consumer.taken_step g s.queue s.consumer
    rw [h.inHand, h.items] at htaken
    obtain ⟨htaken, hitems⟩ := List.append_eq_nil_iff.mp htaken
    obtain ⟨hanswer, hhand⟩ := List.append_eq_nil_iff.mp htaken
    refine ⟨⟨hsealed, hitems, hhand⟩, _, rfl, fun r hr => ?_⟩
    exact List.filterMap_eq_nil_iff.mp hanswer r hr
  | stranger => exact ⟨⟨hsealed, h.items, h.inHand⟩, [], (List.append_nil _).symm, by simp⟩

theorem Over.run (g : Gated) {s : Race ι} (h : Over s) (later : List (Agent ι)) :
    Over (s.run g later) ∧ ∃ more, (s.run g later).answers = s.answers ++ more ∧
    ∀ r ∈ more, r = none := by
  refine run_preserves
    (P := fun u => Over u ∧ ∃ more, u.answers = s.answers ++ more ∧ ∀ r ∈ more, r = none)
    (fun u agent hu => ?_) ⟨h, [], (List.append_nil _).symm, by simp⟩ later
  obtain ⟨hover, more, hmore, hnone⟩ := hu
  obtain ⟨hover', last, hlast, hnone'⟩ := hover.step g agent
  refine ⟨hover', more ++ last, by rw [hlast, hmore, List.append_assoc], fun r hr => ?_⟩
  rcases List.mem_append.mp hr with hr | hr
  · exact hnone r hr
  · exact hnone' r hr

/-- Knowledge of the memory outlasts the steps of the others. -/
theorem Knows.step_other (g : Gated) {s : Race ι} (h : Knows s) {agent : Agent ι}
    (hne : agent ≠ .consumer) :
    Knows (s.step g agent) := by
  have hconsumer : (s.step g agent).consumer = s.consumer := by
    cases agent with
    | consumer => exact absurd rfl hne
    | _ => rfl
  have hanswers : (s.step g agent).answers = s.answers := by
    cases agent with
    | consumer => exact absurd rfl hne
    | _ => rfl
  refine ⟨fun again hc => ?_, fun again hc => ?_, fun hc => ?_⟩
  · rw [hconsumer] at hc
    exact closed_step g agent (h.count again hc)
  · rw [hconsumer] at hc
    exact (h.last again hc).step g agent
  · rw [hconsumer, hanswers] at hc
    exact ((h.ends hc).step g agent).1

theorem Knows.step_consumer (g : Gated) {s : Race ι} (hcounted : Counted s) (h : Knows s) :
    Knows (s.step g .consumer) := by
  refine ⟨fun again hc => ?_, fun again hc => ?_, fun hc => ?_⟩
  · exact closed_step g .consumer (Consumer.of_step_count hc)
  · obtain ⟨hplace, hzero⟩ := Consumer.of_step_last hc
    refine Sealed.step g ⟨h.count again hplace, fun a ha => ?_⟩ .consumer
    -- nobody is announced when the number at the gate is zero, so nobody is let in either
    have hin := hcounted.none_inside hzero a
    rw [ha] at hin
    cases hin
  · have hover : Over s := by
      by_cases hold : s.consumer.Ends ∨ none ∈ s.answers
      · exact h.ends hold
      · have hnew : (s.consumer.step g s.queue).2.Ends := by
          rcases hc with hc | hc
          · exact hc
          · rcases List.mem_append.mp hc with hc | hc
            · exact absurd (.inr hc) hold
            · exact .inr (Consumer.eq_returned_of_mem_answer hc)
        rcases Consumer.of_step_ends hnew with ⟨again, hplace, hitems⟩ | hplace
        · exact ⟨h.last again hplace, hitems, by rw [hplace]; rfl⟩
        · exact h.ends (.inl (.inl hplace))
    exact (hover.step g .consumer).1

theorem knows_run (g : Gated) (schedule : List (Agent ι)) : Knows (run g {} schedule) := by
  refine (run_preserves (P := fun s => Counted s ∧ Knows s) (fun s agent h => ?_)
    ⟨counted_start, knows_start⟩
    schedule).2
  refine ⟨counted_step g s agent h.1, ?_⟩
  by_cases hne : agent = .consumer
  · subst hne
    exact h.2.step_consumer g h.1
  · exact h.2.step_other g hne

/-! ## The law -/

structure Conserved (g : Gated) (s : Race ι) : Prop where
  /-- An item that is offered is in one place, once; nothing is known of one
  that is not. -/
  once : ∀ a, (s.offers a).held.toNat + s.queue.items.count a + s.delivered.count a +
    s.rejected.count a =
      if s.offers a = .ahead then 0 else 1
  never_stored : ∀ a ∈ s.rejected, a ∉ s.pushed
  in_order : s.pushed = s.delivered ++ s.queue.items
  /-- From the moment a call has returned without an item, and whatever happens
  later. -/
  final : none ∈ s.answers → ∀ later,
    (s.run g later).queue.items = [] ∧ (∀ a, (s.run g later).offers a ≠ .admitted) ∧
    (∀ a, ((s.run g later).offers a).accepted = true → (s.run g later).delivered.count a = 1) ∧
    (s.run g later).delivered = s.delivered ∧
    ∃ more, (s.run g later).answers = s.answers ++ more ∧ ∀ r ∈ more, r = none

theorem Books.once {s : Race ι} (h : Books s) (a : ι) :
    (s.offers a).held.toNat + s.queue.items.count a + s.delivered.count a + s.rejected.count a =
      if s.offers a = .ahead then 0 else 1 := by
  have hsum : s.queue.items.count a + s.delivered.count a = (s.offers a).accepted.toNat := by
    rw [← h.appended a, h.order, List.count_append, Nat.add_comm]
  have hplace :
    (s.offers a).held.toNat + (s.offers a).accepted.toNat + (s.offers a).turnedAway.toNat =
      if s.offers a = .ahead then 0 else 1 := by
    cases s.offers a with
    | waking b => cases b <;> rfl
    | calling b => cases b <;> rfl
    | unparking b => cases b <;> rfl
    | returned b => cases b <;> rfl
    | _ => rfl
  rw [h.rejected a, ← hplace]
  omega

theorem Books.never_stored {s : Race ι} (h : Books s) : ∀ a ∈ s.rejected, a ∉ s.pushed := by
  intro a hrejected hpushed
  have hr : 0 < s.rejected.count a := List.count_pos_iff.mpr hrejected
  have hp : 0 < s.pushed.count a := List.count_pos_iff.mpr hpushed
  rw [h.rejected a] at hr
  rw [h.appended a] at hp
  cases hplace : s.offers a with
  | returned b => cases b <;> simp [hplace, Offer.turnedAway, Offer.accepted] at hr hp
  | _ => simp [hplace, Offer.turnedAway] at hr

/-- In a queue that is over, what was accepted is delivered. -/
theorem Books.delivered_of_over {s : Race ι} (h : Books s) (hover : Over s) {a : ι}
    (ha : (s.offers a).accepted = true) : s.delivered.count a = 1 := by
  have hpushed : s.pushed = s.delivered := by rw [h.order, hover.items, List.append_nil]
  rw [← hpushed, h.appended a, ha]
  rfl

theorem run_conserved (g : Gated) (schedule : List (Agent ι)) :
    Conserved g (run g {} schedule) := by
  have hbooks := books_run g schedule
  refine ⟨hbooks.once, hbooks.never_stored, hbooks.order, fun hnone later => ?_⟩
  have hover := (knows_run g schedule).ends (.inr hnone)
  obtain ⟨hover', more, hmore, hnones⟩ := hover.run g later
  have hbooks' : Books ((run g {} schedule).run g later) :=
    run_preserves (books_step g) hbooks later
  refine ⟨hover'.items, hover'.none_admitted, fun a ha => hbooks'.delivered_of_over hover' ha, ?_,
    more, hmore, hnones⟩
  rw [hover'.delivered, hover.delivered, hmore, List.filterMap_append]
  have hempty : more.filterMap id = [] := List.filterMap_eq_nil_iff.mpr hnones
  rw [hempty, List.append_nil]

/-- The consumer takes the one item, finds the closed queue empty, and is told so
while a producer is announced. -/
def lateRefusal : List (Agent Nat) :=
  List.replicate 4 (.producer 0) ++ [.consumer, .consumer, .closer 0] ++
    List.replicate 4 .consumer ++ [.producer 1, .consumer]

theorem run_conserved_lateRefusal :
    let s := run .spinning {} lateRefusal
    let u := s.run .spinning (List.replicate 3 (.producer 1))
    none ∈ s.answers ∧ s.offers 1 = .announced ∧ u.delivered = [0] ∧ u.queue.items = [] := by
  intro s u
  have hnone : none ∈ s.answers := by decide
  have hfinal := (run_conserved .spinning lateRefusal).final hnone (List.replicate 3 (.producer 1))
  obtain ⟨hitems, _, _, hdelivered, _⟩ := hfinal
  refine ⟨hnone, by decide, ?_, hitems⟩
  rw [show u.delivered = s.delivered from hdelivered]
  decide

end Race

end Queue

end Skein
