import Skein.Proofs.Queue.Steps

/-!
# No wake-up is lost

`no_lost_wakeup` is about a blocking queue whose consumer is parked without a
permit while there is something to do: an item in the queue, or a closed queue
with nobody at the gate.  Then somebody is on the way to wake it.  The flags that
this one will look at stay as they are until a wake-up is granted, and after a
few more steps of its own one is granted.

The invariant follows the order of the two sides.  The consumer says that it will
park, looks once more, and parks; a producer appends, takes its announcement
back, and only then looks whether the consumer is parked.  So an item that is
there when the consumer parks was appended after the second look was begun, and
its producer has not yet looked at the flag.  For the end of the queue it is
enough that the consumer parks only if the queue is open or somebody is at the
gate, and whoever leaves the gate or closes the queue looks after the consumer
afterwards, accepted or not.
-/

namespace Skein

namespace Queue

variable {ι : Type}

namespace Offer

/-- The steps that the call has still to make until it grants the wake-up, once
it has appended its item or taken back its announcement. -/
def distance : Offer → Nat
  | stored => 4
  | waking _ => 3
  | calling _ => 2
  | unparking _ => 1
  | _ => 0

/-- With both flags set, the call comes nearer until it grants the wake-up. -/
theorem approach {q : Blocking ι} (a : ι) {place : Offer} (hparked : q.parked = true)
    (hregistered : q.registered = true) (h : 0 < place.distance) :
    (place.step .blocking a q).1.permit = true ∨
      0 < (place.step .blocking a q).2.distance ∧
        (place.step .blocking a q).2.distance < place.distance := by
  cases place with
  | stored =>
    refine .inr ?_
    show 0 < 3 ∧ 3 < 4
    omega
  | waking b =>
    refine .inr ?_
    show 0 < (if q.parked then calling b else woken b).distance ∧
      (if q.parked then calling b else woken b).distance < 3
    rw [hparked]
    show 0 < 2 ∧ 2 < 3
    omega
  | calling b =>
    refine .inr ?_
    show 0 < (if q.registered then unparking b else woken b).distance ∧
      (if q.registered then unparking b else woken b).distance < 2
    rw [hregistered]
    show 0 < 1 ∧ 1 < 2
    omega
  | unparking b => exact .inl rfl
  | _ => exact absurd h (Nat.lt_irrefl 0)

/-- Whoever leaves the gate is on the way to the consumer. -/
theorem inside_or_distance (q : Blocking ι) (a : ι) {place : Offer} (h : place.inside = true) :
    (place.step .blocking a q).2.inside = true ∨ 0 < (place.step .blocking a q).2.distance := by
  cases place with
  | announced =>
    refine .inl ?_
    show (if q.gate.closed then refused else admitted).inside = true
    cases q.gate.closed <;> rfl
  | admitted => exact .inl rfl
  | stored => exact .inr (show 0 < 3 by omega)
  | refused => exact .inr (show 0 < 3 by omega)
  | _ => cases h

end Offer

namespace Closing

def distance : Closing → Nat
  | calling => 2
  | unparking => 1
  | _ => 0

theorem approach {q : Blocking ι} {place : Closing} (hregistered : q.registered = true)
    (h : 0 < place.distance) :
    (place.step .blocking q).1.permit = true ∨
      0 < (place.step .blocking q).2.distance ∧
        (place.step .blocking q).2.distance < place.distance := by
  cases place with
  | calling =>
    refine .inr ?_
    show 0 < (if q.registered then unparking else returned).distance ∧
      (if q.registered then unparking else returned).distance < 2
    rw [hregistered]
    show 0 < 1 ∧ 1 < 2
    omega
  | unparking => exact .inl rfl
  | _ => exact absurd h (Nat.lt_irrefl 0)

/-- Whoever finds the queue closed, or closes it, leaves it with a wake-up
ahead. -/
theorem closed_or_distance {q : Blocking ι} {place : Closing}
    (h : (place.step .blocking q).1.gate.closed = true) :
    q.gate.closed = true ∨ 0 < (place.step .blocking q).2.distance := by
  cases place with
  | ahead => exact .inr (show 0 < 2 by omega)
  | _ => exact .inl h

end Closing

namespace Consumer

def marked : Consumer ι → Bool
  | looking true _ | parked | waking | leaving _ => true
  | _ => false

/-- The second look has found the queue empty, and is not over or was in vain. -/
def rechecked : Consumer ι → Bool
  | looking true .flag | looking true .count | parked => true
  | _ => false

theorem marked_of_rechecked {place : Consumer ι} (h : place.rechecked = true) :
    place.marked = true := by
  cases place with
  | looking again place => cases again <;> first | rfl | cases h
  | parked => rfl
  | _ => cases h

theorem ne_away_of_marked {place : Consumer ι} (h : place.marked = true) : place ≠ away := by
  intro haway
  rw [haway] at h
  cases h

theorem registered_step {q : Blocking ι} {place : Consumer ι}
    (h : place ≠ away → q.registered = true) :
    (place.step .blocking q).1.registered = true := by
  have hmove := step_moves .blocking q place
  generalize place.step .blocking q = out at hmove ⊢
  cases hmove with
  | arrive => exact Bool.or_true _
  | callAgain => exact Bool.or_true _
  | _ => exact h nofun

theorem parked_step {q : Blocking ι} {place : Consumer ι}
    (h : place.marked = true → q.parked = true)
    (hmarked : (place.step .blocking q).2.marked = true) :
    (place.step .blocking q).1.parked = true := by
  have hmove := step_moves .blocking q place
  generalize place.step .blocking q = out at hmove hmarked ⊢
  cases hmove with
  | take again => cases again <;> first | exact h rfl | cases hmarked
  | empty again => cases again <;> first | exact h rfl | cases hmarked
  | shut again => cases again <;> first | exact h rfl | cases hmarked
  | alone again => cases again <;> first | exact h rfl | cases hmarked
  | inVain again => cases again <;> first | exact h rfl | cases hmarked
  | finish again => cases again <;> first | exact h rfl | cases hmarked
  | mark => rfl
  | block => exact h rfl
  | wake => exact h rfl
  | _ => cases hmarked

/-- The second look begins with an empty queue. -/
theorem of_step_rechecked {q : Blocking ι} {place : Consumer ι}
    (h : (place.step .blocking q).2.rechecked = true) :
    (place.step .blocking q).1 = q ∧ (place.rechecked = true ∨ q.items = []) := by
  have hmove := step_moves .blocking q place
  generalize place.step .blocking q = out at hmove h ⊢
  cases hmove with
  | take again => cases again <;> cases h
  | empty again hempty => exact ⟨rfl, .inr hempty⟩
  | shut again => cases again <;> first | exact ⟨rfl, .inl rfl⟩ | cases h
  | alone again => cases again <;> cases h
  | inVain again place hplace =>
    cases again with
    | false => cases h
    | true => rcases hplace with ⟨rfl, _⟩ | ⟨rfl, _⟩ <;> exact ⟨rfl, .inl rfl⟩
  | finish again => cases again <;> cases h
  | block => exact ⟨rfl, .inl rfl⟩
  | _ => cases h

/-- The consumer parks only if the queue is open or somebody is at the gate. -/
theorem of_step_parked {q : Blocking ι} {place : Consumer ι}
    (h : (place.step .blocking q).2 = parked) :
    (place.step .blocking q).1 = q ∧
    (place = parked ∨ q.gate.closed = false ∨ q.gate.inFlight ≠ 0) := by
  have hmove := step_moves .blocking q place
  generalize place.step .blocking q = out at hmove h ⊢
  cases hmove with
  | take again => cases again <;> cases h
  | inVain again place hplace =>
    rcases hplace with ⟨_, hopen⟩ | ⟨_, hsome⟩
    · exact ⟨rfl, .inr (.inl hopen)⟩
    · exact ⟨rfl, .inr (.inr hsome)⟩
  | finish again => cases again <;> cases h
  | block => exact ⟨rfl, .inl rfl⟩
  | _ => cases h

end Consumer

namespace Race

/-! ## The invariant -/

/-- What holds of the flags and of those who will wake the consumer.  The last
two fields speak of a consumer without a permit, since a permit is a wake-up
that has come. -/
structure Watch (s : Race ι) : Prop where
  registered : s.consumer ≠ .away → s.queue.registered = true
  parked : s.consumer.marked = true → s.queue.parked = true
  stored : s.consumer.rechecked = true → s.queue.permit = false → s.queue.items ≠ [] →
    ∃ a, 0 < (s.offers a).distance
  shut : s.consumer = .parked → s.queue.permit = false → s.queue.gate.closed = true →
    (∃ k, 0 < (s.closings k).distance) ∨ ∃ a, (s.offers a).inside = true ∨ 0 < (s.offers a).distance

theorem watch_start : Watch ({} : Race ι) :=
  ⟨fun h => absurd rfl h, nofun, nofun, nofun⟩

theorem Watch.flags {s : Race ι} (h : Watch s) (hconsumer : s.consumer = .parked) :
    s.queue.parked = true ∧ s.queue.registered = true := by
  constructor
  · exact h.parked (by rw [hconsumer]; rfl)
  · exact h.registered (by rw [hconsumer]; exact nofun)

/-- How far an agent is from granting the wake-up that it has ahead; zero when
it has none ahead. -/
def distance (s : Race ι) : Agent ι → Nat
  | .producer a => (s.offers a).distance
  | .closer k => (s.closings k).distance
  | .consumer | .stranger => 0

/-- Somebody has a wake-up ahead whenever a parked consumer has something to do. -/
theorem Watch.exists_ahead {s : Race ι} (hcounted : Counted s) (hwatch : Watch s)
    (hconsumer : s.consumer = .parked) (hpermit : s.queue.permit = false)
    (hcause : s.queue.items ≠ [] ∨ s.queue.gate.closed = true ∧ s.queue.gate.inFlight = 0) :
    ∃ agent, 0 < s.distance agent := by
  rcases hcause with hitems | ⟨hclosed, hzero⟩
  · obtain ⟨a, ha⟩ := hwatch.stored (by rw [hconsumer]; rfl) hpermit hitems
    exact ⟨.producer a, ha⟩
  · rcases hwatch.shut hconsumer hpermit hclosed with ⟨k, hk⟩ | ⟨a, hin | ha⟩
    · exact ⟨.closer k, hk⟩
    · rw [hcounted.none_inside hzero a] at hin
      cases hin
    · exact ⟨.producer a, ha⟩

variable [DecidableEq ι]

/-- A call that has a wake-up ahead still has one after a step of a producer,
unless the wake-up has just come. -/
theorem Watch.still_ahead {s : Race ι} (h : Watch s) (a : ι) (hmarked : s.consumer.marked = true)
    (hpermit : (s.step .blocking (.producer a)).queue.permit = false) {b : ι}
    (hb : 0 < (s.offers b).distance) :
    0 < ((s.step .blocking (.producer a)).offers b).distance := by
  by_cases hba : b = a
  · subst hba
    rw [offers_producer]
    have hregistered := h.registered (Consumer.ne_away_of_marked hmarked)
    rcases Offer.approach b (h.parked hmarked) hregistered hb with hgrant | ⟨hnear, _⟩
    · have hset : (s.step .blocking (.producer b)).queue.permit = true := hgrant
      rw [hset] at hpermit
      cases hpermit
    · exact hnear
  · rw [offers_producer_of_ne _ s hba]
    exact hb

theorem watch_producer {s : Race ι} (a : ι) (h : Watch s) :
    Watch (s.step .blocking (.producer a)) := by
  refine ⟨fun hc => ?_, fun hc => ?_, fun hc hpermit hitems => ?_, fun hc hpermit hclosed => ?_⟩
  · show ((s.offers a).step .blocking a s.queue).1.registered = true
    rw [Offer.registered_step]
    exact h.registered hc
  · show ((s.offers a).step .blocking a s.queue).1.parked = true
    rw [Offer.parked_step]
    exact h.parked hc
  · by_cases hplace : s.offers a = .admitted
    · refine ⟨a, ?_⟩
      rw [offers_producer, hplace]
      show 0 < 4
      omega
    · have hsame : (s.step .blocking (.producer a)).queue.items = s.queue.items := by
        show ((s.offers a).step .blocking a s.queue).1.items = s.queue.items
        rw [Offer.items_step, Offer.stores_of_ne a hplace, List.append_nil]
      rw [hsame] at hitems
      obtain ⟨b, hb⟩ := h.stored hc (Offer.permit_of_step hpermit) hitems
      exact ⟨b, h.still_ahead a (Consumer.marked_of_rechecked hc) hpermit hb⟩
  · have hclosed' : s.queue.gate.closed = true := by
      rw [← Offer.closed_step .blocking a s.queue (s.offers a)]
      exact hclosed
    have hmarked : s.consumer.marked = true := by
      rw [show s.consumer = .parked from hc]
      rfl
    rcases h.shut hc (Offer.permit_of_step hpermit) hclosed' with hk | ⟨b, hin | hb⟩
    · exact .inl hk
    · refine .inr ⟨b, ?_⟩
      by_cases hba : b = a
      · subst hba
        rw [offers_producer]
        exact Offer.inside_or_distance s.queue b hin
      · rw [offers_producer_of_ne _ s hba]
        exact .inl hin
    · exact .inr ⟨b, .inr (h.still_ahead a hmarked hpermit hb)⟩

theorem watch_closer {s : Race ι} (k : Nat) (h : Watch s) :
    Watch (s.step .blocking (.closer k)) := by
  have hbefore (hpermit : ((s.closings k).step .blocking s.queue).1.permit = false) :
      s.queue.permit = false := Closing.permit_of_step hpermit
  refine ⟨fun hc => ?_, fun hc => ?_, fun hc hpermit hitems => ?_, fun hc hpermit hclosed => ?_⟩
  · show ((s.closings k).step .blocking s.queue).1.registered = true
    rw [Closing.registered_step]
    exact h.registered hc
  · show ((s.closings k).step .blocking s.queue).1.parked = true
    rw [Closing.parked_step]
    exact h.parked hc
  · have hsame : (s.step .blocking (.closer k)).queue.items = s.queue.items :=
      Closing.items_step .blocking s.queue (s.closings k)
    rw [hsame] at hitems
    exact h.stored hc (hbefore hpermit) hitems
  · have hregistered : s.queue.registered = true := (h.flags hc).2
    rcases Closing.closed_or_distance hclosed with hclosed' | hnew
    · rcases h.shut hc (hbefore hpermit) hclosed' with ⟨j, hj⟩ | ha
      · refine .inl ⟨j, ?_⟩
        by_cases hjk : j = k
        · subst hjk
          rw [closings_closer]
          rcases Closing.approach hregistered hj with hgrant | ⟨hnear, _⟩
          · have hset : (s.step .blocking (.closer j)).queue.permit = true := hgrant
            rw [hset] at hpermit
            cases hpermit
          · exact hnear
        · rw [closings_closer_of_ne _ s hjk]
          exact hj
      · exact .inr ha
    · refine .inl ⟨k, ?_⟩
      rw [closings_closer]
      exact hnew

theorem watch_consumer {s : Race ι} (hcounted : Counted s) (h : Watch s) :
    Watch (s.step .blocking .consumer) := by
  refine ⟨fun _ => Consumer.registered_step h.registered, Consumer.parked_step h.parked,
    fun hc hpermit hitems => ?_, fun hc hpermit hclosed => ?_⟩
  · obtain ⟨hsame, hold⟩ := Consumer.of_step_rechecked hc
    rw [show (s.step .blocking .consumer).queue = s.queue from hsame] at hpermit hitems
    rcases hold with hold | hempty
    · exact h.stored hold hpermit hitems
    · exact absurd hempty hitems
  · obtain ⟨hsame, hold⟩ := Consumer.of_step_parked hc
    rw [show (s.step .blocking .consumer).queue = s.queue from hsame] at hpermit hclosed
    rcases hold with hold | hopen | hsome
    · exact h.shut hold hpermit hclosed
    · rw [hopen] at hclosed
      cases hclosed
    · obtain ⟨a, ha⟩ := hcounted.some_inside hsome
      exact .inr ⟨a, .inl ha⟩

theorem watch_step {s : Race ι} (agent : Agent ι) (hcounted : Counted s) (h : Watch s) :
    Watch (s.step .blocking agent) := by
  cases agent with
  | producer a => exact watch_producer a h
  | closer k => exact watch_closer k h
  | consumer => exact watch_consumer hcounted h
  | stranger => exact ⟨h.registered, h.parked, nofun, nofun⟩

theorem watch_run (schedule : List (Agent ι)) : Watch (run .blocking ({} : Race ι) schedule) := by
  refine (run_preserves (P := fun s => Counted s ∧ Watch s) (fun s agent hs => ?_)
    ⟨counted_start, watch_start⟩
    schedule).2
  exact ⟨counted_step .blocking s agent hs.1, watch_step agent hs.1 hs.2⟩

/-! ## Until the wake-up comes -/

/-- The consumer gets a permit somewhere along the schedule. -/
def Granted (s : Race ι) (schedule : List (Agent ι)) : Prop :=
  ∃ before, before <+: schedule ∧ (s.run .blocking before).queue.permit = true

theorem granted_now {s : Race ι} (h : s.queue.permit = true) (schedule : List (Agent ι)) :
    Granted s schedule :=
  ⟨[], List.nil_prefix, h⟩

theorem Granted.cons {s : Race ι} {agent : Agent ι} {rest : List (Agent ι)}
    (h : Granted (s.step .blocking agent) rest) :
    Granted s (agent :: rest) := by
  obtain ⟨before, hprefix, hpermit⟩ := h
  exact ⟨agent :: before, List.prefix_cons_inj agent |>.mpr hprefix, hpermit⟩

/-- A parked consumer without a permit does not move. -/
theorem step_blocked {s : Race ι} (hconsumer : s.consumer = .parked)
    (hpermit : s.queue.permit = false)
    (agent : Agent ι) : (s.step .blocking agent).consumer = .parked := by
  cases agent with
  | consumer =>
    show (s.consumer.step .blocking s.queue).2 = .parked
    rw [hconsumer, Consumer.step, hpermit]
    rfl
  | _ => exact hconsumer

theorem run_blocked {s : Race ι} (hconsumer : s.consumer = .parked) (later : List (Agent ι))
    (h : ¬ Granted s later) :
    (s.run .blocking later).consumer = .parked := by
  induction later generalizing s with
  | nil => exact hconsumer
  | cons agent rest ih =>
    have hpermit : s.queue.permit = false :=
      Bool.eq_false_iff.mpr fun hset => h (granted_now hset _)
    exact ih (step_blocked hconsumer hpermit agent) fun hrest => h hrest.cons

/-- The steps of the others do not change how far an agent is. -/
theorem distance_step_of_ne (s : Race ι) {agent other : Agent ι} (hne : agent ≠ other) :
    (s.step .blocking other).distance agent = s.distance agent := by
  cases agent with
  | producer a =>
    cases other with
    | producer b =>
      have hab : a ≠ b := fun hab => hne (by rw [hab])
      exact congrArg Offer.distance (offers_producer_of_ne _ s hab)
    | _ => rfl
  | closer k =>
    cases other with
    | closer j =>
      have hkj : k ≠ j := fun hkj => hne (by rw [hkj])
      exact congrArg Closing.distance (closings_closer_of_ne _ s hkj)
    | _ => rfl
  | consumer => rfl
  | stranger => rfl

/-- Its own step brings an agent nearer, or is the wake-up. -/
theorem distance_step {s : Race ι} (hparked : s.queue.parked = true)
    (hregistered : s.queue.registered = true) {agent : Agent ι} (h : 0 < s.distance agent) :
    (s.step .blocking agent).queue.permit = true ∨
      0 < (s.step .blocking agent).distance agent ∧
        (s.step .blocking agent).distance agent < s.distance agent := by
  cases agent with
  | producer a =>
    show _ ∨ 0 < ((s.step .blocking (.producer a)).offers a).distance ∧
      ((s.step .blocking (.producer a)).offers a).distance < _
    rw [offers_producer]
    exact Offer.approach a hparked hregistered h
  | closer k =>
    show _ ∨ 0 < ((s.step .blocking (.closer k)).closings k).distance ∧
      ((s.step .blocking (.closer k)).closings k).distance < _
    rw [closings_closer]
    exact Closing.approach hregistered h
  | consumer => exact absurd h (Nat.lt_irrefl 0)
  | stranger => exact absurd h (Nat.lt_irrefl 0)

/-- However the steps of the others fall, an agent that makes the steps it has
ahead sees the consumer woken. -/
theorem granted_of_distance {s : Race ι} (hcounted : Counted s) (hwatch : Watch s)
    (hconsumer : s.consumer = .parked)
    {agent : Agent ι} (hahead : 0 < s.distance agent) {later : List (Agent ι)}
    (hlater : s.distance agent ≤ later.count agent) : Granted s later := by
  induction later generalizing s with
  | nil =>
    rw [List.count_nil] at hlater
    omega
  | cons other rest ih =>
    by_cases hpermit : s.queue.permit = true
    · exact granted_now hpermit _
    have hwatch' := watch_step other hcounted hwatch
    have hcounted' := counted_step .blocking s other hcounted
    have hconsumer' := step_blocked hconsumer (Bool.eq_false_iff.mpr hpermit) other
    obtain ⟨hparked, hregistered⟩ := hwatch.flags hconsumer
    by_cases hother : other = agent
    · subst hother
      rw [List.count_cons_self] at hlater
      rcases distance_step hparked hregistered hahead with hgrant | ⟨hahead', hless⟩
      · exact Granted.cons (granted_now hgrant rest)
      · exact Granted.cons (ih hcounted' hwatch' hconsumer' hahead' (by omega))
    · rw [List.count_cons_of_ne hother] at hlater
      have hsame := distance_step_of_ne s (Ne.symm hother)
      exact Granted.cons (ih hcounted' hwatch' hconsumer' (by omega) (by omega))

/-! ## The law -/

/-- The agent has the wake-up of the consumer ahead of it.  Until one is granted
the consumer stays parked and the flags that lead to it stay set, and the
agent's own steps are enough for one to be granted. -/
structure Awaits (s : Race ι) (agent : Agent ι) : Prop where
  ahead : 0 < s.distance agent
  flags : ∀ later, ¬ Granted s later → (s.run .blocking later).consumer = .parked ∧
    (s.run .blocking later).queue.parked = true ∧ (s.run .blocking later).queue.registered = true
  arrives : ∀ later, s.distance agent ≤ later.count agent → Granted s later

theorem no_lost_wakeup (schedule : List (Agent ι))
    (hconsumer : (run .blocking {} schedule).consumer = .parked)
    (hpermit : (run .blocking {} schedule).queue.permit = false)
    (hcause : (run .blocking {} schedule).queue.items ≠ [] ∨
      (run .blocking {} schedule).queue.gate.closed = true ∧
      (run .blocking {} schedule).queue.gate.inFlight = 0) :
    ∃ agent, Awaits (run .blocking {} schedule) agent := by
  have hcounted := counted_run .blocking schedule
  have hwatch := watch_run schedule
  obtain ⟨agent, hahead⟩ := hwatch.exists_ahead hcounted hconsumer hpermit hcause
  refine ⟨agent, hahead, fun later hnot => ?_, fun later =>
    granted_of_distance hcounted hwatch hconsumer hahead⟩
  have hstays := run_blocked hconsumer later hnot
  rw [← run_append] at hstays ⊢
  exact ⟨hstays, (watch_run (schedule ++ later)).flags hstays⟩

/-- A producer announces itself, and the queue is closed before the consumer has
registered; the consumer parks because of the announcement, which is then taken
back. -/
def refusalAtTheGate : List (Agent Nat) :=
  [.producer 0, .closer 0, .closer 0] ++ List.replicate 8 .consumer ++ [.producer 0, .producer 0]

theorem no_lost_wakeup_refusal :
    (run .blocking {} refusalAtTheGate).consumer = .parked ∧
    (run .blocking {} refusalAtTheGate).queue.permit = false ∧
      ∃ agent, Awaits (run .blocking {} refusalAtTheGate) agent :=
  ⟨by decide, by decide, no_lost_wakeup refusalAtTheGate (by decide) (by decide) (.inr (by decide))⟩

end Race

end Queue

end Skein
