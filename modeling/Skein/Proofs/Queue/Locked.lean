import Mathlib.Data.List.Nodup
import Skein.Proofs.Queue.Conservation
import Skein.Queue.Locked

/-!
# What every strategy keeps

`kept_play` is about a race on a queue of any strategy.  The histories agree with
the places of the calls, the items are delivered in the order in which they were
appended, and once the consumer has been told that there will be no more the
queue is empty for good.  For the two strategies with a gate this is what
`Skein.Proofs.Queue.Conservation` says.  Here it is proved for the one with a
lock, where it is easier: nobody is ever between looking at the flag and
appending, so a closed and empty queue stays empty.
-/

namespace Skein

namespace Queue

variable {ι : Type}

namespace Offer

theorem items_stepLocked (a : ι) (q : Blocking ι) (place : Offer) :
    (place.stepLocked a q).1.items = q.items ++ place.storesLocked a q := by
  cases place with
  | ahead =>
    by_cases h : q.gate.closed = true
    · simp [stepLocked, storesLocked, h]
    · simp [stepLocked, storesLocked, h]
  | _ => simp [stepLocked, storesLocked, Blocking.notify]

theorem gate_stepLocked (a : ι) (q : Blocking ι) (place : Offer) :
    (place.stepLocked a q).1.gate = q.gate := by
  cases place with
  | ahead =>
    by_cases h : q.gate.closed = true
    · simp [stepLocked, h]
    · simp [stepLocked, h]
  | _ => rfl

theorem storesLocked_of_closed (a : ι) {q : Blocking ι} (h : q.gate.closed = true) (place : Offer) :
    place.storesLocked a q = [] := by
  cases place <;> simp [storesLocked, h]

theorem stepLocked_ne_admitted (a : ι) (q : Blocking ι) {place : Offer} (h : place ≠ admitted) :
    (place.stepLocked a q).2 ≠ admitted := by
  cases place with
  | admitted => exact absurd rfl h
  | ahead =>
    by_cases hq : q.gate.closed = true
    · simp [stepLocked, hq]
    · simp [stepLocked, hq]
  | waking accepted => cases accepted <;> simp [stepLocked, woken]
  | _ => simp [stepLocked]

theorem count_storesLocked_of_ne [DecidableEq ι] {a b : ι} (h : b ≠ a) (q : Blocking ι)
    (place : Offer) :
    (place.storesLocked a q).count b = 0 := by
  have hab : a ≠ b := Ne.symm h
  cases place with
  | ahead =>
    by_cases hq : q.gate.closed = true
    · simp [storesLocked, hq]
    · simp [storesLocked, hq, hab]
  | _ => rfl

theorem accepted_stepLocked [DecidableEq ι] (a : ι) (q : Blocking ι) (place : Offer) :
    (place.stepLocked a q).2.accepted.toNat =
      (place.storesLocked a q).count a + place.accepted.toNat := by
  cases place with
  | ahead =>
    by_cases hq : q.gate.closed = true
    · simp [stepLocked, storesLocked, hq, accepted]
    · simp [stepLocked, storesLocked, hq, accepted]
  | waking b => cases b <;> rfl
  | rejecting => rfl
  | _ => simp [stepLocked, storesLocked]

theorem turnedAway_stepLocked [DecidableEq ι] (a : ι) (q : Blocking ι) (place : Offer) :
    (place.stepLocked a q).2.turnedAway.toNat =
      (place.rejects a).count a + place.turnedAway.toNat := by
  cases place with
  | ahead =>
    by_cases hq : q.gate.closed = true
    · simp [stepLocked, hq, rejects, turnedAway]
    · simp [stepLocked, hq, rejects, turnedAway]
  | waking b => cases b <;> rfl
  | rejecting => simp [stepLocked, rejects, turnedAway]
  | _ => simp [stepLocked, rejects]

end Offer

namespace Closing

def left : Closing → Nat
  | ahead => 3
  | calling => 2
  | unparking => 1
  | returned => 0

theorem left_step (g : Gated) (q : Blocking ι) (place : Closing) :
    (place.step g q).2.left ≤ place.left - 1 := by
  cases place with
  | ahead => cases g <;> simp [step, shut, left]
  | calling =>
    by_cases hq : q.registered = true
    · simp [step, hq, left]
    · simp [step, hq, left]
  | _ => simp [step, left]

theorem left_stepLocked (q : Blocking ι) (place : Closing) :
    (place.stepLocked q).2.left ≤ place.left - 1 := by
  cases place <;> simp [stepLocked, left]

theorem items_stepLocked (q : Blocking ι) (place : Closing) :
    (place.stepLocked q).1.items = q.items := by
  cases place <;> rfl

theorem closed_stepLocked {q : Blocking ι} (place : Closing) (h : q.gate.closed = true) :
    (place.stepLocked q).1.gate.closed = true := by
  cases place <;> first | rfl | exact h

end Closing

namespace Consumer

theorem gate_stepLocked (q : Blocking ι) (place : Consumer ι) :
    (place.stepLocked q).1.gate = q.gate := by
  cases place with
  | looking again look =>
    simp only [stepLocked]
    split
    · rfl
    · split <;> rfl
  | parked =>
    simp only [stepLocked]
    split <;> rfl
  | _ => rfl

/-- The consumer neither loses nor invents an item. -/
theorem taken_stepLocked (q : Blocking ι) (place : Consumer ι) :
    (place.stepLocked q).2.taken ++ (place.stepLocked q).1.items = place.inHand ++ q.items := by
  cases place with
  | looking again look =>
    simp only [stepLocked]
    split
    next a rest h =>
      rw [h]
      rfl
    next h =>
      split <;> rfl
  | parked =>
    simp only [stepLocked]
    split <;> rfl
  | leaving r => cases r <;> rfl
  | _ => rfl

/-- The consumer is told that no more will come when the closed queue is empty. -/
theorem of_stepLocked_ends {q : Blocking ι} {place : Consumer ι}
    (h : (place.stepLocked q).2.Ends) :
    (q.items = [] ∧ q.gate.closed = true ∧ place.inHand = []) ∨ place = leaving none := by
  cases place with
  | looking again look =>
    simp only [stepLocked] at h
    split at h
    next => rcases h with h | h <;> cases h
    next hitems =>
      split at h
      next hclosed => exact .inl ⟨hitems, hclosed, rfl⟩
      next => rcases h with h | h <;> cases h
  | parked =>
    simp only [stepLocked] at h
    split at h <;> rcases h with h | h <;> cases h
  | leaving r =>
    rcases h with h | h
    · cases h
      exact .inr rfl
    · cases h
  | _ => rcases h with h | h <;> cases h

theorem answer_of_ne {place : Consumer ι} (h : ∀ r, place ≠ returned r) : place.answer = [] := by
  cases place with
  | returned r => exact absurd rfl (h r)
  | _ => rfl

end Consumer

namespace Race

structure Kept [DecidableEq ι] (s : Race ι) : Prop extends Books s where
  ended : s.consumer.Ends ∨ none ∈ s.answers → Over s

variable [DecidableEq ι]

/-! ## The queue with a lock -/

theorem books_producerLocked {s : Race ι} (a : ι) (h : Books s) :
    Books (s.stepLocked (.producer a)) := by
  have hself : (s.stepLocked (.producer a)).offers a = ((s.offers a).stepLocked a s.queue).2 :=
    Function.update_self a _ _
  have hother {b : ι} (hb : b ≠ a) : (s.stepLocked (.producer a)).offers b = s.offers b :=
    Function.update_of_ne hb _ _
  refine ⟨fun b => ?_, fun b => ?_, ?_⟩
  · show (s.pushed ++ (s.offers a).storesLocked a s.queue).count b = _
    rw [List.count_append, h.appended b]
    by_cases hb : b = a
    · subst hb
      rw [hself, Offer.accepted_stepLocked]
      omega
    · rw [hother hb, Offer.count_storesLocked_of_ne hb]
      omega
  · show (s.rejected ++ (s.offers a).rejects a).count b = _
    rw [List.count_append, h.rejected b]
    by_cases hb : b = a
    · subst hb
      rw [hself, Offer.turnedAway_stepLocked]
      omega
    · rw [hother hb, Offer.count_rejects_of_ne hb]
      omega
  · show s.pushed ++ (s.offers a).storesLocked a s.queue =
      s.delivered ++ ((s.offers a).stepLocked a s.queue).1.items
    rw [Offer.items_stepLocked, h.order, List.append_assoc]

theorem delivered_consumerLocked (s : Race ι) :
    (s.stepLocked .consumer).delivered =
      s.answers.filterMap id ++ (s.consumer.stepLocked s.queue).2.taken := by
  show (s.answers ++ (s.consumer.stepLocked s.queue).2.answer).filterMap id ++
    (s.consumer.stepLocked s.queue).2.inHand = _
  rw [List.filterMap_append, List.append_assoc]
  rfl

theorem books_stepLocked (s : Race ι) (agent : Agent ι) (h : Books s) :
    Books (s.stepLocked agent) := by
  cases agent with
  | producer a => exact books_producerLocked a h
  | closer k =>
    refine ⟨h.appended, h.rejected, ?_⟩
    show s.pushed = s.delivered ++ ((s.closings k).stepLocked s.queue).1.items
    rw [Closing.items_stepLocked, h.order]
  | consumer =>
    refine ⟨h.appended, h.rejected, ?_⟩
    rw [delivered_consumerLocked]
    show s.pushed = _ ++ (s.consumer.stepLocked s.queue).1.items
    rw [List.append_assoc, Consumer.taken_stepLocked, ← List.append_assoc]
    exact h.order
  | stranger => exact ⟨h.appended, h.rejected, h.order⟩

theorem none_admitted_stepLocked {s : Race ι} (agent : Agent ι) (h : ∀ a, s.offers a ≠ .admitted)
    (b : ι) :
    (s.stepLocked agent).offers b ≠ .admitted := by
  cases agent with
  | producer a =>
    show Function.update s.offers a ((s.offers a).stepLocked a s.queue).2 b ≠ .admitted
    by_cases hb : b = a
    · subst hb
      rw [Function.update_self]
      exact Offer.stepLocked_ne_admitted b s.queue (h b)
    · rw [Function.update_of_ne hb]
      exact h b
  | _ => exact h b

theorem closed_stepLocked {s : Race ι} (agent : Agent ι) (h : s.queue.gate.closed = true) :
    (s.stepLocked agent).queue.gate.closed = true := by
  cases agent with
  | producer a =>
    show ((s.offers a).stepLocked a s.queue).1.gate.closed = true
    rw [Offer.gate_stepLocked]
    exact h
  | closer k => exact Closing.closed_stepLocked _ h
  | consumer =>
    show (s.consumer.stepLocked s.queue).1.gate.closed = true
    rw [Consumer.gate_stepLocked]
    exact h
  | stranger => exact h

theorem Over.stepLocked {s : Race ι} (h : Over s) (agent : Agent ι) :
    Over (s.stepLocked agent) := by
  have hsealed : Sealed (s.stepLocked agent) :=
    ⟨closed_stepLocked agent h.closed, none_admitted_stepLocked agent h.none_admitted⟩
  cases agent with
  | producer a =>
    refine ⟨hsealed, ?_, h.inHand⟩
    show ((s.offers a).stepLocked a s.queue).1.items = []
    rw [Offer.items_stepLocked, h.items, Offer.storesLocked_of_closed a h.closed]
    rfl
  | closer k =>
    refine ⟨hsealed, ?_, h.inHand⟩
    show ((s.closings k).stepLocked s.queue).1.items = []
    rw [Closing.items_stepLocked, h.items]
  | consumer =>
    have htaken := Consumer.taken_stepLocked s.queue s.consumer
    rw [h.inHand, h.items] at htaken
    obtain ⟨htaken, hitems⟩ := List.append_eq_nil_iff.mp htaken
    exact ⟨hsealed, hitems, (List.append_eq_nil_iff.mp htaken).2⟩
  | stranger => exact ⟨hsealed, h.items, h.inHand⟩

/-- Who takes the lock and is told that no more will come has found the queue
closed and empty, and under the lock nobody is on the way in. -/
theorem over_stepLocked {s : Race ι} (agent : Agent ι) (hnone : ∀ a, s.offers a ≠ .admitted)
    (h : s.consumer.Ends ∨ none ∈ s.answers → Over s)
    (hends : (s.stepLocked agent).consumer.Ends ∨ none ∈ (s.stepLocked agent).answers) :
    Over (s.stepLocked agent) := by
  have hover : Over s := by
    cases agent with
    | consumer =>
      by_cases hold : s.consumer.Ends ∨ none ∈ s.answers
      · exact h hold
      have hnew : (s.consumer.stepLocked s.queue).2.Ends := by
        rcases hends with hends | hends
        · exact hends
        · rcases List.mem_append.mp hends with hends | hends
          · exact absurd (.inr hends) hold
          · exact .inr (Consumer.eq_returned_of_mem_answer hends)
      rcases Consumer.of_stepLocked_ends hnew with ⟨hitems, hclosed, hhand⟩ | hplace
      · exact ⟨⟨hclosed, hnone⟩, hitems, hhand⟩
      · exact h (.inl (.inl hplace))
    | _ => exact h hends
  exact hover.stepLocked agent

theorem kept_playLocked (schedule : List (Agent ι)) :
    Kept (play .standard ({} : Race ι) schedule) := by
  have hkept : Kept (play .standard ({} : Race ι) schedule) ∧
      ∀ a, (play .standard ({} : Race ι) schedule).offers a ≠ .admitted := by
    suffices ∀ s : Race ι, Kept s ∧ (∀ a, s.offers a ≠ .admitted) →
        Kept (s.play .standard schedule) ∧ ∀ a, (s.play .standard schedule).offers a ≠ .admitted by
      apply this
      constructor
      · refine ⟨books_start, fun h => ?_⟩
        rcases h with (h | h) | h <;> cases h
      · intro a h
        cases h
    induction schedule with
    | nil => exact fun s hs => hs
    | cons agent rest ih =>
      intro s hs
      obtain ⟨⟨hbooks, hover⟩, hnone⟩ := hs
      apply ih
      constructor
      · exact ⟨books_stepLocked s agent hbooks, over_stepLocked agent hnone hover⟩
      · exact none_admitted_stepLocked agent hnone
  exact hkept.1

/-! ## All strategies -/

/-- No item was appended twice. -/
theorem Books.nodup {s : Race ι} (h : Books s) : s.pushed.Nodup := by
  rw [List.nodup_iff_count_le_one]
  intro a
  rw [h.appended a]
  exact Bool.toNat_le _

theorem kept_run (g : Gated) (schedule : List (Agent ι)) : Kept (run g {} schedule) :=
  ⟨books_run g schedule, (knows_run g schedule).ends⟩

theorem kept_play (strategy : Strategy) (schedule : List (Agent ι)) :
    Kept (play strategy ({} : Race ι) schedule) := by
  cases strategy with
  | spinning => exact kept_run .spinning schedule
  | standard => exact kept_playLocked schedule
  | blocking => exact kept_run .blocking schedule

section Moves

variable (strategy : Strategy) (s : Race ι)

/-- Only the consumer is given answers. -/
theorem answers_move_of_ne {agent : Agent ι} (h : agent ≠ .consumer) :
    (s.move strategy agent).answers = s.answers := by
  cases agent with
  | consumer => exact absurd rfl h
  | _ => cases strategy <;> rfl

/-- A step of the consumer that ends its call is noted. -/
theorem answers_move_consumer :
    (s.move strategy .consumer).answers =
      s.answers ++ (s.move strategy .consumer).consumer.answer := by
  cases strategy <;> rfl

theorem closings_move_of_ne {agent : Agent ι} {k : Nat} (h : agent ≠ .closer k) :
    (s.move strategy agent).closings k = s.closings k := by
  cases agent with
  | closer j =>
    have hne : k ≠ j := fun hkj => h (by rw [hkj])
    cases strategy <;> exact Function.update_of_ne hne _ _
  | _ => cases strategy <;> rfl

/-- A call that closes the queue waits for nobody. -/
theorem left_move_closer (k : Nat) :
    ((s.move strategy (.closer k)).closings k).left ≤ (s.closings k).left - 1 := by
  cases strategy with
  | spinning =>
    have hself : (s.move .spinning (.closer k)).closings k = _ := Function.update_self k _ _
    rw [hself]
    exact Closing.left_step .spinning s.queue _
  | standard =>
    have hself : (s.move .standard (.closer k)).closings k = _ := Function.update_self k _ _
    rw [hself]
    exact Closing.left_stepLocked s.queue _
  | blocking =>
    have hself : (s.move .blocking (.closer k)).closings k = _ := Function.update_self k _ _
    rw [hself]
    exact Closing.left_step .blocking s.queue _

theorem rejected_move_producer (a : ι) :
    (s.move strategy (.producer a)).rejected = s.rejected ++ (s.offers a).rejects a := by
  cases strategy <;> rfl

/-- Only the call that offers an item rejects it. -/
theorem rejected_move_of_ne {agent : Agent ι} (h : ∀ a, agent ≠ .producer a) :
    (s.move strategy agent).rejected = s.rejected := by
  cases agent with
  | producer a => exact absurd rfl (h a)
  | _ => cases strategy <;> rfl

/-- Nothing is taken back of what has been appended or rejected. -/
theorem history_move (agent : Agent ι) :
    s.pushed <+: (s.move strategy agent).pushed ∧
      s.rejected <+: (s.move strategy agent).rejected := by
  cases agent with
  | producer a =>
    cases strategy <;> exact ⟨List.prefix_append _ _, List.prefix_append _ _⟩
  | _ => cases strategy <;> exact ⟨List.prefix_refl _, List.prefix_refl _⟩

theorem history_play (moves : List (Agent ι)) :
    s.pushed <+: (s.play strategy moves).pushed ∧
      s.rejected <+: (s.play strategy moves).rejected := by
  induction moves generalizing s with
  | nil => exact ⟨List.prefix_refl _, List.prefix_refl _⟩
  | cons agent rest ih =>
    have hfirst := history_move strategy s agent
    have hrest := ih (s.move strategy agent)
    exact ⟨hfirst.1.trans hrest.1, hfirst.2.trans hrest.2⟩

end Moves

end Race

end Queue

end Skein
