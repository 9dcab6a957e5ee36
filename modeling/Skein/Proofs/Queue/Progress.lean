import Skein.Proofs.Queue.Locked
import Skein.Proofs.Queue.Wakeup

/-!
# The consumer comes to its item

Once the calls of the producers have come to rest, a consumer that has something
to take needs nobody else: every step of its own takes an item or brings it
nearer, `way_move`, for every strategy.  A consumer that is parked could stand
still, so this rests on its being woken up.  For a queue with a gate this is the
watch that `Skein.Proofs.Queue.Wakeup` keeps; for one with a lock it is kept here.
-/

namespace Skein

namespace Queue

variable {ι : Type}

def Offer.Rests (place : Offer) : Prop :=
  place = .ahead ∨ ∃ accepted, place = .returned accepted

namespace Consumer

/-- How many steps the consumer can make until it has taken an item, if there is
one, from above. -/
def way : Consumer ι → Nat
  | away | returned _ => 9
  | looking _ .flag => 8
  | looking _ .count => 7
  | parked => 5
  | waking => 4
  | marking => 3
  | looking _ .pop | looking _ .last => 2
  | leaving _ => 1

theorem way_le (place : Consumer ι) : place.way ≤ 9 := by
  cases place with
  | looking again place => cases place <;> simp [way]
  | _ => simp [way]

end Consumer

namespace Race

/-! ## The queue with a lock -/

/-- The consumer of a queue with a lock is at one of four places.  If it is parked
and there is something to take, it may go on, or somebody is about to notify
it. -/
structure Bare (s : Race ι) : Prop where
  place : s.consumer = .away ∨ (∃ again place, s.consumer = .looking again place) ∨
    s.consumer = .parked ∨ ∃ r, s.consumer = .returned r
  parked : s.consumer = .parked → s.queue.parked = true
  ahead : s.consumer = .parked → s.queue.items ≠ [] → s.queue.permit = false →
    ∃ a, s.offers a = .waking true

/-- A notification reaches a consumer that is parked. -/
theorem Bare.permit_notify {s : Race ι} (h : Bare s) (hconsumer : s.consumer = .parked) :
    s.queue.notify.permit = true := by
  show (s.queue.permit || s.queue.parked) = true
  rw [h.parked hconsumer, Bool.or_true]

variable [DecidableEq ι]

theorem bare_producer {s : Race ι} (a : ι) (h : Bare s) : Bare (s.stepLocked (.producer a)) := by
  have hself : (s.stepLocked (.producer a)).offers a = ((s.offers a).stepLocked a s.queue).2 :=
    Function.update_self a _ _
  have hother {b : ι} (hb : b ≠ a) : (s.stepLocked (.producer a)).offers b = s.offers b :=
    Function.update_of_ne hb _ _
  -- who is about to notify the consumer still is, unless it was this call
  have hold (hne : s.offers a ≠ .waking true) (hahead : ∃ b, s.offers b = .waking true) :
      ∃ b, (s.stepLocked (.producer a)).offers b = .waking true := by
    obtain ⟨b, hb⟩ := hahead
    have hba : b ≠ a := fun hba => hne (hba ▸ hb)
    exact ⟨b, (hother hba).trans hb⟩
  have hqueue : (s.stepLocked (.producer a)).queue = ((s.offers a).stepLocked a s.queue).1 := rfl
  refine ⟨h.place, fun hc => ?_, fun hc hitems hpermit => ?_⟩
  · rw [hqueue, ← h.parked hc]
    cases s.offers a with
    | ahead =>
      rw [Offer.stepLocked]
      split <;> rfl
    | _ => rfl
  · rw [hqueue] at hitems hpermit
    cases hplace : s.offers a with
    | ahead =>
      rw [hplace, Offer.stepLocked] at hself
      by_cases hclosed : s.queue.gate.closed = true
      · rw [hplace, Offer.stepLocked, if_pos hclosed] at hitems hpermit
        exact hold (fun hwaking => by cases hplace.symm.trans hwaking)
          (h.ahead hc hitems hpermit)
      · rw [if_neg hclosed] at hself
        exact ⟨a, hself⟩
    | waking accepted =>
      rw [hplace] at hpermit
      cases (h.permit_notify hc).symm.trans hpermit
    | _ =>
      rw [hplace] at hitems hpermit
      exact hold (fun hwaking => by cases hplace.symm.trans hwaking)
        (h.ahead hc hitems hpermit)

theorem bare_consumer {s : Race ι} (h : Bare s) : Bare (s.stepLocked .consumer) := by
  have hplace : (s.stepLocked .consumer).consumer = (s.consumer.stepLocked s.queue).2 := rfl
  have hqueue : (s.stepLocked .consumer).queue = (s.consumer.stepLocked s.queue).1 := rfl
  have hlooking (t : Race ι) {again : Bool} {place : Look}
    (ht : t.consumer = .looking again place) :
      Bare t := by
    refine ⟨.inr (.inl ⟨again, place, ht⟩), fun hc => ?_, fun hc => ?_⟩ <;>
      cases ht.symm.trans hc
  have hreturned (t : Race ι) {r : Option ι} (ht : t.consumer = .returned r) : Bare t := by
    refine ⟨.inr (.inr (.inr ⟨r, ht⟩)), fun hc => ?_, fun hc => ?_⟩ <;>
      cases ht.symm.trans hc
  rcases h.place with hc | ⟨again, place, hc⟩ | hc | ⟨r, hc⟩
  · rw [hc] at hplace
    exact hlooking _ hplace
  · rw [hc, Consumer.stepLocked] at hplace hqueue
    cases hitems : s.queue.items with
    | cons a rest =>
      rw [hitems] at hplace
      exact hreturned _ hplace
    | nil =>
      rw [hitems] at hplace hqueue
      by_cases hclosed : s.queue.gate.closed = true
      · simp only [hclosed, if_true] at hplace
        exact hreturned _ hplace
      · simp only [hclosed, Bool.false_eq_true, if_false] at hplace hqueue
        refine ⟨.inr (.inr (.inl hplace)), fun _ => by rw [hqueue], fun _ hsome => ?_⟩
        rw [hqueue] at hsome
        exact absurd rfl hsome
  · rw [hc, Consumer.stepLocked] at hplace hqueue
    by_cases hpermit : s.queue.permit = true
    · rw [if_pos hpermit] at hplace
      exact hlooking _ hplace
    · rw [if_neg hpermit] at hplace hqueue
      refine ⟨.inr (.inr (.inl hplace)), fun _ => ?_, fun _ hitems hnone => ?_⟩
      · rw [hqueue]
        exact h.parked hc
      · rw [hqueue] at hitems hnone
        exact h.ahead hc hitems hnone
  · rw [hc] at hplace
    exact hlooking _ hplace

theorem bare_stepLocked {s : Race ι} (agent : Agent ι) (h : Bare s) :
    Bare (s.stepLocked agent) := by
  have hnotified : Bare { s with queue := s.queue.notify } := by
    refine ⟨h.place, h.parked, fun hc _ hpermit => ?_⟩
    cases (h.permit_notify hc).symm.trans hpermit
  cases agent with
  | producer a => exact bare_producer a h
  | consumer => exact bare_consumer h
  | stranger => exact hnotified
  | closer k =>
    have hqueue : (s.stepLocked (.closer k)).queue = ((s.closings k).stepLocked s.queue).1 := rfl
    cases hclosing : s.closings k with
    | calling =>
      rw [hclosing] at hqueue
      refine ⟨h.place, fun hc => ?_, fun hc hitems hpermit => ?_⟩
      · rw [hqueue]
        exact hnotified.parked hc
      · rw [hqueue] at hitems hpermit
        exact hnotified.ahead hc hitems hpermit
    | _ =>
      rw [hclosing] at hqueue
      refine ⟨h.place, fun hc => ?_, fun hc hitems hpermit => ?_⟩
      · rw [hqueue]
        exact h.parked hc
      · rw [hqueue] at hitems hpermit
        exact h.ahead hc hitems hpermit

/-! ## Every strategy -/

structure Awake (strategy : Strategy) (s : Race ι) : Prop where
  bare : strategy = .standard → Bare s
  permit : (∀ a, (s.offers a).Rests) → s.consumer = .parked → s.queue.items ≠ [] →
    s.queue.permit = true

theorem awake_play (strategy : Strategy) (moves : List (Agent ι)) :
    Awake strategy (play strategy ({} : Race ι) moves) := by
  cases strategy with
  | standard =>
    have hbare : Bare (play .standard ({} : Race ι) moves) := by
      suffices hplay : ∀ s : Race ι, Bare s → Bare (s.play .standard moves) from
        hplay {} ⟨.inl rfl, nofun, nofun⟩
      induction moves with
      | nil => exact fun s hs => hs
      | cons agent rest ih => exact fun s hs => ih (s.stepLocked agent) (bare_stepLocked agent hs)
    refine ⟨fun _ => hbare, fun hrest hc hitems => ?_⟩
    by_contra hpermit
    obtain ⟨a, ha⟩ := hbare.ahead hc hitems (Bool.eq_false_iff.mpr hpermit)
    rcases hrest a with h | ⟨accepted, h⟩ <;> cases ha.symm.trans h
  | blocking =>
    refine ⟨nofun, fun hrest hc hitems => ?_⟩
    by_contra hpermit
    obtain ⟨a, ha⟩ := (watch_run moves).stored (by rw [show (run _ _ _).consumer = _ from hc]; rfl)
      (Bool.eq_false_iff.mpr hpermit) hitems
    rcases hrest a with h | ⟨accepted, h⟩ <;>
      rw [show (run _ _ _).offers a = _ from h] at ha <;> cases ha
  | spinning =>
    -- a spinning consumer never parks
    suffices hplay : ∀ s : Race ι, s.consumer ≠ .parked →
        (s.play .spinning moves).consumer ≠ .parked from
      ⟨nofun, fun _ hc => absurd hc (hplay {} nofun)⟩
    induction moves with
    | nil => exact fun s hs => hs
    | cons agent rest ih =>
      intro s hs
      refine ih _ ?_
      cases agent with
      | consumer =>
        show (s.consumer.step .spinning s.queue).2 ≠ .parked
        have hmove := Consumer.step_moves .spinning s.queue s.consumer
        generalize s.consumer.step .spinning s.queue = out at hmove ⊢
        generalize s.consumer = c at hmove hs
        cases hmove with
        | take again => cases again <;> exact nofun
        | finish again => cases again <;> exact nofun
        | block => exact absurd rfl hs
        | _ => exact nofun
      | _ => exact hs

/-- A step of a consumer that has something to take takes an item, or brings it
nearer. -/
theorem way_move {strategy : Strategy} {s : Race ι} (hkept : Kept s) (hawake : Awake strategy s)
    (hrest : ∀ a, (s.offers a).Rests) (hsome : s.consumer.inHand ++ s.queue.items ≠ []) :
    (∃ a, (s.move strategy .consumer).consumer = .returned (some a)) ∨
      (s.move strategy .consumer).consumer.way < s.consumer.way := by
  have hitems (h : s.consumer.inHand = []) : s.queue.items ≠ [] := by
    intro hnone
    rw [h, hnone] at hsome
    exact hsome rfl
  have hgated (g : Gated) : (∃ a, (s.consumer.step g s.queue).2 = .returned (some a)) ∨
      (s.consumer.step g s.queue).2.way < s.consumer.way := by
    have hmove := Consumer.step_moves g s.queue s.consumer
    have hended := hkept.ended
    have hpermit := hawake.permit hrest
    generalize s.consumer.step g s.queue = out at hmove ⊢
    generalize s.consumer = c at hmove hitems hended hpermit
    cases hmove with
    | take again place a rest hplace =>
      cases again with
      | false => exact .inl ⟨a, rfl⟩
      | true =>
        refine .inr ?_
        rcases hplace with rfl | rfl <;> exact Nat.lt_succ_self 1
    | empty again hnone => exact absurd hnone (hitems rfl)
    | finish again hnone => exact absurd hnone (hitems rfl)
    | inVain again place hplace =>
      refine .inr ?_
      rcases hplace with ⟨rfl, -⟩ | ⟨rfl, -⟩ <;> cases g <;> cases again <;>
        simp [Consumer.vain, Consumer.way]
    | block hnone => cases hnone.symm.trans (hpermit rfl (hitems rfl))
    | leave r =>
      cases r with
      | some a => exact .inl ⟨a, rfl⟩
      | none => exact absurd (hended (.inl (.inl rfl))).items (hitems rfl)
    | _ => exact .inr (by simp [Consumer.way])
  cases strategy with
  | spinning => exact hgated .spinning
  | blocking => exact hgated .blocking
  | standard =>
    show (∃ a, (s.consumer.stepLocked s.queue).2 = .returned (some a)) ∨
      (s.consumer.stepLocked s.queue).2.way < s.consumer.way
    rcases (hawake.bare rfl).place with hc | ⟨again, place, hc⟩ | hc | ⟨r, hc⟩
    · rw [hc]
      exact .inr (by simp [Consumer.stepLocked, Consumer.way])
    · obtain ⟨a, rest, hcons⟩ := List.exists_cons_of_ne_nil (hitems (by rw [hc]; rfl))
      rw [hc, Consumer.stepLocked, hcons]
      exact .inl ⟨a, rfl⟩
    · have hgranted := hawake.permit hrest hc (hitems (by rw [hc]; rfl))
      rw [hc, Consumer.stepLocked, if_pos hgranted]
      exact .inr (by simp [Consumer.way])
    · rw [hc]
      exact .inr (by simp [Consumer.stepLocked, Consumer.way])

end Race

end Queue

end Skein
