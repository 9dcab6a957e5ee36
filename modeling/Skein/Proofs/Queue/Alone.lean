import Mathlib.Logic.Function.Iterate
import Skein.Queue.Locked

/-!
# A call that nobody interrupts

When the steps of a call on a queue follow one another without a step of anybody else,
the call does to the queue what `Skein.Queue.Strategy` says it does, for each strategy:
`submit_alone` for the producers, `alone_item` and `alone_over` for the consumer,
`alone_close` for those who close.  So the functions there and the steps of a race
describe the same queues, and a schedule adds nothing but the ways in which calls can
overlap.
-/

namespace Skein

namespace Queue

variable {ι : Type}

/-! ## Queues of any strategy -/

namespace Blocking

def spin (q : Blocking ι) : Spinning ι :=
  { items := q.items, gate := q.gate }

/-- The queue of a race as the strategy knows it. -/
def as (q : Blocking ι) : Strategy → Any ι
  | .spinning => .spinning q.spin
  | .standard => .standard { items := q.items, closed := q.gate.closed }
  | .blocking => .blocking q

def isOver (q : Blocking ι) : Strategy → Bool
  | .standard => q.gate.closed
  | .spinning | .blocking => q.gate.isSealed

def known (q : Blocking ι) : Strategy → Blocking ι
  | .spinning | .standard => q
  | .blocking => { q with registered := true }

theorem parked_known (q : Blocking ι) (strategy : Strategy) :
    (q.known strategy).parked = q.parked := by
  cases strategy <;> rfl

theorem dequeue_cons (strategy : Strategy) {q : Blocking ι} {a : ι} {rest : List ι}
    (hitems : q.items = a :: rest) (hparked : q.parked = false) :
    (q.as strategy).dequeue =
      (.item a, ({ q.known strategy with items := rest } : Blocking ι).as strategy) := by
  cases strategy with
  | spinning => simp [as, known, Any.dequeue, Spinning.dequeue, spin, hitems]
  | standard => simp [as, known, Any.dequeue, Standard.dequeue, hitems]
  | blocking => simp [as, known, Any.dequeue, Blocking.dequeue, look, hitems, hparked]

theorem dequeue_over {strategy : Strategy} {q : Blocking ι} (hitems : q.items = [])
    (hparked : q.parked = false) (hover : q.isOver strategy = true) :
    (q.as strategy).dequeue = (.finished, (q.known strategy).as strategy) := by
  cases strategy <;> rw [isOver] at hover
  case spinning => simp [as, known, Any.dequeue, Spinning.dequeue, spin, hitems, hover]
  case standard => simp [as, known, Any.dequeue, Standard.dequeue, hitems, hover]
  case blocking =>
    simp [as, known, Any.dequeue, Blocking.dequeue, look, hitems, hparked, hover]

theorem dequeue_waiting {strategy : Strategy} {q : Blocking ι} (hitems : q.items = [])
    (hover : q.isOver strategy = false) : (q.as strategy).dequeue.1 = .waiting := by
  cases strategy <;> rw [isOver] at hover
  case spinning => simp [as, Any.dequeue, Spinning.dequeue, spin, hitems, hover]
  case standard => simp [as, Any.dequeue, Standard.dequeue, hitems, hover]
  case blocking => simp [as, Any.dequeue, Blocking.dequeue, look, hitems, hover]

theorem of_dequeue_item {strategy : Strategy} {q : Blocking ι} {a : ι} (hparked : q.parked = false)
    (h : (q.as strategy).dequeue.1 = .item a) : ∃ rest, q.items = a :: rest := by
  cases hitems : q.items with
  | nil =>
    cases hover : q.isOver strategy with
    | true => simp [dequeue_over hitems hparked hover] at h
    | false => simp [dequeue_waiting hitems hover] at h
  | cons b rest =>
    rw [dequeue_cons strategy hitems hparked] at h
    cases h
    exact ⟨rest, rfl⟩

theorem of_dequeue_finished {strategy : Strategy} {q : Blocking ι} (hparked : q.parked = false)
    (h : (q.as strategy).dequeue.1 = .finished) : q.items = [] ∧ q.isOver strategy = true := by
  cases hitems : q.items with
  | nil =>
    cases hover : q.isOver strategy with
    | true => exact ⟨rfl, rfl⟩
    | false => simp [dequeue_waiting hitems hover] at h
  | cons b rest => simp [dequeue_cons strategy hitems hparked] at h

end Blocking

namespace Any

theorem enqueue_of_closed {q : Any ι} (a : ι) (h : q.isClosed = true) :
    (q.enqueue a).1 = false := by
  cases q with
  | spinning q =>
    rw [isClosed] at h
    simp [enqueue, Spinning.enqueue, Gate.enter, Gate.announce, h]
  | standard q =>
    rw [isClosed] at h
    simp [enqueue, Standard.enqueue, h]
  | blocking q =>
    rw [isClosed] at h
    simp [enqueue, Blocking.enqueue, Gate.enter, Gate.announce, h]

theorem enqueue_of_open {q : Any ι} (a : ι) (h : q.isClosed = false) :
    (q.enqueue a).1 = true ∧ (q.enqueue a).2.items = q.items ++ [a] := by
  cases q with
  | spinning q =>
    rw [isClosed] at h
    simp [enqueue, Spinning.enqueue, Gate.enter, Gate.announce, h, items]
  | standard q =>
    rw [isClosed] at h
    simp [enqueue, Standard.enqueue, h, items]
  | blocking q =>
    rw [isClosed] at h
    simp [enqueue, Blocking.enqueue, Gate.enter, Gate.announce, h, items,
      Blocking.items_wakeIfParked]

theorem dequeue_of_items {q : Any ι} {a : ι} {rest : List ι} (h : q.items = a :: rest) :
    q.dequeue.1 = .item a := by
  cases q <;> rw [items] at h
  case spinning => simp [dequeue, Spinning.dequeue, h]
  case standard => simp [dequeue, Standard.dequeue, h]
  case blocking => simp [dequeue, Blocking.dequeue, Blocking.look, h]

end Any

/-! ## Calls -/

namespace Offer

def alone (g : Gated) (a : ι) (n : Nat) (q : Blocking ι) : Blocking ι × Offer :=
  (fun p => p.2.step g a p.1)^[n] (q, ahead)

theorem alone_blocking (a : ι) (q : Blocking ι) :
    alone .blocking a 7 q = ((q.enqueue a).2, returned (q.enqueue a).1) := by
  obtain ⟨items, ⟨closed, inFlight⟩, registered, parked, permit⟩ := q
  cases closed <;> cases parked <;> cases registered <;> rfl

theorem alone_spinning (a : ι) (q : Blocking ι) :
    (alone .spinning a 4 q).1.spin = (q.spin.enqueue a).2 ∧
      (alone .spinning a 4 q).2 = returned (q.spin.enqueue a).1 := by
  obtain ⟨items, ⟨closed, inFlight⟩, registered, parked, permit⟩ := q
  cases closed <;> exact ⟨rfl, rfl⟩

end Offer

namespace Race

variable [DecidableEq ι]

theorem run_producer (g : Gated) (s : Race ι) (a : ι) (n : Nat) :
    ((s.run g (List.replicate n (.producer a))).queue,
      (s.run g (List.replicate n (.producer a))).offers a) =
        (fun p => p.2.step g a p.1)^[n] (s.queue, s.offers a) := by
  induction n generalizing s with
  | zero => rfl
  | succ n ih =>
    rw [List.replicate_succ, run_cons, ih, Function.iterate_succ_apply]
    show (fun p => p.2.step g a p.1)^[n] (_, Function.update s.offers a _ a) = _
    rw [Function.update_self]
    rfl

theorem enqueue_alone (s : Race ι) (a : ι) (h : s.offers a = .ahead) :
    (s.run .blocking (List.replicate 7 (.producer a))).queue = (s.queue.enqueue a).2 ∧
      (s.run .blocking (List.replicate 7 (.producer a))).offers a =
        .returned (s.queue.enqueue a).1 := by
  have hrun := run_producer .blocking s a 7
  rw [h] at hrun
  exact Prod.mk.inj (hrun.trans (Offer.alone_blocking a s.queue))

theorem enqueue_alone_spinning (s : Race ι) (a : ι) (h : s.offers a = .ahead) :
    (s.run .spinning (List.replicate 4 (.producer a))).queue.spin = (s.queue.spin.enqueue a).2 ∧
      (s.run .spinning (List.replicate 4 (.producer a))).offers a =
        .returned (s.queue.spin.enqueue a).1 := by
  have hrun := run_producer .spinning s a 4
  rw [h] at hrun
  obtain ⟨hqueue, hplace⟩ := Offer.alone_spinning a s.queue
  rw [Offer.alone, ← hrun] at hqueue hplace
  exact ⟨hqueue, hplace⟩

theorem submit_alone (strategy : Strategy) (s : Race ι) (a : ι) (h : s.offers a = .ahead) :
    ∃ n, ((s.play strategy (List.replicate n (.producer a))).queue.as strategy =
        ((s.queue.as strategy).enqueue a).2) ∧
      (s.play strategy (List.replicate n (.producer a))).offers a =
        .returned ((s.queue.as strategy).enqueue a).1 := by
  cases strategy with
  | spinning =>
    obtain ⟨hqueue, hplace⟩ := enqueue_alone_spinning s a h
    exact ⟨4, congrArg Any.spinning hqueue, hplace⟩
  | blocking =>
    obtain ⟨hqueue, hplace⟩ := enqueue_alone s a h
    exact ⟨7, congrArg Any.blocking hqueue, hplace⟩
  | standard =>
    refine ⟨2, ?_⟩
    cases hclosed : s.queue.gate.closed with
    | true =>
      simp [play, move, stepLocked, Offer.stepLocked, h, hclosed, Blocking.as, Any.enqueue,
        Standard.enqueue]
    | false =>
      simp [play, move, stepLocked, Offer.stepLocked, h, hclosed, Blocking.as, Any.enqueue,
        Standard.enqueue, Blocking.notify, Offer.woken]

/-- A step of a producer leaves the consumer, those who close and the other producers
where they are. -/
theorem move_producer (strategy : Strategy) (a : ι) (s : Race ι) :
    let t := s.move strategy (.producer a)
    t.consumer = s.consumer ∧ t.closings = s.closings ∧ t.queue.parked = s.queue.parked ∧
      ∀ b, b ≠ a → t.offers b = s.offers b := by
  refine ⟨?_, ?_, ?_, fun b hb => ?_⟩
  · cases strategy <;> rfl
  · cases strategy <;> rfl
  · cases strategy <;> simp only [move, step, stepLocked]
    case standard =>
      cases s.offers a with
      | ahead =>
        simp only [Offer.stepLocked]
        split <;> rfl
      | _ => rfl
    all_goals cases s.offers a <;> rfl
  · cases strategy <;> exact Function.update_of_ne hb _ _

/-- What one step of an agent keeps, any number of them keeps. -/
theorem play_keeps {β : Type} {f : Race ι → β} {strategy : Strategy} {agent : Agent ι}
    (hmove : ∀ s : Race ι, f (s.move strategy agent) = f s) (s : Race ι) (n : Nat) :
    f (s.play strategy (List.replicate n agent)) = f s := by
  induction n generalizing s with
  | zero => rfl
  | succ n ih => exact (ih (s.move strategy agent)).trans (hmove s)

/-- From the one race the agent comes to the other by its own steps, and only the
last of them ends its call. -/
inductive Alone (strategy : Strategy) (agent : Agent ι) (ended : Race ι → Prop) :
    Race ι → Race ι → Prop
  | last {s t : Race ι} (hmove : s.move strategy agent = t) (h : ended t) :
      Alone strategy agent ended s t
  | more {s t u : Race ι} (hmove : s.move strategy agent = u) (h : ¬ended u)
      (hrest : Alone strategy agent ended u t) : Alone strategy agent ended s t

def Answered (s : Race ι) : Prop :=
  ∃ r, s.consumer = .returned r

def Resting (s : Race ι) : Prop :=
  (s.consumer = .away ∨ s.Answered) ∧ s.queue.parked = false

variable {strategy : Strategy} {s : Race ι}

omit [DecidableEq ι] in
theorem not_answered {place : Look} {again : Bool} (h : s.consumer = .looking again place) :
    ¬s.Answered := by
  rintro ⟨r, hr⟩
  rw [h] at hr
  cases hr

theorem move_resting (h : s.Resting) :
    s.move strategy .consumer =
      { s with queue := s.queue.known strategy, consumer := .looking false .pop } := by
  obtain ⟨hplace | ⟨r, hplace⟩, -⟩ := h <;> cases strategy <;>
    simp [move, step, stepLocked, hplace, Consumer.step, Consumer.stepLocked, Consumer.answer,
      Blocking.known, show (Gated.spinning == Gated.blocking) = false from rfl]

theorem alone_item {a : ι} {rest : List ι} (h : s.Resting) (hitems : s.queue.items = a :: rest) :
    Alone strategy .consumer Answered s
      { s with
        queue := { s.queue.known strategy with items := rest }
        consumer := .returned (some a)
        answers := s.answers ++ [some a] } := by
  refine .more (move_resting h) (not_answered rfl) (.last ?_ ⟨_, rfl⟩)
  cases strategy <;>
    simp [move, step, stepLocked, Consumer.step, Consumer.stepLocked, Consumer.found,
      Consumer.answer, Blocking.known, hitems]

theorem alone_sealed {g : Gated}
    (hmove : ∀ t : Race ι, t.move strategy .consumer = t.step g .consumer)
    (hplace : s.consumer = .looking false .pop) (hitems : s.queue.items = [])
    (hsealed : s.queue.gate.isSealed = true) :
    Alone strategy .consumer Answered s
      { s with consumer := .returned none, answers := s.answers ++ [none] } := by
  obtain ⟨hclosed, hnone⟩ : s.queue.gate.closed = true ∧ s.queue.gate.inFlight = 0 := by
    simpa [Gate.isSealed] using hsealed
  refine .more (u := { s with consumer := .looking false .flag }) ?_ (not_answered rfl) ?_
  · simp [hmove, step, hplace, Consumer.step, hitems, Consumer.answer]
  refine .more (u := { s with consumer := .looking false .count }) ?_ (not_answered rfl) ?_
  · simp [hmove, step, Consumer.step, hclosed, Consumer.answer]
  refine .more (u := { s with consumer := .looking false .last }) ?_ (not_answered rfl) ?_
  · simp [hmove, step, Consumer.step, hnone, Consumer.answer]
  refine .last ?_ ⟨_, rfl⟩
  simp [hmove, step, Consumer.step, hitems, Consumer.found, Consumer.answer]

theorem alone_over (h : s.Resting) (hitems : s.queue.items = [])
    (hover : s.queue.isOver strategy = true) :
    Alone strategy .consumer Answered s
      { s with
        queue := s.queue.known strategy
        consumer := .returned none
        answers := s.answers ++ [none] } := by
  refine .more (move_resting h) (not_answered rfl) ?_
  cases strategy <;> rw [Blocking.isOver] at hover
  case spinning => exact alone_sealed (g := .spinning) (fun _ => rfl) rfl hitems hover
  case blocking => exact alone_sealed (g := .blocking) (fun _ => rfl) rfl hitems hover
  case standard =>
    refine .last ?_ ⟨_, rfl⟩
    simp [move, stepLocked, Consumer.stepLocked, hitems, hover, Consumer.answer, Blocking.known]

theorem Alone.keeps {β : Type} {f : Race ι → β} {agent : Agent ι} {ended : Race ι → Prop}
    {t : Race ι} (hmove : ∀ s : Race ι, f (s.move strategy agent) = f s)
    (h : Alone strategy agent ended s t) : f t = f s := by
  induction h with
  | last hs =>
    subst hs
    exact hmove _
  | more hs _ _ ih =>
    subst hs
    exact ih.trans (hmove _)

def Closed (k : Nat) (s : Race ι) : Prop :=
  s.closings k = .returned

/-- A step of a call that closes the queue leaves everybody else where they are. -/
theorem move_closer (strategy : Strategy) (k : Nat) (s : Race ι) :
    let t := s.move strategy (.closer k)
    t.consumer = s.consumer ∧ t.offers = s.offers ∧ t.queue.parked = s.queue.parked ∧
      ∀ j, j ≠ k → t.closings j = s.closings j := by
  refine ⟨?_, ?_, ?_, fun j hj => ?_⟩
  · cases strategy <;> rfl
  · cases strategy <;> rfl
  · cases strategy <;> simp only [move, step, stepLocked] <;> cases s.closings k <;> rfl
  · cases strategy <;> exact Function.update_of_ne hj _ _

theorem Alone.resting {k : Nat} {ended : Race ι → Prop} {t : Race ι}
    (h : Alone strategy (.closer k) ended s t) (hrest : s.Resting) : t.Resting := by
  have hconsumer : t.consumer = s.consumer := h.keeps fun u => (move_closer strategy k u).1
  have hparked : t.queue.parked = s.queue.parked :=
    h.keeps (f := fun u => u.queue.parked) fun u => (move_closer strategy k u).2.2.1
  rw [Resting, Answered, hconsumer, hparked]
  exact hrest

variable (strategy) in
theorem alone_close {k : Nat} (h : s.closings k = .ahead) :
    ∃ t, Alone strategy (.closer k) (Closed k) s t ∧
      t.queue.as strategy = (s.queue.as strategy).close := by
  cases strategy with
  | spinning =>
    refine ⟨_, .last rfl ?_, ?_⟩
    · simp [Closed, move, step, h, Closing.step, Closing.shut]
    · simp [move, step, h, Closing.step, Blocking.as, Any.close, Spinning.close, Blocking.spin]
  | standard =>
    refine ⟨_, .more rfl ?_ (.last rfl ?_), ?_⟩
    · simp [Closed, move, stepLocked, h, Closing.stepLocked]
    · simp [Closed, move, stepLocked, h, Closing.stepLocked]
    · simp [move, stepLocked, h, Closing.stepLocked, Blocking.as, Any.close, Standard.close,
        Blocking.notify, Gate.close]
  | blocking =>
    cases hregistered : s.queue.registered with
    | true =>
      refine ⟨_, .more rfl ?_ (.more rfl ?_ (.last rfl ?_)), ?_⟩
      · simp [Closed, move, step, h, Closing.step, Closing.shut]
      · simp [Closed, move, step, h, Closing.step, Closing.shut, hregistered]
      · simp [Closed, move, step, h, Closing.step, Closing.shut, hregistered]
      · simp [move, step, h, Closing.step, Closing.shut, Blocking.as, Any.close, Blocking.close,
          hregistered]
    | false =>
      refine ⟨_, .more rfl ?_ (.last rfl ?_), ?_⟩
      · simp [Closed, move, step, h, Closing.step, Closing.shut]
      · simp [Closed, move, step, h, Closing.step, Closing.shut, hregistered]
      · simp [move, step, h, Closing.step, Closing.shut, Blocking.as, Any.close, Blocking.close,
          hregistered]

end Race

end Queue

end Skein
