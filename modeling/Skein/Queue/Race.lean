import Mathlib.Logic.Function.Basic
import Skein.Queue.Strategy

/-!
# Calls that overlap

The queues with a gate have no lock, so a call is not one step: it touches the
shared memory several times, and the steps of other calls fall in between.  Here
a queue with a gate is taken apart into those steps.  A producer's call, a call
that closes the queue and the consumer each say where they stand, and a schedule
says who moves next.  What a step does is decided by the memory and by the place
of the one who moves.

A spinning queue is a blocking one in which nobody registers, parks or wakes.
The memory is sequentially consistent, the list of items is one object, and a
wake-up is a permit of which there is at most one.  An item stands for the call
that offers it, so items of different calls are different, and a producer that
calls again is another item.
-/

namespace Skein

namespace Queue

inductive Gated
  | spinning
  | blocking
deriving DecidableEq

/-- How far the call that offers an item has come.  It has announced itself, and
reads the closed flag; it is let in, and appends; its item is in the queue or it
is refused, and it takes the announcement back.  Then it reads whether the
consumer is parked, asks who that is, and wakes it; a refused item is rejected at
the end. -/
inductive Offer
  | ahead
  | announced
  | admitted
  | stored
  | refused
  | waking (accepted : Bool)
  | calling (accepted : Bool)
  | unparking (accepted : Bool)
  | rejecting
  | returned (accepted : Bool)
deriving DecidableEq

/-- How far a call that closes the queue has come.  It has set the flag, and asks
who the consumer is; then it wakes it. -/
inductive Closing
  | ahead
  | calling
  | unparking
  | returned
deriving DecidableEq

/-- The places inside one look at the queue: it takes the first item; if there is
none it reads the closed flag; if that is set it reads the number at the gate; if
that is zero it takes the first item for the last time. -/
inductive Look
  | pop
  | flag
  | count
  | last
deriving DecidableEq

/-- Where the consumer stands.  It looks, and looks `again` once it has said that
it will park; `marking`, `waking` and `leaving` are about to set that flag or to
take it back. -/
inductive Consumer (ι : Type)
  | away
  | looking (again : Bool) (place : Look)
  | marking
  | parked
  | waking
  | leaving (answer : Option ι)
  | returned (answer : Option ι)
deriving DecidableEq

variable {ι : Type}

namespace Offer

def woken : Bool → Offer
  | true => returned true
  | false => rejecting

def released (accepted : Bool) : Gated → Offer
  | .spinning => woken accepted
  | .blocking => waking accepted

def step (g : Gated) (a : ι) (q : Blocking ι) : Offer → Blocking ι × Offer
  | ahead => ({ q with gate := q.gate.announce }, announced)
  | announced => (q, if q.gate.closed then refused else admitted)
  | admitted => ({ q with items := q.items ++ [a] }, stored)
  | stored => ({ q with gate := q.gate.release }, released true g)
  | refused => ({ q with gate := q.gate.release }, released false g)
  | waking accepted => (q, if q.parked then calling accepted else woken accepted)
  | calling accepted => (q, if q.registered then unparking accepted else woken accepted)
  | unparking accepted => ({ q with permit := true }, woken accepted)
  | rejecting => (q, returned false)
  | returned accepted => (q, returned accepted)

def stores (a : ι) : Offer → List ι
  | admitted => [a]
  | _ => []

def rejects (a : ι) : Offer → List ι
  | rejecting => [a]
  | _ => []

end Offer

namespace Closing

def shut : Gated → Closing
  | .spinning => returned
  | .blocking => calling

def step (g : Gated) (q : Blocking ι) : Closing → Blocking ι × Closing
  | ahead => ({ q with gate := q.gate.close }, shut g)
  | calling => (q, if q.registered then unparking else returned)
  | unparking => ({ q with permit := true }, returned)
  | returned => (q, returned)

end Closing

namespace Consumer

/-- After a look that found the queue empty and not sealed. -/
def vain (g : Gated) (again : Bool) : Consumer ι :=
  match g, again with
  | .spinning, _ => looking false .pop
  | .blocking, false => marking
  | .blocking, true => parked

def found (again : Bool) (answer : Option ι) : Consumer ι :=
  if again then leaving answer else returned answer

/-- One step of the consumer.  It registers with its first call, and a call that
has returned is followed by another. -/
def step (g : Gated) (q : Blocking ι) : Consumer ι → Blocking ι × Consumer ι
  | away | returned _ =>
      ({ q with registered := q.registered || g == .blocking }, looking false .pop)
  | looking again .pop =>
    match q.items with
    | a :: rest => ({ q with items := rest }, found again (some a))
    | [] => (q, looking again .flag)
  | looking again .flag => (q, if q.gate.closed then looking again .count else vain g again)
  | looking again .count => (q, if q.gate.inFlight = 0 then looking again .last else vain g again)
  | looking again .last =>
    match q.items with
    | a :: rest => ({ q with items := rest }, found again (some a))
    | [] => (q, found again none)
  | marking => ({ q with parked := true }, looking true .pop)
  | parked => if q.permit then ({ q with permit := false }, waking) else (q, parked)
  | waking => ({ q with parked := false }, looking false .pop)
  | leaving answer => ({ q with parked := false }, returned answer)

def inHand : Consumer ι → List ι
  | leaving (some a) => [a]
  | _ => []

def answer : Consumer ι → List (Option ι)
  | returned r => [r]
  | _ => []

end Consumer

/-- Those whose steps make up a schedule: the call that offers an item, a call
that closes the queue, the consumer, and whoever else wakes the consumer's
thread, with or without a cause. -/
inductive Agent (ι : Type)
  | producer (a : ι)
  | closer (k : Nat)
  | consumer
  | stranger
deriving DecidableEq

/-- A queue with a gate and all who are at work on it.  The last three fields are
its history: the items that were ever appended, those that were rejected, and
what the consumer's calls returned. -/
structure Race (ι : Type) where
  queue : Blocking ι := {}
  offers : ι → Offer := fun _ => .ahead
  closings : Nat → Closing := fun _ => .ahead
  consumer : Consumer ι := .away
  pushed : List ι := []
  rejected : List ι := []
  answers : List (Option ι) := []

namespace Race

def delivered (s : Race ι) : List ι :=
  s.answers.filterMap id ++ s.consumer.inHand

variable [DecidableEq ι]

/-- One step of one agent.  An agent that is done, or waits for a permit, leaves
everything as it is. -/
def step (g : Gated) (s : Race ι) : Agent ι → Race ι
  | .producer a =>
    let (queue, place) := (s.offers a).step g a s.queue
    { s with
      queue
      offers := Function.update s.offers a place
      pushed := s.pushed ++ (s.offers a).stores a
      rejected := s.rejected ++ (s.offers a).rejects a }
  | .closer k =>
    let (queue, place) := (s.closings k).step g s.queue
    { s with queue, closings := Function.update s.closings k place }
  | .consumer =>
    let (queue, place) := s.consumer.step g s.queue
    { s with queue, consumer := place, answers := s.answers ++ place.answer }
  | .stranger => { s with queue := { s.queue with permit := true } }

def run (g : Gated) (s : Race ι) (schedule : List (Agent ι)) : Race ι :=
  schedule.foldl (step g) s

@[simp] theorem run_nil (g : Gated) (s : Race ι) : s.run g [] = s := rfl

@[simp] theorem run_cons (g : Gated) (s : Race ι) (agent : Agent ι) (rest : List (Agent ι)) :
    s.run g (agent :: rest) = (s.step g agent).run g rest := rfl

theorem run_append (g : Gated) (s : Race ι) (first rest : List (Agent ι)) :
    s.run g (first ++ rest) = (s.run g first).run g rest :=
  List.foldl_append

/-- What every step preserves holds after every schedule. -/
theorem run_preserves {g : Gated} {P : Race ι → Prop}
    (hstep : ∀ s agent, P s → P (s.step g agent)) {s : Race ι}
    (hs : P s) (schedule : List (Agent ι)) : P (s.run g schedule) := by
  induction schedule generalizing s with
  | nil => exact hs
  | cons agent rest ih => exact ih (hstep s agent hs)

end Race

end Queue

end Skein
