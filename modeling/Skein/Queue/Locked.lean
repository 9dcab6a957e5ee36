import Skein.Queue.Race

/-!
# Calls under a lock

A standard queue has a lock, and a condition that its consumer waits for.  All
that matters of a call is done under the lock, so it is one step of a race: a
producer looks at the closed flag and appends, the consumer takes the first item
or learns that there will be none or begins to wait.  What comes after the lock
has been given back is a step of its own: a producer that appended and a call
that closed the queue notify the consumer, and a refused item is rejected.

The memory is that of a queue with a gate at which nobody is announced.  Its flag
`parked` says that the consumer waits for the condition, and a permit is a
notification that the consumer has not followed yet.  `Race.move` is one step of
a race on a queue of any strategy.
-/

namespace Skein

namespace Queue

variable {ι : Type}

namespace Blocking

/-- Notifies a consumer that waits; nobody else takes notice. -/
def notify (q : Blocking ι) : Blocking ι :=
  { q with permit := q.permit || q.parked }

end Blocking

namespace Offer

def stepLocked (a : ι) (q : Blocking ι) : Offer → Blocking ι × Offer
  | ahead =>
    if q.gate.closed then (q, rejecting)
    else ({ q with items := q.items ++ [a] }, waking true)
  | waking accepted => (q.notify, woken accepted)
  | rejecting => (q, returned false)
  | place => (q, place)

def storesLocked (a : ι) (q : Blocking ι) : Offer → List ι
  | ahead => if q.gate.closed then [] else [a]
  | _ => []

end Offer

namespace Closing

def stepLocked (q : Blocking ι) : Closing → Blocking ι × Closing
  | ahead => ({ q with gate := q.gate.close }, calling)
  | calling => (q.notify, returned)
  | unparking | returned => (q, returned)

end Closing

namespace Consumer

/-- One step of the consumer of a queue with a lock.  A consumer that is notified
takes the lock again and looks once more. -/
def stepLocked (q : Blocking ι) : Consumer ι → Blocking ι × Consumer ι
  | away | returned _ => (q, looking false .pop)
  | looking _ _ =>
    match q.items with
    | a :: rest => ({ q with items := rest }, returned (some a))
    | [] =>
      if q.gate.closed then (q, returned none)
      else ({ q with parked := true }, parked)
  | parked =>
    if q.permit then ({ q with parked := false, permit := false }, looking false .pop)
    else (q, parked)
  | place => (q, place)

end Consumer

namespace Race

variable [DecidableEq ι]

/-- One step of one agent on a queue with a lock.  The stranger is a consumer's
waking up for no reason. -/
def stepLocked (s : Race ι) : Agent ι → Race ι
  | .producer a =>
    let (queue, place) := (s.offers a).stepLocked a s.queue
    { s with
      queue
      offers := Function.update s.offers a place
      pushed := s.pushed ++ (s.offers a).storesLocked a s.queue
      rejected := s.rejected ++ (s.offers a).rejects a }
  | .closer k =>
    let (queue, place) := (s.closings k).stepLocked s.queue
    { s with queue, closings := Function.update s.closings k place }
  | .consumer =>
    let (queue, place) := s.consumer.stepLocked s.queue
    { s with queue, consumer := place, answers := s.answers ++ place.answer }
  | .stranger => { s with queue := s.queue.notify }

def move (strategy : Strategy) (s : Race ι) (agent : Agent ι) : Race ι :=
  match strategy with
  | .spinning => s.step .spinning agent
  | .standard => s.stepLocked agent
  | .blocking => s.step .blocking agent

def play (strategy : Strategy) (s : Race ι) (schedule : List (Agent ι)) : Race ι :=
  schedule.foldl (move strategy) s

@[simp] theorem play_nil (strategy : Strategy) (s : Race ι) : s.play strategy [] = s := rfl

@[simp] theorem play_cons (strategy : Strategy) (s : Race ι) (agent : Agent ι)
    (rest : List (Agent ι)) :
    s.play strategy (agent :: rest) = (s.move strategy agent).play strategy rest := rfl

theorem play_append (strategy : Strategy) (s : Race ι) (first rest : List (Agent ι)) :
    s.play strategy (first ++ rest) = (s.play strategy first).play strategy rest :=
  List.foldl_append

end Race

end Queue

end Skein
