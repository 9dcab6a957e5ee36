import Skein.Queue.Basic
import Skein.Queue.Gate
import Skein.Json.Decode
import Skein.Json.Write

/-!
# Three ways to wait

A consumer that finds its queue empty can look again and again, wait for a
condition, or park its thread.  The first and the last share a gate with the
producers instead of a lock; the last also notes that it is about to park, so
that a producer knows whom to wake.  Here each queue is seen between the calls
made on it, and a call that would wait says so.
-/

namespace Skein

namespace Queue

inductive Strategy
  | spinning
  | standard
  | blocking
deriving DecidableEq

namespace Strategy

def names : List (String × Strategy) :=
  [("spinning", spinning), ("standard", standard), ("blocking", blocking)]

def name : Strategy → String
  | spinning => "spinning"
  | standard => "standard"
  | blocking => "blocking"

def describe : Strategy → String
  | spinning => "Spinning"
  | standard => "Standard"
  | blocking => "Blocking"

def default : Strategy := standard

def decoder : Json.Decoder Strategy :=
  Json.Decoder.choice names

def write (s : Strategy) : List Char :=
  Json.writeText s.name

end Strategy

variable {ι : Type}

def popAll : List ι → List ι
  | [] => []
  | a :: rest => a :: popAll rest

structure Spinning (ι : Type) where
  items : List ι := []
  gate : Gate := {}

namespace Spinning

/-- Announces a producer, and appends its item if the gate was open.  The
announcement is taken back in both cases. -/
def enqueue (q : Spinning ι) (a : ι) : Bool × Spinning ι :=
  match q.gate.enter with
  | (true, gate) => (true, { items := q.items ++ [a], gate := gate.release })
  | (false, gate) => (false, { q with gate := gate.release })

def rejects (q : Spinning ι) (a : ι) : List ι :=
  match q.gate.enter with
  | (true, _) => []
  | (false, _) => [a]

/-- Takes the first item; an empty queue has come to its end once its gate is
sealed. -/
def dequeue (q : Spinning ι) : Taken ι × Spinning ι :=
  match q.items with
  | a :: rest => (.item a, { q with items := rest })
  | [] => (if q.gate.isSealed then .finished else .waiting, q)

def close (q : Spinning ι) : Spinning ι :=
  { q with gate := q.gate.close }

def drop (q : Spinning ι) : List ι :=
  popAll q.items

end Spinning

/-- A queue whose consumer waits for a condition under a lock. -/
structure Standard (ι : Type) where
  items : List ι := []
  closed : Bool := false

namespace Standard

def enqueue (q : Standard ι) (a : ι) : Bool × Standard ι :=
  if q.closed then (false, q) else (true, { q with items := q.items ++ [a] })

def rejects (q : Standard ι) (a : ι) : List ι :=
  if q.closed then [a] else []

def dequeue (q : Standard ι) : Taken ι × Standard ι :=
  match q.items with
  | a :: rest => (.item a, { q with items := rest })
  | [] => (if q.closed then .finished else .waiting, q)

def close (q : Standard ι) : Standard ι :=
  { q with closed := true }

def drop (q : Standard ι) : List ι :=
  q.items

end Standard

structure Blocking (ι : Type) where
  items : List ι := []
  gate : Gate := {}
  /-- The consumer has called once, so producers know whom to wake. -/
  registered : Bool := false
  /-- The consumer is about to park, or has parked. -/
  parked : Bool := false
  /-- A wake-up has been granted and not yet used. -/
  permit : Bool := false

namespace Blocking

def wakeIfParked (q : Blocking ι) : Blocking ι :=
  if q.parked && q.registered then { q with permit := true } else q

@[simp] theorem items_wakeIfParked (q : Blocking ι) : q.wakeIfParked.items = q.items := by
  rw [wakeIfParked]
  split <;> rfl

@[simp] theorem gate_wakeIfParked (q : Blocking ι) : q.wakeIfParked.gate = q.gate := by
  rw [wakeIfParked]
  split <;> rfl

/-- As with a gate alone; in both cases a parked consumer is woken, since it may
have been waiting for the announcement to be taken back. -/
def enqueue (q : Blocking ι) (a : ι) : Bool × Blocking ι :=
  match q.gate.enter with
  | (true, gate) => (true, { q with items := q.items ++ [a], gate := gate.release }.wakeIfParked)
  | (false, gate) => (false, { q with gate := gate.release }.wakeIfParked)

def rejects (q : Blocking ι) (a : ι) : List ι :=
  match q.gate.enter with
  | (true, _) => []
  | (false, _) => [a]

/-- A look at the front, without waiting. -/
def look (q : Blocking ι) : Taken ι × Blocking ι :=
  match q.items with
  | a :: rest => (.item a, { q with items := rest })
  | [] => (if q.gate.isSealed then .finished else .waiting, q)

/-- Looks, and looks again once it has said that it will park; if both are in
vain it is left parked. -/
def dequeue (q : Blocking ι) : Taken ι × Blocking ι :=
  match ({ q with registered := true, parked := false } : Blocking ι).look with
  | (.waiting, q) =>
    match ({ q with parked := true } : Blocking ι).look with
    | (.waiting, q) => (.waiting, { q with permit := false })
    | (taken, q) => (taken, { q with parked := false })
  | (taken, q) => (taken, q)

/-- Shuts the gate and wakes the consumer, parked or not. -/
def close (q : Blocking ι) : Blocking ι :=
  let q := { q with gate := q.gate.close }
  if q.registered then { q with permit := true } else q

def drop (q : Blocking ι) : List ι :=
  popAll q.items

end Blocking

inductive Any (ι : Type)
  | spinning (q : Spinning ι)
  | standard (q : Standard ι)
  | blocking (q : Blocking ι)

def Strategy.build (ι : Type) : Strategy → Any ι
  | .spinning => .spinning {}
  | .standard => .standard {}
  | .blocking => .blocking {}

namespace Any

def enqueue (a : ι) : Any ι → Bool × Any ι
  | spinning q => let (accepted, q) := q.enqueue a; (accepted, spinning q)
  | standard q => let (accepted, q) := q.enqueue a; (accepted, standard q)
  | blocking q => let (accepted, q) := q.enqueue a; (accepted, blocking q)

def rejects (a : ι) : Any ι → List ι
  | spinning q => q.rejects a
  | standard q => q.rejects a
  | blocking q => q.rejects a

def dequeue : Any ι → Taken ι × Any ι
  | spinning q => let (taken, q) := q.dequeue; (taken, spinning q)
  | standard q => let (taken, q) := q.dequeue; (taken, standard q)
  | blocking q => let (taken, q) := q.dequeue; (taken, blocking q)

def close : Any ι → Any ι
  | spinning q => spinning q.close
  | standard q => standard q.close
  | blocking q => blocking q.close

def isClosed : Any ι → Bool
  | spinning q => q.gate.closed
  | standard q => q.closed
  | blocking q => q.gate.closed

def items : Any ι → List ι
  | spinning q => q.items
  | standard q => q.items
  | blocking q => q.items

def drop : Any ι → List ι
  | spinning q => q.drop
  | standard q => q.drop
  | blocking q => q.drop

end Any

end Queue

end Skein
