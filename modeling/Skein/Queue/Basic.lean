/-!
# Queues

Many producers put items into a queue and one consumer takes them out.  Seen from
outside, a queue is a list with a closed flag: a closed queue refuses new items
at once and still gives out those it holds; the consumer is told that no more
will come when it is closed and empty.  A queue that is dropped rejects what it
still holds.

The strategies of `Skein.Queue.Strategy` differ only in how the consumer waits.
-/

namespace Skein

structure Queue (ι : Type) where
  items : List ι := []
  closed : Bool := false
deriving DecidableEq

inductive Taken (ι : Type)
  | item (a : ι)
  /-- The queue is closed and empty. -/
  | finished
  /-- The queue is empty and open: the consumer would wait. -/
  | waiting
deriving DecidableEq

namespace Queue

variable {ι : Type}

/-- Appends an item, unless the queue is closed.  Says whether the item was
accepted. -/
def enqueue (q : Queue ι) (a : ι) : Bool × Queue ι :=
  if q.closed then (false, q) else (true, { q with items := q.items ++ [a] })

def dequeue (q : Queue ι) : Taken ι × Queue ι :=
  match q.items with
  | a :: rest => (.item a, { q with items := rest })
  | [] => (if q.closed then .finished else .waiting, q)

def close (q : Queue ι) : Queue ι :=
  { q with closed := true }

@[simp] theorem items_close (q : Queue ι) : q.close.items = q.items := rfl

@[simp] theorem closed_close (q : Queue ι) : q.close.closed = true := rfl

theorem close_close (q : Queue ι) : q.close.close = q.close := rfl

end Queue

end Skein
