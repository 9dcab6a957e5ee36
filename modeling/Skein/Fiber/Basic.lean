import Skein.Failure.Basic
import Skein.Queue.Strategy

/-!
# Fibers

A fiber is one worker that takes items from its queue and executes them one at a
time.  It is active until somebody closes it; from then on items are no longer
executed, neither new ones nor those still queued, and once the worker has gone
through them the fiber is disposed.
-/

namespace Skein

namespace Fiber

inductive State
  | active
  /-- The queue is closed; an item that had begun may still be running. -/
  | disposing
  | disposed
deriving DecidableEq

def State.describe : State → String
  | active => "Active"
  | disposing => "Disposing"
  | disposed => "Disposed"

end Fiber

structure Fiber (ι : Type) where
  state : Fiber.State := .active
  queue : Queue.Any ι
  /-- Has an item been executed? Until then the worker's thread is not known to
  anybody. -/
  started : Bool := false

namespace Fiber

inductive Fate
  | execute
  | cancel (reason : CancelReason)
deriving DecidableEq

variable {ι : Type}

def start (strategy : Queue.Strategy) : Fiber ι :=
  { queue := strategy.build ι }

/-- Sends an item to the fiber.  An item that is refused is cancelled on the
spot. -/
def submit (f : Fiber ι) (item : ι) : Bool × Fiber ι :=
  let (accepted, queue) := f.queue.enqueue item
  (accepted, { f with queue := queue })

def pending (f : Fiber ι) : Nat :=
  f.queue.items.length

def close (f : Fiber ι) : Fiber ι :=
  match f.state with
  | .active => { f with state := .disposing, queue := f.queue.close }
  | _ => f

def take (f : Fiber ι) : Taken ι × Fiber ι :=
  let (taken, queue) := f.queue.dequeue
  (taken, { f with queue := queue })

/-- What becomes of an item: a fiber that is no longer active executes nothing,
and an item whose signal has fired is not begun. -/
def fate (f : Fiber ι) (signalled : Bool) : Fate :=
  if f.state ≠ .active then .cancel .fiberDisposed
  else if signalled then .cancel .signalled
  else .execute

def begin (f : Fiber ι) : Fiber ι :=
  { f with started := true }

def leave (f : Fiber ι) : Fiber ι :=
  { f with state := .disposed, queue := f.queue.close }

end Fiber

end Skein
