import Skein.Queue.Strategy

/-!
# Sessions with a queue

Steps are done one after the other, and one consumer does all the taking.  A
consumer may be left waiting; the next item or the close then ends its wait at
once.
-/

namespace Skein

namespace Session

namespace Queues

inductive Step (ι : Type)
  | enqueue (a : ι)
  | dequeue
  | startWait
  | close

inductive Reply (ι : Type)
  | ok
  | queueClosed
  | taken (t : Taken ι)
  | waiting
  | closed
  | refused (why : String)

structure State (ι : Type) where
  queue : Queue.Any ι
  waiting : Bool := false
  rejected : List ι := []

structure Report (ι : Type) where
  reply : Reply ι
  consumerGot : Option (Taken ι)
  after : State ι

namespace State

variable {ι : Type}

def wouldWait (s : State ι) : Bool :=
  s.queue.items.isEmpty && !s.queue.isClosed

def wake (s : State ι) : Option (Taken ι) × State ι :=
  if s.waiting then
    match s.queue.dequeue with
    | (.waiting, queue) => (none, { s with queue := queue })
    | (taken, queue) => (some taken, { s with queue := queue, waiting := false })
  else (none, s)

def step (s : State ι) : Step ι → Report ι
  | .enqueue a =>
    match s.queue.enqueue a with
    | (true, queue) =>
      let (got, s) := { s with queue := queue }.wake
      { reply := .ok, consumerGot := got, after := s }
    | (false, queue) =>
      { reply := .queueClosed, consumerGot := none
        after := { s with queue := queue, rejected := s.queue.rejects a ++ s.rejected } }
  | .close =>
    let (got, s) := { s with queue := s.queue.close }.wake
    { reply := .closed, consumerGot := got, after := s }
  | .dequeue =>
    if s.waiting then { reply := .refused "consumer waiting", consumerGot := none, after := s }
    else if s.wouldWait then { reply := .taken .waiting, consumerGot := none, after := s }
    else
      let (taken, queue) := s.queue.dequeue
      { reply := .taken taken, consumerGot := none, after := { s with queue := queue } }
  | .startWait =>
    if !s.waiting && s.wouldWait then
      { reply := .waiting, consumerGot := none
        after := { s with queue := s.queue.dequeue.2, waiting := true } }
    else { reply := .refused "would not wait", consumerGot := none, after := s }

def run (s : State ι) : List (Step ι) → List (Report ι) × State ι
  | [] => ([], s)
  | st :: rest =>
    let report := s.step st
    let (reports, s) := run report.after rest
    (report :: reports, s)

/-- All rejected items in order, once the queue is dropped: those it still holds
come last. -/
def allRejected (s : State ι) : List ι :=
  s.rejected.reverse ++ s.queue.drop

end State

end Queues

end Session

end Skein
