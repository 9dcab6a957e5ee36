import Skein.Fiber.Basic
import Skein.Run.Timeline
import Skein.WorkItem

/-!
# The dispatchers at the bottom

A job is carried out either inline, on the spot, or by a fiber.  Both check the
signal, invoke the payload once and sort what came of it.  They differ in what a
panic does: inline it comes out of the dispatcher, on a fiber it is a failure of
the job.  A disposed fiber refuses the job, whatever the signal says.
-/

namespace Skein

namespace Run

inductive Base
  | inline
  | fiber
deriving DecidableEq

inductive Answer (α : Type)
  | resolved (r : Resolution α)
  | unwound (p : Panic)
  /-- The submissions that were allowed for have been made, and the job still
  goes on. -/
  | unfinished

structure Job (α : Type) where
  operation : Operation α
  /-- Was a signal passed along? A signal that was not passed is not listened
  to. -/
  listening : Bool := false

variable {α : Type}

def Job.signalled (job : Job α) (t : Timeline) : Bool :=
  job.listening && t.fired

def Answer.cancelled (reason : CancelReason) : Answer α :=
  .resolved (.error (.cancelled reason))

/-- What passes on the clock before an invocation comes to its effects. -/
def Timeline.spend (t : Timeline) (i : Invocation α) : Timeline :=
  let t := if i.yields then t.pause else t
  match i.sleeps with
  | none => t
  | some d => t.sleep d

/-- Invokes the payload.  An invocation that has begun is completed. -/
def Job.invoke (job : Job α) (takesTime : Bool) (t : Timeline) : Ending α × Timeline :=
  let i := job.operation.invocation t.calls
  let t := { t.record (.invoked t.now) with calls := t.calls + 1 }
  let t := if takesTime then t.spend i else t
  let t := if i.fires then t.fire else t
  let t := if i.disposes then t.dispose else t
  (i.ending, t.record (.completed t.now))

def Job.runInline (job : Job α) (t : Timeline) : Answer α × Timeline :=
  if job.signalled t then (.cancelled .signalled, t)
  else
    match job.invoke true t with
    | (.value a, t) => (.resolved (.ok a), t)
    | (.failure f, t) => (.resolved (.error (.ofJob f)), t)
    | (.panic p, t) => (.unwound p, t)

/-- Has a fiber carry the job out, which takes no time on the clock of the
caller.  The fiber has nothing else to do, and is disposed when the timeline says
so. -/
def Job.runOnFiber (job : Job α) (t : Timeline) : Resolution α × Timeline :=
  if t.disposed then (.error (.cancelled .fiberDisposed), t)
  else if job.signalled t then (.error (.cancelled .signalled), t)
  else
    let (ending, t) := job.invoke false t
    (ending.resolution, t.log (WorkItem.executionReport ending.resolution))

def Base.enqueue (base : Base) (job : Job α) (t : Timeline) : Answer α × Timeline :=
  match base with
  | .inline => job.runInline t
  | .fiber =>
    let (r, t) := job.runOnFiber t
    (.resolved r, t)

end Run

namespace Fiber

variable {ι α : Type}

/-- Sends a job to the fiber under a name, and has the worker take it and do with
it what its fate says; `none` if the worker comes upon something else. -/
def carryOut (f : Fiber ι) (a : ι) (job : Run.Job α) (t : Run.Timeline) :
    Option (Resolution α × Run.Timeline) :=
  match f.submit a with
  | (false, _) => some (.error (.cancelled .fiberDisposed), t)
  | (true, f) =>
    match f.take with
    | (.item _, f) =>
      match f.fate (job.signalled t) with
      | .cancel reason => some (.error (.cancelled reason), t)
      | .execute =>
        let (ending, t) := job.invoke false t
        some (ending.resolution, t.log (WorkItem.executionReport ending.resolution))
    | _ => none

end Fiber

end Skein
