import Skein.Run.Stack

/-!
# Fire and forget

A job that is dispatched is carried out like a submitted one, but nobody waits
for it: whoever ends up with a failure reports it.  A policy moves the whole run
off the caller, onto the caller's executor when that has workers of its own and
onto a short-lived thread otherwise; so does the inline dispatcher with an
asynchronous job.
-/

namespace Skein

namespace Run

open Retry

inductive Caller
  /-- A thread without an executor. -/
  | plain
  /-- Inside an executor that has one thread, the caller's. -/
  | singleThreaded
  /-- Inside an executor with workers of its own. -/
  | pooled
  | fiber
  | fiberAsync
deriving DecidableEq

inductive Place
  | caller
  | detached
  | pool
  | fiber
deriving DecidableEq

def Caller.away : Caller → Place
  | .pooled => .pool
  | _ => .detached

variable {α : Type}

def inlineEntry (f : Failure) : Log.Entry :=
  { level := .warn, origin := .inline, message := "inline dispatch failed"
    fields := [("error", .text f.text)] }

def dispatchEntry (e : DispatchError) : Log.Entry :=
  { level := .warn, origin := .policy, message := "retried dispatch failed"
    fields := [("error", .text e.text)] }

/-- What a policy reports of a run that nobody waits for. -/
def dispatchReport : Answer α → List Log.Entry
  | .resolved (.error e) => if e.isCancelled then [] else [dispatchEntry e]
  | _ => []

def Job.dispatchInline (job : Job α) (t : Timeline) : Option Panic × Timeline :=
  if job.signalled t then (none, t)
  else
    match job.invoke true t with
    | (.value _, t) => (none, t)
    | (.failure f, t) => (none, t.log [inlineEntry f])
    | (.panic p, t) => (some p, t)

def place (layers : List Policy) (base : Base) (caller : Caller) (job : Job α) : Place :=
  match base, layers with
  | .fiber, _ => .fiber
  | .inline, _ :: _ => caller.away
  | .inline, [] => if job.operation.async then caller.away else .caller

/-- Dispatches a job to a stack of policies.  The panic that comes out to the
caller is that of a blocking job with no policy and no fiber between. -/
def dispatch (layers : List Policy) (base : Base) (job : Job α) (allowance : Nat) (t : Timeline) :
    Option Panic × Timeline :=
  match layers, base with
  | p :: rest, base =>
    let (answer, t) := enqueue (p :: rest) base job allowance t
    (none, t.log (dispatchReport answer))
  | [], .inline =>
    let (panic, t) := job.dispatchInline (t.record (.given 0))
    (if job.operation.async then none else panic, t)
  | [], .fiber =>
    let (r, t) := job.runOnFiber (t.record (.given 0))
    (none, t.log (WorkItem.unobservedReport r))

end Run

end Skein
