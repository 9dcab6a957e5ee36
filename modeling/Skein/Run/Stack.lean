import Skein.Run.Base
import Skein.Retry.Policy

/-!
# Running a job through a stack of policies

A policy submits the job to the dispatcher below it until an attempt ends in a
way that is not to be retried.  Layers nest: for each of them the layer below is
the dispatcher, and all of them hand on the same job and listen to the same
signal.

A policy without a limit may go on for ever.  The number of submissions that each
layer may make is therefore given from outside; a run that would need more is
`unfinished`.
-/

namespace Skein

namespace Run

open Retry

variable {α : Type}

def retryingEntry (attempt : UInt32) (delay : Millis) (e : DispatchError) : Log.Entry :=
  { level := .warn, origin := .policy, message := "attempt failed, retrying"
    fields := [("attempt", .count (attempt + 1).toNat),
      ("delay_ms", .count (min delay (UInt64.size - 1))), ("error", .text e.text)] }

def limitEntry (attempt : UInt32) (e : DispatchError) : Log.Entry :=
  { level := .warn, origin := .policy, message := "retry limit reached"
    fields := [("attempts", .count (attempt + 1).toNat), ("error", .text e.text)] }

/-- The report of a success that took more than one attempt. -/
def successEntry (attempt : UInt32) : Log.Entry :=
  { level := .debug, origin := .policy, message := "operation succeeded after retry"
    fields := [("attempts", .count (attempt + 1).toNat)] }

abbrev Dispatcher (α : Type) := Timeline → Answer α × Timeline

inductive Verdict (α : Type)
  | finish (r : Resolution α)
  | retry (e : DispatchError)

/-- Judges an attempt.  A success and a cancellation end the run, as does a
failure that the matcher rejects; a signal that has fired goes before the limit. -/
def judge (p : Policy) (signalled : Bool) (attempt : UInt32) : Resolution α → Verdict α
  | .ok a => .finish (.ok a)
  | .error e =>
    if e.isCancelled then .finish (.error e)
    else if !p.matcher.accepts e.failure then .finish (.error e)
    else if signalled then .finish (.error (.cancelled .signalled))
    else if p.limitReached attempt then .finish (.error (.exhausted (countOn attempt) e.intoCause))
    else .retry e

def closingReport (p : Policy) (signalled : Bool) (attempt : UInt32) : Resolution α → List Log.Entry
  | .ok _ => if attempt = 0 then [] else [successEntry attempt]
  | .error e =>
    if !e.isCancelled && p.matcher.accepts e.failure && !signalled && p.limitReached attempt then
      [limitEntry attempt e]
    else []

/-- Notes that a failed attempt will be retried: the wait function is asked for
the delay, and the retry is reported. -/
def announceRetry (p : Policy) (depth : Nat) (attempt : UInt32) (e : DispatchError) (t : Timeline) :
    Timeline :=
  let t := match p.wait.argument? attempt with
    | some n => t.record (.asked depth n)
    | none => t
  t.log [retryingEntry attempt (p.wait.delay attempt) e]

/-- What lies between a failed attempt and the next one.  Says whether the signal
ended the delay. -/
def pauseAfter (p : Policy) (listening : Bool) (depth : Nat) (attempt : UInt32) (e : DispatchError)
    (t : Timeline) : Bool × Timeline :=
  (announceRetry p depth attempt e t).backoff listening (p.wait.delay attempt)

/-- Attempt after attempt, from attempt number `attempt` on. -/
def attempts (p : Policy) (job : Job α) (depth : Nat) (inner : Dispatcher α) :
    Nat → UInt32 → Dispatcher α
  | 0, _, t => (.unfinished, t)
  | allowance + 1, attempt, t =>
    if job.signalled t then (.cancelled .signalled, t)
    else
      match inner t with
      | (.resolved r, t) =>
        match judge p (job.signalled t) attempt r with
        | .finish final => (.resolved final, t.log (closingReport p (job.signalled t) attempt r))
        | .retry e =>
          match pauseAfter p job.listening depth attempt e t with
          | (true, t) => (.cancelled .signalled, t)
          | (false, t) => attempts p job depth inner allowance (countOn attempt) t
      | (other, t) => (other, t)

def submit (base : Base) (job : Job α) (allowance : Nat) : Nat → List Policy → Dispatcher α
  | depth, [], t => base.enqueue job (t.record (.given depth))
  | depth, p :: layers, t =>
    attempts p job depth (submit base job allowance (depth + 1) layers) allowance 0
      (t.record (.given depth))

def enqueue (layers : List Policy) (base : Base) (job : Job α) (allowance : Nat) : Dispatcher α :=
  submit base job allowance 0 layers

end Run

end Skein
