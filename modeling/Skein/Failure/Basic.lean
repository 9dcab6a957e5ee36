import Skein.Json.Position

/-!
# Failures

A failure is an error that a job ends with.  It may wrap another one, and the
failures met by going from each to the one it wraps are its chain.
`Failure.chain` is how everybody else looks inside a failure: a matcher searches
it, and a report prints it.

A failure about a fiber's configuration stands for the configuration error it
holds: it shows that error's text, and its chain goes on with what that error
wraps, not with the error itself.
-/

namespace Skein

inductive CancelReason
  /-- The signal fired before the job started, or while a retry was waited for. -/
  | signalled
  /-- The job itself reported that it had seen its signal. -/
  | cooperative
  /-- The job was sent to a disposed fiber, or was still queued there. -/
  | fiberDisposed
  /-- The job was dropped without ever being resolved. -/
  | abandoned
deriving DecidableEq

def CancelReason.text : CancelReason → String
  | .signalled => "cancellation signalled"
  | .cooperative => "cancelled by the operation"
  | .fiberDisposed => "fiber disposed"
  | .abandoned => "work item abandoned"

inductive ConfigError
  | parse (refusal : Json.Refusal)
  | invalid (why : String)
deriving DecidableEq

def ConfigError.text : ConfigError → String
  | .parse refusal => "failed to parse config: " ++ refusal.text
  | .invalid why => "invalid config: " ++ why

structure Report where
  type : String
  text : String
  number : Nat := 0
deriving DecidableEq

namespace Report

def timeout (ms : Nat) : Report :=
  { type := "timeout", text := s!"timeout after {ms}ms", number := ms }

def http (code : Nat) : Report :=
  { type := "http", text := s!"http {code}", number := code }

def refused : Report :=
  { type := "refused", text := "refused" }

def transient : Report :=
  { type := "transient", text := "transient" }

def fatal : Report :=
  { type := "fatal", text := "fatal" }

def wrap (text : String) : Report :=
  { type := "wrap", text := text }

end Report

inductive Failure
  | reported (report : Report)
  | caused (report : Report) (source : Failure)
  | plain (text : String)
  | formatting
  | cancelledByJob
  | panicked (message : String)
  | queueClosed
  | malformed (refusal : Json.Refusal)
  | config (error : ConfigError)
  /-- A fiber could not be built because of its configuration. -/
  | fiberConfig (error : ConfigError)
  | operation (cause : Failure)
  | cancelled (reason : CancelReason)
  /-- A dispatch whose retries ran out; `last` is the failure of the last
  attempt. -/
  | exhausted (attempts : UInt32) (last : Failure)
deriving DecidableEq

namespace Failure

/-- The failure in words.  The words of a wrapped failure belong to it only where
a dispatch passes it on. -/
def text : Failure → String
  | reported r => r.text
  | caused r _ => r.text
  | plain t => t
  | formatting => "an error occurred when formatting an argument"
  | cancelledByJob => "operation observed cancellation"
  | panicked message => s!"payload panicked: {message}"
  | queueClosed => "queue is closed"
  | malformed refusal => refusal.text
  | config e => e.text
  | fiberConfig e => e.text
  | operation cause => "operation failed: " ++ cause.text
  | cancelled reason => "operation cancelled: " ++ reason.text
  | exhausted attempts last =>
    s!"retry policy exhausted after {attempts.toNat} attempts: " ++ last.text

def ofConfig : ConfigError → List Failure
  | .parse refusal => [malformed refusal]
  | .invalid _ => []

def chain : Failure → List Failure
  | caused r source => caused r source :: source.chain
  | config e => config e :: ofConfig e
  | fiberConfig e => fiberConfig e :: ofConfig e
  | operation cause => operation cause :: cause.chain
  | exhausted attempts last => exhausted attempts last :: last.chain
  | f => [f]

def source? : Failure → Option Failure
  | caused _ source => some source
  | config e => (ofConfig e).head?
  | fiberConfig e => (ofConfig e).head?
  | operation cause => some cause
  | exhausted _ last => some last
  | _ => none

theorem chain_ne_nil (f : Failure) : f.chain ≠ [] := by
  cases f <;> simp [chain]

theorem head_chain (f : Failure) : f.chain.head? = some f := by
  cases f <;> simp [chain]

/-- The chain goes on with the chain of what the failure wraps. -/
theorem tail_chain (f : Failure) : f.chain.tail = (f.source?.map chain).getD [] := by
  cases f with
  | config e => cases e <;> simp [chain, source?, ofConfig]
  | fiberConfig e => cases e <;> simp [chain, source?, ofConfig]
  | _ => simp [chain, source?]

end Failure

end Skein
