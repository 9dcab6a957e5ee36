import Skein.Failure.Kind

/-!
# How a dispatch fails

Whoever submits a job sees one of three errors: the job's own failure, a
cancellation with its reason, or the exhaustion of a retry policy, which keeps
the last failure that was worth retrying.
-/

namespace Skein

inductive DispatchError
  | operation (cause : Failure)
  | cancelled (reason : CancelReason)
  | exhausted (attempts : UInt32) (last : Failure)
deriving DecidableEq

abbrev Resolution (α : Type) := Except DispatchError α

namespace DispatchError

def asFailure : DispatchError → Failure
  | operation cause => .operation cause
  | cancelled reason => .cancelled reason
  | exhausted attempts last => .exhausted attempts last

def text (e : DispatchError) : String :=
  e.asFailure.text

/-- Sorts a job's own failure: a job that saw its signal was cancelled, any
other failed. -/
def ofJob : Failure → DispatchError
  | .cancelledByJob => cancelled .cooperative
  | f => operation f

/-- Was the job cancelled? A cancellation is never retried. -/
def isCancelled : DispatchError → Bool
  | cancelled _ => true
  | _ => false

def isExhausted : DispatchError → Bool
  | exhausted _ _ => true
  | _ => false

def reason? : DispatchError → Option CancelReason
  | cancelled reason => some reason
  | _ => none

/-- What a matcher judges: the job's failure where there is one, and otherwise
the dispatch error itself, whose chain still leads to the job's failure. -/
def failure : DispatchError → Failure
  | operation cause => cause
  | e => e.asFailure

def cause? : DispatchError → Option Failure
  | operation cause => some cause
  | exhausted _ last => some last
  | cancelled _ => none

def causeOf? (kind : Kind) (e : DispatchError) : Option Failure :=
  e.cause?.filter (·.kind = kind)

/-- What an outer policy keeps of the error when it is exhausted: the job's
failure itself where there is one. -/
def intoCause : DispatchError → Failure
  | operation cause => cause
  | e => e.asFailure

@[simp] theorem intoCause_eq_failure (e : DispatchError) : e.intoCause = e.failure := by
  cases e <;> rfl

end DispatchError

end Skein
