import Skein.Retry.Matcher
import Skein.Retry.Wait

/-!
# Retry policies

A policy says which failures are retried, how long to wait before each retry,
and how many retries there may be.  It is put together by a builder, which
becomes a policy once the limit is set.
-/

namespace Skein

namespace Retry

structure Policy where
  matcher : Matcher
  wait : Wait := .none
  /-- The greatest number of retries; without one there is no limit. -/
  limit : Option UInt32

structure Builder where
  matcher : Matcher
  wait : Wait := .none

namespace Builder

def matchAll : Builder :=
  { matcher := .all }

def matching (kind : Kind) : Builder :=
  { matcher := .ofKind kind }

def matchingKindWhere (kind : Kind) (condition : Failure → Bool) : Builder :=
  { matcher := .kindWhere kind condition }

def matchingWhere (rule : Failure → Bool) : Builder :=
  { matcher := .predicate rule }

def and (b : Builder) (kind : Kind) : Builder :=
  { b with matcher := b.matcher.orKind kind }

def withStrategy (b : Builder) (wait : Wait) : Builder :=
  { b with wait := wait }

def withWait (b : Builder) (d : Millis) : Builder :=
  b.withStrategy (.fixed d)

def withSequence (b : Builder) (ds : List Millis) : Builder :=
  b.withStrategy (.sequence ds)

def withFunction (b : Builder) (f : UInt32 → Millis) : Builder :=
  b.withStrategy (.function f)

def forever (b : Builder) : Policy :=
  { matcher := b.matcher, wait := b.wait, limit := none }

/-- Allows at most `n` retries, that is `n + 1` attempts. -/
def withMaxRetries (b : Builder) (n : UInt32) : Policy :=
  { matcher := b.matcher, wait := b.wait, limit := some n }

def describe (b : Builder) : String :=
  s!"RetryPolicyBuilder \x7b matcher: {b.matcher.describe}, wait: {b.wait.describe} \x7d"

end Builder

namespace Policy

/-- After `n` retries, may there be no more? -/
def limitReached (p : Policy) (n : UInt32) : Bool :=
  match p.limit with
  | none => false
  | some most => most ≤ n

def describeLimit : Option UInt32 → String
  | none => "Unlimited"
  | some n => s!"Max({n.toNat})"

def describe (p : Policy) : String :=
  s!"RetryPolicy \x7b config: PolicyConfig \x7b matcher: {p.matcher.describe}, wait: {p.wait.describe}, limit: " ++
    describeLimit p.limit ++ " \x7d, .. \x7d"

end Policy

end Retry

end Skein
