import Skein.Failure.Basic

/-!
# Kinds of failure

A failure is of a kind when it, or anything along its chain, is of that type.
There is no hierarchy of types; wrapping takes its place.
-/

namespace Skein

inductive Kind
  | reported (type : String)
  | formatting
  | cancelledByJob
  | panicked
  | queueClosed
  | config
  | fiberConfig
  | malformed
  | dispatch
  /-- A bare text has no type that a search could name. -/
  | plain
deriving DecidableEq

namespace Failure

def kind : Failure → Kind
  | reported r => .reported r.type
  | caused r _ => .reported r.type
  | plain _ => .plain
  | formatting => .formatting
  | cancelledByJob => .cancelledByJob
  | panicked _ => .panicked
  | queueClosed => .queueClosed
  | malformed _ => .malformed
  | config _ => .config
  | fiberConfig _ => .fiberConfig
  | operation _ => .dispatch
  | cancelled _ => .dispatch
  | exhausted _ _ => .dispatch

def number : Failure → Nat
  | reported r => r.number
  | caused r _ => r.number
  | _ => 0

def find? (kind : Kind) (f : Failure) : Option Failure :=
  f.chain.find? (·.kind = kind)

theorem find?_self {f : Failure} : f.find? f.kind = some f := by
  unfold find?
  have h := f.head_chain
  cases hc : f.chain with
  | nil => exact absurd hc f.chain_ne_nil
  | cons g rest =>
      rw [hc] at h
      simp only [List.head?_cons, Option.some.injEq] at h
      subst h
      simp

end Failure

end Skein
