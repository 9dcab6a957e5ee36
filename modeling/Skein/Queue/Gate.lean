/-!
# The gate of a queue without locks

A producer announces itself before it looks at the closed flag, and takes the
announcement back when its item is in the queue or refused.  The consumer
believes that a closed and empty queue stays empty only when no producer is
announced.
-/

namespace Skein

namespace Queue

structure Gate where
  closed : Bool := false
  inFlight : Nat := 0
deriving DecidableEq

namespace Gate

def announce (g : Gate) : Gate :=
  { g with inFlight := g.inFlight + 1 }

/-- Announces a producer and tells it whether the gate is open. -/
def enter (g : Gate) : Bool × Gate :=
  let g := g.announce
  (!g.closed, g)

def release (g : Gate) : Gate :=
  { g with inFlight := g.inFlight - 1 }

def close (g : Gate) : Gate :=
  { g with closed := true }

/-- Closed, and nobody on the way in. -/
def isSealed (g : Gate) : Bool :=
  g.closed && g.inFlight == 0

@[simp] theorem release_announce (g : Gate) : g.announce.release = g := rfl

@[simp] theorem release_enter (g : Gate) : g.enter.2.release = g := rfl

end Gate

end Queue

end Skein
