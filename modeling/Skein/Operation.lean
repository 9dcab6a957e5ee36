import Skein.Failure.Dispatch
import Skein.Millis

/-!
# Operations

An operation is a job that can be invoked again and again.  What an invocation
does may depend on how often the job was invoked before, so a payload is a
function of that number.  An invocation ends with a value, a failure or a panic;
on its way it may take time, fire the signal that was passed along, or dispose
the fiber it runs on.
-/

namespace Skein

structure Panic where
  message : Option String
deriving DecidableEq

def Panic.text (p : Panic) : String :=
  p.message.getD "non-string panic payload"

inductive Ending (α : Type)
  | value (a : α)
  | failure (f : Failure)
  | panic (p : Panic)

structure Invocation (α : Type) where
  ending : Ending α
  /-- Does an asynchronous invocation first wait for others, for no time? -/
  yields : Bool := false
  /-- The time that an asynchronous invocation sleeps then, if it sleeps at all. -/
  sleeps : Option Millis := none
  /-- Fires the signal just before it ends. -/
  fires : Bool := false
  /-- Disposes the fiber just before it ends. -/
  disposes : Bool := false

/-- What each invocation does, the first one being number zero. -/
abbrev Payload (α : Type) := Nat → Invocation α

/-- A job together with its shape: a blocking one runs on the spot, an
asynchronous one has to be driven. -/
structure Operation (α : Type) where
  async : Bool := false
  payload : Payload α

namespace Operation

variable {α : Type}

def script (first : Invocation α) (rest : List (Invocation α)) : Payload α := fun n =>
  (first :: rest).getD (min n rest.length) first

/-- Invocation number `n`.  A blocking payload has no time to spend, and waits
for nobody. -/
def invocation (op : Operation α) (n : Nat) : Invocation α :=
  if op.async then op.payload n else { op.payload n with yields := false, sleeps := none }

def describe (op : Operation α) : String :=
  if op.async then "Operation::Async(..)" else "Operation::Blocking(..)"

end Operation

/-- How a work item that ended so is resolved: a panic counts as a failure. -/
def Ending.resolution {α : Type} : Ending α → Resolution α
  | .value a => .ok a
  | .failure f => .error (.ofJob f)
  | .panic p => .error (.operation (.panicked p.text))

end Skein
