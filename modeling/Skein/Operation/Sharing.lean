import Skein.Operation

/-!
# Sharing an operation

A shared operation can be forwarded: each forwarding operation has the shape of
the operation that was shared, and all of them invoke its one payload.  A retry
policy submits a new forwarding operation for every attempt, and policies nest,
so forwarding operations may be shared again.

Sharing puts an operation behind a lock, and whoever invokes it through a
forwarding operation holds the lock meanwhile.  A lock is let go again whichever
way the invocation ends, and a panic leaves no mark on it; but whoever wants one
that is held waits until it is free.  Of an asynchronous payload it is the
invocation that takes place behind the locks: driving what was invoked to its
end does not.
-/

namespace Skein

namespace Operation

/-- What is held: an operation that can be attempted, or a shared one that can
be cloned and forwarded. -/
inductive Form
  | attemptable
  | shared
deriving DecidableEq

structure Common where
  /-- How often the payload has been invoked. -/
  calls : Nat := 0
  /-- The locks that are held. -/
  held : List Nat := []
deriving DecidableEq

inductive Derived : Form → Type
  | given : Derived .attemptable
  /-- Puts the operation behind the lock of this number. -/
  | share (lock : Nat) (of : Derived .attemptable) : Derived .shared
  | clone (of : Derived .shared) : Derived .shared
  | forward (of : Derived .shared) : Derived .attemptable

namespace Derived

variable {α : Type}

def async (op : Operation α) {form : Form} : Derived form → Bool
  | given => op.async
  | share _ of => of.async op
  | clone of => of.async op
  | forward of => of.async op

/-- Invokes the payload behind the derivation, which has been invoked `calls`
times before: how the invocation ends, and how often the payload has been
invoked then. -/
def invoke (op : Operation α) (calls : Nat) {form : Form} : Derived form → Ending α × Nat
  | given => ((op.invocation calls).ending, calls + 1)
  | share _ of => of.invoke op calls
  | clone of => of.invoke op calls
  | forward of => of.invoke op calls

/-- Invokes a blocking payload; an asynchronous one is left alone. -/
def invokeBlocking (op : Operation α) (calls : Nat) (d : Derived .attemptable) :
    Option (Ending α) × Nat :=
  if d.async op then (none, calls)
  else
    let (ending, calls) := d.invoke op calls
    (some ending, calls)

/-- Invokes the payload through the locks of the derivation.  There is no answer
if one of them is held: nobody is left to let it go. -/
def attempt (op : Operation α) (c : Common) {form : Form} : Derived form → Option (Ending α × Common)
  | given => some ((op.invocation c.calls).ending, { c with calls := c.calls + 1 })
  | share lock of =>
    if c.held.contains lock then none
    else
      (of.attempt op { c with held := lock :: c.held }).map fun (ending, c) =>
        (ending, { c with held := c.held.erase lock })
  | clone of => of.attempt op c
  | forward of => of.attempt op c

/-- Attempts a blocking operation; an asynchronous one is left alone. -/
def attemptBlocking (op : Operation α) (c : Common) (d : Derived .attemptable) :
    Option (Option (Ending α) × Common) :=
  if d.async op then some (none, c)
  else (d.attempt op c).map fun (ending, c) => (some ending, c)

end Derived

end Operation

end Skein
