import Skein.Operation

/-!
# Actors

An actor is a state that only its fiber touches.  A message is a function on the
state; it is sent to the fiber as a job that keeps the function until it is
carried out, and can be carried out once.
-/

namespace Skein

namespace Actor

/-- What a message answers, and what it leaves of the state.  One that panics may
have changed the state before. -/
abbrev Message (σ α : Type) := σ → Except Panic α × σ

variable {σ α : Type}

def Message.of (f : σ → α × σ) : Message σ α := fun s =>
  let (a, s) := f s
  (.ok a, s)

/-- How the job of a message ends that has nothing to carry out any more. -/
def deliveredTwice : Failure :=
  .plain "actor message delivered twice"

/-- Carries out the message that a job has kept, if it still has one: how the job
ends, and what becomes of the state.  Nothing is kept after that. -/
def invoke (kept : Option (Message σ α)) (s : σ) : Ending α × σ :=
  match kept with
  | none => (.failure deliveredTwice, s)
  | some message =>
    match message s with
    | (.ok a, s) => (.value a, s)
    | (.error p, s) => (.panic p, s)

end Actor

end Skein
