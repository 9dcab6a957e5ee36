import Skein.Run.Stack

/-!
# A policy among others

A policy does not work alone.  Anybody may fire the signal at any moment, and the
dispatcher below the policy answers a submission when it likes and as it likes.  Here
the policy goes step by step between them, with a step for each time that it looks at
the signal.

A delay that lasts is over when its time has passed or when the signal is heard,
whichever the policy notices first.  If both have come, it may notice the passing of
time, and then it finds the signal at its next look.  Where there is no delay, the
policy looks at the signal instead of waiting.
-/

namespace Skein

namespace Run

open Retry

variable {α : Type}

inductive Stage (α : Type)
  /-- It is about to look at the signal before attempt number `n`. -/
  | ready (n : UInt32)
  /-- Attempt number `n` is with the dispatcher below. -/
  | submitted (n : UInt32)
  /-- It waits after attempt number `n`. -/
  | pausing (n : UInt32)
  | finished (final : Resolution α)

inductive Move (α : Type)
  /-- Somebody fires the signal. -/
  | fire
  /-- The policy submits the job, unless it finds the signal fired. -/
  | submit
  /-- The dispatcher below answers. -/
  | answer (r : Resolution α)
  /-- The delay has passed. -/
  | wake
  /-- The policy hears the signal while it waits. -/
  | interrupt

structure Layer (α : Type) where
  stage : Stage α := .ready 0
  fired : Bool := false
  submissions : Nat := 0
  /-- The answers of the dispatcher below, in order. -/
  answers : List (Resolution α) := []
  /-- What the policy has reported, in order. -/
  log : List Log.Entry := []

namespace Layer

def stop (s : Layer α) : Layer α :=
  { s with stage := .finished (.error (.cancelled .signalled)) }

def take (p : Policy) (signalled : Bool) (n : UInt32) (r : Resolution α) (s : Layer α) : Layer α :=
  match judge p signalled n r with
  | .finish final =>
    { s with stage := .finished final
             answers := s.answers ++ [r]
             log := s.log ++ closingReport p signalled n r }
  | .retry e =>
    { s with stage := .pausing n
             answers := s.answers ++ [r]
             log := s.log ++ [retryingEntry n (p.wait.delay n) e] }

/-- A move that is not the policy's or the dispatcher's to make now changes nothing. -/
def step (p : Policy) (listening : Bool) (s : Layer α) (move : Move α) : Layer α :=
  let signalled := listening && s.fired
  match move, s.stage with
  | .fire, _ => { s with fired := true }
  | .submit, .ready n =>
    if signalled then s.stop
    else { s with stage := .submitted n, submissions := s.submissions + 1 }
  | .answer r, .submitted n => s.take p signalled n r
  | .wake, .pausing n =>
    if p.wait.delay n = 0 ∧ signalled then s.stop else { s with stage := .ready (countOn n) }
  | .interrupt, .pausing _ => if signalled then s.stop else s
  | _, _ => s

def run (p : Policy) (listening : Bool) (s : Layer α) (moves : List (Move α)) : Layer α :=
  moves.foldl (step p listening) s

@[simp] theorem run_nil (p : Policy) (listening : Bool) (s : Layer α) :
    s.run p listening [] = s := rfl

@[simp] theorem run_cons (p : Policy) (listening : Bool) (s : Layer α) (move : Move α)
    (rest : List (Move α)) :
    s.run p listening (move :: rest) = (s.step p listening move).run p listening rest := rfl

theorem run_append (p : Policy) (listening : Bool) (s : Layer α) (first rest : List (Move α)) :
    s.run p listening (first ++ rest) = (s.run p listening first).run p listening rest :=
  List.foldl_append

end Layer

end Run

end Skein
