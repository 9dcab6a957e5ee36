import Skein.Actor
import Skein.Fiber.Race

/-!
# An actor and those who send to it

A message that is sent to an actor is an item of its fiber.  Asking and telling
send it in the same way, and so does every clone of the actor, since they share
the fiber and the state; to stop the actor is to dispose the fiber.  Only the
execution of an item touches the state, and nobody sees the state in the middle
of one, so a message does what it does when its execution ends.
-/

namespace Skein

namespace Actor

/-- All that a schedule leaves open.  An item stands for one call that sends a
message. -/
structure Plan (ι σ α : Type) where
  config : Fiber.Config := {}
  hookPanics : Bool := false
  start : σ
  message : ι → Message σ α
  request : Nat → Fiber.Request := fun _ => .dispose false

structure Race (ι σ α : Type) where
  fiber : Fiber.Race ι α := {}
  state : σ
  /-- The messages that have not been carried out. -/
  kept : ι → Option (Message σ α)

variable {ι σ α : Type} (plan : Plan ι σ α)

def Plan.build : Race ι σ α :=
  { state := plan.start, kept := fun a => some (plan.message a) }

/-- What each item would come to if it were executed now.  Messages are sent
without signals. -/
def Plan.now (s : Race ι σ α) : Fiber.Plan ι α where
  config := plan.config
  hookPanics := plan.hookPanics
  operation a := { payload := fun _ => { ending := (invoke (s.kept a) s.state).1 } }
  request := plan.request

namespace Race

variable [DecidableEq ι]

def step (s : Race ι σ α) (agent : Fiber.Agent ι) : Race ι σ α :=
  let fiber := s.fiber.step (plan.now s) agent
  match agent, s.fiber.worker with
  | .worker, .running a =>
    { fiber
      state := (invoke (s.kept a) s.state).2
      kept := Function.update s.kept a none }
  | _, _ => { s with fiber }

def run (s : Race ι σ α) (schedule : List (Fiber.Agent ι)) : Race ι σ α :=
  schedule.foldl (step plan) s

theorem run_append (s : Race ι σ α) (first rest : List (Fiber.Agent ι)) :
    s.run plan (first ++ rest) = (s.run plan first).run plan rest :=
  List.foldl_append

end Race

end Actor

end Skein
