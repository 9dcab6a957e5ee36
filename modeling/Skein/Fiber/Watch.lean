import Skein.Fiber.Race

/-!
# A fiber and the completions of its items

A call that submits an item gets the item's completion, and whoever has it may
drop it.  A call that fires an item drops it as soon as the submission has
returned; a message that is told to an actor and a job that is dispatched to a
fiber are fired items.

By then the item is with the fiber, and the worker may have come to it.  So
dropping a completion is a step of its own beside the steps of the race.  A
resolution is handed over in one step, the worker's for an item that it has taken,
and the submitting call's for one that is refused.
-/

namespace Skein

namespace Fiber

inductive Note (ι : Type)
  | dropped (a : ι)
  | handed (a : ι)
  | logged (a : ι) (entry : Log.Entry)
deriving DecidableEq

inductive Watcher (ι : Type)
  | fiber (agent : Agent ι)
  | holder (a : ι)
deriving DecidableEq

structure Watch (ι α : Type) where
  race : Race ι α := {}
  handles : ι → Option (Completion α) := fun _ => some .pending
  notes : List (Note ι) := []

variable {ι α : Type}

namespace Worker

def handsOver : Worker ι α → Option (ι × Resolution α)
  | resolving _ a r => some (a, r)
  | _ => none

def reports (plan : Plan ι α) : Worker ι α → List (Note ι)
  | running a => (WorkItem.executionReport (plan.outcome a)).map (.logged a)
  | _ => []

end Worker

def refusal (a : ι) : Queue.Offer → Option (ι × Resolution α)
  | .rejecting => some (a, cancelled .fiberDisposed)
  | _ => none

namespace Race

def handsOver (s : Race ι α) : Agent ι → Option (ι × Resolution α)
  | .worker => s.worker.handsOver
  | .submitter a => refusal a (s.line.offers a)
  | _ => none

def reports (plan : Plan ι α) (s : Race ι α) : Agent ι → List (Note ι)
  | .worker => s.worker.reports plan
  | _ => []

end Race

namespace Watch

variable [DecidableEq ι]

def warnings (s : Watch ι α) (a : ι) : List Log.Entry :=
  s.notes.filterMap fun
    | .logged b entry => if b = a ∧ entry.level = .warn then some entry else none
    | _ => none

/-- Hands the resolution of an item over, or reports it where nobody is there to
take it. -/
def handOver (s : Watch ι α) (a : ι) (r : Resolution α) : Watch ι α :=
  let (handle, entries) := WorkItem.handOver (s.handles a) r
  { s with
    handles := Function.update s.handles a handle
    notes := s.notes ++ .handed a :: entries.map (.logged a) }

/-- Drops the completion of an item.  There is none to be dropped before the call
that submits the item has returned. -/
def drop (s : Watch ι α) (a : ι) : Watch ι α :=
  match s.race.line.offers a, s.handles a with
  | .returned _, some _ =>
    { s with handles := Function.update s.handles a none, notes := s.notes ++ [.dropped a] }
  | _, _ => s

variable (plan : Plan ι α)

/-- A step of the race and the report that goes with it, before anything is handed
over. -/
def goOn (s : Watch ι α) (agent : Agent ι) : Watch ι α :=
  { s with race := s.race.step plan agent, notes := s.notes ++ s.race.reports plan agent }

def step (s : Watch ι α) : Watcher ι → Watch ι α
  | .holder a => s.drop a
  | .fiber agent =>
    match s.race.handsOver agent with
    | some (a, r) => (s.goOn plan agent).handOver a r
    | none => s.goOn plan agent

def run (s : Watch ι α) (schedule : List (Watcher ι)) : Watch ι α :=
  schedule.foldl (step plan) s

@[simp] theorem run_nil (s : Watch ι α) : s.run plan [] = s := rfl

@[simp] theorem run_cons (s : Watch ι α) (w : Watcher ι) (rest : List (Watcher ι)) :
    s.run plan (w :: rest) = (s.step plan w).run plan rest := rfl

/-- What every step preserves holds after every schedule. -/
theorem run_preserves {plan : Plan ι α} {P : Watch ι α → Prop}
    (hstep : ∀ s w, P s → P (s.step plan w)) {s : Watch ι α} (hs : P s)
    (schedule : List (Watcher ι)) : P (s.run plan schedule) := by
  induction schedule generalizing s with
  | nil => exact hs
  | cons w rest ih => exact ih (hstep s w hs)

end Watch

end Fiber

end Skein
