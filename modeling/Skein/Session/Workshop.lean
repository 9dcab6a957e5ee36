import Skein.Fiber.Basic
import Skein.Fiber.Config
import Skein.WorkItem

/-!
# A fiber and what its jobs can reach

A workshop is a fiber together with everything that the jobs on it can reach:
the state that they work on, the signals, the handles that keep the fiber alive,
the completions that somebody still holds, and a log.  A job may itself send
further jobs; it carries them with it, so there is an end to them.

The worker goes through the queue whenever it can.  A job that holds the worker
keeps it from doing so until it is released.
-/

namespace Skein

namespace Session

inductive Effect (α : Type)
  | note (line : String)
  | cancel (token : String)
  | dispose
  | observe
  | send (id : String) (observed : Bool) (token : Option String) (keeps : Bool)
      (effects : List (Effect α)) (ending : Ending α)

def Effect.needsHandle {α : Type} : Effect α → Bool
  | .note _ | .cancel _ => false
  | .dispose | .observe | .send .. => true

structure Job (σ α : Type) where
  id : String
  observed : Bool := true
  /-- The name under which the completion is held.  One that a step waits for
  itself needs none. -/
  heldAs : Option String := some id
  token : Option String := none
  /-- Does its payload own a handle of the fiber? Without one, effects that need
  a handle come to nothing. -/
  keeps : Bool := false
  effects : List (Effect α) := []
  act : σ → Ending α × σ

mutual

def Effect.weight {α : Type} : Effect α → Nat
  | .send _ _ _ _ effects _ => Effect.weights effects + 1
  | _ => 0

def Effect.weights {α : Type} : List (Effect α) → Nat
  | [] => 0
  | e :: rest => e.weight + Effect.weights rest

end

def Job.feasible {σ α : Type} (job : Job σ α) : List (Effect α) :=
  job.effects.filter fun e => job.keeps || !e.needsHandle

structure Workshop (σ α : Type) where
  config : Fiber.Config := {}
  /-- The queued jobs come with the numbers under which they were sent. -/
  fiber : Fiber (Nat × Job σ α)
  state : σ
  handles : Nat := 1
  kept : Nat := 0
  fired : List String := []
  /-- What was noted, the last line first. -/
  log : List String := []
  /-- The completions that are held: their names, the numbers of their jobs, and
  what they have received. -/
  completions : List (Option String × Nat × Completion α) := []
  sent : Nat := 0
  held : Option α := none

namespace Workshop

variable {σ α : Type}

def build (config : Fiber.Config) (state : σ) : Workshop σ α :=
  { config := config, fiber := .start config.queue, state := state }

def resolve (w : Workshop σ α) (ticket : Nat) (r : Resolution α) : Workshop σ α :=
  { w with completions := w.completions.map fun c =>
      if c.2.1 = ticket then (c.1, ticket, .resolved r) else c }

/-- Drops the handle that a job's payload owns.  When no handle is left, the
fiber is closed. -/
def letGo (w : Workshop σ α) (keeps : Bool) : Workshop σ α :=
  let w := if keeps then { w with kept := w.kept - 1 } else w
  if w.handles + w.kept = 0 then { w with fiber := w.fiber.close } else w

/-- Keeps a completion under a name, in place of an older one of that name. -/
def hold (w : Workshop σ α) (name : Option String) (ticket : Nat) : Workshop σ α :=
  { w with completions := (name, ticket, .pending) :: w.completions.filter (·.1 != name) }

def send (w : Workshop σ α) (job : Job σ α) : Workshop σ α :=
  let ticket := w.sent
  let w := { w with sent := ticket + 1, kept := if job.keeps then w.kept + 1 else w.kept }
  let w := if job.observed then w.hold job.heldAs ticket else w
  match w.fiber.submit (ticket, job) with
  | (true, fiber) => { w with fiber := fiber }
  | (false, _) => (w.resolve ticket (.error (.cancelled .fiberDisposed))).letGo job.keeps

def view (w : Workshop σ α) : String :=
  s!"{w.fiber.state.describe} {w.fiber.pending} true"

def perform (id : String) (w : Workshop σ α) : Effect α → Workshop σ α
  | .note line => { w with log := s!"{id}:{line}" :: w.log }
  | .cancel token => { w with fired := token :: w.fired }
  | .dispose => { w with fiber := w.fiber.close }
  | .observe => { w with log := s!"{id}:{w.view}" :: w.log }
  | .send id observed token keeps effects ending =>
    w.send { id := id, observed := observed, token := token, keeps := keeps, effects := effects
             act := fun s => (ending, s) }

def signalled (w : Workshop σ α) (job : Job σ α) : Bool :=
  job.token.any w.fired.contains

def carryOut (w : Workshop σ α) (ticket : Nat) (job : Job σ α) : Workshop σ α :=
  match w.fiber.fate (w.signalled job) with
  | .cancel reason => (w.resolve ticket (.error (.cancelled reason))).letGo job.keeps
  | .execute =>
    let w := { w with fiber := w.fiber.begin, log := job.id :: w.log }
    let w := job.feasible.foldl (perform job.id) w
    let (ending, state) := job.act w.state
    ({ w with state := state }.resolve ticket ending.resolution).letGo job.keeps

/-- The worker goes through the queue, taking at most so many jobs. -/
def goOn : Nat → Workshop σ α → Workshop σ α
  | 0, w => w
  | most + 1, w =>
    match w.fiber.take with
    | (.item (ticket, job), fiber) => goOn most ({ w with fiber := fiber }.carryOut ticket job)
    | (.finished, fiber) => { w with fiber := fiber.leave }
    | (.waiting, fiber) => { w with fiber := fiber }

/-- How many jobs the worker can come to take, the queued ones and those that
they bring along. -/
def toCome (w : Workshop σ α) : Nat :=
  (w.fiber.queue.items.map fun (_, job) => Effect.weights job.effects + 1).foldl (· + ·) 0

/-- Lets the worker go on until it has to wait, unless a job holds it. -/
def settle (w : Workshop σ α) : Workshop σ α :=
  if w.held.isSome then w else w.goOn (w.toCome + 1)

/-- Sends a job that holds the worker, which must have nothing else to do;
`none` if the fiber does not execute it. -/
def holdWorker (w : Workshop σ α) (id : String) (answer : α) : Option (Workshop σ α) :=
  match w.fiber.fate false with
  | .execute => some { w with fiber := w.fiber.begin, log := id :: w.log, held := some answer }
  | .cancel _ => none

def release (w : Workshop σ α) : Option α × Workshop σ α :=
  (w.held, { w with held := none }.settle)

def dispose (w : Workshop σ α) : Workshop σ α :=
  { w with fiber := w.fiber.close }.settle

def dropHandle (w : Workshop σ α) : Workshop σ α :=
  ({ w with handles := w.handles - 1 }.letGo false).settle

def completion? (w : Workshop σ α) (name : Option String) : Option (Completion α) :=
  (w.completions.find? (·.1 == name)).map (·.2.2)

def forget (w : Workshop σ α) (name : Option String) : Workshop σ α :=
  { w with completions := w.completions.filter (·.1 != name) }

/-- The worker thread's name, if it is known and does not come from the fiber's
identifier. -/
def threadName (w : Workshop σ α) : Option String :=
  if w.fiber.started then w.config.name else none

def left (w : Workshop σ α) : List (String × Resolution α) :=
  w.completions.filterMap fun c => c.1.bind fun name => c.2.2.wait?.map fun r => (name, r)

end Workshop

end Session

end Skein
