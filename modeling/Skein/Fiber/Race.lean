import Skein.Fiber.Basic
import Skein.Fiber.Config
import Skein.Operation.Sharing
import Skein.Queue.Locked
import Skein.WorkItem

/-!
# A fiber and those who use it

A fiber's memory is its queue, its state, the lock that guards the handle of the
worker's thread, and the signals that were passed along with its items.  Threads
submit items, fire signals, close or dispose the fiber, or drop it, and the
worker goes through the queue.  As in a race on a queue, each of them says where
it stands, and a schedule says who moves next.

A call may be made by a work item, on the worker's thread.  The worker would then
stand still until the call has returned; here it may go on, which only adds
schedules.  A payload may take any time and do anything to the signals and to the
fiber, since the steps of all others may fall between its beginning and its end.
-/

namespace Skein

namespace Fiber

/-- What a thread may ask of a fiber as a whole; `inside` says that the thread is
the worker's own.  Who drops a handle drops the last one: before that, dropping
does nothing. -/
inductive Request
  | close
  | dispose (inside : Bool)
  | drop (inside : Bool)

/-- All that a schedule leaves open.  An item stands for one call that submits
it. -/
structure Plan (ι α : Type) where
  config : Config := {}
  /-- Does the hook panic that runs when the worker's thread starts? -/
  hookPanics : Bool := false
  operation : ι → Operation α
  /-- The signal that was passed along with the item, if one was. -/
  signal : ι → Option Nat := fun _ => none
  request : Nat → Request := fun _ => .close

variable {ι α : Type}

namespace Plan

/-- How the item is resolved when it is executed.  A blocking payload is invoked
on the spot, an asynchronous one is driven to its end; a panic is caught. -/
def outcome (plan : Plan ι α) (a : ι) : Resolution α :=
  match Operation.Derived.given.invokeBlocking (plan.operation a) 0 with
  | (some ending, _) => ending.resolution
  | (none, _) => (Operation.Derived.given.invoke (plan.operation a) 0).1.resolution

/-- Does the call wait for the worker to end once the queue is closed? -/
def joins (plan : Plan ι α) (k : Nat) : Bool :=
  match plan.request k with
  | .close => false
  | .dispose inside => !inside
  | .drop inside => plan.config.joinOnDrop && !inside

end Plan

/-- How far a call on the fiber as a whole has come.  If it is the one that ends
the active state, it closes the queue.  If it is to wait for the worker, it takes
the lock, joins the thread unless that has been done before, stores the last
state if the thread ended in a panic, and gives the lock back. -/
inductive Call
  | ahead
  | closing
  | locking
  | joining
  | marking
  | unlocking
  | returned
deriving DecidableEq

/-- Where the worker stands.  It runs the hook; it takes an item, reads the
fiber's state, looks at the item's signal, executes the item and resolves it.
When it is told that there will be no more, or when the hook panics, it leaves:
it reads the state and stores another one, closes the queue, takes for the `last`
time what is there, and stores that the fiber is disposed. -/
inductive Worker (ι α : Type)
  | starting
  | taking (last : Bool)
  | taken (a : ι)
  | admitted (a : ι)
  | cleared (a : ι)
  | running (a : ι)
  | resolving (last : Bool) (a : ι) (r : Resolution α)
  | leaving
  | marking
  | closing
  | storing
  | finishing
  | gone

inductive Event (ι α : Type)
  | took (a : ι)
  | read (a : ι) (state : State)
  | looked (a : ι) (fired : Bool)
  | began (a : ι)
  | ended (a : ι)
  | resolved (a : ι) (r : Resolution α)

/-- Those whose steps make up a schedule: the call that submits an item, whoever
fires a signal, a call on the fiber as a whole, the worker, and whoever wakes the
worker's thread without a cause. -/
inductive Agent (ι : Type)
  | submitter (a : ι)
  | signal (n : Nat)
  | caller (k : Nat)
  | worker
  | stranger
deriving DecidableEq

/-- A fiber with all who use it.  Call number `k` closes the queue as number
`k + 1`; the worker does as number zero. -/
structure Race (ι α : Type) where
  line : Queue.Race ι := {}
  state : State := .active
  fired : Nat → Bool := fun _ => false
  worker : Worker ι α := .starting
  calls : Nat → Call := fun _ => .ahead
  /-- Who has the lock. -/
  holder : Option Nat := none
  /-- Has somebody taken the thread's handle to join it? -/
  joined : Bool := false
  story : List (Event ι α) := []

namespace Event

def took? : Event ι α → Option ι
  | took a => some a
  | _ => none

def began? : Event ι α → Option ι
  | began a => some a
  | _ => none

def ended? : Event ι α → Option ι
  | ended a => some a
  | _ => none

def resolved? : Event ι α → Option (ι × Resolution α)
  | resolved a r => some (a, r)
  | _ => none

def bounds : Event ι α → Bool
  | began _ | ended _ => true
  | _ => false

end Event

/-- How an item is resolved that comes too late, or is skipped. -/
def cancelled (reason : CancelReason) : Resolution α :=
  .error (.cancelled reason)

namespace Worker

/-- The item that has passed the check of the fiber's state and is not yet
executed. -/
def passed : Worker ι α → List ι
  | admitted a | cleared a => [a]
  | _ => []

def executing : Worker ι α → List ι
  | running a => [a]
  | _ => []

def isGone : Worker ι α → Bool
  | gone => true
  | _ => false

end Worker

namespace Race

def resolutions (s : Race ι α) : List (ι × Resolution α) :=
  s.story.filterMap Event.resolved? ++ s.line.rejected.map fun a => (a, cancelled .fiberDisposed)

def begun (s : Race ι α) : List ι :=
  s.story.filterMap Event.began?

def ended (s : Race ι α) : List ι :=
  s.story.filterMap Event.ended?

variable [DecidableEq ι] (plan : Plan ι α)

def queueMove (s : Race ι α) (agent : Queue.Agent ι) : Race ι α :=
  { s with line := s.line.move plan.config.queue agent }

/-- One step of the worker.  Taking an item and closing the queue are calls that
have steps of their own. -/
def work (s : Race ι α) : Race ι α :=
  match s.worker with
  | .starting => { s with worker := if plan.hookPanics then .leaving else .taking false }
  | .taking last =>
    let s := s.queueMove plan .consumer
    match s.line.consumer with
    | .returned (some a) =>
      { s with
        worker := if last then .resolving true a (cancelled .fiberDisposed) else .taken a
        story := s.story ++ [.took a] }
    | .returned none => { s with worker := if last then .storing else .leaving }
    | _ => s
  | .taken a =>
    { s with
      worker :=
        if s.state = .active then .admitted a else .resolving false a (cancelled .fiberDisposed)
      story := s.story ++ [.read a s.state] }
  | .admitted a =>
    let fired := (plan.signal a).any s.fired
    { s with
      worker := if fired then .resolving false a (cancelled .signalled) else .cleared a
      story := s.story ++ [.looked a fired] }
  | .cleared a => { s with worker := .running a, story := s.story ++ [.began a] }
  | .running a =>
    { s with worker := .resolving false a (plan.outcome a), story := s.story ++ [.ended a] }
  | .resolving last a r => { s with worker := .taking last, story := s.story ++ [.resolved a r] }
  | .leaving => { s with worker := if s.state = .active then .marking else .closing }
  | .marking => { s with state := .disposing, worker := .closing }
  | .closing =>
    let s := s.queueMove plan (.closer 0)
    { s with worker := if s.line.closings 0 = .returned then .taking true else .closing }
  | .storing => { s with state := .disposed, worker := .finishing }
  | .finishing => { s with worker := .gone }
  | .gone => s

def place (s : Race ι α) (k : Nat) (c : Call) : Race ι α :=
  { s with calls := Function.update s.calls k c }

def goOn (s : Race ι α) (k : Nat) : Race ι α :=
  s.place k (if plan.joins k then .locking else .returned)

def call (s : Race ι α) (k : Nat) : Race ι α :=
  match s.calls k with
  | .ahead =>
    if s.state = .active then { s with state := .disposing }.place k .closing else s.goOn plan k
  | .closing =>
    let s := s.queueMove plan (.closer (k + 1))
    if s.line.closings (k + 1) = .returned then s.goOn plan k else s
  | .locking =>
    if s.holder.isSome then s
    else
      { s with holder := some k, joined := true }.place k
        (if s.joined then .unlocking else .joining)
  | .joining =>
    if s.worker.isGone then s.place k (if plan.hookPanics then .marking else .unlocking) else s
  | .marking => { s with state := .disposed }.place k .unlocking
  | .unlocking => { s with holder := none }.place k .returned
  | .returned => s

/-- One step of one agent.  An agent that is done, or has to wait, leaves
everything as it is. -/
def step (s : Race ι α) : Agent ι → Race ι α
  | .submitter a => s.queueMove plan (.producer a)
  | .signal n => { s with fired := Function.update s.fired n true }
  | .caller k => s.call plan k
  | .worker => s.work plan
  | .stranger => s.queueMove plan .stranger

def run (s : Race ι α) (schedule : List (Agent ι)) : Race ι α :=
  schedule.foldl (step plan) s

@[simp] theorem run_nil (s : Race ι α) : s.run plan [] = s := rfl

@[simp] theorem run_cons (s : Race ι α) (agent : Agent ι) (rest : List (Agent ι)) :
    s.run plan (agent :: rest) = (s.step plan agent).run plan rest := rfl

theorem run_append (s : Race ι α) (first rest : List (Agent ι)) :
    s.run plan (first ++ rest) = (s.run plan first).run plan rest :=
  List.foldl_append

/-- What every step preserves holds after every schedule. -/
theorem run_preserves {plan : Plan ι α} {P : Race ι α → Prop}
    (hstep : ∀ s agent, P s → P (s.step plan agent)) {s : Race ι α} (hs : P s)
    (schedule : List (Agent ι)) : P (s.run plan schedule) := by
  induction schedule generalizing s with
  | nil => exact hs
  | cons agent rest ih => exact ih (hstep s agent hs)

end Race

end Fiber

end Skein
