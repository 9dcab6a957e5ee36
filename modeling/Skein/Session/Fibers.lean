import Skein.Session.Workshop

/-!
# Sessions with a fiber

Steps are done one after the other.  Unless a job holds the worker, every step
finds a worker that has gone through its queue.  Handles are kept in a list, and
steps use the last one; a session that has dropped them all can do little more
than wait for what it has sent.
-/

namespace Skein

namespace Session

namespace Fibers

inductive Hook
  | ok
  | panic
deriving DecidableEq

inductive Step (α : Type)
  | send (job : Job Unit α)
  | hold (id : String) (answer : α)
  | release
  | wait (id : String)
  | forget (id : String)
  | cancel (token : String)
  | state
  | pending
  | describe
  | thread
  | dispose
  | clone
  /-- Drops a handle; `kept` says that a queued job is known to own one. -/
  | drop (kept : Bool)
  | log

inductive Reply (α : Type)
  | sent
  | held
  | notHeld (r : Resolution α)
  | resolution (r : Resolution α)
  | pending
  | forgotten
  | cancelled
  | state (s : Fiber.State)
  | count (n : Nat)
  | text (s : String)
  /-- Whether the worker's thread is known, its name, and whether the name comes
  from the fiber's identifier. -/
  | thread (known : Bool) (name : Option String) (byIdentifier : Bool)
  | log (lines : List String)
  | refused (why : String)

variable {α : Type}

/-- A fiber whose start hook panics is disposed before it takes anything. -/
def opened (config : Fiber.Config) (hook : Option Hook) : Workshop Unit α :=
  let w := Workshop.build config ()
  if hook = some .panic then { w with fiber := w.fiber.leave } else w

def Step.needsHandle : Step α → Bool
  | send _ | hold _ _ | state | pending | describe | thread | dispose | clone | drop _ => true
  | release | wait _ | forget _ | cancel _ | log => false

def perform (w : Workshop Unit α) : Step α → Reply α × Workshop Unit α
  | .send job => (.sent, (w.send job).settle)
  | .hold id answer =>
    if w.held.isSome then (.refused "already held", w)
    else
      match w.holdWorker id answer with
      | some w => (.held, w)
      | none => (.notHeld (.error (.cancelled .fiberDisposed)), w)
  | .release =>
    match w.release with
    | (some answer, w) => (.resolution (.ok answer), w)
    | (none, _) => (.refused "not held", w)
  | .wait id =>
    match w.completion? (some id) with
    | none => (.refused "no such id", w)
    | some completion =>
      match completion.wait? with
      | some r => (.resolution r, w.forget (some id))
      | none => (.pending, w)
  | .forget id => (.forgotten, w.forget (some id))
  | .cancel token => (.cancelled, { w with fired := token :: w.fired })
  | .state => (.state w.fiber.state, w)
  | .pending => (.count w.fiber.pending, w)
  | .describe =>
    (.text s!"Fiber \x7b id: ID, state: {w.fiber.state.describe}, pending: {w.fiber.pending} \x7d",
      w)
  | .thread => (.thread w.fiber.started w.threadName (w.fiber.started && w.config.name.isNone), w)
  | .dispose =>
    let w := w.dispose
    (.state w.fiber.state, w)
  | .clone => (.count (w.handles + 1), { w with handles := w.handles + 1 })
  | .drop kept =>
    if w.handles = 1 && w.held.isSome && w.config.joinOnDrop && !kept then
      (.refused "dropping would wait for the held item", w)
    else
      let w := w.dropHandle
      (.count w.handles, w)
  | .log => (.log w.log.reverse, w)

def step (w : Workshop Unit α) (st : Step α) : Reply α × Workshop Unit α :=
  if st.needsHandle && w.handles = 0 then (.refused "no handle left", w) else perform w st

def run (w : Workshop Unit α) : List (Step α) → List (Reply α) × Workshop Unit α
  | [] => ([], w)
  | st :: rest =>
    let (reply, w) := step w st
    let (replies, w) := run w rest
    (reply :: replies, w)

end Fibers

end Session

end Skein
