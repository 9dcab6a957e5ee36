import Skein.WorkItem

/-!
# Sessions with work items

Work items and their completions are kept by name.  Executing, cancelling or
dropping an item uses the item up; waiting for its resolution, blocked or as a
future that is polled, or dropping the completion uses the completion up.  Nobody is
left waiting: while the item is there, and once a look under the name has had its
answer, a wait only says so.
-/

namespace Skein

namespace Session

namespace WorkItems

/-- What an item is made of: the shape of its operation, how an invocation of the
payload ends, and the signals that it fires first. -/
structure Call (α : Type) where
  async : Bool := false
  ending : Ending α
  fires : List String := []

def Call.operation {α : Type} (call : Call α) : Operation α :=
  { async := call.async, payload := fun _ => { ending := call.ending } }

inductive Step (α : Type)
  | new (call : Call α) (token : Option String)
  | execute
  | cancel (reason : CancelReason)
  | drop
  | dropHandle
  | isCancelled
  | describe
  | fireToken (token : String)
  | tryTake
  /-- To block on the completion until the item is resolved, or to await it. -/
  | wait

inductive Reply (α : Type)
  | made
  | outcome (o : Outcome)
  | cancelled
  | dropped
  | truth (b : Bool)
  | text (s : String)
  | fired
  | resolution (r : Resolution α)
  | pending
  /-- A look under this name has had an answer before. -/
  | taken
  | wouldWait
  | refused (why : String)

structure Entry (α : Type) where
  name : String
  /-- The item, until it is used up: what its execution does, and the name of
  its signal. -/
  item : Option (Call α × Option String) := none
  handle : Option (Completion α) := none

structure State (α : Type) where
  entries : List (Entry α) := []
  /-- The names under which a look has had an answer; nobody waits under such a
  name any more. -/
  taken : List String := []
  fired : List String := []
  /-- The names of the items that were invoked, the last one first. -/
  calls : List String := []
  /-- The log, the last entry first. -/
  log : List Log.Entry := []

namespace State

variable {α : Type}

def entry (s : State α) (name : String) : Entry α :=
  (s.entries.find? (·.name == name)).getD { name := name }

def keep (s : State α) (e : Entry α) : State α :=
  { s with entries := e :: s.entries.filter (·.name != e.name) }

def report (s : State α) (entries : List Log.Entry) : State α :=
  { s with log := entries.reverse ++ s.log }

/-- Hands a resolution over, or reports it where nobody is there to take it.  The
item is used up. -/
def resolve (s : State α) (e : Entry α) (r : Resolution α) : State α :=
  let (handle, entries) := WorkItem.handOver e.handle r
  (s.keep { e with item := none, handle := handle }).report entries

def signalled (s : State α) (token : Option String) : Bool :=
  token.any s.fired.contains

def step (s : State α) (name : String) (step : Step α) : Reply α × State α :=
  let e := s.entry name
  match step with
  | .new call token =>
    (.made, s.keep { name := name, item := some (call, token), handle := some .pending })
  | .fireToken token => (.fired, { s with fired := token :: s.fired })
  | .execute =>
    match e.item with
    | none => (.refused "no item", s)
    | some (call, _) =>
      let (ending, calls) := WorkItem.perform call.operation 0
      let r := ending.resolution
      let s := { s with calls := List.replicate calls name ++ s.calls, fired := call.fires ++ s.fired }
      (.outcome (.of r), (s.report (WorkItem.executionReport r)).resolve e r)
  | .cancel reason =>
    match e.item with
    | none => (.refused "no item", s)
    | some _ => (.cancelled, s.resolve e (.error (.cancelled reason)))
  | .drop =>
    match e.item with
    | none => (.refused "no item", s)
    | some _ => (.dropped, s.keep { e with item := none, handle := e.handle.map fun _ => .closed })
  | .isCancelled =>
    match e.item with
    | none => (.refused "no item", s)
    | some (_, token) => (.truth (s.signalled token), s)
  | .describe =>
    match e.item with
    | none => (.refused "no item", s)
    | some (_, token) => (.text s!"WorkItem \x7b id: ID, cancelled: {s.signalled token} \x7d", s)
  | .dropHandle =>
    match e.handle with
    | none => (.refused "no handle", s)
    | some _ => (.dropped, s.keep { e with handle := none })
  | .tryTake =>
    match e.handle with
    | none => (.refused "no handle", s)
    | some completion =>
      match completion.tryTake with
      | (some r, completion) =>
        (.resolution r,
          { s.keep { e with handle := some completion } with taken := name :: s.taken })
      | (none, _) => (.pending, s)
  | .wait =>
    if s.taken.contains name then (.taken, s)
    else if e.item.isSome then (.wouldWait, s)
    else
      match e.handle.bind Completion.wait? with
      | some r => (.resolution r, s.keep { e with handle := none })
      | none => (.refused "no handle", s)

def run (s : State α) : List (String × Step α) → List (Reply α) × State α
  | [] => ([], s)
  | (name, st) :: rest =>
    let (reply, s) := s.step name st
    let (replies, s) := run s rest
    (reply :: replies, s)

end State

end WorkItems

end Session

end Skein
