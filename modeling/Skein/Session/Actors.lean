import Skein.Session.Workshop
import Skein.Actor

/-!
# Sessions with an actor

The actor of a session keeps a list of numbers.  Before each step the session
asks a message that does nothing and waits for it, unless a message holds the
worker or the actor has been stopped.
-/

namespace Skein

namespace Session

namespace Actors

inductive Message
  | push (n : Int)
  | pop
  | sum
  | all
  | clear
  | scale (n : Int)
  | pushThenPanic (n : Int) (text : String)

inductive Answer
  | nothing
  | number (n : Int)
  | numbers (ns : List Int)

def Message.act : Message → Actor.Message (List Int) Answer
  | push n => .of fun ns => (.number (ns.length + 1), ns ++ [n])
  | pop => .of fun ns => ((ns.getLast?.map .number).getD .nothing, ns.dropLast)
  | sum => .of fun ns => (.number (ns.foldl (· + ·) 0), ns)
  | all => .of fun ns => (.numbers ns, ns)
  | clear => .of fun ns => (.number ns.length, [])
  | scale n => .of fun ns =>
    let scaled := ns.map (· * n)
    ((scaled.head?.map .number).getD .nothing, scaled)
  | pushThenPanic n text => fun ns => (.error { message := some text }, ns ++ [n])

inductive Step
  | tell (message : Message)
  | ask (message : Message) (id : Option String)
  | wait (id : String)
  | hold
  | release
  | stop
  | clone
  | drop
  | pending
  | state
  | thread

inductive Reply
  | sent
  | held
  | notHeld (r : Resolution Answer)
  | resolution (r : Resolution Answer)
  | pending
  | state (s : Fiber.State)
  | count (n : Nat)
  | thread (name : Option String)
  | refused (why : String)

structure State where
  workshop : Workshop (List Int) Answer
  stopped : Bool := false

namespace State

def tell (s : State) (message : Actor.Message (List Int) Answer) : State :=
  let job := { id := "", observed := false, act := Actor.invoke (some message) }
  { s with workshop := (s.workshop.send job).settle }

def ask (s : State) (message : Actor.Message (List Int) Answer) (name : Option String) : State :=
  let job := { id := "", heldAs := name, act := Actor.invoke (some message) }
  { s with workshop := (s.workshop.send job).settle }

def touch (s : State) : State :=
  if s.workshop.held.isSome || s.stopped then s else s.tell (.of fun ns => (.nothing, ns))

def step (s : State) (st : Step) : Reply × State :=
  let s := s.touch
  let w := s.workshop
  match st with
  | .tell message => (.sent, s.tell message.act)
  | .ask message (some id) => (.sent, s.ask message.act (some id))
  | .ask message none =>
    if w.held.isSome then (.refused "held: give the message an id", s.tell message.act)
    else
      let s := s.ask message.act none
      match (s.workshop.completion? none).bind Completion.wait? with
      | some r => (.resolution r, { s with workshop := s.workshop.forget none })
      | none => (.pending, s)
  | .wait id =>
    match w.completion? (some id) with
    | none => (.refused "no such id", s)
    | some completion =>
      match completion.wait? with
      | some r => (.resolution r, { s with workshop := w.forget (some id) })
      | none => (.pending, s)
  | .hold =>
    if w.held.isSome then (.refused "already held", s)
    else
      match w.holdWorker "" .nothing with
      | some w => (.held, { s with workshop := w })
      | none => (.notHeld (.error (.cancelled .fiberDisposed)), s)
  | .release =>
    match w.release with
    | (some answer, w) => (.resolution (.ok answer), { s with workshop := w })
    | (none, _) => (.refused "not held", s)
  | .stop =>
    let w := w.dispose
    (.state w.fiber.state, { workshop := w, stopped := true })
  | .clone => (.count (w.handles + 1), { s with workshop := { w with handles := w.handles + 1 } })
  | .drop =>
    if w.handles = 1 then (.refused "last handle", s)
    else (.count (w.handles - 1), { s with workshop := { w with handles := w.handles - 1 } })
  | .pending => (.count w.fiber.pending, s)
  | .state => (.state w.fiber.state, s)
  | .thread => (.thread w.threadName, s)

def run (s : State) : List Step → List Reply × State
  | [] => ([], s)
  | st :: rest =>
    let (reply, s) := s.step st
    let (replies, s) := run s rest
    (reply :: replies, s)

end State

end Actors

end Session

end Skein
