import Skein.Failure.Basic
import Skein.Queue.Strategy

/-!
# The configuration of a fiber

A configuration names the worker thread, sizes its stack, chooses the queue and
says whether dropping the last handle waits for the worker.  In a text every
member may be missing; what is missing is as in the default configuration.
-/

namespace Skein

namespace Fiber

structure Config where
  /-- The worker thread's name; without one it is the short form of the fiber's
  identifier. -/
  name : Option String := none
  /-- The worker's stack in bytes; without one it has the usual size. -/
  stackSize : Option Nat := none
  queue : Queue.Strategy := .default
  /-- Does dropping the last handle dispose the fiber and wait for its worker?
  If not, the queue is closed and the worker left to finish alone. -/
  joinOnDrop : Bool := true
deriving DecidableEq

namespace Config

def record (start : Config) : Json.Record Config where
  wanted := "struct FiberConfig"
  members := [
    .of "name" (Json.Decoder.optional (Json.Decoder.text "a string")) fun v c =>
      { c with name := v },
    .of "stack_size" (Json.Decoder.optional (Json.Decoder.naturalBelow UInt64.size "usize"))
      fun v c => { c with stackSize := v },
    .of "queue" Queue.Strategy.decoder fun v c => { c with queue := v },
    .of "join_on_drop" Json.Decoder.boolean fun v c => { c with joinOnDrop := v }]
  start := start

/-- Refuses a configuration that no worker can be started with: a thread's name
holds no NUL, and a stack has a size. -/
def validate (c : Config) : Except ConfigError Unit :=
  if c.name.any fun name => name.toList.contains '\x00' then
    .error (.invalid "fiber name must not contain NUL bytes")
  else if c.stackSize = some 0 then .error (.invalid "stack_size must be greater than zero")
  else .ok ()

def parse (text : String) : Except ConfigError Config :=
  match Json.parse (record {}).decoder text with
  | .error refusal => .error (.parse refusal)
  | .ok c =>
    match c.validate with
    | .error e => .error e
    | .ok () => .ok c

def write (c : Config) : List Char :=
  Json.writeObject [
    ("name", Json.writeOptional Json.writeText c.name),
    ("stack_size", Json.writeOptional Json.writeNat c.stackSize),
    ("queue", c.queue.write),
    ("join_on_drop", Json.writeBool c.joinOnDrop)]

end Config

end Fiber

end Skein
