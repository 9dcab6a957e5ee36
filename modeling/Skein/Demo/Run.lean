import Skein.Demo.Config
import Skein.Identifier
import Skein.Run.Stack
import Skein.Session.Workshop

/-!
# A run of the demo

The demo sends its jobs one after the other through a retry policy, a dispatcher
that reports every submission, and a fiber, which deals with each submission before
the next one comes.  Then it has an actor count to ten, and disposes both.
-/

namespace Skein

namespace Demo

open Run

def entry (message : String) (fields : List (String × Log.Value)) : Log.Entry :=
  { level := .info, origin := .demo, message := message, fields := fields }

/-- The name of the worker's thread, from the configuration or else from the fiber's
identifier. -/
def threadName (config : Config) (id : Identifier .fiber) : String :=
  config.fiber.name.getD id.short

/-- Job number `n`: whether an attempt fails depends on how many attempts, of
this job and of those before it, have gone before. -/
def job (fails : Nat → Bool) (thread : String) (n : Nat) : Job String where
  operation := {
    payload := fun attempt => {
      ending :=
        if fails attempt then .failure (.plain s!"job {n}: transient failure")
        else .value s!"job {n} done on {thread}" } }

/-- How many submissions the dispatcher has counted that reports them.  Its counter
has 32 bits. -/
def submissions (t : Timeline) : UInt32 :=
  UInt32.ofNat (t.givenTo 1)

/-- A fiber, with a report before each submission and after each one that fails:
`fiber k` is the fiber as submission number `k` finds it. -/
def reporting (fiber : Nat → Fiber Nat) (job : Job String) : Dispatcher String := fun t =>
  let item := t.givenTo 1
  let t := t.record (.given 1)
  let number : Log.Value := .count (submissions t).toNat
  match (fiber item).carryOut item job (t.log [entry "enqueue" [("submission", number)]]) with
  | some (.error e, t) =>
    (.resolved (.error e),
      t.log [entry "attempt failed" [("submission", number), ("error", .text e.text)]])
  | some (.ok message, t) => (.resolved (.ok message), t)
  | none => (.unfinished, t)

def outcome : Answer String → List Log.Entry
  | .resolved (.ok message) => [entry s!"job succeeded {message}" []]
  | .resolved (.error e) => [{ entry "job gave up" [("error", .text e.text)] with level := .warn }]
  | _ => []

def serve (f : Fiber Nat) (item : Nat) : Fiber Nat :=
  match (f.submit item).2.take with
  | (.item _, f) => f.begin
  | (_, f) => f

structure Course where
  fiber : Fiber Nat
  timeline : Timeline := {}
  answers : List (Answer String) := []

/-- The fiber as submission number `item` finds it, which belongs to the next job. -/
def Course.fiberAt (c : Course) (item : Nat) : Fiber Nat :=
  (List.range' (c.timeline.givenTo 1) (item - c.timeline.givenTo 1)).foldl serve c.fiber

def Course.goOn (config : Config) (fails : Nat → Bool) (thread : String) (allowance : Nat)
    (c : Course) (n : Nat) : Course :=
  let job := job fails thread n
  let (answer, t) :=
    attempts config.retry.policy job 0 (reporting c.fiberAt job) allowance 0
      (c.timeline.record (.given 0))
  { fiber := c.fiberAt (t.givenTo 1)
    timeline := t.log (outcome answer)
    answers := c.answers ++ [answer] }

def course (config : Config) (fails : Nat → Bool) (thread : String) (allowance done : Nat) :
    Course :=
  (List.range done).foldl (fun c n => c.goOn config fails thread allowance (n + 1))
    { fiber := .start config.fiber.queue }

/-- The fiber when it has been disposed: if its worker finds that there will be no more,
it leaves, and takes a last look at the queue. -/
def shutDown (f : Fiber Nat) : Fiber Nat :=
  match f.close.take with
  | (.finished, f) => f.leave.take.2
  | (_, f) => f

/-- The actor of the demo after ten messages that add one, and one that asks for
the total. -/
def counting : Session.Workshop Nat Nat :=
  let addOne : Session.Job Nat Nat :=
    { id := "", observed := false, act := fun n => (.value 0, n + 1) }
  let total : Session.Job Nat Nat := { id := "total", act := fun n => (.value n, n) }
  let counted :=
    (List.range 10).foldl (fun (w : Session.Workshop Nat Nat) _ => w.send addOne) (.build {} 0)
  (counted.send total).settle

def total : Nat :=
  match (counting.completion? "total").bind Completion.wait? with
  | some (.ok n) => n
  | _ => 0

def workerEntry (thread : String) : Log.Entry :=
  entry "fiber thread started" [("thread", .text s!"Some({Text.quote thread})")]

/-- What the demo leaves behind: the actor, which is disposed first, and the fiber. -/
def remains (c : Course) : Session.Workshop Nat Nat × Fiber Nat :=
  (counting.dispose, shutDown c.fiber)

/-- The entries of a whole run, in order, without the worker's own. -/
def entries (config : Config) (fails : Nat → Bool) (thread : String) (allowance : Nat) :
    List Log.Entry :=
  let c := course config fails thread allowance config.jobs
  let (_, fiber) := remains c
  entry "starting demo" [("config", .text config.describe)] :: c.timeline.entries ++
    [entry "retry demo finished"
        [("submissions", .count (submissions c.timeline).toNat),
          ("pending", .count c.fiber.pending)],
      entry "actor counted" [("total", .count total)],
      entry "fiber disposed" [("state", .text fiber.state.describe)]]

def target : Log.Origin → String
  | .policy => "spindle_core::retry::policy"
  | .inline => "spindle_core::impls::inline"
  | .workItem => "spindle_core::domain::work_item"
  | .demo => "spindle_cli"

/-- One character of a message, with those spelled out that a terminal would act
on. -/
def tame (c : Char) : List Char :=
  match c with
  | '\x1b' => ['\\', 'x', '1', 'b']
  | '\x07' => ['\\', 'x', '0', '7']
  | '\x08' => ['\\', 'x', '0', '8']
  | '\x0c' => ['\\', 'x', '0', 'c']
  | '\x7f' => ['\\', 'x', '7', 'f']
  | c =>
    if 0x80 ≤ c.toNat ∧ c.toNat ≤ 0x9f then
      ['\\', 'u', '\x7b'] ++ Nat.toDigits 16 c.toNat ++ ['\x7d']
    else [c]

def line (e : Log.Entry) : String :=
  s!"{e.level.name} {target e.origin}: " ++ String.ofList (e.message.toList.flatMap tame) ++
    String.join (e.fields.map fun f => s!" {f.1}={f.2.render}")

/-- The lines of a text, each ended by a line feed or by a carriage return and a
line feed, and what follows the last one. -/
def splitLines : List Char → List (List Char)
  | [] => [[]]
  | '\r' :: '\n' :: rest => [] :: splitLines rest
  | '\n' :: rest => [] :: splitLines rest
  | c :: rest =>
    match splitLines rest with
    | [] => [[c]]
    | first :: others => (c :: first) :: others

/-- The printed lines of entries.  Entries for debugging are not printed, and a
line may be broken by what it shows. -/
def print (es : List Log.Entry) : List String :=
  (es.filter (·.level ≠ .debug)).flatMap fun e =>
    (splitLines ((line e).toList ++ ['\n'])).dropLast.map String.ofList

end Demo

end Skein
