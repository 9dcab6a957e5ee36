import Skein.Fiber.Basic

/-!
# Many producers

Producers take turns to put their items into a queue or to send them to a fiber.
Whatever the turns are, no item is lost or taken twice, and each producer's
items come out in the order in which they were put in; here the turns go round.
-/

namespace Skein

namespace Session

namespace Crowd

abbrev Tag := Nat × Nat

def turns (producers per : Nat) : List Tag :=
  (List.range per).flatMap fun n => (List.range producers).map fun p => (p, n)

/-- Puts all items into a queue: the queue, and the items that were refused. -/
def offer {ι : Type} (q : Queue.Any ι) : List ι → Queue.Any ι × List ι
  | [] => (q, [])
  | a :: rest =>
    match q.enqueue a with
    | (true, q) => offer q rest
    | (false, q) =>
      let (q, refused) := offer q rest
      (q, a :: refused)

def takeAll {ι : Type} (q : Queue.Any ι) : Nat → List ι × Queue.Any ι
  | 0 => ([], q)
  | most + 1 =>
    match q.dequeue with
    | (.item a, q) =>
      let (rest, q) := takeAll q most
      (a :: rest, q)
    | (_, q) => ([], q)

def inOrder (producers : Nat) (tags : List Tag) : Bool :=
  (List.range producers).all fun p =>
    let places := (tags.filter (·.1 == p)).map (·.2)
    places == places.mergeSort (· ≤ ·)

def repetitions : List Tag → Nat
  | [] => 0
  | t :: rest => (if rest.contains t then 1 else 0) + repetitions rest

/-- What came of a race between producers and a closing of the queue. -/
structure Account where
  consumed : List Tag
  refused : List Tag
  queue : Queue.Any Tag

/-- Producers offer their items, the queue is closed when `before` of them have
been offered, and the consumer takes what there is. -/
def race (strategy : Queue.Strategy) (tags : List Tag) (before : Nat) : Account :=
  let (q, refused) := offer (strategy.build Tag) (tags.take before)
  let (q, late) := offer q.close (tags.drop before)
  let (consumed, q) := takeAll q (tags.length + 1)
  { consumed := consumed, refused := refused ++ late, queue := q }

/-- Sends all items to a fiber, and lets its worker execute them: the executed
items, and the fiber when it has been disposed. -/
def work (strategy : Queue.Strategy) (tags : List Tag) : List Tag × Fiber Tag :=
  let f := tags.foldl (fun f t => (f.submit t).2) (Fiber.start strategy)
  let (f, executed) := execute f (tags.length + 1)
  (executed, f.close.leave)
where
  execute (f : Fiber Tag) : Nat → Fiber Tag × List Tag
    | 0 => (f, [])
    | most + 1 =>
      match f.take with
      | (.item t, f) =>
        match f.fate false with
        | .execute =>
          let (f, rest) := execute f.begin most
          (f, t :: rest)
        | .cancel _ => execute f most
      | (_, f) => (f, [])

/-- What a producer's executed items add up to, item `n` of producer `p`
counting `p * 1000 + n`. -/
def sum (tags : List Tag) (p : Nat) : Nat :=
  ((tags.filter (·.1 == p)).map fun t => t.1 * 1000 + t.2).foldl (· + ·) 0

end Crowd

end Session

end Skein
