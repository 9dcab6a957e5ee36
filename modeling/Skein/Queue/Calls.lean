import Skein.Queue.Strategy

/-!
# One call after another

A queue in the hands of one thread is known by what its calls answer and by the
items that they reject.  The same calls can be made on a queue of each strategy
and on a plain list with a closed flag; `Methods` says what they do there, and
`Methods.run` makes one after another.
-/

namespace Skein

namespace Queue

inductive Call (ι : Type)
  | enqueue (a : ι)
  | dequeue
  | close
  | len
  | isClosed

def Call.offered? {ι : Type} : Call ι → Option ι
  | enqueue a => some a
  | _ => none

inductive Answer (ι : Type)
  | accepted
  | queueClosed
  | taken (t : Taken ι)
  | closed
  | length (n : Nat)
  | flag (b : Bool)

structure Report (ι : Type) where
  call : Call ι
  answer : Answer ι
  rejected : List ι := []

namespace Report

variable {ι : Type}

def accepted? : Report ι → Option ι
  | { call := .enqueue a, answer := .accepted, .. } => some a
  | _ => none

def taken? : Report ι → Option ι
  | { answer := .taken (.item a), .. } => some a
  | _ => none

end Report

/-- What the calls do to a queue that is kept in `σ`; `drop` says what is
rejected when the queue is let go. -/
structure Methods (ι σ : Type) where
  enqueue : ι → σ → Bool × σ
  rejects : ι → σ → List ι
  dequeue : σ → Taken ι × σ
  close : σ → σ
  len : σ → Nat
  isClosed : σ → Bool
  drop : σ → List ι

variable {ι σ : Type}

def plain : Methods ι (Queue ι) where
  enqueue a q := q.enqueue a
  rejects a q := if q.closed then [a] else []
  dequeue := dequeue
  close := close
  len q := q.items.length
  isClosed := closed
  drop := items

def Any.methods : Methods ι (Any ι) where
  enqueue := enqueue
  rejects := rejects
  dequeue := dequeue
  close := close
  len q := q.items.length
  isClosed := isClosed
  drop := drop

namespace Methods

variable (m : Methods ι σ)

def ready (s : σ) : Bool :=
  0 < m.len s || m.isClosed s

/-- Makes a call.  A dequeue that would wait is not made. -/
def make (s : σ) (c : Call ι) : Report ι × σ :=
  match c with
  | .enqueue a =>
    let (accepted, after) := m.enqueue a s
    ({ call := c, answer := if accepted then .accepted else .queueClosed, rejected := m.rejects a s },
      after)
  | .dequeue =>
    if m.ready s then
      let (t, after) := m.dequeue s
      ({ call := c, answer := .taken t }, after)
    else ({ call := c, answer := .taken .waiting }, s)
  | .close => ({ call := c, answer := .closed }, m.close s)
  | .len => ({ call := c, answer := .length (m.len s) }, s)
  | .isClosed => ({ call := c, answer := .flag (m.isClosed s) }, s)

def run (s : σ) : List (Call ι) → List (Report ι) × σ
  | [] => ([], s)
  | c :: rest =>
    let (report, after) := m.make s c
    let (reports, final) := run after rest
    (report :: reports, final)

theorem run_cons (s : σ) (c : Call ι) (rest : List (Call ι)) :
    m.run s (c :: rest) =
      ((m.make s c).1 :: (m.run (m.make s c).2 rest).1, (m.run (m.make s c).2 rest).2) :=
  rfl

theorem run_append (s : σ) (first rest : List (Call ι)) :
    m.run s (first ++ rest) =
      ((m.run s first).1 ++ (m.run (m.run s first).2 rest).1,
        (m.run (m.run s first).2 rest).2) := by
  induction first generalizing s with
  | nil => rfl
  | cons c first ih => rw [List.cons_append, run_cons, ih, run_cons, List.cons_append]

end Methods

end Queue

end Skein
