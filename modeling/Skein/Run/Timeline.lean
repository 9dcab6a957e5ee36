import Skein.Operation
import Skein.Log

/-!
# Runs on a simulated clock

A timeline is the state of one submitted job: the moment reached, the state of
the signal, the moment at which the fiber is disposed if it is known, how often
the payload has been invoked, and what has happened.  The clock moves only when
everything waits, and then by exactly the time waited for.  A clock may keep no
sleep longer than some time, and end a longer one when that has passed; the one that
runs are measured on keeps none longer than thirty years.

A signal that is due at a moment fires when the run waits at that moment or past
it; as long as the run goes on without waiting, it does not see the signal fire.
The firing is noted at its place among the other events, so that the story of a
run tells whether an invocation was under way then.  A sleep of no length is over
at once and no wait.  But a run must not keep all others waiting for ever: when
`turnLength` sleeps have ended since it last waited, it waits at the next one in
any case.
-/

namespace Skein

namespace Run

def thirtyYears : Millis := 30 * 365 * 24 * 60 * 60 * 1000

/-- How many sleeps a run can end before it has to wait. -/
def turnLength : Nat := 128

inductive Event
  /-- The dispatcher at this depth received a submission. -/
  | given (depth : Nat)
  | invoked (moment : Millis)
  | completed (moment : Millis)
  | fired (moment : Millis)
  /-- The wait function of the layer at this depth was asked for the delay after
  an attempt. -/
  | asked (depth : Nat) (attempt : UInt32)
  | logged (entry : Log.Entry)
deriving DecidableEq

inductive Signal
  /-- Nothing but the run itself can fire it. -/
  | quiet
  /-- It fires by itself when the run waits at this moment or past it. -/
  | due (moment : Millis)
  | fired
deriving DecidableEq

structure Timeline where
  /-- The longest sleep that the clock keeps.  An exact clock keeps every sleep. -/
  longest : Option Millis := some thirtyYears
  now : Millis := 0
  signal : Signal := .quiet
  /-- How many sleeps have ended since the run last waited. -/
  ended : Nat := 0
  disposedAt : Option Millis := none
  calls : Nat := 0
  /-- What has happened, the last event first. -/
  story : List Event := []

namespace Timeline

/-- Has the signal fired? One that is due has when the clock has gone past its
moment. -/
def fired (t : Timeline) : Bool :=
  match t.signal with
  | .quiet => false
  | .due moment => moment < t.now
  | .fired => true

def disposed (t : Timeline) : Bool :=
  t.disposedAt.any (· ≤ t.now)

/-- How long a sleep of the duration lasts. -/
def lasting (t : Timeline) (d : Millis) : Millis :=
  match t.longest with
  | none => d
  | some most => min d most

theorem lasting_of_exact {t : Timeline} (h : t.longest = none) (d : Millis) : t.lasting d = d := by
  rw [lasting, h]

@[simp] theorem lasting_zero (t : Timeline) : t.lasting 0 = 0 := by
  unfold lasting
  split
  · rfl
  · exact Nat.zero_min _

theorem lasting_congr {t u : Timeline} (h : u.longest = t.longest) (d : Millis) :
    u.lasting d = t.lasting d := by
  rw [lasting, h, lasting]

def firingAfter (t : Timeline) (d : Millis) : Timeline :=
  { t with signal := .due (t.now + t.lasting d) }

def record (t : Timeline) (e : Event) : Timeline :=
  { t with story := e :: t.story }

def log (t : Timeline) (entries : List Log.Entry) : Timeline :=
  entries.foldl (fun t entry => t.record (.logged entry)) t

/-- The signal fires at the moment, unless it has fired before. -/
def fireAt (t : Timeline) (moment : Millis) : Timeline :=
  if t.fired then t else { t.record (.fired moment) with signal := .fired }

def fire (t : Timeline) : Timeline :=
  t.fireAt t.now

/-- Disposes the fiber now, unless that has happened before. -/
def dispose (t : Timeline) : Timeline :=
  if t.disposed then t else { t with disposedAt := some t.now }

/-- Waits for no time, which is enough for a signal that is due. -/
def pause (t : Timeline) : Timeline :=
  let t := { t with ended := 0 }
  match t.signal with
  | .due moment => if moment ≤ t.now then t.fire else t
  | _ => t

def waitsFor (t : Timeline) (d : Millis) : Bool :=
  0 < d || turnLength ≤ t.ended

/-- Lets a signal fire that is due before the moment. -/
def fireBefore (t : Timeline) (later : Millis) : Timeline :=
  match t.signal with
  | .due moment => if moment < later then t.fireAt moment else t
  | _ => t

def sleep (t : Timeline) (d : Millis) : Timeline :=
  let t := if t.waitsFor d then t.pause else t
  let later := t.now + t.lasting d
  { t.fireBefore later with now := later, ended := t.ended + 1 }

def awaitSignal (t : Timeline) : Timeline :=
  match t.signal with
  | .due moment => { t.fireAt moment with now := max t.now moment }
  | _ => t

/-- Lets a delay pass, but does not go on with it after a signal that is
listened to has fired.  Says whether the signal ended the delay.  Where there is
no delay, there is no sleep. -/
def backoff (t : Timeline) (listening : Bool) (d : Millis) : Bool × Timeline :=
  let later := if d = 0 then t else t.sleep d
  if listening && later.fired then (true, t.awaitSignal) else (false, later)

def events (t : Timeline) : List Event :=
  t.story.reverse

/-- How many submissions the dispatcher at the depth has received. -/
def givenTo (t : Timeline) (depth : Nat) : Nat :=
  t.story.countP (· = .given depth)

def invocations (t : Timeline) : List Millis :=
  t.events.filterMap fun
    | .invoked moment => some moment
    | _ => none

/-- What the wait functions were asked, in order: the depth of the layer and the
number of the attempt. -/
def questions (t : Timeline) : List (Nat × UInt32) :=
  t.events.filterMap fun
    | .asked depth attempt => some (depth, attempt)
    | _ => none

def entries (t : Timeline) : List Log.Entry :=
  t.events.filterMap fun
    | .logged entry => some entry
    | _ => none

end Timeline

end Run

end Skein
