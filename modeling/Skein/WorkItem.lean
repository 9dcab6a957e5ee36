import Skein.Operation.Sharing
import Skein.Log

/-!
# Work items and their completions

A work item is an operation that waits to be executed once, together with the
sending end of its completion.  Whoever holds the receiving end gets the
resolution exactly once: the first look that finds it takes it, and from then
on, as after an item that was dropped unresolved, the completion only says that
there is nothing more to come.
-/

namespace Skein

inductive Completion (α : Type)
  /-- The item has not been resolved. -/
  | pending
  /-- The item has been resolved, and nobody has looked yet. -/
  | resolved (r : Resolution α)
  /-- Nothing more is to come: the resolution was taken, or the item was dropped
  without one. -/
  | closed

namespace Completion

variable {α : Type}

def abandoned : Resolution α :=
  .error (.cancelled .abandoned)

/-- Takes the resolution if there is one; a pending completion gives nothing. -/
def tryTake : Completion α → Option (Resolution α) × Completion α
  | pending => (none, pending)
  | resolved r => (some r, closed)
  | closed => (some abandoned, closed)

/-- What somebody receives who blocks until the item is resolved, and also what a poll of
the completion gives to somebody who awaits it: both ask the same of it.  `none` is a wait
that would not end, or a poll that finds nothing yet. -/
def wait? : Completion α → Option (Resolution α)
  | pending => none
  | resolved r => some r
  | closed => some abandoned

end Completion

inductive Outcome
  | succeeded
  | failed
  | cancelled
deriving DecidableEq

def Outcome.of {α : Type} : Resolution α → Outcome
  | .ok _ => succeeded
  | .error e => if e.isCancelled then cancelled else failed

namespace WorkItem

/-- Carries out the operation of an item, whose payload has been invoked `calls`
times before: on the spot if it can be attempted so, and otherwise driven to its
end. -/
def perform {α : Type} (op : Operation α) (calls : Nat) : Ending α × Nat :=
  let whole : Operation.Derived .attemptable := .given
  match whole.invokeBlocking op calls with
  | (some ending, calls) => (ending, calls)
  | (none, calls) => whole.invoke op calls

def failedEntry (e : DispatchError) : Log.Entry :=
  { level := .debug, origin := .workItem, message := "work item failed"
    fields := [("error", .text e.text)] }

/-- The report of a failure that nobody waits for. -/
def unobservedEntry (e : DispatchError) : Log.Entry :=
  { level := .warn, origin := .workItem, message := "unobserved work item failed"
    fields := [("error", .text e.text)] }

/-- What executing an item reports, before its resolution is handed over. -/
def executionReport {α : Type} : Resolution α → List Log.Entry
  | .ok _ => []
  | .error e => if e.isCancelled then [] else [failedEntry e]

/-- What handing over a resolution reports when the receiving end is gone. -/
def unobservedReport {α : Type} : Resolution α → List Log.Entry
  | .ok _ => []
  | .error e => if e.isCancelled then [] else [unobservedEntry e]

/-- Executing an item warns of nothing. -/
theorem level_executionReport {α : Type} (r : Resolution α) :
    ∀ entry ∈ executionReport r, entry.level ≠ .warn := by
  intro entry hentry
  cases r with
  | ok a => cases hentry
  | error e =>
    simp only [executionReport] at hentry
    split at hentry
    · cases hentry
    · rw [List.mem_singleton.mp hentry]
      nofun

theorem level_unobservedReport {α : Type} (r : Resolution α) :
    ∀ entry ∈ unobservedReport r, entry.level = .warn := by
  intro entry hentry
  cases r with
  | ok a => cases hentry
  | error e =>
    simp only [unobservedReport] at hentry
    split at hentry
    · cases hentry
    · rw [List.mem_singleton.mp hentry]
      rfl

theorem unobservedReport_error {α : Type} {e : DispatchError} (hkept : e.isCancelled = false) :
    unobservedReport (.error e : Resolution α) = [unobservedEntry e] := by
  simp [unobservedReport, hkept]

/-- Hands a resolution over: what has become of the completion, and what is
reported.  A completion that was dropped takes nothing. -/
def handOver {α : Type} (handle : Option (Completion α)) (r : Resolution α) :
    Option (Completion α) × List Log.Entry :=
  match handle with
  | some _ => (some (.resolved r), [])
  | none => (none, unobservedReport r)

end WorkItem

end Skein
