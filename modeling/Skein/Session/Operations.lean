import Skein.Operation.Sharing

/-!
# Sessions with derived operations

A session starts with one operation in a slot and goes step by step: steps
attempt what is in a slot, or derive something new from it, which goes to the
end.  Sharing uses the operation up, and makes a new lock.  A step that would
have to wait for a lock of the session's own ends the session there.
-/

namespace Skein

namespace Session

namespace Operations

open Operation

inductive Step
  | isAsync
  | describe
  | attempt
  | attemptBlocking
  | share
  | forward
  | clone
deriving DecidableEq

def Step.name : Step → String
  | isAsync => "is_async"
  | describe => "debug"
  | attempt => "attempt"
  | attemptBlocking => "attempt_blocking"
  | share => "share"
  | forward => "forward"
  | clone => "clone"

inductive Reply (α : Type)
  | truth (b : Bool)
  | text (s : String)
  | ending (e : Ending α)
  /-- An asynchronous operation cannot be attempted without somebody to drive
  it. -/
  | needsDriver
  | slots (count : Nat)
  | refused (why : String)

abbrev Slot := Sigma Derived

structure State where
  slots : List Slot := [⟨.attemptable, .given⟩]
  common : Common := {}
  /-- How many locks have been made. -/
  locks : Nat := 0

variable {α : Type}

/-- There is no reply to a step that waits for ever. -/
def step (op : Operation α) (s : State) (index : Nat) (step : Step) : Option (Reply α × State) :=
  match s.slots[index]?, step with
  | some ⟨.attemptable, d⟩, .isAsync => some (.truth (d.async op), s)
  | some ⟨.attemptable, d⟩, .describe =>
    some (.text ({ op with async := d.async op } : Operation α).describe, s)
  | some ⟨.attemptable, d⟩, .attempt =>
    (d.attempt op s.common).map fun (ending, common) => (.ending ending, { s with common := common })
  | some ⟨.attemptable, d⟩, .attemptBlocking =>
    (d.attemptBlocking op s.common).map fun (ending, common) =>
      ((ending.map Reply.ending).getD .needsDriver, { s with common := common })
  | some ⟨.attemptable, d⟩, .share =>
    let slots := s.slots.eraseIdx index ++ [⟨.shared, d.share s.locks⟩]
    some (.slots slots.length, { s with slots := slots, locks := s.locks + 1 })
  | some ⟨.shared, d⟩, .forward =>
    let slots := s.slots ++ [⟨.attemptable, d.forward⟩]
    some (.slots slots.length, { s with slots := slots })
  | some ⟨.shared, d⟩, .clone =>
    let slots := s.slots ++ [⟨.shared, d.clone⟩]
    some (.slots slots.length, { s with slots := slots })
  | _, step => some (.refused s!"no {step.name} here", s)

def run (op : Operation α) : State → List (Nat × Step) → List (Reply α × Nat)
  | _, [] => []
  | s, (index, st) :: rest =>
    match step op s index st with
    | none => []
    | some (reply, s) => (reply, s.common.calls) :: run op s rest

end Operations

end Session

end Skein
