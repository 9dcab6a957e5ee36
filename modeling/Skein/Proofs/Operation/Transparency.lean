import Mathlib.Data.List.InsertIdx
import Mathlib.Data.List.Nodup
import Skein.Proofs.Run.Invocation
import Skein.Session.Operations

/-!
# Sharing an operation is transparent

However operations are shared, cloned and forwarded, attempting one of them is
attempting the operation that all of them come from.  `run_transparent` says so of
sessions: the one with the derived operations, behind all their locks, answers as
the one in which every derived operation is the original itself (`Direct`).

The locks are what could go wrong.  An invocation goes through all the locks of a
derivation, and would wait for ever if one of them were held, be it by the
invocation itself.  But each lock stands once in a derivation, since sharing makes
a new one, and between two steps none is held: `Sound` is the invariant.
-/

namespace Skein

/-! ## Derivations -/

namespace Operation.Derived

variable {α : Type} {form : Form}

def locks {form : Form} : Derived form → List Nat
  | given => []
  | share lock of => lock :: of.locks
  | clone of => of.locks
  | forward of => of.locks

/-- What is derived keeps the shape. -/
theorem async_eq (op : Operation α) (d : Derived form) : d.async op = op.async := by
  induction d with
  | given => rfl
  | share lock of ih => exact ih
  | clone of ih => exact ih
  | forward of ih => exact ih

theorem invoke_eq (op : Operation α) (calls : Nat) (d : Derived form) :
    d.invoke op calls = ((op.payload calls).ending, calls + 1) := by
  induction d with
  | given => exact congrArg (·, calls + 1) (Run.ending_invocation op calls)
  | share lock of ih => exact ih
  | clone of ih => exact ih
  | forward of ih => exact ih

/-- Where no lock is held and none stands twice, an invocation passes through all of
them, and leaves them free whichever way it ends. -/
theorem attempt_eq (op : Operation α) (d : Derived form) {c : Common} (honce : d.locks.Nodup)
    (hfree : ∀ lock ∈ d.locks, lock ∉ c.held) :
    d.attempt op c =
      some ((d.invoke op c.calls).1, { c with calls := (d.invoke op c.calls).2 }) := by
  induction d generalizing c with
  | given => rfl
  | clone of ih => exact ih honce hfree
  | forward of ih => exact ih honce hfree
  | share lock of ih =>
    obtain ⟨hnew, honce⟩ := List.nodup_cons.mp honce
    have hunheld : c.held.contains lock = false := by
      simpa using hfree lock List.mem_cons_self
    -- the invocation now holds this lock too, and the locks further in are others
    have hinner : ∀ l ∈ of.locks, l ∉ lock :: c.held := by
      intro l hl held
      rcases List.mem_cons.mp held with rfl | held
      · exact hnew hl
      · exact hfree l (List.mem_cons_of_mem _ hl) held
    simp only [attempt, hunheld, Bool.false_eq_true, if_false]
    rw [ih (c := { c with held := lock :: c.held }) honce hinner]
    simp [invoke]

end Operation.Derived

namespace Session
namespace Operations

open Operation

variable {α : Type}

/-! ## The original in every slot -/

/-- A session in which every operation is the original one: what is left of the slots
is what they hold. -/
structure Direct where
  forms : List Form := [.attemptable]
  calls : Nat := 0

namespace Direct

def attempt (op : Operation α) (s : Direct) : Reply α × Direct :=
  (.ending (op.payload s.calls).ending, { s with calls := s.calls + 1 })

def hold (s : Direct) (forms : List Form) : Reply α × Direct :=
  (.slots forms.length, { s with forms := forms })

def step (op : Operation α) (s : Direct) (index : Nat) (step : Step) : Reply α × Direct :=
  match s.forms[index]?, step with
  | some .attemptable, .isAsync => (.truth op.async, s)
  | some .attemptable, .describe => (.text op.describe, s)
  | some .attemptable, .attempt => s.attempt op
  | some .attemptable, .attemptBlocking => if op.async then (.needsDriver, s) else s.attempt op
  | some .attemptable, .share => s.hold (s.forms.eraseIdx index ++ [.shared])
  | some .shared, .forward => s.hold (s.forms ++ [.attemptable])
  | some .shared, .clone => s.hold (s.forms ++ [.shared])
  | _, step => (.refused s!"no {step.name} here", s)

def run (op : Operation α) : Direct → List (Nat × Step) → List (Reply α × Nat)
  | _, [] => []
  | s, (index, st) :: rest =>
    let (reply, s) := s.step op index st
    (reply, s.calls) :: run op s rest

end Direct

/-! ## No lock is in the way -/

/-- No lock is held.  Those of a slot have been made, each of them for one place in the
derivation. -/
structure Sound (s : State) : Prop where
  free : s.common.held = []
  once : ∀ slot ∈ s.slots, slot.2.locks.Nodup
  made : ∀ slot ∈ s.slots, ∀ lock ∈ slot.2.locks, lock < s.locks

def State.direct (s : State) : Direct :=
  { forms := s.slots.map (·.1), calls := s.common.calls }

theorem sound_start : Sound {} := by
  refine ⟨rfl, ?_, ?_⟩
  · simp [Derived.locks]
  · simp [Derived.locks]

namespace Sound

variable {s : State} (hsound : Sound s)
include hsound

/-- Derived operations come into their slots with locks that have been made. -/
theorem hold {slots : List Slot} {slot : Slot} {locks : Nat} (hkept : ∀ x ∈ slots, x ∈ s.slots)
    (hmore : s.locks ≤ locks) (honce : slot.2.locks.Nodup) (hmade : ∀ l ∈ slot.2.locks, l < locks) :
    Sound { s with slots := slots ++ [slot], locks := locks } := by
  refine ⟨hsound.free, ?_, ?_⟩
  · intro x hx
    rcases List.mem_append.mp hx with hearlier | hnew
    · exact hsound.once x (hkept x hearlier)
    · rw [List.mem_singleton.mp hnew]
      exact honce
  · intro x hx l hl
    rcases List.mem_append.mp hx with hearlier | hnew
    · exact Nat.lt_of_lt_of_le (hsound.made x (hkept x hearlier) l hl) hmore
    · rw [List.mem_singleton.mp hnew] at hl
      exact hmade l hl

/-- An attempt finds its locks free, and leaves them so. -/
theorem attempt (op : Operation α) {d : Derived .attemptable}
    (hhere : ⟨.attemptable, d⟩ ∈ s.slots) :
    d.attempt op s.common =
        some ((op.payload s.common.calls).ending, { s.common with calls := s.common.calls + 1 }) ∧
      Sound { s with common := { s.common with calls := s.common.calls + 1 } } := by
  have hfree : ∀ lock ∈ d.locks, lock ∉ s.common.held := by
    simp [hsound.free]
  rw [d.attempt_eq op (hsound.once _ hhere) hfree, d.invoke_eq]
  exact ⟨rfl, hsound.free, hsound.once, hsound.made⟩

end Sound

/-- Every step is answered, and answered as by the original. -/
theorem step_direct (op : Operation α) {s : State} (hsound : Sound s) (index : Nat) (st : Step) :
    ∃ u, step op s index st = some ((s.direct.step op index st).1, u) ∧
      u.direct = (s.direct.step op index st).2 ∧ Sound u := by
  have hforms : s.direct.forms[index]? = s.slots[index]?.map (·.1) := List.getElem?_map
  unfold step Direct.step
  rw [hforms]
  cases hfound : s.slots[index]? with
  | none => exact ⟨s, rfl, rfl, hsound⟩
  | some slot =>
    obtain ⟨form, d⟩ := slot
    have hhere : ⟨form, d⟩ ∈ s.slots := List.mem_of_getElem? hfound
    have honce : d.locks.Nodup := hsound.once _ hhere
    have hmade : ∀ lock ∈ d.locks, lock < s.locks := hsound.made _ hhere
    cases form with
    | shared =>
      cases st with
      | forward =>
        refine ⟨{ s with slots := s.slots ++ [⟨.attemptable, d.forward⟩] }, ?_, ?_, ?_⟩
        · simp [Direct.hold, State.direct]
        · simp [Direct.hold, State.direct]
        · exact hsound.hold (fun _ => id) (Nat.le_refl _) honce hmade
      | clone =>
        refine ⟨{ s with slots := s.slots ++ [⟨.shared, d.clone⟩] }, ?_, ?_, ?_⟩
        · simp [Direct.hold, State.direct]
        · simp [Direct.hold, State.direct]
        · exact hsound.hold (fun _ => id) (Nat.le_refl _) honce hmade
      | _ => exact ⟨s, rfl, rfl, hsound⟩
    | attemptable =>
      obtain ⟨hattempted, hsound'⟩ := hsound.attempt op hhere
      cases st with
      | isAsync =>
        refine ⟨s, ?_, rfl, hsound⟩
        simp [d.async_eq op]
      | describe =>
        refine ⟨s, ?_, rfl, hsound⟩
        simp [d.async_eq op]
      | attempt =>
        refine ⟨_, ?_, ?_, hsound'⟩
        · simp only [hattempted]
          rfl
        · rfl
      | attemptBlocking =>
        simp only [Option.map_some, Derived.attemptBlocking, d.async_eq op, hattempted]
        split
        · exact ⟨s, rfl, rfl, hsound⟩
        · exact ⟨_, rfl, rfl, hsound'⟩
      | share =>
        -- the new lock stands before those that were made
        have hnew : s.locks ∉ d.locks := fun hl => Nat.lt_irrefl _ (hmade _ hl)
        refine ⟨{ s with
          slots := s.slots.eraseIdx index ++ [⟨.shared, d.share s.locks⟩]
          locks := s.locks + 1 }, ?_, ?_, ?_⟩
        · simp [Direct.hold, State.direct, List.length_eraseIdx]
        · simp [Direct.hold, State.direct, List.eraseIdx_map]
        · refine hsound.hold (fun _ => List.mem_of_mem_eraseIdx) (Nat.le_succ _)
            (List.nodup_cons.mpr ⟨hnew, honce⟩) ?_
          intro l hl
          rcases List.mem_cons.mp hl with rfl | hl
          · exact Nat.lt_succ_self _
          · exact Nat.lt_succ_of_lt (hmade l hl)
      | _ => exact ⟨s, rfl, rfl, hsound⟩

theorem run_direct (op : Operation α) {s : State} (hsound : Sound s) (steps : List (Nat × Step)) :
    run op s steps = s.direct.run op steps := by
  induction steps generalizing s with
  | nil => rfl
  | cons x rest ih =>
    obtain ⟨index, st⟩ := x
    obtain ⟨u, hanswered, hdirect, hsound'⟩ := step_direct op hsound index st
    have hcalls : u.common.calls = (s.direct.step op index st).2.calls :=
      congrArg Direct.calls hdirect
    rw [run, hanswered, Direct.run]
    simp only
    rw [ih hsound', hdirect, hcalls]

/-! ## What the invocations come to -/

def endings (answers : List (Reply α × Nat)) : List (Ending α) :=
  answers.filterMap fun
    | (.ending e, _) => some e
    | _ => none

def invoked (calls : Nat) (answers : List (Reply α × Nat)) : Nat :=
  (answers.getLast?.map (·.2)).getD calls

namespace Direct

/-- A step invokes the payload once, and answers with what that came to, or not at all. -/
theorem step_cases (op : Operation α) (s : Direct) (index : Nat) (st : Step) :
    (s.step op index st = s.attempt op) ∨
      (s.step op index st).2.calls = s.calls ∧ ∀ e, (s.step op index st).1 ≠ .ending e := by
  unfold step
  cases s.forms[index]? with
  | none => exact .inr ⟨rfl, nofun⟩
  | some form =>
    cases form with
    | shared => cases st <;> exact .inr ⟨rfl, nofun⟩
    | attemptable =>
      cases st with
      | attempt => exact .inl rfl
      | attemptBlocking =>
        by_cases hasync : op.async = true
        · rw [if_pos hasync]
          exact .inr ⟨rfl, nofun⟩
        · rw [if_neg hasync]
          exact .inl rfl
      | _ => exact .inr ⟨rfl, nofun⟩

theorem run_cons (op : Operation α) (s : Direct) (index : Nat) (st : Step)
    (rest : List (Nat × Step)) :
    s.run op ((index, st) :: rest) =
      ((s.step op index st).1, (s.step op index st).2.calls) ::
        (s.step op index st).2.run op rest := rfl

theorem length_run (op : Operation α) (s : Direct) (steps : List (Nat × Step)) :
    (s.run op steps).length = steps.length := by
  induction steps generalizing s with
  | nil => rfl
  | cons x rest ih => exact congrArg (· + 1) (ih _)

theorem invoked_cons (calls : Nat) (x : Reply α × Nat) (rest : List (Reply α × Nat)) :
    invoked calls (x :: rest) = invoked x.2 rest := by
  unfold invoked
  rw [List.getLast?_cons]
  cases rest.getLast? <;> rfl

/-- The invocations are those of the original, from the next one on. -/
theorem endings_run (op : Operation α) (s : Direct) (steps : List (Nat × Step)) :
    ∃ n, invoked s.calls (s.run op steps) = s.calls + n ∧
      endings (s.run op steps) = (List.range' s.calls n).map fun k => (op.payload k).ending := by
  induction steps generalizing s with
  | nil => exact ⟨0, rfl, rfl⟩
  | cons x rest ih =>
    obtain ⟨index, st⟩ := x
    obtain ⟨n, hcalls, hlater⟩ := ih (s.step op index st).2
    have hcases := s.step_cases op index st
    rw [run_cons, invoked_cons, hcalls]
    generalize s.step op index st = next at hlater hcases ⊢
    obtain ⟨reply, u⟩ := next
    rcases hcases with hattempted | ⟨hsame, hsilent⟩
    · obtain ⟨rfl, rfl⟩ := Prod.mk.inj hattempted
      refine ⟨n + 1, ?_, ?_⟩
      · show s.calls + 1 + n = _
        omega
      · rw [List.range'_succ, List.map_cons]
        exact congrArg (_ :: ·) hlater
    · have hsame : u.calls = s.calls := hsame
      refine ⟨n, congrArg (· + n) hsame, ?_⟩
      rw [← hsame, ← hlater]
      cases reply with
      | ending e => exact absurd rfl (hsilent e)
      | _ => rfl

/-- The payloads decide nothing but what the invocations come to. -/
theorem counts_run {op op' : Operation α} (hshape : op'.async = op.async) (s : Direct)
    (steps : List (Nat × Step)) :
    (s.run op' steps).map (·.2) = (s.run op steps).map (·.2) := by
  have hnext (s : Direct) (index : Nat) (st : Step) :
      (s.step op' index st).2 = (s.step op index st).2 := by
    unfold step
    rw [hshape]
    cases s.forms[index]? with
    | none => rfl
    | some form =>
      cases form with
      | shared => cases st <;> rfl
      | attemptable =>
        cases st with
        | attemptBlocking => cases op.async <;> rfl
        | _ => rfl
  induction steps generalizing s with
  | nil => rfl
  | cons x rest ih =>
    obtain ⟨index, st⟩ := x
    rw [run_cons, run_cons, List.map_cons, List.map_cons, hnext, ih]

/-- The original, attempted again and again. -/
theorem endings_attempts (op : Operation α) (calls n : Nat) :
    endings (run op { calls := calls } (List.replicate n (0, .attempt))) =
      (List.range' calls n).map fun k => (op.payload k).ending := by
  induction n generalizing calls with
  | zero => rfl
  | succ n ih =>
    rw [List.range'_succ, List.map_cons, ← ih (calls + 1)]
    rfl

end Direct

/-- Operations are derived from one and attempted, in any order and to any depth.  Every
step is answered, and as if every operation were the original: with its shape, and in the
same words.  What the attempts come to is what the invocations of the one payload come
to, one after the other, and so the same as if the original had been attempted as often;
an asynchronous operation that is attempted without somebody to drive it invokes nothing.
And an invocation that comes to something else, such as a panic, changes no other. -/
theorem run_transparent (op : Operation α) (steps : List (Nat × Step)) :
    let answers := run op {} steps
    let n := invoked 0 answers
    answers.length = steps.length ∧ answers = Direct.run op {} steps ∧
    endings answers = (List.range n).map (fun k => (op.payload k).ending) ∧
    endings answers = endings (run op {} (List.replicate n (0, .attempt))) ∧
    ∀ op' : Operation α, op'.async = op.async →
      (run op' {} steps).map (·.2) = answers.map (·.2) ∧
      ∀ k, (op'.payload k).ending = (op.payload k).ending →
        (endings (run op' {} steps))[k]? = (endings answers)[k]? := by
  intro answers n
  have hdirect (op : Operation α) (steps : List (Nat × Step)) :
      run op {} steps = Direct.run op {} steps := run_direct op sound_start steps
  have htold (op : Operation α) : endings (run op {} steps) =
      (List.range (invoked 0 (run op {} steps))).map fun k => (op.payload k).ending := by
    obtain ⟨m, hcount, hendings⟩ := Direct.endings_run op {} steps
    rw [Nat.zero_add] at hcount
    rw [hdirect, hendings, hcount, List.range_eq_range']
  refine ⟨?_, hdirect op steps, htold op, ?_, fun op' hshape => ⟨?_, fun k hsame => ?_⟩⟩
  · show (run op {} steps).length = _
    rw [hdirect, Direct.length_run]
  · rw [htold op, hdirect op (List.replicate _ _), Direct.endings_attempts, List.range_eq_range']
  · show _ = (run op {} steps).map (·.2)
    rw [hdirect, hdirect, Direct.counts_run hshape]
  · have hcounts : invoked 0 (run op' {} steps) = invoked 0 (run op {} steps) := by
      unfold invoked
      rw [hdirect, hdirect, ← List.getLast?_map, ← List.getLast?_map, Direct.counts_run hshape]
    show _ = (endings (run op {} steps))[k]?
    rw [htold, htold, hcounts, List.getElem?_map, List.getElem?_map]
    by_cases hwithin : k < invoked 0 (run op {} steps)
    · rw [List.getElem?_range hwithin]
      exact congrArg some hsame
    · rw [List.getElem?_eq_none (by rw [List.length_range]; omega)]
      rfl

/-- The second of three invocations panics behind two locks, and the next one goes
through them as if nothing had happened. -/
example :
    let op : Operation Nat :=
      { payload := fun n => { ending := if n = 1 then .panic { message := none } else .value n } }
    let steps : List (Nat × Step) :=
      [(0, .attempt), (0, .share), (0, .forward), (1, .share), (1, .forward), (2, .attemptBlocking),
        (2, .attempt)]
    endings (run op {} steps) = [.value 0, .panic { message := none }, .value 2] :=
  rfl

end Operations
end Session
end Skein
