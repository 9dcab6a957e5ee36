import Skein.Session.WorkItems
import Skein.Proofs.Run.Invocation

/-!
# The life of a work item

An item is made, and it is used up once: somebody executes it, cancels it or drops
it.  `run_life` follows an item through a session in which any other steps happen in
between.  Until it is used up nobody learns anything; the step that uses it up
invokes the payload once or not at all and decides the resolution; and from then on
whoever still holds the completion gets that resolution at the first look.  If the
completion was dropped before, a failure is reported instead.

The state of one item is its entry in the session: `Stands` says what stands there.
-/

namespace Skein

/-- One invocation, whatever the shape of the operation. -/
theorem WorkItem.perform_eq {α : Type} (op : Operation α) (calls : Nat) :
    WorkItem.perform op calls = ((op.payload calls).ending, calls + 1) := by
  rw [← Run.ending_invocation op calls]
  unfold WorkItem.perform Operation.Derived.invokeBlocking
  cases h : op.async <;> simp [Operation.Derived.async, Operation.Derived.invoke, h]

namespace Outcome

variable {α : Type} {r : Resolution α}

theorem of_eq_succeeded : Outcome.of r = .succeeded ↔ ∃ a, r = .ok a := by
  cases r with
  | ok a => exact ⟨fun _ => ⟨a, rfl⟩, fun _ => rfl⟩
  | error e => cases e <;> simp [Outcome.of, DispatchError.isCancelled]

theorem of_eq_cancelled : Outcome.of r = .cancelled ↔ ∃ reason, r = .error (.cancelled reason) := by
  cases r with
  | ok a => simp [Outcome.of]
  | error e => cases e <;> simp [Outcome.of, DispatchError.isCancelled]

/-- A failure is what is neither a success nor a cancellation. -/
theorem error_of_eq_failed (h : Outcome.of r = .failed) :
    ∃ e, r = .error e ∧ e.isCancelled = false := by
  cases r with
  | ok a => cases h
  | error e => cases e <;> simp_all [Outcome.of, DispatchError.isCancelled]

theorem unobservedReport_of_ne_failed (h : Outcome.of r ≠ .failed) :
    WorkItem.unobservedReport r = [] := by
  cases r with
  | ok a => rfl
  | error e =>
    cases e <;> simp_all [Outcome.of, WorkItem.unobservedReport, DispatchError.isCancelled]

end Outcome

namespace Session
namespace WorkItems

variable {α : Type}

namespace Step

def makes : Step α → Bool
  | .new .. => true
  | _ => false

def usesUp : Step α → Bool
  | .new .. | .execute | .cancel _ | .drop => true
  | _ => false

def dropsHandle : Step α → Bool
  | .dropHandle => true
  | _ => false

def looks : Step α → Bool
  | .new .. | .dropHandle | .tryTake | .wait => true
  | _ => false

end Step

inductive Use
  | execute
  | cancel (reason : CancelReason)
  | drop

namespace Use

def step : Use → Step α
  | execute => .execute
  | cancel reason => .cancel reason
  | drop => .drop

def reply (call : Call α) : Use → Reply α
  | execute => .outcome (.of call.ending.resolution)
  | cancel _ => .cancelled
  | drop => .dropped

def invocations : Use → Nat
  | execute => 1
  | _ => 0

def resolution (call : Call α) : Use → Resolution α
  | execute => call.ending.resolution
  | cancel reason => .error (.cancelled reason)
  | drop => Completion.abandoned

def completion (call : Call α) : Use → Completion α
  | drop => .closed
  | use => .resolved (use.resolution call)

def report (call : Call α) : Use → List Log.Entry
  | execute => WorkItem.executionReport call.ending.resolution
  | _ => []

theorem tryTake_completion (call : Call α) (use : Use) :
    (use.completion call).tryTake = (some (use.resolution call), .closed) := by
  cases use <;> rfl

theorem wait?_completion (call : Call α) (use : Use) :
    (use.completion call).wait? = some (use.resolution call) := by
  cases use <;> rfl

theorem level_report (call : Call α) (use : Use) :
    ∀ entry ∈ use.report call, entry.level ≠ .warn := by
  cases use with
  | execute => exact WorkItem.level_executionReport call.ending.resolution
  | _ => exact List.forall_mem_nil _

end Use

def holding (name : String) (steps : List (String × Step α)) : Bool :=
  steps.all fun (other, st) => other != name || !st.dropsHandle

namespace State

variable {s : State α} {name other : String} {call : Call α} {token : Option String}
  {handle : Option (Completion α)} {st : Step α}

/-! ## Entries -/

theorem entry_keep (s : State α) (e : Entry α) : (s.keep e).entry e.name = e := by
  simp [entry, keep]

theorem entry_keep_of_ne {e : Entry α} (hne : other ≠ e.name) :
    (s.keep e).entry other = s.entry other := by
  have hpassed : (e.name == other) = false := beq_eq_false_iff_ne.mpr hne.symm
  unfold entry keep
  simp only [List.find?_cons, hpassed, List.find?_filter]
  congr 2
  funext e'
  by_cases hsame : e'.name = other
  · simp [hsame, hne]
  · simp [hsame]

/-- What stands in the session under the name. -/
def Stands (s : State α) (name : String) (item : Option (Call α × Option String))
    (handle : Option (Completion α)) : Prop :=
  s.entry name = { name := name, item := item, handle := handle }

theorem stands_keep (s : State α) (name : String) (item : Option (Call α × Option String))
    (handle : Option (Completion α)) :
    (s.keep { name := name, item := item, handle := handle }).Stands name item handle :=
  entry_keep s { name := name, item := item, handle := handle }

/-! ## What a step does to other names -/

theorem name_entry (s : State α) (name : String) : (s.entry name).name = name := by
  unfold entry
  cases hfound : s.entries.find? (·.name == name) with
  | none => rfl
  | some e => simpa using List.find?_some hfound

/-- From `s` to `u` something may have been done under the name. -/
structure Touched (name : String) (s u : State α) : Prop where
  entries : u.entries = s.entries ∨ ∃ e, e.name = name ∧ u.entries = (s.keep e).entries
  calls : ∃ count, u.calls = List.replicate count name ++ s.calls
  taken : u.taken = s.taken ∨ u.taken = name :: s.taken

theorem touched_step (s : State α) (name : String) (st : Step α) :
    Touched name s (s.step name st).2 := by
  have hsame {u : State α} (h : u = s) : Touched name s u := by
    rw [h]
    exact ⟨.inl rfl, ⟨0, rfl⟩, .inl rfl⟩
  have hkept {u : State α} {e : Entry α} (hentries : u.entries = (s.keep e).entries)
      (hnamed : e.name = name) (hcalls : ∃ count, u.calls = List.replicate count name ++ s.calls)
      (htaken : u.taken = s.taken ∨ u.taken = name :: s.taken) : Touched name s u :=
    ⟨.inr ⟨e, hnamed, hentries⟩, hcalls, htaken⟩
  have hnamed := name_entry s name
  cases st with
  | new call token => exact hkept rfl rfl ⟨0, rfl⟩ (.inl rfl)
  | fireToken token => exact ⟨.inl rfl, ⟨0, rfl⟩, .inl rfl⟩
  | execute =>
    simp only [step]
    split
    · exact hsame rfl
    · exact hkept rfl hnamed ⟨_, rfl⟩ (.inl rfl)
  | cancel reason =>
    simp only [step]
    split
    · exact hsame rfl
    · exact hkept rfl hnamed ⟨0, rfl⟩ (.inl rfl)
  | drop =>
    simp only [step]
    split
    · exact hsame rfl
    · exact hkept rfl hnamed ⟨0, rfl⟩ (.inl rfl)
  | dropHandle =>
    simp only [step]
    split
    · exact hsame rfl
    · exact hkept rfl hnamed ⟨0, rfl⟩ (.inl rfl)
  | isCancelled =>
    simp only [step]
    split <;> exact hsame rfl
  | describe =>
    simp only [step]
    split <;> exact hsame rfl
  | tryTake =>
    simp only [step]
    split
    · exact hsame rfl
    · split
      · exact hkept rfl hnamed ⟨0, rfl⟩ (.inr rfl)
      · exact hsame rfl
  | wait =>
    simp only [step]
    split
    · exact hsame rfl
    · split
      · exact hsame rfl
      · split
        · exact hkept rfl hnamed ⟨0, rfl⟩ (.inl rfl)
        · exact hsame rfl

namespace Touched

variable {u : State α} (h : Touched name s u) (hne : other ≠ name)
include h hne

theorem entry : u.entry other = s.entry other := by
  rcases h.entries with hsame | ⟨e, rfl, hkept⟩
  · unfold State.entry
    rw [hsame]
  · have hmoved : u.entry other = (s.keep e).entry other := by
      unfold State.entry
      rw [hkept]
    exact hmoved.trans (entry_keep_of_ne hne)

theorem stands {item : Option (Call α × Option String)} (hstands : s.Stands other item handle) :
    u.Stands other item handle :=
  (h.entry hne).trans hstands

theorem count : u.calls.count other = s.calls.count other := by
  obtain ⟨count, hcalls⟩ := h.calls
  rw [hcalls, List.count_append, List.count_replicate, if_neg (by simpa using hne.symm),
    Nat.zero_add]

theorem mem_taken : other ∈ u.taken ↔ other ∈ s.taken := by
  rcases h.taken with hsame | htaken
  · rw [hsame]
  · rw [htaken, List.mem_cons, or_iff_right hne]

end Touched

/-! ## What a step does to the item itself -/

/-- From `s` to `u` nothing happened but that a signal may have fired. -/
structure Unmoved (s u : State α) : Prop where
  entries : u.entries = s.entries
  calls : u.calls = s.calls
  taken : u.taken = s.taken
  log : u.log = s.log

theorem Unmoved.refl (s : State α) : Unmoved s s := ⟨rfl, rfl, rfl, rfl⟩

theorem Unmoved.stands {u : State α} {item : Option (Call α × Option String)} (h : Unmoved s u)
    (hstands : s.Stands name item handle) : u.Stands name item handle := by
  unfold Stands State.entry at *
  rw [h.entries]
  exact hstands

section Waiting

variable {x : Call α × Option String} {held : Bool}

def waiting (held : Bool) : Option (Completion α) :=
  if held then some .pending else none

/-- As long as the item waits, looking at it changes nothing. -/
theorem unmoved_step_waiting (hstands : s.Stands name (some x) (waiting held))
    (hunused : st.usesUp = false) (hkeeps : st.dropsHandle = false) :
    Unmoved s (s.step name st).2 := by
  unfold Stands at hstands
  cases st with
  | new | execute | cancel | drop => cases hunused
  | dropHandle => cases hkeeps
  | fireToken token => exact ⟨rfl, rfl, rfl, rfl⟩
  | isCancelled | describe =>
    simp only [step, hstands]
    exact .refl s
  | tryTake =>
    simp only [step, hstands]
    cases held <;> exact .refl s
  | wait =>
    simp only [step, hstands]
    split <;> exact .refl s

theorem step_waiting (hstands : s.Stands name (some x) (waiting held))
    (hunused : st.usesUp = false) :
    (s.step name st).2.Stands name (some x) (waiting (held && !st.dropsHandle)) ∧
      (s.step name st).2.calls = s.calls ∧ (s.step name st).2.log = s.log ∧
      (s.step name st).2.taken = s.taken := by
  cases hkeeps : st.dropsHandle with
  | false =>
    have hunmoved := unmoved_step_waiting hstands hunused hkeeps
    rw [Bool.not_false, Bool.and_true]
    exact ⟨hunmoved.stands hstands, hunmoved.calls, hunmoved.log, hunmoved.taken⟩
  | true =>
    cases st with
    | dropHandle =>
      rw [Bool.not_true, Bool.and_false]
      have hentry : s.entry name = _ := hstands
      cases held with
      | false =>
        simp only [step, hentry]
        exact ⟨hstands, rfl, rfl, rfl⟩
      | true =>
        simp only [step, hentry]
        exact ⟨stands_keep s name (some x) none, rfl, rfl, rfl⟩
    | _ => cases hkeeps

theorem run_waiting {before : List (String × Step α)}
    (hstands : s.Stands name (some x) (waiting held))
    (hunused : ∀ y ∈ before, y.1 = name → y.2.usesUp = false) :
    (s.run before).2.Stands name (some x) (waiting (held && holding name before)) ∧
      (s.run before).2.calls.count name = s.calls.count name ∧
      (name ∈ (s.run before).2.taken ↔ name ∈ s.taken) := by
  induction before generalizing s held with
  | nil =>
    rw [holding, List.all_nil, Bool.and_true]
    exact ⟨hstands, rfl, .rfl⟩
  | cons y rest ih =>
    obtain ⟨other, st⟩ := y
    have hlater : ∀ y ∈ rest, y.1 = name → y.2.usesUp = false :=
      fun y hy => hunused y (List.mem_cons_of_mem _ hy)
    show State.Stands (State.run (s.step other st).2 rest).2 _ _ _ ∧
      List.count name (State.run (s.step other st).2 rest).2.calls = _ ∧
      (name ∈ (State.run (s.step other st).2 rest).2.taken ↔ _)
    by_cases hsame : other = name
    · subst hsame
      obtain ⟨hstands', hcalls, -, htaken⟩ :=
        step_waiting hstands (hunused _ List.mem_cons_self rfl)
      have hrest := ih hstands' hlater
      rw [hcalls, htaken, Bool.and_assoc] at hrest
      simpa [holding] using hrest
    · have htouched := touched_step s other st
      have hne : name ≠ other := Ne.symm hsame
      have hdiffers : (other != name) = true := bne_iff_ne.mpr hsame
      have hrest := ih (htouched.stands hne hstands) hlater
      rw [htouched.count hne, htouched.mem_taken hne] at hrest
      simpa [holding, hdiffers] using hrest

end Waiting

section Used

variable {held : Bool}

def settled (call : Call α) (use : Use) (held : Bool) : Option (Completion α) :=
  if held then some (use.completion call) else none

/-- Handing a resolution over uses the item up, and reports what nobody takes. -/
theorem resolve_waiting (s : State α) (name : String) (item : Option (Call α × Option String))
    (held : Bool) (r : Resolution α) :
    let u := s.resolve { name := name, item := item, handle := waiting held } r
    u.Stands name none (if held then some (.resolved r) else none) ∧ u.calls = s.calls ∧
      u.log = (if held then [] else WorkItem.unobservedReport r).reverse ++ s.log ∧
      u.taken = s.taken := by
  cases held with
  | true => exact ⟨stands_keep s name none (some (.resolved r)), rfl, rfl, rfl⟩
  | false => exact ⟨stands_keep s name none none, rfl, rfl, rfl⟩

/-- The step that uses the item up. -/
theorem step_use (hstands : s.Stands name (some (call, token)) (waiting held)) (use : Use) :
    (s.step name use.step).1 = use.reply call ∧
      (s.step name use.step).2.Stands name none (settled call use held) ∧
      (s.step name use.step).2.calls = List.replicate use.invocations name ++ s.calls ∧
      (s.step name use.step).2.log = (use.report call ++
        if held then [] else WorkItem.unobservedReport (use.resolution call)).reverse ++ s.log ∧
      (s.step name use.step).2.taken = s.taken := by
  have hentry : s.entry name = _ := hstands
  cases use with
  | execute =>
    simp only [Use.step, step, hentry, WorkItem.perform_eq]
    obtain ⟨hstands', hcalls, hlog, htaken⟩ :=
      resolve_waiting (({ s with
          calls := List.replicate 1 name ++ s.calls, fired := call.fires ++ s.fired } :
            State α).report (WorkItem.executionReport call.ending.resolution))
        name (some (call, token)) held call.ending.resolution
    refine ⟨rfl, hstands', hcalls, ?_, htaken⟩
    rw [List.reverse_append, List.append_assoc]
    exact hlog
  | cancel reason =>
    simp only [Use.step, step, hentry]
    obtain ⟨hstands', hcalls, hlog, htaken⟩ :=
      resolve_waiting s name (some (call, token)) held (.error (.cancelled reason))
    exact ⟨rfl, hstands', hcalls, hlog, htaken⟩
  | drop =>
    simp only [Use.step, step, hentry]
    cases held with
    | true => exact ⟨rfl, stands_keep s name none (some .closed), rfl, rfl, rfl⟩
    | false => exact ⟨rfl, stands_keep s name none none, rfl, rfl, rfl⟩

theorem unmoved_step_used (hstands : s.Stands name none handle) (hunseen : st.looks = false) :
    Unmoved s (s.step name st).2 := by
  unfold Stands at hstands
  cases st with
  | new | dropHandle | tryTake | wait => cases hunseen
  | fireToken token => exact ⟨rfl, rfl, rfl, rfl⟩
  | execute | cancel | drop | isCancelled | describe =>
    simp only [step, hstands]
    exact .refl s

/-- An item that has been used up stays so, and neither invokes nor reports anything
more. -/
theorem step_used (hstands : s.Stands name none handle) (hsole : st.makes = false) :
    (∃ handle, (s.step name st).2.Stands name none handle) ∧
      (s.step name st).2.calls = s.calls ∧ (s.step name st).2.log = s.log := by
  cases hunseen : st.looks with
  | false =>
    have hunmoved := unmoved_step_used hstands hunseen
    exact ⟨⟨handle, hunmoved.stands hstands⟩, hunmoved.calls, hunmoved.log⟩
  | true =>
    have hentry : s.entry name = _ := hstands
    cases st with
    | new => cases hsole
    | dropHandle =>
      simp only [step, hentry]
      cases handle with
      | none => exact ⟨⟨none, hstands⟩, rfl, rfl⟩
      | some completion => exact ⟨⟨none, stands_keep s name none none⟩, rfl, rfl⟩
    | tryTake =>
      simp only [step, hentry]
      cases handle with
      | none => exact ⟨⟨none, hstands⟩, rfl, rfl⟩
      | some completion =>
        cases completion with
        | pending => exact ⟨⟨_, hstands⟩, rfl, rfl⟩
        | resolved r => exact ⟨⟨_, stands_keep s name none (some .closed)⟩, rfl, rfl⟩
        | closed => exact ⟨⟨_, stands_keep s name none (some .closed)⟩, rfl, rfl⟩
    | wait =>
      simp only [step, hentry]
      split
      · exact ⟨⟨handle, hstands⟩, rfl, rfl⟩
      · simp only [Option.isSome_none, Bool.false_eq_true, if_false]
        split
        · exact ⟨⟨none, stands_keep s name none none⟩, rfl, rfl⟩
        · exact ⟨⟨handle, hstands⟩, rfl, rfl⟩
    | _ => cases hunseen

/-- Whatever the steps under the name and the steps under other names keep, the run
keeps. -/
theorem run_keeps (name : String) {P : State α → Prop} {steps : List (String × Step α)}
    {s : State α} (hstart : P s)
    (hown : ∀ u, ∀ y ∈ steps, y.1 = name → P u → P (u.step name y.2).2)
    (hothers : ∀ u v other, name ≠ other → Touched other u v → P u → P v) : P (s.run steps).2 := by
  induction steps generalizing s with
  | nil => exact hstart
  | cons y rest ih =>
    obtain ⟨other, st⟩ := y
    show P (State.run (s.step other st).2 rest).2
    refine ih ?_ fun u y hy => hown u y (List.mem_cons_of_mem _ hy)
    by_cases hsame : other = name
    · subst hsame
      exact hown s _ List.mem_cons_self rfl hstart
    · exact hothers s _ other (Ne.symm hsame) (touched_step s other st) hstart

theorem run_used {after : List (String × Step α)} (hstands : s.Stands name none handle)
    (hsole : ∀ y ∈ after, y.1 = name → y.2.makes = false) :
    (∃ handle, (s.run after).2.Stands name none handle) ∧
      (s.run after).2.calls.count name = s.calls.count name := by
  refine run_keeps name (P := fun u => (∃ handle, u.Stands name none handle) ∧
    u.calls.count name = s.calls.count name) ⟨⟨handle, hstands⟩, rfl⟩ ?_ ?_
  · rintro u y hy hhere ⟨⟨_, hstands⟩, hcount⟩
    obtain ⟨hstands', hcalls, -⟩ := step_used hstands (hsole y hy hhere)
    rw [hcalls]
    exact ⟨hstands', hcount⟩
  · rintro u v other hne htouched ⟨⟨_, hstands⟩, hcount⟩
    exact ⟨⟨_, htouched.stands hne hstands⟩, (htouched.count hne).trans hcount⟩

/-- Until somebody looks, the completion keeps what it has received. -/
theorem run_unseen {after : List (String × Step α)} (hstands : s.Stands name none handle)
    (hunseen : ∀ y ∈ after, y.1 = name → y.2.looks = false) :
    (s.run after).2.Stands name none handle ∧ (name ∈ (s.run after).2.taken ↔ name ∈ s.taken) := by
  refine run_keeps name
    (P := fun u => u.Stands name none handle ∧ (name ∈ u.taken ↔ name ∈ s.taken))
    ⟨hstands, .rfl⟩ ?_ ?_
  · rintro u y hy hhere ⟨hstands, htaken⟩
    have hunmoved := unmoved_step_used hstands (hunseen y hy hhere)
    rw [hunmoved.taken]
    exact ⟨hunmoved.stands hstands, htaken⟩
  · rintro u v other hne htouched ⟨hstands, htaken⟩
    exact ⟨htouched.stands hne hstands, (htouched.mem_taken hne).trans htaken⟩

end Used

/-! ## The whole life -/

/-- An item in a session that goes on around it.  Until it is used up its payload has
not been invoked, nothing is reported, and a look at the completion gives nothing.
The step that uses it up invokes the payload once if it executes the item and not at
all if it cancels or drops it; it tells the outcome that the resolution has, and if
the completion has been dropped by then and the outcome is a failure, it gives one
warning.  After that the payload is not invoked again and nothing is reported, and a
completion that is held gives the resolution to whoever looks first. -/
theorem run_life (s : State α) (name : String) (call : Call α) (token : Option String) (use : Use)
    (before after : List (String × Step α))
    (hunused : ∀ y ∈ before, y.1 = name → y.2.usesUp = false)
    (hsole : ∀ y ∈ after, y.1 = name → y.2.makes = false) :
    let held := holding name before
    let early := ((s.step name (.new call token)).2.run before).2
    let used := early.step name use.step
    let late := (used.2.run after).2
    let r := use.resolution call
    (early.calls.count name = s.calls.count name ∧
      (∀ st : Step α, st.usesUp = false → (early.step name st).2.log = early.log) ∧
      (held = true → (early.step name .tryTake).1 = .pending)) ∧
    (used.1 = use.reply call ∧ used.2.calls = List.replicate use.invocations name ++ early.calls ∧
      (Outcome.of r = .succeeded ↔ ∃ a, r = .ok a) ∧
      (Outcome.of r = .cancelled ↔ ∃ reason, r = .error (.cancelled reason)) ∧
      (∀ entry ∈ use.report call, entry.level ≠ .warn) ∧
      (held = true ∨ Outcome.of r ≠ .failed →
        used.2.log = (use.report call).reverse ++ early.log) ∧
      (held = false → Outcome.of r = .failed → ∃ e, r = .error e ∧
        used.2.log = WorkItem.unobservedEntry e :: (use.report call).reverse ++ early.log)) ∧
    (late.calls.count name = used.2.calls.count name ∧
      (∀ st : Step α, st.makes = false → (late.step name st).2.log = late.log) ∧
      (held = true → (∀ y ∈ after, y.1 = name → y.2.looks = false) →
        (late.step name .tryTake).1 = .resolution r ∧
        (name ∉ s.taken → (late.step name .wait).1 = .resolution r))) := by
  intro held early used late r
  have hmade : (s.step name (.new call token)).2.Stands name (some (call, token)) (waiting true) :=
    stands_keep s name (some (call, token)) (some .pending)
  obtain ⟨hstands, hcount, htaken⟩ := run_waiting hmade hunused
  rw [Bool.true_and] at hstands
  obtain ⟨hreply, hstands', hcalls, hlog, htaken'⟩ := step_use hstands use
  obtain ⟨⟨_, hlast⟩, hcount'⟩ := run_used hstands' hsole
  refine ⟨⟨hcount, fun st hst => (step_waiting hstands hst).2.2.1, ?_⟩,
    ⟨hreply, hcalls, Outcome.of_eq_succeeded, Outcome.of_eq_cancelled, use.level_report call, ?_,
      ?_⟩,
    ⟨hcount', fun st hst => (step_used hlast hst).2.2, ?_⟩⟩
  · intro (hheld : holding name before = true)
    rw [hheld] at hstands
    have hentry : early.entry name = _ := hstands
    simp only [step, hentry]
    rfl
  · intro hobserved
    rw [hlog]
    rcases hobserved with hheld | hunfailed
    · rw [if_pos hheld, List.append_nil]
    · rw [Outcome.unobservedReport_of_ne_failed hunfailed, ite_self, List.append_nil]
  · intro (hdropped : holding name before = false) hfailed
    obtain ⟨e, hr, hkept⟩ := Outcome.error_of_eq_failed hfailed
    refine ⟨e, hr, ?_⟩
    rw [hlog, hdropped, show use.resolution call = .error e from hr]
    simp only [Bool.false_eq_true, if_false]
    rw [WorkItem.unobservedReport_error hkept, List.reverse_append]
    rfl
  · intro (hheld : holding name before = true) hunseen
    rw [hheld] at hstands'
    obtain ⟨hstands'', htaken''⟩ := run_unseen hstands' hunseen
    have hentry : late.entry name = _ := hstands''
    constructor
    · simp only [step, hentry, settled, if_true, use.tryTake_completion]
      rfl
    · intro hfresh
      have huntaken : late.taken.contains name = false := by
        rw [← Bool.not_eq_true, List.contains_iff_mem, htaken'', htaken', htaken]
        exact hfresh
      simp only [step, hentry, settled, if_true, huntaken, Option.isSome_none, Bool.false_eq_true,
        if_false, Option.bind_some, use.wait?_completion]
      rfl

/-- Two asynchronous payloads that panic, with a third item in between: the first
completion is kept and asked in the end, the second one is dropped too early. -/
theorem run_life_panics :
    let call : Call Nat := { async := true, ending := .panic { message := some "boom" } }
    let e : DispatchError := .operation (.panicked "boom")
    let between : List (String × Step Nat) :=
      [("c", .new { ending := .value 7 } none), ("c", .execute), ("a", .isCancelled)]
    let early := (State.run {} (("a", .new call none) :: ("a", .tryTake) :: between)).2
    let late := (early.step "a" .execute).2.run between
    let fired := (State.run {} (("a", .new call none) :: ("a", .dropHandle) :: between)).2
    (∀ y ∈ ("a", .tryTake) :: between, y.1 = "a" → y.2.usesUp = false) ∧
      (∀ y ∈ ("a", .dropHandle) :: between, y.1 = "a" → y.2.usesUp = false) ∧
      (∀ y ∈ between, y.1 = "a" → y.2.makes = false) ∧
      (early.step "a" .tryTake).1 = .pending ∧
      (early.step "a" .execute).1 = .outcome .failed ∧
      (early.step "a" .execute).2.log = WorkItem.failedEntry e :: early.log ∧
      late.2.calls.count "a" = 1 ∧
      (late.2.step "a" .tryTake).1 = .resolution (.error e) ∧
      (late.2.step "a" .wait).1 = .resolution (.error e) ∧
      (fired.step "a" .execute).2.log =
        WorkItem.unobservedEntry e :: WorkItem.failedEntry e :: fired.log := by
  intro call e between early late fired
  have hunused : ∀ y ∈ ("a", .tryTake) :: between, y.1 = "a" → y.2.usesUp = false := by
    simp [between, Step.usesUp]
  have hdropped : ∀ y ∈ ("a", .dropHandle) :: between, y.1 = "a" → y.2.usesUp = false := by
    simp [between, Step.usesUp]
  have hsole : ∀ y ∈ between, y.1 = "a" → y.2.makes = false := by
    simp [between, Step.makes]
  have hunseen : ∀ y ∈ between, y.1 = "a" → y.2.looks = false := by
    simp [between, Step.looks]
  obtain ⟨⟨-, -, hpending⟩, ⟨hreply, -, -, -, -, hkept, -⟩, -, -, hgiven⟩ :=
    run_life {} "a" call none .execute (("a", .tryTake) :: between) between hunused hsole
  obtain ⟨-, ⟨-, -, -, -, -, -, hwarned⟩, -⟩ :=
    run_life {} "a" call none .execute (("a", .dropHandle) :: between) between hdropped hsole
  obtain ⟨e', hfailed, hwarning⟩ := hwarned (by decide) rfl
  obtain rfl : e = e' := by
    injection hfailed
  have honce : late.2.calls.count "a" = 1 := by decide
  exact ⟨hunused, hdropped, hsole, hpending (by decide), hreply, hkept (.inl (by decide)), honce,
    (hgiven (by decide) hunseen).1, (hgiven (by decide) hunseen).2 List.not_mem_nil, hwarning⟩

end State

end WorkItems
end Session
end Skein
