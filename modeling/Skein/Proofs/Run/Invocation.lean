import Skein.Proofs.Run.Elapse

/-!
# One invocation of the payload

An invocation begins, lets time pass, and ends; in the meantime the signal may
fire, by itself or by the payload's own doing.  `invoke_elapsed` says so in one
equation, from which the story, the clock and the count of invocations are read
off.
-/

namespace Skein

/-- The time that an invocation takes, on a clock that keeps sleeps as long. -/
def Invocation.duration {α : Type} (i : Invocation α) : Millis :=
  i.sleeps.getD 0

namespace Run

open Timeline

variable {α : Type}

namespace Timeline

theorem elapsed_spend (t : Timeline) (i : Invocation α) : Elapsed t (t.spend i) := by
  have hpaused : Elapsed t (if i.yields then t.pause else t) := by
    split
    · exact elapsed_pause t
    · exact .refl t
  unfold spend
  cases i.sleeps with
  | none => exact hpaused
  | some d => exact hpaused.trans (elapsed_sleep _ d)

theorem now_spend (t : Timeline) (i : Invocation α) :
    (t.spend i).now = t.now + t.lasting i.duration := by
  have hpaused : (if i.yields then t.pause else t).now = t.now ∧
      (if i.yields then t.pause else t).longest = t.longest := by
    split
    · exact ⟨now_pause t, (elapsed_pause t).longest⟩
    · exact ⟨rfl, rfl⟩
  unfold spend Invocation.duration
  cases i.sleeps with
  | none =>
    rw [Option.getD_none, lasting_zero]
    exact hpaused.1
  | some d =>
    show (Timeline.sleep _ d).now = t.now + t.lasting d
    rw [now_sleep, hpaused.1, lasting_congr hpaused.2]

theorem elapsed_dispose (t : Timeline) : Elapsed t t.dispose := by
  unfold dispose
  split
  · exact .refl t
  · exact .quietly rfl rfl rfl rfl

@[simp] theorem now_dispose (t : Timeline) : t.dispose.now = t.now := by
  unfold dispose
  split <;> rfl

end Timeline

def Timeline.begin (t : Timeline) : Timeline :=
  { t.record (.invoked t.now) with calls := t.calls + 1 }

/-- Between the beginning of an invocation and its end time passes, as much as
the invocation takes. -/
theorem invoke_elapsed (job : Job α) (takesTime : Bool) (t : Timeline) :
    ∃ u, Elapsed t.begin u ∧
      job.invoke takesTime t =
        ((job.operation.invocation t.calls).ending, u.record (.completed u.now)) ∧
      u.now = t.now +
        if takesTime then t.lasting (job.operation.invocation t.calls).duration else 0 := by
  generalize hi : job.operation.invocation t.calls = i
  have hspent : Elapsed t.begin (if takesTime then t.begin.spend i else t.begin) ∧
      (if takesTime then t.begin.spend i else t.begin).now =
        t.now + if takesTime then t.lasting i.duration else 0 := by
    cases takesTime with
    | true => exact ⟨elapsed_spend _ i, now_spend _ i⟩
    | false => exact ⟨.refl _, rfl⟩
  generalize hs : (if takesTime then t.begin.spend i else t.begin) = s at hspent
  have hfired : Elapsed s (if i.fires then s.fire else s) ∧
    (if i.fires then s.fire else s).now = s.now := by
    split
    · exact ⟨elapsed_fireAt s s.now, now_fireAt s s.now⟩
    · exact ⟨.refl s, rfl⟩
  generalize hf : (if i.fires then s.fire else s) = f at hfired
  refine ⟨if i.disposes then f.dispose else f, ?_, ?_, ?_⟩
  · refine (hspent.1.trans hfired.1).trans ?_
    split
    · exact elapsed_dispose f
    · exact .refl f
  · rw [← hf, ← hs, ← hi]
    rfl
  · rw [← hspent.2, ← hfired.2]
    split
    · exact now_dispose f
    · rfl

/-- A blocking job and an asynchronous one end their invocations as their
payload does. -/
theorem ending_invocation (op : Operation α) (n : Nat) :
    (op.invocation n).ending = (op.payload n).ending := by
  unfold Operation.invocation
  split <;> rfl

theorem fires_invocation (op : Operation α) (n : Nat) :
    (op.invocation n).fires = (op.payload n).fires := by
  unfold Operation.invocation
  split <;> rfl

theorem calls_invoke (job : Job α) (takesTime : Bool) (t : Timeline) :
    (job.invoke takesTime t).2.calls = t.calls + 1 := by
  obtain ⟨u, helapsed, hinvoked, -⟩ := invoke_elapsed job takesTime t
  rw [hinvoked, calls_record, helapsed.calls]
  rfl

theorem longest_invoke (job : Job α) (takesTime : Bool) (t : Timeline) :
    (job.invoke takesTime t).2.longest = t.longest := by
  obtain ⟨u, helapsed, hinvoked, -⟩ := invoke_elapsed job takesTime t
  rw [hinvoked, longest_record, helapsed.longest]
  rfl

/-- Unless the signal has fired, a submission inline is an invocation. -/
theorem runInline_unsignalled {job : Job α} {t : Timeline} (h : job.signalled t = false) :
    (job.runInline t).2 = (job.invoke true t).2 := by
  obtain ⟨u, -, hinvoked, -⟩ := invoke_elapsed job true t
  rw [Job.runInline, h, hinvoked]
  cases (job.operation.invocation t.calls).ending <;> rfl

/-- An invocation submits nothing. -/
theorem givenTo_invoke (job : Job α) (takesTime : Bool) (t : Timeline) (depth : Nat) :
    (job.invoke takesTime t).2.givenTo depth = t.givenTo depth := by
  obtain ⟨u, helapsed, hinvoked, -⟩ := invoke_elapsed job takesTime t
  rw [hinvoked, givenTo_record, helapsed.givenTo]
  exact givenTo_record t (.invoked t.now) depth

/-- What neither an invocation nor a report changes, the dispatchers at the bottom
leave as it was. -/
theorem base_keeps {β : Type} (m : Timeline → β) {job : Job α}
    (hinvoked : ∀ takesTime t, m (job.invoke takesTime t).2 = m t)
    (hlogged : ∀ t entries, m (t.log entries) = m t) (base : Base) (t : Timeline) :
    m (base.enqueue job t).2 = m t := by
  cases base with
  | inline =>
    show m (job.runInline t).2 = m t
    unfold Job.runInline
    split
    · rfl
    · rw [← hinvoked true t]
      split <;> next hgiven => rw [hgiven]
  | fiber =>
    show m (job.runOnFiber t).2 = m t
    unfold Job.runOnFiber
    split
    · rfl
    · split
      · rfl
      · rw [hlogged, hinvoked]

theorem givenTo_base (base : Base) (job : Job α) (t : Timeline) (depth : Nat) :
    (base.enqueue job t).2.givenTo depth = t.givenTo depth :=
  base_keeps (·.givenTo depth) (fun takesTime t => givenTo_invoke job takesTime t depth)
    (fun t entries => givenTo_log t entries depth) base t

theorem longest_base (base : Base) (job : Job α) (t : Timeline) :
    (base.enqueue job t).2.longest = t.longest :=
  base_keeps (·.longest) (longest_invoke job) longest_log base t

end Run
end Skein
