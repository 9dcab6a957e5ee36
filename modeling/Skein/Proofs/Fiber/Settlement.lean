import Skein.Proofs.Fiber.Story

/-!
# Every item is resolved once

An item can be resolved in four places: the queue refuses it, the worker passes
it over, the worker executes it, or the worker meets it when it leaves.
`run_settled` says that after every schedule no item has been resolved twice or
executed twice, that the resolution tells which of these happened, and that
nobody is left waiting once the fiber is disposed.
-/

namespace Skein

/-- A payload cannot make its item look like one that was never executed. -/
theorem Ending.resolution_ne_cancelled {α : Type} (ending : Ending α) {reason : CancelReason}
    (h : reason ≠ .cooperative) : ending.resolution ≠ Fiber.cancelled reason := by
  intro heq
  cases ending with
  | value a => cases heq
  | panic p => cases heq
  | failure f =>
    have hjob : DispatchError.ofJob f = .cancelled reason := Except.error.inj heq
    cases f with
    | cancelledByJob => exact h (DispatchError.cancelled.inj hjob).symm
    | _ => cases hjob

namespace Fiber

variable {ι α : Type}

theorem Plan.outcome_eq (plan : Plan ι α) (a : ι) :
    plan.outcome a = ((plan.operation a).payload 0).ending.resolution := by
  simp only [Plan.outcome, Operation.Derived.invokeBlocking, Operation.Derived.invoke,
    Operation.Derived.async, Operation.invocation]
  cases (plan.operation a).async <;> rfl

namespace Course

theorem outcome_ne_abandoned (plan : Plan ι α) (a : ι) (c : Course) :
    c.outcome plan a ≠ Completion.abandoned := by
  cases c with
  | executed =>
    have hne : CancelReason.abandoned ≠ .cooperative := nofun
    show plan.outcome a ≠ cancelled .abandoned
    rw [Plan.outcome_eq]
    exact Ending.resolution_ne_cancelled _ hne
  | _ => nofun

/-- The resolution tells whether the item was executed. -/
theorem outcome_eq_iff (plan : Plan ι α) (a : ι) (c : Course) :
    c.outcome plan a = plan.outcome a ↔ c = executed := by
  constructor
  · intro hsame
    have hsignalled : CancelReason.signalled ≠ .cooperative := nofun
    have hdisposed : CancelReason.fiberDisposed ≠ .cooperative := nofun
    rw [Plan.outcome_eq] at hsame
    cases c with
    | executed => rfl
    | signalled => exact absurd hsame.symm (Ending.resolution_ne_cancelled _ hsignalled)
    | _ => exact absurd hsame.symm (Ending.resolution_ne_cancelled _ hdisposed)
  · intro hexecuted
    rw [hexecuted]
    rfl

end Course

namespace Race

/-- The worker took the item, read that the fiber was active, and then found the
item's signal fired. -/
def FoundFired (s : Race ι α) (a : ι) : Prop :=
  [.took a, .read a .active, .looked a true].Sublist s.story

structure Settled (plan : Plan ι α) (s : Race ι α) : Prop where
  resolved_once : (s.resolutions.map Prod.fst).Nodup
  invoked_once : s.begun.Nodup
  /-- The payload was invoked if and only if the resolution is what came of it. -/
  invoked_iff : ∀ a r, (a, r) ∈ s.resolutions →
    (a ∈ s.begun ↔ r = ((plan.operation a).payload 0).ending.resolution)
  signalled : ∀ a r, (a, r) ∈ s.resolutions → a ∉ s.begun → s.FoundFired a →
    r = cancelled .signalled
  disposed : ∀ a r, (a, r) ∈ s.resolutions → a ∉ s.begun → ¬ s.FoundFired a →
    r = cancelled .fiberDisposed
  at_end : s.state = .disposed → ∀ a accepted, s.line.offers a = .returned accepted →
    ∃ r, (a, r) ∈ s.resolutions ∧ r ≠ Completion.abandoned

theorem mem_begun {s : Race ι α} {a : ι} : a ∈ s.begun ↔ .began a ∈ s.story := by
  rw [begun, List.mem_filterMap]
  constructor
  · rintro ⟨e, he, hbegan⟩
    cases e with
    | began b =>
      cases hbegan
      exact he
    | _ => cases hbegan
  · intro he
    exact ⟨_, he, rfl⟩

variable [DecidableEq ι] {plan : Plan ι α} {s : Race ι α} {prompt late : List (ι × Course)}
  {opening : List (Event ι α)} {a : ι} {c : Course} {r : Resolution α}

namespace Known

theorem begun_iff (h : Known plan s prompt late opening) (hc : (a, c) ∈ prompt ++ late) :
    a ∈ s.begun ↔ c = .executed := by
  rw [mem_begun]
  constructor
  · intro hbegan
    have hmem := h.mem_events hc hbegan rfl
    cases c with
    | executed => rfl
    | _ => simp [Course.events, Course.lead] at hmem
  · intro hexecuted
    apply (h.events_sublist hc).subset
    rw [hexecuted]
    simp [Course.events, Course.lead]

theorem foundFired_iff (h : Known plan s prompt late opening) (hc : (a, c) ∈ prompt ++ late) :
    s.FoundFired a ↔ c = .signalled := by
  constructor
  · intro hfound
    have hlooked : .looked a true ∈ s.story := hfound.subset (by simp)
    have hmem := h.mem_events hc hlooked rfl
    cases c with
    | signalled => rfl
    | _ => simp [Course.events, Course.lead] at hmem
  · intro hsignalled
    have hevents := h.events_sublist hc
    rw [hsignalled] at hevents
    exact (List.sublist_append_left _ _).trans hevents

/-- A resolution belongs to an episode, or to an item that was never accepted. -/
theorem mem_resolutions (h : Known plan s prompt late opening) (hr : (a, r) ∈ s.resolutions) :
    (∃ c, (a, c) ∈ prompt ++ late ∧ r = c.outcome plan a) ∨
      a ∉ s.line.pushed ∧ r = cancelled .fiberDisposed := by
  rw [h.resolutions] at hr
  rcases List.mem_append.mp hr with hr | hr
  · obtain ⟨e, he, heq⟩ := List.mem_map.mp hr
    obtain ⟨rfl, rfl⟩ := Prod.mk.inj heq
    exact .inl ⟨e.2, he, rfl⟩
  · obtain ⟨b, hb, heq⟩ := List.mem_map.mp hr
    obtain ⟨rfl, rfl⟩ := Prod.mk.inj heq
    exact .inr ⟨h.kept.never_stored b hb, rfl⟩

theorem resolved_once (h : Known plan s prompt late opening) :
    (s.resolutions.map Prod.fst).Nodup := by
  have hrejected : s.line.rejected.Nodup := by
    rw [List.nodup_iff_count_le_one]
    intro b
    rw [h.kept.rejected b]
    exact Bool.toNat_le _
  have hkeys : s.resolutions.map Prod.fst = (prompt ++ late).map Prod.fst ++ s.line.rejected := by
    rw [h.resolutions]
    simp [Function.comp_def]
  rw [hkeys, List.nodup_append]
  refine ⟨(List.nodup_append.mp h.nodup).1, hrejected, fun b hb d hd hbd => ?_⟩
  subst hbd
  apply h.kept.never_stored b hd
  rw [h.pushed]
  exact List.mem_append_left _ hb

theorem not_begun (h : Known plan s prompt late opening) (ha : a ∉ s.line.pushed) : a ∉ s.begun :=
  fun hbegun => ha (h.item_pushed (mem_begun.mp hbegun))

theorem not_foundFired (h : Known plan s prompt late opening) (ha : a ∉ s.line.pushed) :
    ¬ s.FoundFired a := by
  intro hfound
  have htook : .took a ∈ s.story := hfound.subset (by simp)
  exact ha (h.item_pushed htook)

/-- When the fiber is disposed, the worker has been through all accepted items,
and the queue is empty. -/
theorem all_episodes (h : Known plan s prompt late opening) (hstate : s.state = .disposed) :
    s.line.queue.items = [] ∧ s.line.pushed = (prompt ++ late).map Prod.fst := by
  have hplace := Worker.eq_of_ended (h.disposed.mp hstate)
  have htold : s.worker.told = true := by
    rcases hplace with hw | hw <;> rw [hw] <;> rfl
  have hitem : s.worker.item = [] := by
    rcases hplace with hw | hw <;> rw [hw] <;> rfl
  have hover := h.kept.ended (.inr (h.told htold))
  refine ⟨hover.items, ?_⟩
  rw [h.pushed, hitem, hover.inHand, hover.items]
  simp

theorem resolved_at_end (h : Known plan s prompt late opening) (hstate : s.state = .disposed)
    {accepted : Bool} (ha : s.line.offers a = .returned accepted) :
    ∃ r, (a, r) ∈ s.resolutions ∧ r ≠ Completion.abandoned := by
  cases accepted with
  | false =>
    have hcount := h.kept.rejected a
    rw [ha] at hcount
    have hrejected : a ∈ s.line.rejected := List.count_pos_iff.mp (by rw [hcount]; decide)
    refine ⟨cancelled .fiberDisposed, List.mem_append_right _ (List.mem_map_of_mem hrejected), ?_⟩
    intro heq
    cases heq
  | true =>
    have hcount := h.kept.appended a
    rw [ha] at hcount
    have hpushed : a ∈ s.line.pushed := List.count_pos_iff.mp (by rw [hcount]; decide)
    rw [(h.all_episodes hstate).2] at hpushed
    obtain ⟨e, he, rfl⟩ := List.mem_map.mp hpushed
    refine ⟨e.2.outcome plan e.1, ?_, e.2.outcome_ne_abandoned plan e.1⟩
    rw [h.resolutions]
    exact List.mem_append_left _ (List.mem_map_of_mem he)

end Known

theorem run_settled (plan : Plan ι α) (schedule : List (Agent ι)) :
    Settled plan (run plan {} schedule) := by
  obtain ⟨prompt, late, opening, h⟩ := known_run plan schedule
  generalize run plan {} schedule = s at h ⊢
  constructor
  · exact h.resolved_once
  · exact h.begun.nodup h.nodup
  · intro a r hr
    rw [← Plan.outcome_eq]
    rcases h.mem_resolutions hr with ⟨c, hc, rfl⟩ | ⟨hpushed, rfl⟩
    · rw [h.begun_iff hc, Course.outcome_eq_iff]
    · refine iff_of_false (h.not_begun hpushed) fun hsame => ?_
      cases (Course.drained.outcome_eq_iff plan a).mp hsame
  · intro a r hr hbegun hfound
    rcases h.mem_resolutions hr with ⟨c, hc, rfl⟩ | ⟨hpushed, rfl⟩
    · rw [(h.foundFired_iff hc).mp hfound]
      rfl
    · exact absurd hfound (h.not_foundFired hpushed)
  · intro a r hr hbegun hfound
    rcases h.mem_resolutions hr with ⟨c, hc, rfl⟩ | ⟨hpushed, rfl⟩
    · rw [h.begun_iff hc] at hbegun
      rw [h.foundFired_iff hc] at hfound
      cases c with
      | executed => exact absurd rfl hbegun
      | signalled => exact absurd rfl hfound
      | _ => rfl
    · rfl
  · intro hstate a accepted ha
    exact h.resolved_at_end hstate ha

-- The first item is executed, the second has a signal that fires, the third waits
-- in the queue when the fiber is closed, and the fourth is refused.
example :
    let plan : Plan (Fin 4) Unit :=
      { operation := fun _ => { payload := fun _ => { ending := .value () } }
        signal := fun a => if a = 1 then some 0 else none
        request := fun _ => .dispose false }
    let before : List (Agent (Fin 4)) :=
      ([0, 1, 2] : List (Fin 4)).flatMap (fun a => List.replicate 2 (.submitter a)) ++
        .signal 0 :: List.replicate 13 .worker
    let closed := List.replicate 3 (.caller 0) ++ List.replicate 2 (.submitter 3)
    let after := List.replicate 15 .worker ++ List.replicate 3 (.caller 0)
    let s := run plan {} (before ++ closed ++ after)
    s.begun = [0] ∧ s.resolutions.map Prod.fst = [0, 1, 2, 3] ∧ s.state = .disposed ∧
      s.calls 0 = .returned := by
  decide

end Race

end Fiber

end Skein
