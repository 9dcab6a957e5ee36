import Skein.Proofs.Fiber.Settlement

/-!
# Closing and disposing a fiber

`run_disposal` is about all calls that close or dispose a fiber, however they
overlap.  The state never goes back.  Once it is not active, the only item that
can still begin is one that the worker had let pass before.  A call that waits
for the worker returns to a fiber that is disposed and has nothing left to do,
whoever it was that joined the thread.  A call from the worker's own thread does
not come near the lock, so it is done after four steps of its own.
-/

namespace Skein

namespace Fiber

variable {ι α : Type}

namespace Call

/-- How many steps of its own a call can still make that does not join, with the
place at which it closes the queue. -/
def left (place : Queue.Closing) : Call → Nat
  | ahead => 4
  | closing => max 1 place.left
  | returned => 0
  | _ => 1

theorem left_le (place : Queue.Closing) (c : Call) : c.left place ≤ 4 := by
  have hclosing : place.left ≤ 3 := by
    cases place <;> simp [Queue.Closing.left]
  cases c with
  | closing =>
    show max 1 place.left ≤ 4
    omega
  | _ => simp [left]

theorem eq_returned_of_left {place : Queue.Closing} {c : Call} (h : c.left place = 0) :
    c = returned := by
  cases c with
  | returned => rfl
  | closing =>
    have hzero : max 1 place.left = 0 := h
    omega
  | _ => cases h

end Call

namespace Race

/-- What holds of the calls on a fiber in a state, and what goes on to hold. -/
structure Disposal [DecidableEq ι] (plan : Plan ι α) (s : Race ι α) : Prop where
  onward : ∀ later, s.state.rank ≤ (s.run plan later).state.rank
  last_begun : s.state ≠ .active → ∀ later, ∃ more, (s.run plan later).begun = s.begun ++ more ∧
    more.Sublist s.worker.passed
  /-- The worker's thread has ended, so no payload is running. -/
  waited : ∀ k, plan.request k = .dispose false ∨
      plan.request k = .drop false ∧ plan.config.joinOnDrop = true →
    s.calls k = .returned →
    s.state = .disposed ∧ s.worker = .gone ∧ s.line.queue.items = [] ∧
      ∀ a accepted, s.line.offers a = .returned accepted → ∃ r, (a, r) ∈ s.resolutions
  inside : ∀ k, plan.request k = .dispose true →
    s.calls k ≠ .locking ∧ s.calls k ≠ .joining ∧
      ∀ later, 4 ≤ later.count (.caller k) → (s.run plan later).calls k = .returned

variable [DecidableEq ι] {plan : Plan ι α} {s t : Race ι α}

/-! ## The last item -/

/-- Once the fiber is not active, no item passes any more. -/
theorem Works.begun {w : Worker ι α} (hw : s.worker = w) (hmove : Works plan s w t)
    (hstate : s.state ≠ .active) :
    ∃ more, t.begun = s.begun ++ more ∧ (more ++ t.worker.passed).Sublist s.worker.passed := by
  have hquiet (e : Event ι α) (h : Event.began? e = none) :
      (s.story ++ [e]).filterMap Event.began? = s.begun ++ [] := by
    rw [List.filterMap_append, List.filterMap_cons_none h]
    rfl
  have hsame : s.begun = s.begun ++ [] := (List.append_nil _).symm
  rw [hw]
  cases hmove with
  | pass a hactive => exact absurd hactive hstate
  | begin a =>
    refine ⟨[a], ?_, List.Sublist.refl _⟩
    show (s.story ++ [Event.began a]).filterMap Event.began? = _
    rw [List.filterMap_append]
    rfl
  | clear a => exact ⟨[], hquiet _ rfl, List.Sublist.refl _⟩
  | take | drain | skip | cancel | finish | resolve =>
    exact ⟨[], hquiet _ rfl, List.nil_sublist _⟩
  | wait =>
    refine ⟨[], hsame, ?_⟩
    show s.worker.passed.Sublist _
    rw [hw]
  | rest =>
    refine ⟨[], hsame, ?_⟩
    show s.worker.passed.Sublist _
    rw [hw]
  | _ => exact ⟨[], hsame, List.nil_sublist _⟩

theorem begun_later (h : Orderly plan s) (hstate : s.state ≠ .active) (later : List (Agent ι)) :
    ∃ more, (s.run plan later).begun = s.begun ++ more ∧ more.Sublist s.worker.passed := by
  -- what is begun from now on, and what may still begin, is among what had passed
  let P (t : Race ι α) : Prop := Orderly plan t ∧ t.state ≠ .active ∧
    ∃ more, t.begun = s.begun ++ more ∧ (more ++ t.worker.passed).Sublist s.worker.passed
  have hstart : P s := ⟨h, hstate, [], (List.append_nil _).symm, List.Sublist.refl _⟩
  have hrun : P (s.run plan later) := by
    refine run_preserves (fun t agent ht => ?_) hstart later
    obtain ⟨horderly, hinactive, more, hbegun, hpassed⟩ := ht
    have hlater := State.ne_active_of_rank_le (rank_step horderly agent) hinactive
    refine ⟨orderly_step t agent horderly, hlater, ?_⟩
    by_cases hagent : agent = .worker
    · rw [hagent]
      obtain ⟨new, hnew, hsub⟩ := (work_works plan t).begun rfl hinactive
      refine ⟨more ++ new, ?_, ?_⟩
      · show (t.work plan).begun = _
        rw [hnew, hbegun, List.append_assoc]
      · rw [List.append_assoc]
        exact (hsub.append_left more).trans hpassed
    · obtain ⟨hworker, hstory⟩ := worker_step plan t hagent
      refine ⟨more, ?_, ?_⟩
      · rw [begun, hstory]
        exact hbegun
      · rw [hworker]
        exact hpassed
  obtain ⟨-, -, more, hbegun, hpassed⟩ := hrun
  exact ⟨more, hbegun, (List.sublist_append_left _ _).trans hpassed⟩

/-! ## Calls that wait for nobody -/

variable (plan s) in
/-- The steps of the others do not keep a call from its own. -/
theorem left_step_of_ne {agent : Agent ι} {k : Nat} (h : agent ≠ .caller k) :
    (s.step plan agent).calls k = s.calls k ∧
      (s.step plan agent).line.closings (k + 1) = s.line.closings (k + 1) := by
  cases agent with
  | submitter a => exact ⟨rfl, Queue.Race.closings_move_of_ne _ _ nofun⟩
  | signal n => exact ⟨rfl, rfl⟩
  | stranger => exact ⟨rfl, Queue.Race.closings_move_of_ne _ _ nofun⟩
  | worker =>
    have hmove := work_works plan s
    refine ⟨congrFun (hmove.keeps rfl).1 k, ?_⟩
    show (s.work plan).line.closings (k + 1) = _
    generalize s.work plan = t at hmove ⊢
    generalize s.worker = w at hmove
    cases hmove with
    | wait | take | drain | leave | empty => exact Queue.Race.closings_move_of_ne _ _ nofun
    | close | shut =>
      refine Queue.Race.closings_move_of_ne _ _ fun hzero => ?_
      cases hzero
    | _ => rfl
  | caller j =>
    have hkj : k ≠ j := fun hkj => h (by rw [hkj])
    have hcloser : Queue.Agent.closer (j + 1) ≠ (Queue.Agent.closer (k + 1) : Queue.Agent ι) := by
      intro heq
      exact hkj (Nat.succ.inj (Queue.Agent.closer.inj heq)).symm
    have hmove := call_calls plan s j
    show (s.call plan j).calls k = _ ∧ (s.call plan j).line.closings (k + 1) = _
    generalize s.call plan j = t at hmove ⊢
    generalize s.calls j = c at hmove
    cases hmove with
    | close => exact ⟨rfl, Queue.Race.closings_move_of_ne _ _ hcloser⟩
    | shut => exact ⟨calls_place_of_ne _ hkj _, Queue.Race.closings_move_of_ne _ _ hcloser⟩
    | wait | rest => exact ⟨rfl, rfl⟩
    | _ => exact ⟨calls_place_of_ne _ hkj _, rfl⟩

theorem left_call (h : Orderly plan s) {k : Nat} (hk : plan.joins k = false) :
    ((s.call plan k).calls k).left ((s.call plan k).line.closings (k + 1)) ≤
      (s.calls k).left (s.line.closings (k + 1)) - 1 := by
  have hfits := h.calls k
  have hmove := call_calls plan s k
  have hgoOn (u : Race ι α) : (u.goOn plan k).calls k = .returned := by
    rw [goOn, hk, calls_place]
    rfl
  generalize s.call plan k = t at hmove ⊢
  generalize hplace : s.calls k = c at hmove hfits
  cases hmove with
  | win =>
    have hclosing : (s.line.closings (k + 1)).left ≤ 3 := by
      cases s.line.closings (k + 1) <;> simp [Queue.Closing.left]
    rw [calls_place]
    show max 1 (s.line.closings (k + 1)).left ≤ 3
    omega
  | lose | shut =>
    rw [hgoOn]
    exact Nat.zero_le _
  | close hdone =>
    have hmoved := Queue.Race.left_move_closer plan.config.queue s.line (k + 1)
    have hpos : ((s.line.move plan.config.queue (.closer (k + 1))).closings (k + 1)).left ≠ 0 := by
      intro hzero
      apply hdone
      generalize (s.line.move plan.config.queue (.closer (k + 1))).closings (k + 1) = place at hzero
      cases place with
      | returned => rfl
      | _ => cases hzero
    show (s.calls k).left _ ≤ max 1 (s.line.closings (k + 1)).left - 1
    rw [hplace]
    show max 1 ((s.line.move plan.config.queue (.closer (k + 1))).closings (k + 1)).left ≤ _
    omega
  | wait c hc =>
    rcases hc with ⟨rfl, -⟩ | ⟨rfl, -⟩
    · exact absurd hfits (Bool.eq_false_iff.mp hk)
    · exact absurd hfits.1 (Bool.eq_false_iff.mp hk)
  | lock | lockLate => exact absurd hfits (Bool.eq_false_iff.mp hk)
  | join | mark | unlock => exact absurd hfits.1 (Bool.eq_false_iff.mp hk)
  | rest =>
    rw [hplace]
    exact Nat.zero_le _

/-- A call that does not join is done after four steps of its own. -/
theorem returned_later (h : Orderly plan s) {k : Nat} (hk : plan.joins k = false)
    (later : List (Agent ι)) (hlater : 4 ≤ later.count (.caller k)) :
    (s.run plan later).calls k = .returned := by
  suffices hleft : ((s.run plan later).calls k).left ((s.run plan later).line.closings (k + 1)) ≤
      (s.calls k).left (s.line.closings (k + 1)) - later.count (.caller k) by
    have hle := (s.calls k).left_le (s.line.closings (k + 1))
    exact Call.eq_returned_of_left (Nat.le_zero.mp (hleft.trans (by omega)))
  clear hlater
  -- own steps lower what is left, the steps of the others keep it
  induction later generalizing s with
  | nil => exact Nat.le_refl _
  | cons agent rest ih =>
    have hrest := ih (orderly_step s agent h)
    by_cases hagent : agent = .caller k
    · subst hagent
      have hstep := left_call h hk
      rw [List.count_cons_self]
      refine Nat.le_trans hrest ?_
      show ((s.call plan k).calls k).left ((s.call plan k).line.closings (k + 1)) - _ ≤ _
      omega
    · obtain ⟨hcalls, hclosings⟩ := left_step_of_ne plan s hagent
      rw [hcalls, hclosings] at hrest
      rw [List.count_cons_of_ne hagent]
      exact hrest

/-! ## The law -/

theorem run_disposal (plan : Plan ι α) (schedule : List (Agent ι)) :
    Disposal plan (run plan {} schedule) := by
  have horderly : Orderly plan (run plan {} schedule) := orderly_run schedule
  obtain ⟨prompt, late, opening, hknown⟩ := known_run plan schedule
  generalize run plan {} schedule = s at horderly hknown ⊢
  constructor
  · exact rank_run horderly
  · exact begun_later horderly
  · intro k hk hreturned
    have hjoins : plan.joins k = true := by
      rcases hk with hk | ⟨hk, hdrop⟩
      · rw [Plan.joins, hk]
        rfl
      · rw [Plan.joins, hk, hdrop]
        rfl
    have hfits := horderly.calls k
    rw [hreturned] at hfits
    -- it does not matter who joined: the lock was given back only then
    have hgone := Worker.eq_gone_of_isGone (hfits hjoins)
    have hstate : s.state = .disposed := horderly.disposed.mpr (by rw [hgone]; rfl)
    refine ⟨hstate, hgone, (hknown.all_episodes hstate).1, fun a accepted ha => ?_⟩
    obtain ⟨r, hr, -⟩ := hknown.resolved_at_end hstate ha
    exact ⟨r, hr⟩
  · intro k hk
    have hjoins : plan.joins k = false := by
      rw [Plan.joins, hk]
      rfl
    have hfits := horderly.calls k
    refine ⟨?_, ?_, returned_later horderly hjoins⟩
    · intro hplace
      rw [hplace] at hfits
      exact absurd hfits (Bool.eq_false_iff.mp hjoins)
    · intro hplace
      rw [hplace] at hfits
      exact absurd hfits.1 (Bool.eq_false_iff.mp hjoins)

end Race

end Fiber

end Skein
