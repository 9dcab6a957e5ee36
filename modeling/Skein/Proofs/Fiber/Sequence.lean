import Skein.Proofs.Fiber.Settlement

/-!
# One after the other

`run_sequential` says in which order a fiber executes: one item at a time, in the
order in which the queue has accepted them, and none after an item that came too
late.  It also compares two runs under one schedule, in which one item has
different payloads.  The runs differ in the resolution of that item and in
nothing else, since the worker catches whatever a payload does and goes on:
`run_reword` says how one of them comes from the other.
-/

namespace Skein

namespace Fiber

variable {ι α : Type}

namespace Race

section Order

structure Sequential [DecidableEq ι] (plan : Plan ι α) (s : Race ι α) : Prop where
  /-- Beginnings and ends alternate, and an end belongs to the beginning before
  it; if an item is being executed, its end is still to come. -/
  apart : s.story.filter Event.bounds ++ s.worker.executing.map .ended =
    s.begun.flatMap fun a => [.began a, .ended a]
  accepted_once : s.line.pushed.Nodup
  in_order : s.begun.Sublist s.line.pushed
  /-- A producer submits one item when the call for another one has returned. -/
  in_turn : ∀ a b accepted, s.line.offers a = .returned accepted → s.line.offers b = .ahead →
    ∀ later, ¬ [b, a].Sublist (s.run plan later).begun
  none_after : ∀ a b, [a, b].Sublist s.line.pushed → (a, cancelled .fiberDisposed) ∈ s.resolutions →
    b ∉ s.begun ∧ (b, cancelled .signalled) ∉ s.resolutions

theorem pair_sublist_of_notMem {a b : ι} {first rest : List ι} (h : [a, b].Sublist (first ++ rest))
    (ha : a ∉ first) : [a, b].Sublist rest := by
  obtain ⟨l, l', hsplit, hfirst, hrest⟩ := List.sublist_append_iff.mp h
  cases l with
  | nil =>
    rw [hsplit]
    exact hrest
  | cons x xs =>
    have hx : x = a := (List.cons.inj hsplit).1.symm
    exact absurd (hfirst.subset (by rw [hx]; exact List.mem_cons_self)) ha

variable {plan : Plan ι α} {s t : Race ι α} {prompt late : List (ι × Course)}
  {opening : List (Event ι α)} {a b : ι}

/-! ## One at a time -/

/-- Beginnings and ends alternate. -/
def Apart (s : Race ι α) : Prop :=
  s.story.filter Event.bounds ++ s.worker.executing.map .ended =
    s.begun.flatMap fun a => [.began a, .ended a]

/-- Most steps have nothing to do with executing. -/
theorem Apart.quiet {events : List (Event ι α)} (h : Apart s) (hs : s.worker.executing = [])
    (ht : t.worker.executing = []) (hstory : t.story = s.story ++ events)
    (hbounds : events.filter Event.bounds = []) (hbegan : events.filterMap Event.began? = []) :
    Apart t := by
  rw [Apart, hs] at h
  rw [Apart, ht, begun, hstory, List.filter_append, List.filterMap_append, hbounds, hbegan,
    List.append_nil, List.append_nil]
  exact h

variable [DecidableEq ι]

theorem apart_work (h : Apart s) : Apart (s.work plan) := by
  have hmove := work_works plan s
  have hnothing : s.story = s.story ++ [] := (List.append_nil _).symm
  generalize s.work plan = t at hmove ⊢
  generalize hw : s.worker = w at hmove
  cases hmove with
  | begin a =>
    rw [Apart, hw] at h
    show (s.story ++ [Event.began a]).filter Event.bounds ++ [.ended a] =
      ((s.story ++ [Event.began a]).filterMap Event.began?).flatMap _
    rw [List.filter_append, List.filterMap_append, List.flatMap_append, ← begun, ← h]
    show (s.story.filter Event.bounds ++ [.began a]) ++ [.ended a] =
      (s.story.filter Event.bounds ++ []) ++ [.began a, .ended a]
    simp
  | finish a =>
    rw [Apart, hw] at h
    show (s.story ++ [Event.ended a]).filter Event.bounds ++ [] =
      ((s.story ++ [Event.ended a]).filterMap Event.began?).flatMap _
    rw [List.filter_append, List.filterMap_append, List.flatMap_append, ← begun, ← h]
    rfl
  | take | drain | pass | skip | clear | cancel | resolve =>
    exact h.quiet (by rw [hw]; rfl) rfl rfl rfl rfl
  | wait | rest =>
    have hnone : s.worker.executing = [] := by
      rw [hw]
      rfl
    exact h.quiet hnone hnone hnothing rfl rfl
  | _ => exact h.quiet (by rw [hw]; rfl) rfl hnothing rfl rfl

theorem apart_run (schedule : List (Agent ι)) : Apart (run plan ({} : Race ι α) schedule) := by
  have hstart : Apart ({} : Race ι α) := rfl
  refine run_preserves (fun s agent h => ?_) hstart schedule
  by_cases hagent : agent = .worker
  · rw [hagent]
    exact apart_work h
  · obtain ⟨hworker, hstory⟩ := worker_step plan s hagent
    rw [Apart, begun, hworker, hstory]
    exact h

/-! ## In order -/

variable (plan) in
theorem history_run (s : Race ι α) (later : List (Agent ι)) :
    s.line.pushed <+: (s.run plan later).line.pushed ∧
      s.line.rejected <+: (s.run plan later).line.rejected := by
  obtain ⟨moves, hmoves⟩ := line_run plan s later
  rw [hmoves]
  exact Queue.Race.history_play _ _ moves

/-- An item whose call has returned comes before one whose call has not begun. -/
theorem not_begun_before (hkept : Queue.Race.Kept s.line) {later : List (Agent ι)}
    {accepted : Bool} (ha : s.line.offers a = .returned accepted) (hb : s.line.offers b = .ahead)
    (hknown : Known plan (s.run plan later) prompt late opening) :
    ¬ [b, a].Sublist (s.run plan later).begun := by
  intro hsub
  obtain ⟨⟨more, hmore⟩, hrejected⟩ := history_run plan s later
  have hpushed : [b, a].Sublist (s.run plan later).line.pushed := by
    rw [hknown.pushed, ← List.append_assoc]
    exact (hsub.trans hknown.begun).trans (List.sublist_append_left _ _)
  have hb' : b ∉ s.line.pushed := by
    rw [← List.count_eq_zero, hkept.appended b, hb]
    rfl
  cases accepted with
  | false =>
    -- a refused item is not accepted later
    have hcount := hkept.rejected a
    rw [ha] at hcount
    have hmem : a ∈ s.line.rejected := List.count_pos_iff.mp (by rw [hcount]; decide)
    exact hknown.kept.never_stored a (hrejected.subset hmem) (hpushed.subset (by simp))
  | true =>
    have hcount := hkept.appended a
    rw [ha] at hcount
    have hmem : a ∈ s.line.pushed := List.count_pos_iff.mp (by rw [hcount]; decide)
    have hnodup := hknown.kept.nodup
    rw [← hmore] at hnodup hpushed
    have hlater : a ∈ more := (pair_sublist_of_notMem hpushed hb').subset (by simp)
    exact (List.nodup_append.mp hnodup).2.2 a hmem a hlater rfl

/-! ## Nothing after a late item -/

namespace Known

theorem late_of_disposed (h : Known plan s prompt late opening) (ha : a ∈ s.line.pushed)
    (hr : (a, cancelled .fiberDisposed) ∈ s.resolutions) : ∃ c, (a, c) ∈ late := by
  rcases h.mem_resolutions hr with ⟨c, hc, heq⟩ | ⟨hpushed, -⟩
  · rcases List.mem_append.mp hc with hc | hc
    · have hprompt := h.all_prompt _ hc
      have hne : CancelReason.fiberDisposed ≠ .cooperative := nofun
      cases c with
      | executed =>
        rw [Course.outcome, Plan.outcome_eq] at heq
        exact absurd heq.symm (Ending.resolution_ne_cancelled _ hne)
      | signalled => cases heq
      | _ => cases hprompt
    · exact ⟨c, hc⟩
  · exact absurd ha hpushed

/-- A prompt item was accepted before all late ones. -/
theorem not_prompt_of_after (h : Known plan s prompt late opening)
    (hab : [a, b].Sublist s.line.pushed) (ha : a ∈ late.map Prod.fst) :
    b ∉ prompt.map Prod.fst := by
  intro hb
  have hnodup := h.kept.nodup
  rw [h.pushed, List.map_append, List.append_assoc] at hnodup hab
  obtain ⟨-, -, hapart⟩ := List.nodup_append.mp hnodup
  have ha' : a ∉ prompt.map Prod.fst := by
    intro hmem
    exact hapart a hmem a (List.mem_append_left _ ha) rfl
  have hrest := pair_sublist_of_notMem hab ha'
  exact hapart b hb b (hrest.subset (by simp)) rfl

theorem none_after (h : Known plan s prompt late opening) (hab : [a, b].Sublist s.line.pushed)
    (hr : (a, cancelled .fiberDisposed) ∈ s.resolutions) :
    b ∉ s.begun ∧ (b, cancelled .signalled) ∉ s.resolutions := by
  obtain ⟨c, hc⟩ := h.late_of_disposed (hab.subset (by simp)) hr
  have hnot := h.not_prompt_of_after hab (List.mem_map_of_mem hc)
  constructor
  · intro hbegun
    rcases h.mem_story.mp (mem_begun.mp hbegun) with ⟨x, hx, hmem⟩ | hopening
    · have hitem : x.1 = b := (x.2.item_of_mem_events plan x.1 _ hmem).symm
      apply hnot
      rw [← hitem]
      rcases List.mem_append.mp hx with hx | hx
      · exact List.mem_map_of_mem hx
      · have hlate := h.all_late x hx
        generalize x.2 = d at hmem hlate
        cases d with
        | executed => cases hlate
        | signalled => cases hlate
        | _ => simp [Course.events, Course.lead] at hmem
    · have hnone : late = [] := h.underway.late_eq_nil hopening
      rw [hnone] at hc
      cases hc
  · intro hsignalled
    rcases h.mem_resolutions hsignalled with ⟨d, hd, heq⟩ | ⟨-, heq⟩
    · rcases List.mem_append.mp hd with hd | hd
      · exact hnot (List.mem_map_of_mem hd)
      · have hlate := h.all_late _ hd
        cases d with
        | executed => cases hlate
        | signalled => cases hlate
        | _ => cases heq
    · cases heq

end Known

theorem sequential_run (plan : Plan ι α) (schedule : List (Agent ι)) :
    Sequential plan (run plan {} schedule) := by
  obtain ⟨prompt, late, opening, h⟩ := known_run plan schedule
  constructor
  · exact apart_run schedule
  · exact h.kept.nodup
  · rw [h.pushed, ← List.append_assoc]
    exact h.begun.trans (List.sublist_append_left _ _)
  · intro a b accepted ha hb later
    rw [← run_append]
    obtain ⟨_, _, _, hlater⟩ := known_run plan (schedule ++ later)
    rw [run_append] at hlater ⊢
    exact not_begun_before h.kept ha hb hlater
  · intro a b hab hr
    exact h.none_after hab hr

end Order

end Race

/-! ## What a payload cannot reach -/

namespace Plan

variable [DecidableEq ι]

def change (plan : Plan ι α) (a : ι) (other : Operation α) : Plan ι α :=
  { plan with operation := Function.update plan.operation a other }

theorem outcome_change_of_ne (plan : Plan ι α) {a b : ι} (h : b ≠ a) (other : Operation α) :
    (plan.change a other).outcome b = plan.outcome b := by
  have hsame : (plan.change a other).operation b = plan.operation b := Function.update_of_ne h _ _
  rw [outcome_eq, outcome_eq, hsame]

end Plan

def byFiber : Resolution α → Bool
  | .error (.cancelled .signalled) | .error (.cancelled .fiberDisposed) => true
  | _ => false

/-- What a resolution becomes when payloads are exchanged: one that came of a
payload gives way to the new one. -/
def reword (new r : Resolution α) : Resolution α :=
  if byFiber r then r else new

theorem reword_outcome (plan : Plan ι α) (a : ι) (new : Resolution α) :
    reword new (plan.outcome a) = new := by
  have hpayload : byFiber (plan.outcome a) = false := by
    rw [Plan.outcome_eq]
    cases ((plan.operation a).payload 0).ending with
    | failure f => cases f <;> rfl
    | _ => rfl
  rw [reword, hpayload]
  rfl

theorem reword_signalled (new : Resolution α) :
    reword new (cancelled .signalled) = cancelled .signalled :=
  rfl

theorem reword_disposed (new : Resolution α) :
    reword new (cancelled .fiberDisposed) = cancelled .fiberDisposed :=
  rfl

namespace Event

def reword (plan : Plan ι α) : Event ι α → Event ι α
  | resolved a r => resolved a (Fiber.reword (plan.outcome a) r)
  | e => e

end Event

namespace Worker

def reword (plan : Plan ι α) : Worker ι α → Worker ι α
  | resolving last a r => resolving last a (Fiber.reword (plan.outcome a) r)
  | w => w

theorem isGone_reword (plan : Plan ι α) (w : Worker ι α) : (w.reword plan).isGone = w.isGone := by
  cases w <;> rfl

end Worker

namespace Race

def reword (plan : Plan ι α) (s : Race ι α) : Race ι α :=
  { s with worker := s.worker.reword plan, story := s.story.map (Event.reword plan) }

theorem resolutions_reword (plan : Plan ι α) (s : Race ι α) :
    (s.reword plan).resolutions =
      s.resolutions.map fun e => (e.1, Fiber.reword (plan.outcome e.1) e.2) := by
  have hstory (story : List (Event ι α)) :
      (story.map (Event.reword plan)).filterMap Event.resolved? =
        (story.filterMap Event.resolved?).map fun e =>
          (e.1, Fiber.reword (plan.outcome e.1) e.2) := by
    induction story with
    | nil => rfl
    | cons e rest ih =>
      cases e with
      | resolved a r => exact congrArg _ ih
      | _ => exact ih
  rw [resolutions, resolutions, List.map_append, List.map_map]
  exact congrArg₂ _ (hstory s.story) rfl

variable [DecidableEq ι] (plan : Plan ι α) (operation : ι → Operation α)

theorem work_reword (s : Race ι α) :
    (s.reword { plan with operation }).work { plan with operation } =
      (s.work plan).reword { plan with operation } := by
  obtain ⟨line, state, fired, worker, calls, holder, joined, story⟩ := s
  cases worker with
  | starting =>
    simp only [work, reword, Worker.reword]
    split <;> rfl
  | taking last =>
    simp only [work, reword, Worker.reword, queueMove]
    split
    · cases last <;> simp [Event.reword, reword_disposed]
    · cases last <;> simp
    · simp
  | taken a =>
    by_cases hactive : state = .active
    · simp [work, reword, Worker.reword, Event.reword, hactive]
    · simp [work, reword, Worker.reword, Event.reword, hactive, reword_disposed]
  | admitted a =>
    by_cases hfired : (plan.signal a).any fired = true
    · simp [work, reword, Worker.reword, Event.reword, hfired, reword_signalled]
    · simp [work, reword, Worker.reword, Event.reword, hfired]
  | running a => simp [work, reword, Worker.reword, Event.reword, reword_outcome]
  | leaving =>
    by_cases hactive : state = .active
    · simp [work, reword, Worker.reword, hactive]
    · simp [work, reword, Worker.reword, hactive]
  | closing =>
    by_cases hclosed : (line.move plan.config.queue (.closer 0)).closings 0 = .returned
    · simp [work, reword, Worker.reword, queueMove, hclosed]
    · simp [work, reword, Worker.reword, queueMove, hclosed]
  | _ => simp [work, reword, Worker.reword, Event.reword]

theorem call_reword (s : Race ι α) (k : Nat) :
    (s.reword { plan with operation }).call { plan with operation } k =
      (s.call plan k).reword { plan with operation } := by
  cases hplace : s.calls k with
  | ahead =>
    by_cases hactive : s.state = .active
    · simp [call, reword, place, hplace, hactive]
    · have hleft : (s.reword { plan with operation }).call { plan with operation } k =
          (s.reword { plan with operation }).goOn { plan with operation } k := by
        simp [call, reword, hplace, hactive]
      have hright : s.call plan k = s.goOn plan k := by simp [call, hplace, hactive]
      rw [hleft, hright]
      rfl
  | closing =>
    by_cases hclosed :
      (s.line.move plan.config.queue (.closer (k + 1))).closings (k + 1) = .returned
    · have hleft : (s.reword { plan with operation }).call { plan with operation } k =
          ((s.queueMove plan (.closer (k + 1))).reword { plan with operation }).goOn
            { plan with operation } k := by
        simp [call, reword, queueMove, hplace, hclosed]
      have hright : s.call plan k = (s.queueMove plan (.closer (k + 1))).goOn plan k := by
        simp [call, queueMove, hplace, hclosed]
      rw [hleft, hright]
      rfl
    · simp [call, reword, queueMove, hplace, hclosed]
  | locking =>
    by_cases hheld : s.holder.isSome = true
    · simp [call, reword, hplace, hheld]
    · by_cases hjoined : s.joined = true
      · simp [call, reword, place, hplace, hheld, hjoined]
      · simp [call, reword, place, hplace, hheld, hjoined]
  | joining =>
    by_cases hgone : s.worker.isGone = true
    · simp [call, reword, place, hplace, hgone, Worker.isGone_reword]
    · simp [call, reword, hplace, hgone, Worker.isGone_reword]
  | _ => simp [call, reword, place, hplace]

/-- Exchanging payloads changes what they come to, and nothing else. -/
theorem run_reword (s : Race ι α) (schedule : List (Agent ι)) :
    (s.reword { plan with operation }).run { plan with operation } schedule =
      (s.run plan schedule).reword { plan with operation } := by
  induction schedule generalizing s with
  | nil => rfl
  | cons agent rest ih =>
    have hstep : (s.reword { plan with operation }).step { plan with operation } agent =
        (s.step plan agent).reword { plan with operation } := by
      cases agent with
      | worker => exact work_reword plan operation s
      | caller k => exact call_reword plan operation s k
      | _ => rfl
    rw [run_cons, run_cons, hstep, ih]

/-- The outcome of one item changes the resolution of no other, under the same
schedule of everything else. -/
theorem run_isolated (schedule : List (Agent ι)) (a : ι) (other : Operation α) :
    (run (plan.change a other) {} schedule).resolutions.filter (·.1 ≠ a) =
      (run plan {} schedule).resolutions.filter (·.1 ≠ a) := by
  obtain ⟨prompt, late, opening, h⟩ := known_run plan schedule
  have hrun : run (plan.change a other) {} schedule =
      (run plan {} schedule).reword (plan.change a other) :=
    run_reword plan _ {} schedule
  rw [hrun, resolutions_reword, List.filter_map]
  -- what is left after filtering is not reworded
  refine (List.map_congr_left fun e he => ?_).trans (List.map_id _)
  obtain ⟨hmem, hne⟩ := List.mem_filter.mp he
  have hea : e.1 ≠ a := of_decide_eq_true hne
  show (e.1, Fiber.reword ((plan.change a other).outcome e.1) e.2) = e
  rw [Plan.outcome_change_of_ne plan hea]
  have hsame : Fiber.reword (plan.outcome e.1) e.2 = e.2 := by
    rcases h.mem_resolutions hmem with ⟨c, -, hc⟩ | ⟨-, hc⟩
    · rw [hc]
      cases c with
      | executed => exact reword_outcome plan e.1 _
      | _ => rfl
    · rw [hc]
      rfl
  rw [hsame]

/-! ## The law -/

theorem run_sequential (schedule : List (Agent ι)) :
    Sequential plan (run plan {} schedule) ∧ ∀ a other,
      (run (plan.change a other) {} schedule).resolutions.filter (·.1 ≠ a) =
        (run plan {} schedule).resolutions.filter (·.1 ≠ a) := by
  constructor
  · exact sequential_run plan schedule
  · intro a other
    exact run_isolated plan schedule a other

end Race

end Fiber

end Skein
