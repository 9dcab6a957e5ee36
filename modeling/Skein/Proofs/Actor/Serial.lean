import Skein.Actor.Race
import Skein.Proofs.Fiber.Progress

/-!
# An actor is a sequential state machine

What the item of a message comes to depends on the state, and so on all that was
executed before.  But the order of execution is the order in which the queue has
accepted the messages.  So after the fact each item had one payload, the message
applied to what the messages before it make of the first state: `fated_run` says
that the fiber went through its schedule as if these payloads had been given to
it at the beginning.  From there, all that is known of fibers is known of actors.
-/

namespace Skein

namespace Actor

variable {ι σ α : Type}

theorem cancelled_ne_deliveredTwice (reason : CancelReason) :
    (Fiber.cancelled reason : Resolution α) ≠ (Ending.failure deliveredTwice).resolution := by
  intro heq
  cases heq

namespace Plan

variable (plan : Plan ι σ α)

def after (messages : List ι) : σ :=
  messages.foldl (fun s a => (plan.message a s).2) plan.start

def answer (before : List ι) (a : ι) : Resolution α :=
  match (plan.message a (plan.after before)).1 with
  | .ok v => .ok v
  | .error p => .error (.operation (.panicked p.text))

theorem after_append (before : List ι) (a : ι) :
    plan.after (before ++ [a]) = (plan.message a (plan.after before)).2 :=
  List.foldl_append

theorem invoke_answer (before : List ι) (a : ι) :
    (invoke (some (plan.message a)) (plan.after before)).1.resolution = plan.answer before a ∧
      (invoke (some (plan.message a)) (plan.after before)).2 = plan.after (before ++ [a]) := by
  rw [after_append, answer, invoke]
  rcases plan.message a (plan.after before) with ⟨v | p, s⟩ <;> exact ⟨rfl, rfl⟩

theorem answer_ne_deliveredTwice (before : List ι) (a : ι) :
    plan.answer before a ≠ (Ending.failure deliveredTwice).resolution := by
  rw [answer]
  cases (plan.message a (plan.after before)).1 <;> nofun

variable [DecidableEq ι]

/-- The payloads that the items have if the messages are executed in this
order. -/
def fated (order : List ι) : Fiber.Plan ι α where
  config := plan.config
  hookPanics := plan.hookPanics
  operation a :=
    let before := order.takeWhile (· ≠ a)
    { payload := fun _ => { ending := (invoke (some (plan.message a)) (plan.after before)).1 } }
  request := plan.request

theorem outcome_fated_eq (order : List ι) (a : ι) :
    (plan.fated order).outcome a = plan.answer (order.takeWhile (· ≠ a)) a := by
  rw [Fiber.Plan.outcome_eq]
  exact (plan.invoke_answer _ a).1

theorem outcome_fated {order before later : List ι} {a : ι} (horder : order = before ++ a :: later)
    (hnew : a ∉ before) : (plan.fated order).outcome a = plan.answer before a := by
  have hbefore : order.takeWhile (· ≠ a) = before := by
    rw [horder, List.takeWhile_append_of_pos, List.takeWhile_cons_of_neg, List.append_nil]
    · simp
    · intro b hb
      have hba : b ≠ a := fun hba => hnew (hba ▸ hb)
      simpa using hba
  rw [outcome_fated_eq, hbefore]

end Plan

namespace Race

variable [DecidableEq ι] {plan : Plan ι σ α} {s : Race ι σ α}

/-! ## Steps -/

variable (plan) in
theorem fiber_step (s : Race ι σ α) (agent : Fiber.Agent ι) :
    (s.step plan agent).fiber = s.fiber.step (plan.now s) agent := by
  unfold step
  split <;> rfl

variable (plan) in
theorem step_running {a : ι} (h : s.fiber.worker = .running a) :
    (s.step plan .worker).state = (invoke (s.kept a) s.state).2 ∧
      (s.step plan .worker).kept = Function.update s.kept a none := by
  simp [step, h]

variable (plan s) in
/-- Only the execution of a message touches the state. -/
theorem step_idle (agent : Fiber.Agent ι)
    (h : agent = .worker → s.fiber.worker.executing = []) :
    (s.step plan agent).state = s.state ∧ (s.step plan agent).kept = s.kept := by
  unfold step
  split
  next a hrunning =>
    have hnone := h rfl
    rw [hrunning] at hnone
    cases hnone
  next => exact ⟨rfl, rfl⟩

/-! ## The fate of the messages -/

structure Fated (plan : Plan ι σ α) (schedule : List (Fiber.Agent ι)) (s : Race ι σ α) : Prop where
  state : s.state = plan.after s.fiber.ended
  kept : ∀ a, a ∉ s.fiber.ended → s.kept a = some (plan.message a)
  fiber : ∀ order, s.fiber.line.pushed <+: order →
    s.fiber = Fiber.Race.run (plan.fated order) {} schedule

variable {schedule : List (Fiber.Agent ι)}

/-- The message that is being executed is the next one of those accepted. -/
theorem Fated.next (h : Fated plan schedule s) {a : ι} (hrunning : s.fiber.worker = .running a) :
    ∃ later, s.fiber.line.pushed = s.fiber.ended ++ a :: later ∧ a ∉ s.fiber.ended := by
  have hfiber := h.fiber _ (List.prefix_refl _)
  obtain ⟨prompt, late, opening, hknown⟩ := Fiber.Race.known_run
    (plan.fated s.fiber.line.pushed) schedule
  have hbegun := Fiber.Race.ended_run (plan.fated s.fiber.line.pushed) schedule
  have hsignal : ∀ a, (plan.fated s.fiber.line.pushed).signal a = none := fun _ => rfl
  have hquiet := Fiber.Race.unsignalled_run hsignal schedule
  rw [← hfiber] at hknown hbegun hquiet
  rw [hrunning] at hbegun
  obtain ⟨later, hlater⟩ := hknown.begun_prefix hquiet
  have hnodup := hknown.kept.nodup
  rw [← hlater, hbegun] at hnodup
  refine ⟨later, ?_, ?_⟩
  · rw [← hlater, hbegun, List.append_assoc]
    rfl
  · intro hmem
    have hdisjoint := (List.nodup_append.mp (List.nodup_append.mp hnodup).1).2.2
    exact hdisjoint a hmem a List.mem_cons_self rfl

theorem Fated.outcome (h : Fated plan schedule s) {a : ι} (hrunning : s.fiber.worker = .running a)
    {order : List ι} (horder : s.fiber.line.pushed <+: order) :
    (plan.now s).outcome a = (plan.fated order).outcome a := by
  obtain ⟨later, hpushed, hnew⟩ := h.next hrunning
  obtain ⟨more, rfl⟩ := horder
  have hsplit : s.fiber.line.pushed ++ more = s.fiber.ended ++ a :: (later ++ more) := by
    rw [hpushed, List.append_assoc]
    rfl
  rw [plan.outcome_fated hsplit hnew, Fiber.Plan.outcome_eq]
  show (invoke (s.kept a) s.state).1.resolution = _
  rw [h.kept a hnew, h.state, (plan.invoke_answer _ a).1]

theorem Fated.step (h : Fated plan schedule s) (agent : Fiber.Agent ι) :
    Fated plan (schedule ++ [agent]) (s.step plan agent) := by
  have hfiber := fiber_step plan s agent
  have hmore : s.fiber.line.pushed <+: (s.step plan agent).fiber.line.pushed := by
    rw [hfiber]
    exact (Fiber.Race.history_run (plan.now s) s.fiber [agent]).1
  have hsame : ∀ order, (s.step plan agent).fiber.line.pushed <+: order →
      (s.step plan agent).fiber = Fiber.Race.run (plan.fated order) {} (schedule ++ [agent]) := by
    intro order horder
    have hcongr := Fiber.Race.step_congr (plan.now s) (plan.fated order).operation s.fiber agent
      fun a hrunning => h.outcome hrunning (hmore.trans horder)
    rw [Fiber.Race.run_append, ← h.fiber order (hmore.trans horder), hfiber, ← hcongr]
    rfl
  by_cases hagent : agent = .worker
  · subst hagent
    have hended : (s.step plan .worker).fiber.ended = s.fiber.ended ++
      s.fiber.worker.executing := by
      rw [hfiber]
      exact Fiber.Race.ended_work s.fiber
    cases hexecuting : s.fiber.worker.executing with
    | nil =>
      obtain ⟨hstate, hkept⟩ := step_idle plan s .worker fun _ => hexecuting
      rw [hexecuting, List.append_nil] at hended
      refine ⟨?_, ?_, hsame⟩
      · rw [hstate, hended, h.state]
      · rw [hkept, hended]
        exact h.kept
    | cons a rest =>
      obtain ⟨rfl, hrunning⟩ : rest = [] ∧ s.fiber.worker = .running a := by
        generalize s.fiber.worker = w at hexecuting
        cases w with
        | running b =>
          cases hexecuting
          exact ⟨rfl, rfl⟩
        | _ => cases hexecuting
      obtain ⟨later, -, hnew⟩ := h.next hrunning
      obtain ⟨hstate, hkept⟩ := step_running plan hrunning
      rw [hexecuting] at hended
      refine ⟨?_, fun b hb => ?_, hsame⟩
      · rw [hstate, hended, h.kept a hnew, h.state, (plan.invoke_answer _ a).2]
      · rw [hended, List.mem_append, List.mem_singleton, not_or] at hb
        rw [hkept, Function.update_of_ne hb.2]
        exact h.kept b hb.1
  · obtain ⟨hstate, hkept⟩ := step_idle plan s agent fun hworker => absurd hworker hagent
    have hended : (s.step plan agent).fiber.ended = s.fiber.ended := by
      rw [hfiber]
      exact Fiber.Race.ended_step_of_ne s.fiber hagent
    refine ⟨?_, ?_, hsame⟩
    · rw [hstate, hended, h.state]
    · rw [hkept, hended]
      exact h.kept

theorem Fated.run (h : Fated plan schedule s) (later : List (Fiber.Agent ι)) :
    Fated plan (schedule ++ later) (s.run plan later) := by
  induction later using List.reverseRecOn with
  | nil =>
    rw [List.append_nil]
    exact h
  | append_singleton later agent ih =>
    rw [← List.append_assoc, run_append]
    exact ih.step agent

theorem fated_run (plan : Plan ι σ α) (schedule : List (Fiber.Agent ι)) :
    Fated plan schedule (plan.build.run plan schedule) := by
  have hstart : Fated plan [] plan.build := ⟨rfl, fun _ _ => rfl, fun _ _ => rfl⟩
  exact hstart.run schedule

/-! ## The law -/

/-- The messages of an actor are executed one after the other, on the state that
those before have left. -/
structure Serial (plan : Plan ι σ α) (s : Race ι σ α) : Prop where
  in_order : s.fiber.begun <+: s.fiber.line.pushed
  executed_once : s.fiber.begun.Nodup
  /-- All that have begun have ended, but for one that is being executed. -/
  one_by_one : s.fiber.begun = s.fiber.ended ++ s.fiber.worker.executing
  state : s.state = plan.after s.fiber.ended
  /-- A message that has been executed is resolved, or the worker is about to
  resolve it. -/
  answered : ∀ before a later, s.fiber.ended = before ++ a :: later →
    (a, plan.answer before a) ∈ s.fiber.resolutions ∨
      ∃ last, s.fiber.worker = .resolving last a (plan.answer before a)
  passed_over : ∀ a r, (a, r) ∈ s.fiber.resolutions → a ∉ s.fiber.ended →
    r = Fiber.cancelled .fiberDisposed
  resolved_once : (s.fiber.resolutions.map Prod.fst).Nodup
  never_twice : ∀ a r, (a, r) ∈ s.fiber.resolutions →
    r ≠ (Ending.failure deliveredTwice).resolution
  while_active : s.fiber.state = .active → ∀ a r, (a, r) ∈ s.fiber.resolutions →
    a ∈ s.fiber.ended
  /-- The worker needs nobody else to execute what has been accepted. -/
  served : plan.hookPanics = false → s.fiber.state = .active → s.fiber.Quiet →
    ∃ n, let t := s.run plan (List.replicate n .worker)
      t.fiber.line.pushed = s.fiber.line.pushed ∧
        ∀ a ∈ s.fiber.line.pushed, a ∈ t.fiber.ended ∧ ∃ r, (a, r) ∈ t.fiber.resolutions
  at_end : s.fiber.state = .disposed → s.fiber.begun = s.fiber.ended ∧
    ∀ a accepted, s.fiber.line.offers a = .returned accepted → ∃ r, (a, r) ∈ s.fiber.resolutions

theorem ended_of_active (h : Fated plan schedule s) (hactive : s.fiber.state = .active) {a : ι}
    {r : Resolution α} (hr : (a, r) ∈ s.fiber.resolutions) : a ∈ s.fiber.ended := by
  have hfiber := h.fiber _ (List.prefix_refl _)
  obtain ⟨prompt, late, opening, hknown⟩ := Fiber.Race.known_run
    (plan.fated s.fiber.line.pushed) schedule
  have hsignal : ∀ a, (plan.fated s.fiber.line.pushed).signal a = none := fun _ => rfl
  have hbegun := Fiber.Race.executed_of_active hsignal schedule
  rw [← hfiber] at hknown hbegun
  have hmem := hbegun hactive hr
  rcases hknown.mem_resolutions hr with ⟨c, hc, -⟩ | ⟨hpushed, -⟩
  · rw [hknown.ended_iff hc, ← hknown.begun_iff hc]
    exact hmem
  · exact absurd hmem (hknown.not_begun hpushed)

theorem pushed_worker (s : Race ι σ α) (n : Nat) :
    (s.run plan (List.replicate n .worker)).fiber.line.pushed = s.fiber.line.pushed := by
  induction n generalizing s with
  | zero => rfl
  | succ n ih =>
    show ((s.step plan .worker).run plan (List.replicate n .worker)).fiber.line.pushed = _
    rw [ih, fiber_step]
    exact (Fiber.Race.work_frame (plan.now s) s.fiber).1

theorem served (h : Fated plan schedule s) (hhook : plan.hookPanics = false)
    (hactive : s.fiber.state = .active) (hquiet : s.fiber.Quiet) :
    ∃ n, let t := s.run plan (List.replicate n .worker)
      t.fiber.line.pushed = s.fiber.line.pushed ∧
        ∀ a ∈ s.fiber.line.pushed, a ∈ t.fiber.ended ∧ ∃ r, (a, r) ∈ t.fiber.resolutions := by
  have hfiber := h.fiber _ (List.prefix_refl _)
  rw [hfiber] at hactive hquiet
  have hfated : (plan.fated s.fiber.line.pushed).hookPanics = false := hhook
  obtain ⟨n, hstate, hpushed, hall⟩ := Fiber.Race.served_run hfated schedule hactive hquiet
  have hlater := h.run (List.replicate n .worker)
  have hsame := hlater.fiber s.fiber.line.pushed (pushed_worker s n ▸ List.prefix_refl _)
  rw [Fiber.Race.run_append] at hsame
  rw [← hsame] at hstate hpushed hall
  refine ⟨n, pushed_worker s n, fun a ha => ?_⟩
  obtain ⟨r, hr⟩ := hall a (pushed_worker s n ▸ ha)
  exact ⟨ended_of_active hlater hstate hr, r, hr⟩

theorem run_serial (plan : Plan ι σ α) (schedule : List (Fiber.Agent ι)) :
    Serial plan (plan.build.run plan schedule) := by
  have hfated := fated_run plan schedule
  generalize plan.build.run plan schedule = s at hfated ⊢
  have hfiber := hfated.fiber _ (List.prefix_refl _)
  have hsignal : ∀ a, (plan.fated s.fiber.line.pushed).signal a = none := fun _ => rfl
  obtain ⟨prompt, late, opening, h⟩ := Fiber.Race.known_run
    (plan.fated s.fiber.line.pushed) schedule
  have hbegun := Fiber.Race.ended_run (plan.fated s.fiber.line.pushed) schedule
  have hquiet := Fiber.Race.unsignalled_run hsignal schedule
  rw [← hfiber] at h hbegun hquiet
  have hprefix := h.begun_prefix hquiet
  have honce : s.fiber.begun.Nodup := h.kept.nodup.sublist hprefix.sublist
  constructor
  case in_order => exact hprefix
  case executed_once => exact honce
  case one_by_one => exact hbegun
  case state => exact hfated.state
  case answered =>
    intro before a later hsplit
    obtain ⟨more, hmore⟩ := hprefix
    have horder : s.fiber.line.pushed =
        before ++ a :: (later ++ s.fiber.worker.executing ++ more) := by
      rw [← hmore, hbegun, hsplit]
      simp only [List.append_assoc, List.cons_append]
    have hnew : a ∉ before := by
      rw [hbegun, hsplit, List.append_assoc] at honce
      exact fun hmem => (List.nodup_append.mp honce).2.2 a hmem a List.mem_cons_self rfl
    have hended : a ∈ s.fiber.ended := by
      rw [hsplit]
      exact List.mem_append_right _ List.mem_cons_self
    rw [← plan.outcome_fated horder hnew]
    exact h.resolved_of_ended hended
  case passed_over => exact fun a r hr hended => h.outcome_of_not_ended hquiet hr hended
  case resolved_once => exact h.resolved_once
  case never_twice =>
    intro a r hr
    rcases h.mem_resolutions hr with ⟨c, hc, rfl⟩ | ⟨-, rfl⟩
    · cases c with
      | executed =>
        rw [Fiber.Course.outcome, plan.outcome_fated_eq]
        exact plan.answer_ne_deliveredTwice _ a
      | _ => exact cancelled_ne_deliveredTwice _
    · exact cancelled_ne_deliveredTwice _
  case while_active =>
    intro hstate a r hr
    exact ended_of_active hfated hstate hr
  case served => exact fun hhook hstate hquiet => Race.served hfated hhook hstate hquiet
  case at_end =>
    intro hstate
    constructor
    · rw [hbegun, h.executing_at_end hstate, List.append_nil]
    · intro a accepted ha
      obtain ⟨r, hr, -⟩ := h.resolved_at_end hstate ha
      exact ⟨r, hr⟩

-- The second message panics after it has changed the state, and the actor is
-- stopped before the fourth is sent.
example :
    let push (n : Nat) : Message (List Nat) Nat := .of fun ns => (ns.length, ns ++ [n])
    let plan : Plan (Fin 4) (List Nat) Nat :=
      { start := []
        message := fun a =>
          if a = 1 then fun ns => (.error { message := none }, ns ++ [20]) else push a }
    let before : List (Fiber.Agent (Fin 4)) :=
      ([0, 1, 2] : List (Fin 4)).flatMap (fun a => List.replicate 2 (.submitter a)) ++
        List.replicate 22 .worker
    let closed := List.replicate 3 (.caller 0) ++ List.replicate 2 (.submitter 3)
    let s := plan.build.run plan (before ++ closed ++ List.replicate 15 .worker)
    s.state = [0, 20, 2] ∧ s.fiber.ended = [0, 1, 2] ∧ s.fiber.state = .disposed ∧
      s.fiber.resolutions.map Prod.fst = [0, 1, 2, 3] := by
  decide

end Race

end Actor

end Skein
