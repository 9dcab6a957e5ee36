import Skein.Demo.Run
import Skein.Proofs.Fiber.Alone
import Skein.Proofs.Fiber.Progress
import Skein.Proofs.Queue.PlainList

/-!
# The fiber of the demo

The demo submits one item after the other, and has each of them dealt with before it
submits the next.  In between the fiber is idle (`Idle.serve`), and at the end nothing
keeps the worker from leaving.  `carried_alone` finds the same fiber among those who use
it: when the submitters and the worker take turns, a race goes through the states that
`fiberAfter` and `shutDown` name, until the worker is gone and the call that disposed the
fiber has returned.
-/

namespace Skein

namespace Fiber

/-! ## A fiber between two submissions -/

structure Idle (f : Fiber Nat) : Prop where
  active : f.state = .active
  empty : f.queue.view = {}
  calm : f.queue.Calm

namespace Idle

variable {f : Fiber Nat}

theorem start (strategy : Queue.Strategy) : (start strategy : Fiber Nat).Idle :=
  ⟨rfl, Queue.Any.view_build strategy, Queue.Any.calm_build strategy⟩

theorem pending (h : f.Idle) : f.pending = 0 :=
  congrArg (List.length ∘ Queue.items) h.empty

/-- What an idle fiber is told to do, it does at once. -/
theorem carryOut {α : Type} (h : f.Idle) (item : Nat) (job : Run.Job α) {t : Run.Timeline}
    (hactive : t.disposed = false) : f.carryOut item job t = some (job.runOnFiber t) := by
  refine runOnFiber_eq f item job t (congrArg Queue.items h.empty) ?_ (by simp [h.active, hactive])
  rw [hactive]
  exact congrArg Queue.closed h.empty

theorem submitted (h : f.Idle) (item : Nat) :
    (f.submit item).2.queue.view = { items := [item] } ∧ (f.submit item).2.queue.Calm := by
  obtain ⟨-, hview, hcalm⟩ := Queue.Any.enqueue_view h.calm item
  rw [h.empty] at hview
  exact ⟨hview, hcalm⟩

theorem taken (h : f.Idle) (item : Nat) :
    (f.submit item).2.take.1 = .item item ∧ (f.submit item).2.take.2.Idle := by
  obtain ⟨hview, hcalm⟩ := h.submitted item
  obtain ⟨hitem, hempty, hcalm⟩ := Queue.Any.dequeue_view hcalm (.inl (by
    rw [hview]
    exact List.cons_ne_nil _ _))
  rw [hview] at hitem hempty
  exact ⟨hitem, h.active, hempty, hcalm⟩

theorem serve_eq (h : f.Idle) (item : Nat) :
    Demo.serve f item = (f.submit item).2.take.2.begin := by
  have hitem := (h.taken item).1
  rcases htake : (f.submit item).2.take with ⟨what, g⟩
  rw [htake] at hitem
  obtain rfl : what = .item item := hitem
  rw [Demo.serve, htake]

/-- When the worker has dealt with an item, the fiber is idle again. -/
theorem serve (h : f.Idle) (item : Nat) : (Demo.serve f item).Idle := by
  obtain ⟨-, hidle⟩ := h.taken item
  rw [h.serve_eq]
  exact ⟨hidle.active, hidle.empty, hidle.calm⟩

theorem foldl_serve (h : f.Idle) (items : List Nat) : (items.foldl Demo.serve f).Idle := by
  induction items generalizing f with
  | nil => exact h
  | cons item rest ih => exact ih (h.serve item)

/-- Once an idle fiber is closed, its worker is told that there will be no more, and told
so again when it has closed the queue itself. -/
theorem finished (h : f.Idle) :
    f.close.take.1 = .finished ∧ f.close.take.2.leave.take.1 = .finished := by
  obtain ⟨hclosed, hcalm⟩ := Queue.Any.close_view h.calm
  rw [h.empty] at hclosed
  have hover (q : Queue.Any Nat) (hview : q.view = { closed := true }) (hcalm : q.Calm) :
      q.dequeue.1 = .finished ∧ q.dequeue.2.view = { closed := true } ∧ q.dequeue.2.Calm := by
    have hdequeue := Queue.Any.dequeue_view hcalm (.inr (congrArg Queue.closed hview))
    rwa [hview] at hdequeue
  have hclose : f.close.queue = f.queue.close := by
    rw [Fiber.close, h.active]
  obtain ⟨hfirst, hview, hcalm⟩ := hover _ hclosed hcalm
  obtain ⟨hagain, hcalm⟩ := Queue.Any.close_view hcalm
  rw [hview] at hagain
  rw [take, take, leave, hclose]
  exact ⟨hfirst, (hover _ hagain hcalm).1⟩

theorem shutDown_eq (h : f.Idle) : Demo.shutDown f = f.close.take.2.leave.take.2 := by
  have hfinished := h.finished.1
  rcases htake : f.close.take with ⟨what, g⟩
  rw [htake] at hfinished
  obtain rfl : what = .finished := hfinished
  rw [Demo.shutDown, htake]

theorem disposed (h : f.Idle) : (Demo.shutDown f).state = .disposed := by
  rw [h.shutDown_eq]
  rfl

end Idle

namespace Race

variable {ι α : Type} [DecidableEq ι]

/-- Whatever the order of the steps: once all that the queue has accepted is resolved,
nothing is left in it. -/
theorem items_of_resolved (plan : Plan ι α) (schedule : List (Agent ι)) :
    let s := run plan {} schedule
    (∀ a ∈ s.line.pushed, ∃ r, (a, r) ∈ s.resolutions) → s.line.queue.items = [] := by
  intro s hresolved
  obtain ⟨prompt, late, opening, h⟩ := known_run plan schedule
  have honce := h.kept.nodup
  rw [h.pushed, List.nodup_append] at honce
  apply List.eq_nil_iff_forall_not_mem.mpr
  intro a hwaiting
  -- an item that waits has had no episode
  have hlater : a ∈ s.worker.item ++ (s.line.consumer.inHand ++ s.line.queue.items) :=
    List.mem_append_right _ (List.mem_append_right _ hwaiting)
  have haccepted : a ∈ s.line.pushed := by
    rw [h.pushed]
    exact List.mem_append_right _ hlater
  obtain ⟨r, hr⟩ := hresolved a haccepted
  rcases h.mem_resolutions hr with ⟨c, hc, -⟩ | ⟨hrefused, -⟩
  · exact honce.2.2 a (List.mem_map_of_mem hc) a hlater rfl
  · exact hrefused haccepted

end Race

end Fiber

namespace Demo

def fiberAfter (config : Config) (count : Nat) : Fiber Nat :=
  (List.range count).foldl serve (.start config.fiber.queue)

theorem idle_fiberAfter (config : Config) (count : Nat) : (fiberAfter config count).Idle :=
  (Fiber.Idle.start _).foldl_serve _

theorem fiberAfter_add (config : Config) (count more : Nat) :
    fiberAfter config (count + more) =
      (List.range' count more).foldl serve (fiberAfter config count) := by
  rw [fiberAfter, fiberAfter, ← List.foldl_append, List.range_eq_range', List.range_eq_range',
    ← List.range'_append_1, Nat.zero_add]

/-! ## Submitters and worker taking turns -/

section Turns

open Fiber (Event Race Plan)

variable {α : Type} {config : Config} {plan : Plan Nat α} {s : Race Nat α} {count : Nat}

/-- So many items have been submitted and dealt with, one after the other, and nothing
else has happened. -/
structure Round (config : Config) (plan : Plan Nat α) (count : Nat) (s : Race Nat α) : Prop where
  fiber : s.fiber plan = fiberAfter config count
  worker : s.worker = .taking false
  resting : s.line.Resting
  offers : ∀ a, count ≤ a → s.line.offers a = .ahead
  closings : ∀ k, s.line.closings k = .ahead
  calls : ∀ k, s.calls k = .ahead
  holder : s.holder = none
  resolved : s.story.filterMap Event.resolved? =
    (List.range count).map fun a => (a, plan.outcome a)

theorem Round.start (hqueue : plan.config.queue = config.fiber.queue)
    (hhook : plan.hookPanics = false) : Round config plan 0 (Race.run plan {} [.worker]) := by
  have hwork : Race.run plan {} [.worker] = { worker := .taking false } := by
    simp [Race.run, Race.step, Race.work, hhook]
  rw [hwork]
  refine ⟨?_, rfl, ⟨.inl rfl, rfl⟩, fun _ _ => rfl, fun _ => rfl, fun _ => rfl, rfl, rfl⟩
  rw [Race.fiber, hqueue, fiberAfter]
  cases config.fiber.queue <;> rfl

/-- The worker leaves those who submit and those who call where they are. -/
theorem alone_worker (plan : Plan Nat α) (s : Race Nat α) (n : Nat) :
    let t := s.alone plan .worker n
    t.line.offers = s.line.offers ∧ t.calls = s.calls ∧ t.holder = s.holder := by
  refine ⟨?_, ?_, ?_⟩
  · exact Race.alone_keeps (f := fun s => s.line.offers) .worker
      (fun s => (Race.work_frame plan s).2) s n
  · exact Race.alone_keeps (f := fun s => s.calls) .worker
      (fun s => ((Race.work_works plan s).keeps rfl).1) s n
  · exact Race.alone_keeps (f := fun s => s.holder) .worker
      (fun s => ((Race.work_works plan s).keeps rfl).2.1) s n

/-- The steps of one who submits leave the worker and all others where they are. -/
theorem alone_submitter (plan : Plan Nat α) (s : Race Nat α) (a n : Nat) :
    let t := s.alone plan (.submitter a) n
    t = { s with line := t.line } ∧ t.line.closings = s.line.closings ∧
      (s.line.Resting → t.line.Resting) ∧ ∀ b, b ≠ a → t.line.offers b = s.line.offers b := by
  have hmove := Queue.Race.move_producer plan.config.queue a
  have hconsumer := Queue.Race.play_keeps (f := fun l => l.consumer) (fun l => (hmove l).1) s.line n
  have hparked := Queue.Race.play_keeps (f := fun l => l.queue.parked)
    (fun l => (hmove l).2.2.1) s.line n
  rw [Race.alone_submitter]
  refine ⟨rfl, ?_, fun hrest => ?_, fun b hb => ?_⟩
  · exact Queue.Race.play_keeps (f := fun l => l.closings) (fun l => (hmove l).2.1) s.line n
  · rw [Queue.Race.Resting, Queue.Race.Answered, hconsumer, hparked]
    exact hrest
  · exact Queue.Race.play_keeps (f := fun l => l.offers b) (fun l => (hmove l).2.2.2 b hb) s.line n

/-- The next item is submitted, and the worker deals with it. -/
theorem Round.next (h : Round config plan count s) (hsignal : plan.signal count = none) :
    ∃ schedule, Round config plan (count + 1) (s.run plan schedule) := by
  have hidle := idle_fiberAfter config count
  obtain ⟨hitem, hlater⟩ := hidle.taken count
  obtain ⟨m, hsubmitted, -⟩ := Race.submit_alone plan (h.offers count (Nat.le_refl _))
  obtain ⟨hsame, hclosings, hresting, hoffers⟩ := alone_submitter plan s count m
  have hserve := hidle.serve_eq count
  rw [h.fiber] at hsubmitted
  rw [← hsubmitted] at hitem hlater hserve
  have hworker : (s.alone plan (.submitter count) m).worker = .taking false := by
    rw [hsame]
    exact h.worker
  obtain ⟨n, hworks, hrests, hshut, hfiber, hresolved⟩ :=
    Race.round_alone hworker (hresting h.resting) hitem
  have hfate (fired : Nat → Bool) :
      ((s.alone plan (.submitter count) m).fiber plan).take.2.fate
        ((plan.signal count).any fired) = .execute := by
    rw [Fiber.fate, if_neg (not_not_intro hlater.active), hsignal]
    rfl
  rw [hfate] at hfiber hresolved
  obtain ⟨hspared, hcalls, hholder⟩ := alone_worker plan (s.alone plan (.submitter count) m) n
  refine ⟨List.replicate m (.submitter count) ++ List.replicate n .worker, ?_⟩
  rw [Race.run_append]
  refine ⟨?_, hworks, hrests, fun a ha => ?_, fun k => ?_, fun k => ?_, ?_, ?_⟩
  · rw [fiberAfter_add]
    exact hfiber.trans hserve.symm
  · refine (congrFun hspared a).trans ((hoffers a (by omega)).trans (h.offers a (by omega)))
  · refine (congrFun (hshut.trans hclosings) k).trans (h.closings k)
  · refine (congrFun hcalls k).trans ?_
    rw [hsame]
    exact h.calls k
  · refine hholder.trans ?_
    rw [hsame]
    exact h.holder
  · refine hresolved.trans ?_
    rw [hsame, List.range_succ, List.map_append, ← h.resolved]
    rfl

theorem exists_round (hqueue : plan.config.queue = config.fiber.queue)
    (hhook : plan.hookPanics = false) (hsignal : ∀ a, plan.signal a = none) (count : Nat) :
    ∃ schedule, Round config plan count (Race.run plan {} schedule) := by
  induction count with
  | zero => exact ⟨_, .start hqueue hhook⟩
  | succ count ih =>
    obtain ⟨before, h⟩ := ih
    obtain ⟨more, hmore⟩ := h.next (hsignal count)
    refine ⟨before ++ more, ?_⟩
    rw [Race.run_append]
    exact hmore

/-- The fiber is closed, the worker is told so and leaves, and the call that has closed
the fiber returns. -/
theorem Round.shut (h : Round config plan count s) (hhook : plan.hookPanics = false) :
    ∃ schedule, let t := s.run plan schedule
      t.worker = .gone ∧ t.calls 0 = .returned ∧
        t.fiber plan = shutDown (fiberAfter config count) ∧ t.story = s.story := by
  have hidle := idle_fiberAfter config count
  obtain ⟨hover, hlast⟩ := hidle.finished
  obtain ⟨k, line, hclose, hclosed, hresting, hclosings⟩ :=
    Race.close_alone plan (h.calls 0) (h.closings 1)
  rw [← hclose, h.fiber] at hclosed
  rw [← hclosed] at hover hlast
  have hworker : (s.alone plan (.caller 0) k).worker = .taking false := by
    rw [hclose]
    exact h.worker
  have hrest : (s.alone plan (.caller 0) k).line.Resting := by
    rw [hclose]
    exact hresting h.resting
  have hahead : (s.alone plan (.caller 0) k).line.closings 0 = .ahead := by
    rw [hclose]
    exact (hclosings 0 (by decide)).trans (h.closings 0)
  obtain ⟨m, hgone, hdisposed, hstory⟩ := Race.finish_alone hworker hrest hahead hover hlast
  obtain ⟨-, hcalls, hholder⟩ := alone_worker plan (s.alone plan (.caller 0) k) m
  have hplace : ((s.alone plan (.caller 0) k).alone plan .worker m).calls 0 =
      if plan.joins 0 then .locking else .returned := by
    rw [hcalls, hclose]
    exact Function.update_self 0 _ s.calls
  obtain ⟨n, hreturned, hgone', hfiber, hstory'⟩ :=
    Race.return_alone hhook hgone (by rw [hholder, hclose]; exact h.holder) hplace
  refine ⟨List.replicate k (.caller 0) ++ List.replicate m .worker ++
    List.replicate n (.caller 0), ?_⟩
  rw [Race.run_append, Race.run_append]
  refine ⟨hgone', hreturned, ?_, ?_⟩
  · refine hfiber.trans (hdisposed.trans ?_)
    rw [hclosed, hidle.shutDown_eq]
  · refine hstory'.trans (hstory.trans ?_)
    rw [hclose]

/-- Where submitters and worker take turns, and one call disposes the fiber at the end, a
race comes to what is said of the fiber: its worker is gone, the call has returned, and
the items were resolved in order. -/
theorem carried_alone (hqueue : plan.config.queue = config.fiber.queue)
    (hhook : plan.hookPanics = false) (hsignal : ∀ a, plan.signal a = none) (count : Nat) :
    ∃ schedule, let s := Race.run plan {} schedule
      s.worker = .gone ∧ s.calls 0 = .returned ∧
        s.fiber plan = shutDown (fiberAfter config count) ∧
        s.story.filterMap Event.resolved? =
          (List.range count).map fun a => (a, plan.outcome a) := by
  obtain ⟨before, h⟩ := exists_round hqueue hhook hsignal count
  obtain ⟨after, hgone, hreturned, hfiber, hstory⟩ := h.shut hhook
  refine ⟨before ++ after, ?_⟩
  rw [Race.run_append]
  refine ⟨hgone, hreturned, hfiber, ?_⟩
  rw [hstory]
  exact h.resolved

end Turns

end Demo

end Skein
