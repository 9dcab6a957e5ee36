import Skein.Fiber.Race
import Skein.Proofs.Queue.Alone
import Skein.Run.Base

/-!
# A fiber that nobody interrupts

The functions of `Skein.Fiber.Basic` see a fiber between the calls made on it.
Here they are compared with the steps of a race: a call whose steps follow one
another without a step of anybody else does to the fiber what the function says,
for every strategy of the queue.  `submit_alone` and `close_alone` are about those
who use the fiber, `round_alone` and `leave_alone` about its worker.  At the end
`runOnFiber_eq` says the same of a whole job: carried out by a fiber, it is
submitted, taken and then meets its fate.
-/

namespace Skein

/-! ## Calls on the fiber -/

namespace Fiber

namespace Race

variable {ι α : Type}

def fiber (plan : Plan ι α) (s : Race ι α) : Fiber ι :=
  { state := s.state, queue := s.line.queue.as plan.config.queue, started := !s.begun.isEmpty }

variable [DecidableEq ι]

def alone (plan : Plan ι α) (s : Race ι α) (agent : Agent ι) (n : Nat) : Race ι α :=
  s.run plan (List.replicate n agent)

theorem alone_alone (plan : Plan ι α) (s : Race ι α) (agent : Agent ι) (m n : Nat) :
    (s.alone plan agent m).alone plan agent n = s.alone plan agent (m + n) := by
  rw [alone, alone, alone, ← List.replicate_append_replicate, run_append]

variable {plan : Plan ι α} {s : Race ι α}

/-- What one step of an agent keeps, any number of them keeps. -/
theorem alone_keeps {β : Type} {f : Race ι α → β} (agent : Agent ι)
    (hstep : ∀ s : Race ι α, f (s.step plan agent) = f s) (s : Race ι α) (n : Nat) :
    f (s.alone plan agent n) = f s := by
  induction n generalizing s with
  | zero => rfl
  | succ n ih => exact (ih (s.step plan agent)).trans (hstep s)

theorem alone_submitter (a : ι) (n : Nat) :
    s.alone plan (.submitter a) n =
      { s with line := s.line.play plan.config.queue (List.replicate n (.producer a)) } := by
  induction n generalizing s with
  | zero => rfl
  | succ n ih => exact ih

variable (plan) in
theorem submit_alone {a : ι} (h : s.line.offers a = .ahead) :
    ∃ n, (s.alone plan (.submitter a) n).fiber plan = ((s.fiber plan).submit a).2 ∧
      (s.alone plan (.submitter a) n).line.offers a = .returned ((s.fiber plan).submit a).1 := by
  obtain ⟨n, hqueue, hplace⟩ := Queue.Race.submit_alone plan.config.queue s.line a h
  refine ⟨n, ?_, ?_⟩
  · rw [alone_submitter, fiber, fiber, submit, hqueue]
    rfl
  · rw [alone_submitter]
    exact hplace

theorem closing_alone {k : Nat} {line : Queue.Race ι}
    (h : Queue.Race.Alone plan.config.queue (.closer (k + 1)) (Queue.Race.Closed (k + 1))
      s.line line)
    (hplace : s.calls k = .closing) :
    ∃ n, s.alone plan (.caller k) n = { s with line := line }.goOn plan k := by
  generalize hline : s.line = start at h
  induction h generalizing s with
  | last hmove h =>
    subst hline hmove
    refine ⟨1, ?_⟩
    show s.call plan k = _
    rw [call, hplace]
    exact if_pos h
  | more hmove h _ ih =>
    subst hline hmove
    obtain ⟨n, hn⟩ := ih (s := s.queueMove plan (.closer (k + 1))) hplace rfl
    refine ⟨n + 1, ?_⟩
    have hcall : s.call plan k = s.queueMove plan (.closer (k + 1)) := by
      rw [call, hplace]
      exact if_neg h
    show (s.call plan k).alone plan (.caller k) n = _
    rw [hcall, hn]
    rfl

variable (plan) in
/-- A call on the fiber as a whole closes it if it was active, and then goes on. -/
theorem close_alone {k : Nat} (hplace : s.calls k = .ahead)
    (hclosing : s.line.closings (k + 1) = .ahead) :
    ∃ n line,
      let t : Race ι α :=
        { s with
          state := (s.fiber plan).close.state
          line := line
          calls := Function.update s.calls k (if plan.joins k then .locking else .returned) }
      s.alone plan (.caller k) n = t ∧ t.fiber plan = (s.fiber plan).close ∧
        (s.line.Resting → line.Resting) ∧
        ∀ j, j ≠ k + 1 → line.closings j = s.line.closings j := by
  by_cases hactive : s.state = .active
  · obtain ⟨line, hline, hqueue⟩ := Queue.Race.alone_close plan.config.queue hclosing
    have hfirst : s.call plan k = { s with state := .disposing }.place k .closing := by
      simp [call, hplace, hactive]
    obtain ⟨n, hn⟩ :=
      closing_alone (s := { s with state := .disposing }.place k .closing) hline (by simp [place])
    have hothers (j : Nat) (hj : j ≠ k + 1) : line.closings j = s.line.closings j :=
      hline.keeps (f := fun u => u.closings j) fun u =>
        (Queue.Race.move_closer plan.config.queue (k + 1) u).2.2.2 j hj
    refine ⟨n + 1, line, ?_, ?_, hline.resting, hothers⟩
    · rw [show s.alone plan (.caller k) (n + 1) = (s.call plan k).alone plan (.caller k) n from rfl,
        hfirst, hn]
      simp [goOn, place, fiber, close, hactive]
    · simp [fiber, close, hactive, hqueue, begun]
  · refine ⟨1, s.line, ?_, ?_, id, fun j _ => rfl⟩
    · simp [alone, run, step, call, goOn, place, hplace, hactive, fiber, close]
    · simp [fiber, close, begun]

/-! ## The worker -/

def told (s : Race ι α) (last : Bool) : Option ι → Race ι α
  | some a =>
    { s with
      worker := if last then .resolving true a (cancelled .fiberDisposed) else .taken a
      story := s.story ++ [.took a] }
  | none => { s with worker := if last then .storing else .leaving }

theorem taking_alone {line : Queue.Race ι} {r : Option ι} {last : Bool}
    (h : Queue.Race.Alone plan.config.queue .consumer Queue.Race.Answered s.line line)
    (hr : line.consumer = .returned r) (hworker : s.worker = .taking last) :
    ∃ n, s.alone plan .worker n = { s with line := line }.told last r := by
  -- by induction on the call: until it ends, the worker only follows the queue
  generalize hline : s.line = start at h
  induction h generalizing s with
  | last hmove =>
    subst hline hmove
    refine ⟨1, ?_⟩
    show s.work plan = _
    rw [work, hworker]
    simp only [queueMove, hr]
    cases r <;> rfl
  | more hmove h _ ih =>
    subst hline hmove
    have hwork : s.work plan = s.queueMove plan .consumer := by
      rw [work, hworker]
      simp only [queueMove]
      split
      next a ha => exact absurd ⟨_, ha⟩ h
      next hnone => exact absurd ⟨_, hnone⟩ h
      next => rfl
    obtain ⟨n, hn⟩ := ih (s := s.queueMove plan .consumer) hr hworker rfl
    refine ⟨n + 1, ?_⟩
    show (s.work plan).alone plan .worker n = _
    rw [hwork, hn]
    rfl

omit [DecidableEq ι] in
theorem fiber_told (plan : Plan ι α) (s : Race ι α) (last : Bool) (r : Option ι) :
    (s.told last r).fiber plan = s.fiber plan := by
  cases r with
  | none => rfl
  | some a => simp [told, fiber, begun, List.filterMap_cons, Event.began?]

theorem take_item {a : ι} (hworker : s.worker = .taking false) (hrest : s.line.Resting)
    (htake : (s.fiber plan).take.1 = .item a) :
    ∃ n line, s.alone plan .worker n = { s with line := line }.told false (some a) ∧
      line.Resting ∧ line.closings = s.line.closings ∧
      fiber plan { s with line := line } = (s.fiber plan).take.2 := by
  obtain ⟨rest, hitems⟩ := Queue.Blocking.of_dequeue_item hrest.2 htake
  obtain ⟨n, hn⟩ := taking_alone (Queue.Race.alone_item hrest hitems) rfl hworker
  refine ⟨n, _, hn, ⟨.inr ⟨_, rfl⟩, ?_⟩, rfl, ?_⟩
  · exact (s.line.queue.parked_known _).trans hrest.2
  · rw [take, fiber, fiber, Queue.Blocking.dequeue_cons plan.config.queue hitems hrest.2]
    rfl

variable (plan) in
theorem take_finished (s : Race ι α) {last : Bool} (hworker : s.worker = .taking last)
    (hrest : s.line.Resting) (htake : (s.fiber plan).take.1 = .finished) :
    ∃ n line, s.alone plan .worker n = { s with line := line }.told last none ∧
      line.Resting ∧ line.closings = s.line.closings ∧
      fiber plan { s with line := line } = (s.fiber plan).take.2 := by
  obtain ⟨hitems, hover⟩ := Queue.Blocking.of_dequeue_finished hrest.2 htake
  obtain ⟨n, hn⟩ := taking_alone (Queue.Race.alone_over hrest hitems hover) rfl hworker
  refine ⟨n, _, hn, ⟨.inr ⟨_, rfl⟩, ?_⟩, rfl, ?_⟩
  · exact (s.line.queue.parked_known _).trans hrest.2
  · rw [take, fiber, fiber, Queue.Blocking.dequeue_over hitems hrest.2 hover]
    rfl

def answer (plan : Plan ι α) (a : ι) : Fate → Resolution α
  | .execute => plan.outcome a
  | .cancel reason => cancelled reason

def met (f : Fiber ι) : Fate → Fiber ι
  | .execute => f.begin
  | .cancel _ => f

variable (plan) in
theorem fate_alone (s : Race ι α) {a : ι} (hworker : s.worker = .taken a) :
    ∃ n, let t := s.alone plan .worker n
      let fate := (s.fiber plan).fate ((plan.signal a).any s.fired)
      t.worker = .taking false ∧ t.line = s.line ∧ t.fiber plan = met (s.fiber plan) fate ∧
        t.story.filterMap Event.resolved? =
          s.story.filterMap Event.resolved? ++ [(a, answer plan a fate)] := by
  by_cases hactive : s.state = .active
  · by_cases hsignal : (plan.signal a).any s.fired
    · refine ⟨3, ?_⟩
      simp [alone, run, step, work, hworker, hactive, hsignal, fiber, fate, answer, met, begun,
        List.filterMap_cons, Event.began?, Event.resolved?]
    · refine ⟨5, ?_⟩
      simp [alone, run, step, work, hworker, hactive, hsignal, fiber, fate, answer, met, begun,
        List.filterMap_cons, Event.began?, Event.resolved?, begin]
  · refine ⟨2, ?_⟩
    simp [alone, run, step, work, hworker, hactive, fiber, fate, answer, met, begun,
      List.filterMap_cons, Event.began?, Event.resolved?]

/-- One round of the worker: it takes an item, and the item meets its fate. -/
theorem round_alone {a : ι} (hworker : s.worker = .taking false) (hrest : s.line.Resting)
    (htake : (s.fiber plan).take.1 = .item a) :
    ∃ n, let t := s.alone plan .worker n
      let f := (s.fiber plan).take.2
      let fate := f.fate ((plan.signal a).any s.fired)
      t.worker = .taking false ∧ t.line.Resting ∧ t.line.closings = s.line.closings ∧
        t.fiber plan = met f fate ∧
        t.story.filterMap Event.resolved? =
          s.story.filterMap Event.resolved? ++ [(a, answer plan a fate)] := by
  obtain ⟨m, line, htaken, hline, hclosings, hleft⟩ := take_item hworker hrest htake
  obtain ⟨n, hworks, hsame, hfiber, hstory⟩ :=
    fate_alone plan ({ s with line := line }.told false (some a)) rfl
  rw [fiber_told, hleft] at hfiber hstory
  refine ⟨m + n, ?_⟩
  rw [← alone_alone, htaken]
  refine ⟨hworks, ?_, ?_, hfiber, ?_⟩
  · rw [hsame]
    exact hline
  · rw [hsame]
    exact hclosings
  · refine hstory.trans ?_
    simp [told, List.filterMap_cons, Event.resolved?]

variable (plan) in
theorem shutting_alone (s : Race ι α) {line : Queue.Race ι}
    (h : Queue.Race.Alone plan.config.queue (.closer 0) (Queue.Race.Closed 0) s.line line)
    (hworker : s.worker = .closing) :
    ∃ n, s.alone plan .worker n = { s with line := line, worker := .taking true } := by
  generalize hline : s.line = start at h
  induction h generalizing s with
  | last hmove h =>
    subst hline hmove
    refine ⟨1, ?_⟩
    show s.work plan = _
    rw [Queue.Race.Closed] at h
    simp [work, hworker, queueMove, h]
  | more hmove h _ ih =>
    subst hline hmove
    obtain ⟨n, hn⟩ := ih (s.queueMove plan (.closer 0)) hworker rfl
    have hwork : s.work plan = s.queueMove plan (.closer 0) := by
      rw [Queue.Race.Closed] at h
      simp [work, hworker, queueMove, h]
    refine ⟨n + 1, ?_⟩
    show (s.work plan).alone plan .worker n = _
    rw [hwork, hn]
    rfl

/-- The worker leaves: it closes the queue, takes a last look at it, and stores
that the fiber is disposed. -/
theorem leave_alone (hworker : s.worker = .leaving) (hrest : s.line.Resting)
    (hclosing : s.line.closings 0 = .ahead) (hend : (s.fiber plan).leave.take.1 = .finished) :
    ∃ n, let t := s.alone plan .worker n
      t.worker = .gone ∧ t.fiber plan = (s.fiber plan).leave.take.2 ∧ t.story = s.story := by
  have hleaving :
      ∃ n state, s.alone plan .worker n = { s with state := state, worker := .closing } := by
    by_cases hactive : s.state = .active
    · exact ⟨2, .disposing, by simp [alone, run, step, work, hworker, hactive]⟩
    · exact ⟨1, s.state, by simp [alone, run, step, work, hworker, hactive]⟩
  obtain ⟨l, state, hl⟩ := hleaving
  obtain ⟨line, hline, hqueue⟩ := Queue.Race.alone_close plan.config.queue hclosing
  obtain ⟨m, hm⟩ :=
    shutting_alone plan { s with state := state, worker := .closing } hline rfl
  have hlast :
      (fiber plan { s with state := state, worker := .taking true, line := line }).take.1 =
        .finished := by
    rw [take, fiber, hqueue]
    exact hend
  obtain ⟨n, line', hn, -, -, htaken⟩ :=
    take_finished plan { s with state := state, worker := .taking true, line := line } rfl
      (hline.resting hrest) hlast
  have hdrained : line'.queue.as plan.config.queue =
      ((s.line.queue.as plan.config.queue).close).dequeue.2 := by
    rw [← hqueue]
    exact congrArg Fiber.queue htaken
  refine ⟨l + (m + (n + 2)), ?_⟩
  rw [← alone_alone, hl, ← alone_alone, hm, ← alone_alone, hn]
  refine ⟨rfl, ?_, rfl⟩
  simp [alone, run, step, work, told, fiber, leave, take, hdrained, begun]

/-- A worker that is told that there will be no more comes to its end. -/
theorem finish_alone (hworker : s.worker = .taking false) (hrest : s.line.Resting)
    (hclosing : s.line.closings 0 = .ahead) (hover : (s.fiber plan).take.1 = .finished)
    (hend : (s.fiber plan).take.2.leave.take.1 = .finished) :
    ∃ n, let t := s.alone plan .worker n
      t.worker = .gone ∧ t.fiber plan = (s.fiber plan).take.2.leave.take.2 ∧
        t.story = s.story := by
  obtain ⟨m, line, htold, hresting, hclosings, hleft⟩ := take_finished plan s hworker hrest hover
  rw [← fiber_told plan _ false none] at hleft
  rw [← hleft] at hend
  obtain ⟨n, hgone, hfiber, hstory⟩ := leave_alone (s := { s with line := line }.told false none)
    rfl hresting ((congrFun hclosings 0).trans hclosing) hend
  refine ⟨m + n, ?_⟩
  rw [← alone_alone, htold, ← hleft]
  exact ⟨hgone, hfiber, hstory⟩

/-- Once the worker is gone, a call that has closed the fiber finds nobody in its way,
whether it waits for the worker or not. -/
theorem return_alone {k : Nat} (hhook : plan.hookPanics = false) (hworker : s.worker = .gone)
    (hholder : s.holder = none)
    (hplace : s.calls k = if plan.joins k then .locking else .returned) :
    ∃ n, let t := s.alone plan (.caller k) n
      t.calls k = .returned ∧ t.worker = .gone ∧ t.fiber plan = s.fiber plan ∧
        t.story = s.story := by
  cases hjoins : plan.joins k with
  | false =>
    rw [hjoins] at hplace
    exact ⟨0, hplace, hworker, rfl, rfl⟩
  | true =>
    rw [hjoins, if_pos rfl] at hplace
    cases hjoined : s.joined with
    | false =>
      refine ⟨3, ?_⟩
      simp [alone, run, step, call, place, hplace, hholder, hjoined, hworker, hhook, Worker.isGone,
        fiber, begun]
    | true =>
      refine ⟨2, ?_⟩
      simp [alone, run, step, call, place, hplace, hholder, hjoined, hworker, fiber, begun]

end Race

/-! ## A job -/

theorem submit_of_closed {f : Fiber ι} (a : ι) (hclosed : f.queue.isClosed = true) :
    (f.submit a).1 = false :=
  Queue.Any.enqueue_of_closed a hclosed

theorem submit_of_open {f : Fiber ι} (a : ι) (hitems : f.queue.items = [])
    (hopen : f.queue.isClosed = false) :
    (f.submit a).1 = true ∧ (f.submit a).2.take.1 = .item a := by
  obtain ⟨haccepted, hlater⟩ := Queue.Any.enqueue_of_open a hopen
  rw [hitems] at hlater
  exact ⟨haccepted, Queue.Any.dequeue_of_items hlater⟩

/-- A fiber that has nothing else to do carries a job out as it is said. -/
theorem runOnFiber_eq (f : Fiber ι) (a : ι) (job : Run.Job α) (t : Run.Timeline)
    (hitems : f.queue.items = []) (hclosed : f.queue.isClosed = t.disposed)
    (hstate : f.state = .active ↔ t.disposed = false) :
    f.carryOut a job t = some (job.runOnFiber t) := by
  cases hdisposed : t.disposed with
  | true =>
    have hrefused := submit_of_closed a (hclosed.trans hdisposed)
    rcases hsubmit : f.submit a with ⟨accepted, g⟩
    obtain rfl : accepted = false := by rw [← hrefused, hsubmit]
    rw [carryOut, hsubmit, Run.Job.runOnFiber, if_pos hdisposed]
  | false =>
    have hactive : (f.submit a).2.take.2.state = .active := hstate.mpr hdisposed
    obtain ⟨haccepted, htaken⟩ := submit_of_open a hitems (hclosed.trans hdisposed)
    rcases hsubmit : f.submit a with ⟨accepted, g⟩
    rw [hsubmit] at haccepted htaken hactive
    obtain rfl : accepted = true := haccepted
    rcases htake : g.take with ⟨taken, h⟩
    rw [htake] at htaken hactive
    obtain rfl : taken = .item a := htaken
    have hf : h.state = .active := hactive
    cases hsignal : job.signalled t with
    | true => simp [carryOut, hsubmit, htake, fate, hf, Run.Job.runOnFiber, hdisposed, hsignal]
    | false => simp [carryOut, hsubmit, htake, fate, hf, Run.Job.runOnFiber, hdisposed, hsignal]

end Fiber

end Skein
