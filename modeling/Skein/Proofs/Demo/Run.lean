import Skein.Proofs.Actor.Serial
import Skein.Proofs.Demo.Fiber
import Skein.Proofs.Run.Ageing
import Skein.Proofs.Run.Agreement
import Skein.Proofs.Run.Arrivals
import Skein.Proofs.Run.WholeRun

/-!
# A run of the demo adds up

Where chance has nothing to decide, the demo's jobs all go the same way: each of them
succeeds at once, or each of them fails until its retries are used up.  Job after job is
the same run on a timeline on which nothing but the demo's own work happens (`Plain`),
so the submissions add up job by job, while the fiber is idle whenever the next of them
comes, and `course_addsUp` puts the reports at the end together.
-/

namespace Skein

namespace Actor.Race

variable {ι σ α : Type} [DecidableEq ι] {plan : Plan ι σ α} {s : Race ι σ α}
  {schedule : List (Fiber.Agent ι)}

/-- A message that was executed is answered out of what the messages accepted before it
have made of the state. -/
theorem answer_of_ended (h : Fated plan schedule s) {before later : List ι} {a : ι}
    (haccepted : s.fiber.line.pushed = before ++ a :: later) (hnew : a ∉ before)
    (hended : a ∈ s.fiber.ended) {r : Resolution α} (hr : (a, r) ∈ s.fiber.resolutions) :
    r = plan.answer before a := by
  have hfiber := h.fiber _ (List.prefix_refl _)
  obtain ⟨prompt, late, opening, hknown⟩ := Fiber.Race.known_run
    (plan.fated s.fiber.line.pushed) schedule
  rw [← hfiber] at hknown
  rcases hknown.mem_resolutions hr with ⟨c, hc, rfl⟩ | ⟨hrefused, -⟩
  · rw [(hknown.ended_iff hc).mp hended]
    exact plan.outcome_fated haccepted hnew
  · exact absurd (by simp [haccepted]) hrefused

end Actor.Race

namespace Demo

open Run Retry

/-! ## One submission -/

/-- Nothing happens on the timeline but what the demo does itself: there is no signal,
and nobody has disposed the fiber. -/
structure Plain (t : Timeline) : Prop where
  signal : t.signal = .quiet
  disposedAt : t.disposedAt = none

namespace Plain

variable {t : Timeline}

theorem active (h : Plain t) : t.disposed = false := by
  rw [Timeline.disposed, h.disposedAt, Option.any_none]

theorem undue (h : Plain t) : t.Undue := by
  intro moment hdue
  rw [h.signal] at hdue
  cases hdue

theorem record (h : Plain t) (e : Event) : Plain (t.record e) :=
  ⟨h.signal, h.disposedAt⟩

theorem log (h : Plain t) (es : List Log.Entry) : Plain (t.log es) :=
  ⟨(Timeline.signal_log t es).trans h.signal, (Timeline.disposedAt_log t es).trans h.disposedAt⟩

theorem pauseAfter (h : Plain t) (p : Policy) (depth : Nat) (n : UInt32) (e : DispatchError) :
    Plain (Run.pauseAfter p false depth n e t).2 := by
  refine ⟨?_, (disposedAt_pauseAfter p false depth n e h.undue).trans h.disposedAt⟩
  have hannounced : (announceRetry p depth n e t).Undue := by
    intro moment
    rw [signal_announceRetry]
    exact h.undue moment
  obtain ⟨-, hlater⟩ := backoff_undue hannounced false (p.wait.delay n)
  exact (congrArg Account.signal hlater).trans ((signal_announceRetry p depth n e t).trans h.signal)

end Plain

def attemptResult (thread : String) (n : Nat) (failed : Bool) : Resolution String :=
  if failed then .error (.operation (.plain s!"job {n}: transient failure"))
  else .ok s!"job {n} done on {thread}"

/-- Whatever the fiber does with a job, it hands on no submission. -/
theorem givenTo_carryOut {f : Fiber Nat} {item : Nat} {job : Job String} {t u : Timeline}
    {r : Resolution String} (h : f.carryOut item job t = some (r, u)) (depth : Nat) :
    u.givenTo depth = t.givenTo depth := by
  unfold Fiber.carryOut at h
  split at h
  · cases h
    rfl
  · split at h
    · split at h
      · cases h
        rfl
      · cases h
        rw [Timeline.givenTo_log]
        exact givenTo_invoke job false t depth
    · cases h

/-- The dispatcher that reports counts each submission once. -/
theorem reporting_notes (fiber : Nat → Fiber Nat) (job : Job String) :
    Notes (reporting fiber job) 1 := by
  intro t
  have hgiven (es : List Log.Entry) :
      ((t.record (.given 1)).log es).givenTo 1 = t.givenTo 1 + 1 := by
    rw [Timeline.givenTo_log, Timeline.givenTo_record, if_pos rfl]
  rw [reporting]
  split
  next hcarried =>
    rw [Timeline.givenTo_log, givenTo_carryOut hcarried, hgiven]
  next hcarried => rw [givenTo_carryOut hcarried, hgiven]
  next => exact hgiven []

section Job

variable {fiber : Nat → Fiber Nat} {fails : Nat → Bool} {thread : String} {n : Nat} {t : Timeline}

/-- Around what an idle fiber does with a job there are only reports. -/
theorem reporting_eq (hidle : ∀ item, (fiber item).Idle) (job : Job String) (h : Plain t) :
    ∃ before after, let u := (t.record (.given 1)).log before
      reporting fiber job t = (.resolved (job.runOnFiber u).1, (job.runOnFiber u).2.log after) := by
  let number : Log.Value := .count (submissions (t.record (.given 1))).toNat
  let u := (t.record (.given 1)).log [entry "enqueue" [("submission", number)]]
  have hcarried := (hidle (t.givenTo 1)).carryOut (t.givenTo 1) job
    ((h.record (.given 1)).log [entry "enqueue" [("submission", number)]]).active
  refine ⟨[entry "enqueue" [("submission", number)]], ?_⟩
  rcases hran : job.runOnFiber u with ⟨e | message, v⟩
  · refine ⟨[entry "attempt failed" [("submission", number), ("error", .text e.text)]], ?_⟩
    simp only [reporting, hcarried, hran, number, u]
  · refine ⟨[], ?_⟩
    simp only [reporting, hcarried, hran, number, u]
    rfl

variable (fails thread n) in
theorem runOnFiber_plain (h : Plain t) :
    ((job fails thread n).runOnFiber t).1 = attemptResult thread n (fails t.calls) ∧
      Plain ((job fails thread n).runOnFiber t).2 := by
  rw [runOnFiber_active _ h.active rfl]
  have hinvoked : Plain ((job fails thread n).invoke false t).2 := ⟨h.signal, h.disposedAt⟩
  refine ⟨?_, hinvoked.log (WorkItem.executionReport _)⟩
  show (if fails t.calls then Ending.failure _ else Ending.value _).resolution = _
  unfold attemptResult
  split <;> rfl

theorem reporting_plain (hidle : ∀ item, (fiber item).Idle) (h : Plain t) :
    (reporting fiber (job fails thread n) t).1 =
        .resolved (attemptResult thread n (fails t.calls)) ∧
      Plain (reporting fiber (job fails thread n) t).2 := by
  obtain ⟨before, after, hgiven⟩ := reporting_eq hidle (job fails thread n) h
  obtain ⟨hresult, hplain⟩ :=
    runOnFiber_plain fails thread n ((h.record (.given 1)).log before)
  rw [hgiven, hresult, Timeline.calls_log, Timeline.calls_record]
  exact ⟨rfl, hplain.log after⟩

/-! ## One job -/

variable {p : Policy}

theorem plain_attemptStart (hidle : ∀ item, (fiber item).Idle) (h : Plain t) (k : Nat) :
    Plain (attemptStart p 0 (reporting fiber (job fails thread n)) t k) := by
  induction k with
  | zero => exact h
  | succ k ih =>
    have hleft : Plain (reporting fiber (job fails thread n)
        (attemptStart p 0 (reporting fiber (job fails thread n)) t k)).2 :=
      (reporting_plain hidle ih).2
    unfold attemptStart
    split
    · next hgiven =>
      rw [hgiven] at hleft
      exact hleft.pauseAfter p 0 _ _
    · next hgiven =>
      rw [hgiven] at hleft
      exact hleft

/-- If all attempts come to the same, the least attempt that is not retried decides. -/
theorem attempts_steady (hidle : ∀ item, (fiber item).Idle) {failed : Bool}
    (hsteady : ∀ k, fails k = failed) {i : Nat} {final : Resolution String}
    (hgoing : ∀ j, j < i → ¬ Ends p (fun _ => attemptResult thread n failed) j)
    (hverdict : judge p false (counter i) (attemptResult thread n failed) = .finish final)
    (h : Plain t) {allowance : Nat} (henough : i < allowance) :
    ∃ u, attempts p (job fails thread n) 0 (reporting fiber (job fails thread n)) allowance 0 t =
        (.resolved final, u) ∧
      u.givenTo 1 = t.givenTo 1 + (i + 1) ∧ Plain u := by
  have hanswer (k : Nat) :
      (reporting fiber (job fails thread n)
        (attemptStart p 0 (reporting fiber (job fails thread n)) t k)).1 =
        .resolved (attemptResult thread n failed) := by
    rw [(reporting_plain hidle (plain_attemptStart hidle h k)).1, hsteady]
  have hanswers : Answers p 0 (reporting fiber (job fails thread n)) t
      fun _ => attemptResult thread n failed := fun k _ => hanswer k
  have hnoted := reporting_notes fiber (job fails thread n)
    (attemptStart p 0 (reporting fiber (job fails thread n)) t i)
  have hleft : Plain (reporting fiber (job fails thread n)
      (attemptStart p 0 (reporting fiber (job fails thread n)) t i)).2 :=
    (reporting_plain hidle (plain_attemptStart hidle h i)).2
  rcases hgiven : reporting fiber (job fails thread n)
    (attemptStart p 0 (reporting fiber (job fails thread n)) t i) with ⟨last, u⟩
  have hlast := hanswer i
  rw [hgiven] at hnoted hleft hlast
  obtain rfl : last = .resolved (attemptResult thread n failed) := hlast
  rw [givenTo_attemptStart (reporting_notes fiber _)] at hnoted
  obtain ⟨rest, rfl⟩ : ∃ rest, allowance = i + (rest + 1) := ⟨allowance - i - 1, by omega⟩
  rw [attempts_reach rfl hanswers i hgoing (rest + 1), attempts_finish rfl hgiven hverdict]
  exact ⟨_, rfl, (Timeline.givenTo_log _ _ 1).trans hnoted, hleft.log _⟩

end Job

/-- On a fiber that is idle, every job takes so many attempts, and comes to what is
said. -/
def Comes (p : Policy) (fails : Nat → Bool) (thread : String) (per : Nat)
    (final : Nat → Resolution String) : Prop :=
  ∀ fiber : Nat → Fiber Nat, (∀ item, (fiber item).Idle) → ∀ n t, Plain t →
    ∀ allowance, per ≤ allowance →
      ∃ u, attempts p (job fails thread n) 0 (reporting fiber (job fails thread n)) allowance 0 t =
          (.resolved (final n), u) ∧
        u.givenTo 1 = t.givenTo 1 + per ∧ Plain u

section Chance

variable {p : Policy} {fails : Nat → Bool} (thread : String)

/-- A job that does not fail succeeds at once. -/
theorem comes_done (hnever : ∀ k, fails k = false) :
    Comes p fails thread 1 fun n => .ok s!"job {n} done on {thread}" := by
  intro fiber hidle n t h allowance henough
  have hverdict : judge p false (counter 0) (attemptResult thread n false) =
      .finish (.ok s!"job {n} done on {thread}") := rfl
  exact attempts_steady hidle hnever (fun j hj => absurd hj (Nat.not_lt_zero j)) hverdict h henough

/-- A job that always fails uses up its retries. -/
theorem comes_gaveUp (halways : ∀ k, fails k = true) (hall : p.matcher = .all) {most : UInt32}
    (hlimit : p.limit = some most) :
    Comes p fails thread (most.toNat + 1) fun n =>
      .error (.exhausted (counter (most.toNat + 1)) (.plain s!"job {n}: transient failure")) := by
  intro fiber hidle n t h allowance henough
  have haccepted : p.matcher.accepts (.plain s!"job {n}: transient failure") = true := by
    rw [hall, Matcher.accepts_all]
  have hreached : p.limitReached (counter most.toNat) = true :=
    (limitReached_counter p most.toNat).mpr ⟨most, hlimit, Nat.le_refl _⟩
  have hverdict := judge_exhausted (α := String) (p := p)
    (e := .operation (.plain s!"job {n}: transient failure")) rfl haccepted hreached
  rw [countOn_counter] at hverdict
  refine attempts_steady hidle halways (fun j hj hends => ?_) hverdict h henough
  rcases hends with hsettled | ⟨most', hlimit', hlast⟩
  · rcases hsettled with hcancelled | hrejected
    · cases hcancelled
    · exact Bool.false_ne_true (hrejected.symm.trans haccepted)
  · rw [hlimit] at hlimit'
    obtain rfl : most = most' := Option.some.inj hlimit'
    omega

end Chance

/-! ## Job after job -/

section Course

variable {config : Config} {fails : Nat → Bool} {thread : String} {allowance per : Nat}
  {final : Nat → Resolution String}

theorem course_succ (done : Nat) :
    course config fails thread allowance (done + 1) =
      (course config fails thread allowance done).goOn config fails thread allowance
        (done + 1) := by
  rw [course, List.range_succ, List.foldl_append]
  rfl

structure Course.Steady (config : Config) (c : Course) (done per : Nat)
    (final : Nat → Resolution String) : Prop where
  answers : c.answers = (List.range done).map fun j => .resolved (final (j + 1))
  submitted : c.timeline.givenTo 1 = done * per
  fiber : c.fiber = fiberAfter config (done * per)
  plain : Plain c.timeline

theorem Course.Steady.idle {c : Course} {done : Nat} (h : c.Steady config done per final)
    (item : Nat) : (c.fiberAt item).Idle := by
  rw [Course.fiberAt, h.fiber]
  exact (idle_fiberAfter config _).foldl_serve _

theorem Course.Steady.goOn {c : Course} {done : Nat} (h : c.Steady config done per final)
    (hcomes : Comes config.retry.policy fails thread per final) (henough : per ≤ allowance) :
    (c.goOn config fails thread allowance (done + 1)).Steady config (done + 1) per final := by
  obtain ⟨u, hran, hcounted, hplain⟩ :=
    hcomes c.fiberAt h.idle (done + 1) _ (h.plain.record (.given 0)) allowance henough
  have houter : (c.timeline.record (.given 0)).givenTo 1 = c.timeline.givenTo 1 := by
    rw [Timeline.givenTo_record, if_neg (by simp), Nat.add_zero]
  have hsubmitted : u.givenTo 1 = done * per + per := by
    rw [hcounted, houter, h.submitted]
  have hgone : c.goOn config fails thread allowance (done + 1) =
      { fiber := c.fiberAt (done * per + per)
        timeline := u.log (outcome (.resolved (final (done + 1))))
        answers := c.answers ++ [.resolved (final (done + 1))] } := by
    rw [Course.goOn, hran, ← hsubmitted]
  rw [hgone]
  refine ⟨?_, ?_, ?_, hplain.log _⟩
  · rw [h.answers, List.range_succ, List.map_append]
    rfl
  · rw [Timeline.givenTo_log, hsubmitted, Nat.succ_mul]
  · rw [Nat.succ_mul, fiberAfter_add, Course.fiberAt, h.submitted, h.fiber, Nat.add_sub_cancel_left]

theorem steady_course (hcomes : Comes config.retry.policy fails thread per final)
    (henough : per ≤ allowance) (done : Nat) :
    (course config fails thread allowance done).Steady config done per final := by
  induction done with
  | zero =>
    refine ⟨rfl, (Nat.zero_mul per).symm, ?_, rfl, rfl⟩
    rw [Nat.zero_mul]
    rfl
  | succ done ih =>
    rw [course_succ]
    exact ih.goOn hcomes henough

end Course

/-! ## The actor -/

/-- The demo's actor among those who send to it: the messages before number ten add one,
and number ten asks for the total. -/
def adder : Actor.Plan Nat Nat Nat where
  start := 0
  message k := if k < 10 then .of fun n => (0, n + 1) else .of fun n => (n, n)

theorem answer_adder {s : Actor.Race Nat Nat Nat} {schedule : List (Fiber.Agent Nat)}
    (h : Actor.Race.Fated adder schedule s) (haccepted : s.fiber.line.pushed = List.range 11)
    (hended : 10 ∈ s.fiber.ended) {r : Resolution Nat} (hr : (10, r) ∈ s.fiber.resolutions) :
    r = .ok 10 := by
  have hfirst : s.fiber.line.pushed = List.range 10 ++ 10 :: [] := haccepted
  exact Actor.Race.answer_of_ended h hfirst (by decide) hended hr

/-- However the worker's steps fall between those of the sender, the total is ten, and it
comes as soon as the worker has gone through its queue. -/
theorem total_adder (schedule : List (Fiber.Agent Nat)) :
    let s := adder.build.run adder schedule
    s.fiber.line.pushed = List.range 11 → s.fiber.state = .active →
      (∀ r, (10, r) ∈ s.fiber.resolutions → r = .ok 10) ∧
      (s.fiber.Quiet → ∃ n, (10, .ok 10) ∈
        (s.run adder (List.replicate n .worker)).fiber.resolutions) := by
  intro s haccepted hactive
  have hfated := Actor.Race.fated_run adder schedule
  constructor
  · intro r hr
    exact answer_adder hfated haccepted (Actor.Race.ended_of_active hfated hactive hr) hr
  · intro hquiet
    obtain ⟨n, hkept, hall⟩ := Actor.Race.served hfated rfl hactive hquiet
    obtain ⟨hended, r, hr⟩ := hall 10 (by rw [haccepted]; decide)
    have hlater := hfated.run (List.replicate n .worker)
    rw [answer_adder hlater (hkept.trans haccepted) hended hr] at hr
    exact ⟨n, hr⟩

/-! ## The whole run -/

/-- The run in which each job takes so many attempts and comes to what is said: all of it
comes out, job by job, the reports at the end say so, and both workers are gone then. -/
structure AddsUp (config : Config) (fails : Nat → Bool) (thread : String) (allowance per : Nat)
    (final : Nat → Resolution String) : Prop where
  answers : ∀ done ≤ config.jobs, (course config fails thread allowance done).answers =
    (List.range done).map fun j => .resolved (final (j + 1))
  submitted : ∀ done ≤ config.jobs,
    (submissions (course config fails thread allowance done).timeline).toNat = done * per
  fiber : ∀ done ≤ config.jobs,
    (course config fails thread allowance done).fiber = fiberAfter config (done * per)
  summary : [
      entry "retry demo finished"
        [("submissions", .count (config.jobs * per)), ("pending", .count 0)],
      entry "actor counted" [("total", .count 10)],
      entry "fiber disposed" [("state", .text "Disposed")]] <:+
    entries config fails thread allowance
  left : let (actor, fiber) := remains (course config fails thread allowance config.jobs)
    actor.fiber.state = .disposed ∧ fiber = shutDown (fiberAfter config (config.jobs * per)) ∧
      fiber.state = .disposed

theorem total_eq : total = 10 := by
  decide

theorem disposed_counting : counting.dispose.fiber.state = .disposed := by
  decide

theorem addsUp_of_comes {config : Config} {fails : Nat → Bool} {thread : String}
    {allowance per : Nat} {final final' : Nat → Resolution String}
    (hcomes : Comes config.retry.policy fails thread per final) (henough : per ≤ allowance)
    (hsmall : config.jobs * per < UInt32.size) (hsame : 0 < config.jobs → final = final') :
    AddsUp config fails thread allowance per final' := by
  have hsteady := steady_course hcomes henough
  have hidle := idle_fiberAfter config (config.jobs * per)
  have hcounted (done : Nat) (h : done ≤ config.jobs) :
      (submissions (course config fails thread allowance done).timeline).toNat = done * per := by
    have hbelow := Nat.mul_le_mul_right per h
    rw [submissions, (hsteady done).submitted, UInt32.toNat_ofNat']
    exact Nat.mod_eq_of_lt (Nat.lt_of_le_of_lt hbelow hsmall)
  refine ⟨fun done h => ?_, hcounted, fun done _ => (hsteady done).fiber, ?_, ?_⟩
  · rw [(hsteady done).answers]
    cases done with
    | zero => rfl
    | succ done => rw [hsame (Nat.lt_of_lt_of_le (Nat.succ_pos done) h)]
  · rw [entries, remains, hcounted config.jobs (Nat.le_refl _), (hsteady config.jobs).fiber,
      hidle.pending, total_eq]
    dsimp only
    rw [hidle.disposed]
    exact (List.suffix_append _ _).trans (List.suffix_cons _ _)
  · rw [remains, (hsteady config.jobs).fiber]
    exact ⟨disposed_counting, rfl, hidle.disposed⟩

/-- Where the chance of a failure is zero or one, a whole run of the demo adds up: every
job succeeds at once, or every job uses up its retries, the submissions are counted one
by one, nothing is left in the queue, and the actor's total is ten.  The demo's fiber is
one that a race comes to in which the worker deals with each item before the next is
submitted, and leaves when the fiber is disposed. -/
theorem course_addsUp (config : Config) (id : Identifier .fiber) (fails : Nat → Bool)
    (hnever : (config.failureRate == 0) = true → ∀ k, fails k = false)
    (halways : (config.failureRate == 1) = true → ∀ k, fails k = true) :
    let thread := threadName config id
    ((config.failureRate == 0) = true → config.jobs < UInt32.size →
      ∀ allowance, 1 ≤ allowance → AddsUp config fails thread allowance 1 fun n =>
        .ok s!"job {n} done on {thread}") ∧
    ((config.failureRate == 1) = true → ∀ most, config.retry.maxRetries = some most →
      config.jobs * (most.toNat + 1) < UInt32.size →
      ∀ allowance, most.toNat + 1 ≤ allowance →
        AddsUp config fails thread allowance (most.toNat + 1) fun n =>
          .error (.exhausted (most + 1) (.plain s!"job {n}: transient failure"))) ∧
    (∀ count, (fiberAfter config count).pending = 0 ∧
      ∀ item (job : Job String) t, t.disposed = false →
        (fiberAfter config count).carryOut item job t = some (job.runOnFiber t)) ∧
    (∀ (operation : Nat → Operation String) count,
      let plan : Fiber.Plan Nat String :=
        { config := config.fiber, operation := operation, request := fun _ => .dispose false }
      ∃ schedule, let s := Fiber.Race.run plan {} schedule
        s.worker = .gone ∧ s.calls 0 = .returned ∧
          s.fiber plan = shutDown (fiberAfter config count) ∧
          s.story.filterMap Fiber.Event.resolved? =
            (List.range count).map fun a => (a, plan.outcome a)) ∧
    (∀ (plan : Fiber.Plan Nat String) schedule,
      let s := Fiber.Race.run plan {} schedule
      (∀ a ∈ s.line.pushed, ∃ r, (a, r) ∈ s.resolutions) → s.line.queue.items = []) ∧
    total = 10 ∧
    ∀ schedule, let s := adder.build.run adder schedule
      s.fiber.line.pushed = List.range 11 → s.fiber.state = .active →
        (∀ r, (10, r) ∈ s.fiber.resolutions → r = .ok 10) ∧
        (s.fiber.Quiet → ∃ n, (10, .ok 10) ∈
          (s.run adder (List.replicate n .worker)).fiber.resolutions) := by
  refine ⟨?_, ?_, ?_, ?_, ?_, total_eq, total_adder⟩
  · intro hzero hsmall allowance henough
    exact addsUp_of_comes (comes_done _ (hnever hzero)) henough (by omega) fun _ => rfl
  · intro hone most hlimit hsmall allowance henough
    have hall : config.retry.policy.matcher = .all := by
      rw [Settings.policy, hlimit]
      rfl
    have hmost : config.retry.policy.limit = some most := by
      rw [Settings.policy, hlimit]
      rfl
    refine addsUp_of_comes (comes_gaveUp _ (halways hone) hall hmost) henough hsmall fun hsome => ?_
    have hbelow := Nat.lt_of_le_of_lt (Nat.le_mul_of_pos_left (most.toNat + 1) hsome) hsmall
    have hcount : counter (most.toNat + 1) = most + 1 := by
      apply UInt32.toNat_inj.mp
      rw [toNat_counter, UInt32.toNat_add]
      simp only [UInt32.size, UInt32.toNat_one] at hbelow ⊢
      omega
    rw [hcount]
  · intro count
    have hidle := idle_fiberAfter config count
    exact ⟨hidle.pending, fun item job t hactive => hidle.carryOut item job hactive⟩
  · intro operation count
    exact carried_alone rfl rfl (fun _ => rfl) count
  · intro plan schedule
    exact Fiber.Race.items_of_resolved plan schedule

/-- Two jobs that fail whenever they are tried, with two retries each. -/
theorem course_addsUp_twoJobs :
    let config : Config :=
      { retry := { waits := [1], maxRetries := some 2 }, failureRate := 1, jobs := 2 }
    let fails : Nat → Bool := fun _ => true
    ((config.failureRate == 0) = true → ∀ k, fails k = false) ∧
    ((config.failureRate == 1) = true → ∀ k, fails k = true) ∧
    (config.failureRate == 1) = true ∧ config.retry.maxRetries = some 2 ∧
    config.jobs * 3 < UInt32.size ∧
      AddsUp config fails "spindle-demo" 3 3 fun n =>
        .error (.exhausted 3 (.plain s!"job {n}: transient failure")) := by
  intro config fails
  have hnever : (config.failureRate == 0) = true → ∀ k, fails k = false :=
    fun hzero => absurd hzero (by decide)
  have halways : (config.failureRate == 1) = true → ∀ k, fails k = true := fun _ _ => rfl
  have hone : (config.failureRate == 1) = true := by decide
  have hsmall : config.jobs * 3 < UInt32.size := by decide
  obtain ⟨-, hgaveUp, -⟩ := course_addsUp config ⟨0, by decide⟩ fails hnever halways
  exact ⟨hnever, halways, hone, rfl, hsmall, hgaveUp hone 2 rfl hsmall 3 (Nat.le_refl 3)⟩

end Demo

end Skein
