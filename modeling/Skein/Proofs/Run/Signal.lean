import Skein.Proofs.Run.Attempt
import Skein.Proofs.Run.Invocation

/-!
# The signal in a stack of policies

A signal can fire before a job is submitted, while its payload runs, or while
some layer of the stack waits before a retry.  Wherever that is, no invocation
begins any more, the one under way is completed, and no layer reports an
exhaustion: `enqueue_signal` says what the job comes to in each of the three
cases.

The story of a run has the last event first.  Cutting it at the firing leaves
what came before, which tells whether an invocation was under way, and what came
after.  `Course` is the invariant of the proof: it holds of the dispatcher at the
bottom, and each layer hands it on, attempt by attempt.
-/

namespace Skein
namespace Run

open Retry Timeline

variable {α : Type}

/-! ## What a story tells -/

/-- The moment at which the invocation began that is still under way after the
events, if there is one. -/
def underway : List Event → Option Millis
  | [] => none
  | .invoked start :: _ => some start
  | .completed _ :: _ => none
  | .given _ :: earlier => underway earlier
  | .fired _ :: earlier => underway earlier
  | .asked _ _ :: earlier => underway earlier
  | .logged _ :: earlier => underway earlier

/-- What came before does not matter where nothing was under way. -/
theorem underway_append (later : List Event) {earlier : List Event} (h : underway earlier = none) :
    underway (later ++ earlier) = underway later := by
  induction later with
  | nil => exact h
  | cons e later ih => cases e <;> simp [underway, ih]

/-- Log entries neither begin nor end an invocation. -/
theorem underway_logged (entries : List Log.Entry) (earlier : List Event) :
    underway ((entries.map Event.logged).reverse ++ earlier) = underway earlier := by
  rw [← List.map_reverse]
  induction entries.reverse with
  | nil => rfl
  | cons entry entries ih => exact ih

/-- Nor does the announcement of a retry. -/
theorem underway_retryEvents (p : Policy) (depth : Nat) (attempt : UInt32) (e : DispatchError)
    (earlier : List Event) : underway (retryEvents p depth attempt e ++ earlier) =
      underway earlier := by
  unfold retryEvents
  cases p.wait.argument? attempt <;> rfl

def Quiet (events : List Event) : Prop :=
  ∀ moment, Event.fired moment ∉ events

theorem quiet_append {later earlier : List Event} (hl : Quiet later) (he : Quiet earlier) :
    Quiet (later ++ earlier) := by
  intro moment h
  rcases List.mem_append.mp h with h | h
  · exact hl moment h
  · exact he moment h

theorem quiet_logged (entries : List Log.Entry) : Quiet (entries.map Event.logged).reverse := by
  intro moment h
  simp at h

theorem quiet_retryEvents (p : Policy) (depth : Nat) (attempt : UInt32) (e : DispatchError) :
    Quiet (retryEvents p depth attempt e) := by
  intro moment h
  unfold retryEvents at h
  cases ha : p.wait.argument? attempt <;> simp [ha] at h

/-- A story can be cut at its firing in one way only. -/
theorem cut_unique {a b a' b' : List Event} {m m' : Millis} (ha : Quiet a) (hb : Quiet b)
    (h : a ++ .fired m :: b = a' ++ .fired m' :: b') : a = a' ∧ m = m' ∧ b = b' := by
  induction a generalizing a' with
  | nil =>
    cases a' with
    | nil =>
      injection h with hhead htail
      injection hhead with hhead
      exact ⟨rfl, hhead, htail⟩
    | cons e a' =>
      injection h with _ htail
      exact absurd (htail ▸ List.mem_append_right a' List.mem_cons_self) (hb m')
  | cons e a ih =>
    cases a' with
    | nil =>
      injection h with hhead _
      exact absurd (hhead ▸ List.mem_cons_self) (ha m')
    | cons e' a' =>
      injection h with hhead htail
      obtain ⟨rfl, hrest⟩ := ih (fun moment hm => ha moment (List.mem_cons_of_mem e hm)) htail
      exact ⟨by rw [hhead], hrest⟩

/-! ## Delays that the signal ends -/

namespace Timeline

/-- A signal that only the run itself can fire does not fire while it sleeps. -/
theorem sleep_of_quiet {t : Timeline} (h : t.signal = .quiet) (d : Millis) :
    (t.sleep d).fired = false := by
  have hpaused : (if t.waitsFor d then t.pause else t).signal = .quiet := by
    split
    · simp [pause, h]
    · exact h
  unfold sleep
  simp only
  generalize (if t.waitsFor d then t.pause else t) = u at hpaused
  simp [fireBefore, hpaused, fired]

/-- Only a delay that lasts can be ended, and it is ended at the moment of the
firing. -/
theorem backoff_interrupted {t : Timeline} {d : Millis} (h : t.fired = false)
    (hended : (t.backoff true d).1 = true) :
    0 < d ∧ ∃ moment, (t.backoff true d).2.story = .fired moment :: t.story ∧
      (t.backoff true d).2.fired = true ∧ (t.backoff true d).2.now = moment := by
  by_cases hnone : d = 0
  · simp [backoff, hnone, h] at hended
  · have hlater : (t.sleep d).fired = true := by
      cases hstill : (t.sleep d).fired with
      | true => rfl
      | false => simp [backoff, hnone, hstill] at hended
    have hgiven : t.backoff true d = (true, t.awaitSignal) := by
      simp [backoff, hnone, hlater]
    refine ⟨Nat.pos_of_ne_zero hnone, ?_⟩
    rw [hgiven]
    cases hs : t.signal with
    | quiet =>
      rw [sleep_of_quiet hs] at hlater
      cases hlater
    | due moment =>
      obtain ⟨-, hstory, hfired, hnow⟩ := awaitSignal_of_due hs h
      exact ⟨moment, hstory, hfired, hnow⟩
    | fired => simp [fired, hs] at h

/-- A delay that passes to its end has not seen the signal fire. -/
theorem backoff_passed {t : Timeline} {d : Millis} (hpassed : (t.backoff true d).1 = false) :
    (t.backoff true d).2.fired = false ∧ (t.backoff true d).2.story = t.story := by
  have hstill : (t.backoff true d).2.fired = false := by
    unfold backoff at hpassed ⊢
    simp only at hpassed ⊢
    generalize (if d = 0 then t else t.sleep d) = u at hpassed ⊢
    cases hu : u.fired with
    | false => simp [hu]
    | true => simp [hu] at hpassed
  refine ⟨hstill, ?_⟩
  cases elapsed_backoff t true d with
  | quietly _ hstory _ => exact hstory
  | firing _ _ hfired _ _ =>
    rw [hstill] at hfired
    cases hfired

end Timeline

/-! ## The course of a run -/

/-- What becomes of a job whose signal fires while an invocation is under way
that ends so: its value and its own cancellation are handed on, and so is its
failure if no layer would retry it. -/
def signalledOutcome (layers : List Policy) : Ending α → Resolution α
  | .value a => .ok a
  | .failure f =>
    if f = .cancelledByJob then .error (.cancelled .cooperative)
    else if ∀ p ∈ layers, p.matcher.accepts f = false then .error (.operation f)
    else .error (.cancelled .signalled)
  | .panic panic => .error (.operation (.panicked panic.text))

theorem signalledOutcome_ne_exhausted (layers : List Policy) (ending : Ending α) (count : UInt32)
    (last : Failure) :
    signalledOutcome layers ending ≠ .error (.exhausted count last) := by
  intro h
  cases ending with
  | value a => cases h
  | failure f =>
    simp only [signalledOutcome] at h
    split at h
    · cases h
    · split at h <;> cases h
  | panic panic => cases h

/-- A layer of the stack has just announced a retry, and waits before it for a
time that is not zero. -/
def Waiting (layers : List Policy) (before : List Event) : Prop :=
  ∃ p ∈ layers, ∃ depth attempt e earlier,
    before = retryEvents p depth attempt e ++ earlier ∧ 0 < p.wait.delay attempt

theorem Waiting.append {layers : List Policy} {before : List Event} (h : Waiting layers before)
    (earlier : List Event) :
    Waiting layers (before ++ earlier) := by
  obtain ⟨p, hp, depth, attempt, e, rest, rfl, hwaits⟩ := h
  exact ⟨p, hp, depth, attempt, e, rest ++ earlier, List.append_assoc _ _ _, hwaits⟩

theorem Waiting.cons {layers : List Policy} {before : List Event} (h : Waiting layers before)
    (q : Policy) :
    Waiting (q :: layers) before := by
  obtain ⟨p, hp, hrest⟩ := h
  exact ⟨p, List.mem_cons_of_mem q hp, hrest⟩

/-- How a run goes that starts on the timeline `t` before the signal has fired. -/
inductive Course (layers : List Policy) (job : Job α) (t : Timeline)
    (run : Answer α × Timeline) : Prop
  /-- The signal does not fire. -/
  | undisturbed {new : List Event} (hstory : run.2.story = new ++ t.story)
      (hfired : run.2.fired = false)
      (hquiet : Quiet new) (hrest : underway new = none)
  /-- It fires during an invocation, the last one. -/
  | invocation {after before : List Event} {moment start : Millis} {n : Nat}
      (hstory : run.2.story = after ++ .fired moment :: before ++ t.story)
      (hfired : run.2.fired = true)
      (hquiet : Quiet after ∧ Quiet before) (hbegun : underway before = some start)
      (hlast : ∀ moment, .invoked moment ∉ after) (hcompleted : .completed run.2.now ∈ after)
      (hnow : run.2.now = start + t.lasting (job.operation.invocation n).duration)
      (hcalls : run.2.calls = n + 1)
      (hanswer : run.1 = .resolved (signalledOutcome layers (job.operation.invocation n).ending))
  /-- It fires while a layer waits before a retry. -/
  | backoff {before : List Event} {moment : Millis}
      (hstory : run.2.story = .fired moment :: before ++ t.story) (hfired : run.2.fired = true)
      (hquiet : Quiet before) (hrest : underway before = none)
      (hwaiting : Waiting layers before) (hnow : run.2.now = moment)
      (hanswer : run.1 = .cancelled .signalled)

/-- A run that comes to `u` with nothing under way and the signal not fired goes
on as a run from `u` does. -/
theorem Course.from {layers : List Policy} {job : Job α} {t u : Timeline}
    {run : Answer α × Timeline} {earlier : List Event} (h : Course layers job u run)
    (hlongest : u.longest = t.longest) (hstory : u.story = earlier ++ t.story)
    (hquiet : Quiet earlier) (hrest : underway earlier = none) : Course layers job t run := by
  cases h with
  | undisturbed hstory' hfired hquiet' hrest' =>
    refine .undisturbed ?_ hfired (quiet_append hquiet' hquiet) ?_
    · rw [hstory', hstory, List.append_assoc]
    · rw [underway_append _ hrest, hrest']
  | @invocation after before moment _ _ hstory' hfired hquiet' hbegun hlast hcompleted hnow hcalls
    hanswer =>
    have hwhole : run.2.story = after ++ .fired moment :: (before ++ earlier) ++ t.story := by
      rw [hstory', hstory]
      simp
    have hbegun' : underway (before ++ earlier) = _ := (underway_append before hrest).trans hbegun
    rw [lasting_congr hlongest] at hnow
    exact .invocation hwhole hfired
      ⟨hquiet'.1, quiet_append hquiet'.2 hquiet⟩ hbegun' hlast hcompleted hnow hcalls hanswer
  | @backoff before moment hstory' hfired hquiet' hrest' hwaiting hnow hanswer =>
    have hwhole : run.2.story = .fired moment :: (before ++ earlier) ++ t.story := by
      rw [hstory', hstory]
      simp
    have hrest'' : underway (before ++ earlier) = none :=
      (underway_append before hrest).trans hrest'
    exact .backoff hwhole hfired (quiet_append hquiet' hquiet) hrest''
      (hwaiting.append earlier) hnow hanswer

/-! ## The layers -/

section Layer

variable {job : Job α} {p : Policy} {layers : List Policy} {t u : Timeline}

/-- A layer that finds the signal fired after an attempt ends the run as the
stack with this layer on top does. -/
theorem judge_signalledOutcome (p : Policy) (layers : List Policy) {ending : Ending α}
    (hnoPanic : ∀ panic, ending ≠ .panic panic) (attempt : UInt32) :
    judge p true attempt (signalledOutcome layers ending) =
      .finish (signalledOutcome (p :: layers) ending) := by
  have hcancellation (reason : CancelReason) :
      judge p true attempt (.error (.cancelled reason) : Resolution α) =
        .finish (.error (.cancelled reason)) := rfl
  cases ending with
  | value a => rfl
  | panic panic => exact absurd rfl (hnoPanic panic)
  | failure f =>
    unfold signalledOutcome
    simp only
    by_cases hcooperative : f = .cancelledByJob
    · rw [if_pos hcooperative, if_pos hcooperative]
      exact hcancellation _
    · rw [if_neg hcooperative, if_neg hcooperative]
      by_cases hrejected : ∀ q ∈ layers, q.matcher.accepts f = false
      · rw [if_pos hrejected]
        cases haccepted : p.matcher.accepts f with
        | false =>
          have hall : ∀ q ∈ p :: layers, q.matcher.accepts f = false :=
            List.forall_mem_cons.mpr ⟨haccepted, hrejected⟩
          rw [if_pos hall]
          simp [judge, DispatchError.isCancelled, DispatchError.failure, haccepted]
        | true =>
          rw [if_neg fun hall => by simp [hall p List.mem_cons_self] at haccepted]
          simp [judge, DispatchError.isCancelled, DispatchError.failure, haccepted]
      · rw [if_neg hrejected, if_neg fun hall => hrejected fun q hq =>
          hall q (List.mem_cons_of_mem p hq)]
        exact hcancellation _

/-- A layer that ends the run after an attempt: what it reports is no more than
log entries at the end of the story. -/
theorem Course.finish {r final : Resolution α} {n : UInt32}
    (hcourse : Course layers job t (.resolved r, u))
    (hpanicFree : ∀ n panic, (job.operation.payload n).ending ≠ .panic panic)
    (hverdict : judge p u.fired n r = .finish final) :
    Course (p :: layers) job t (.resolved final, u.log (closingReport p u.fired n r)) := by
  generalize hl : closingReport p u.fired n r = entries
  cases hcourse with
  | @undisturbed new hstory hfired hquiet hrest =>
    have hwhole : (u.log entries).story = (entries.map Event.logged).reverse ++ new ++ t.story := by
      rw [story_log, hstory, List.append_assoc]
    exact .undisturbed hwhole ((fired_log u entries).trans hfired)
      (quiet_append (quiet_logged entries) hquiet)
      ((underway_logged entries new).trans hrest)
  | @invocation after before moment start n' hstory hfired hquiet hbegun hlast hcompleted hnow
      hcalls hanswer =>
    have hwhole : (u.log entries).story =
        (entries.map Event.logged).reverse ++ after ++ .fired moment :: before ++ t.story := by
      rw [story_log, hstory]
      simp
    have hnoPanic := hpanicFree n'
    rw [← ending_invocation] at hnoPanic
    have hsame : final = signalledOutcome (p :: layers) (job.operation.invocation n').ending := by
      injection hanswer with hanswer
      rw [hfired, hanswer, judge_signalledOutcome p layers hnoPanic] at hverdict
      injection hverdict with hverdict
      exact hverdict.symm
    refine .invocation hwhole ((fired_log u entries).trans hfired)
      ⟨quiet_append (quiet_logged entries) hquiet.1, hquiet.2⟩
      hbegun ?_ ?_ ((now_log u entries).trans hnow) ((calls_log u entries).trans hcalls)
      (congrArg _ hsame)
    · intro moment' hm
      rcases List.mem_append.mp hm with hm | hm
      · simp at hm
      · exact hlast moment' hm
    · rw [now_log]
      exact List.mem_append_right _ hcompleted
  | backoff hstory hfired hquiet hrest hwaiting hnow hanswer =>
    injection hanswer with hanswer
    subst hanswer
    have hnothing : entries = [] := by simp [← hl, closingReport, DispatchError.isCancelled]
    have hsame : final = .error (.cancelled .signalled) := by
      injection hverdict with hverdict
      exact hverdict.symm
    rw [hnothing, hsame]
    exact .backoff hstory hfired hquiet hrest (hwaiting.cons p) hnow rfl

/-- A pause that the signal ends, after attempts that it did not disturb. -/
theorem Course.interrupted {new : List Event} {depth : Nat} {n : UInt32} {e : DispatchError}
    (hstory : u.story = new ++ t.story) (hfired : u.fired = false) (hquiet : Quiet new)
    (hrest : underway new = none) (hpause : (pauseAfter p true depth n e u).1 = true) :
    Course (p :: layers) job t (.cancelled .signalled, (pauseAfter p true depth n e u).2) := by
  have hannounced : (announceRetry p depth n e u).fired = false :=
    (fired_announceRetry p depth n e u).trans hfired
  obtain ⟨hlasts, moment, hstory', hfired', hnow⟩ := backoff_interrupted hannounced hpause
  have hwhole : (pauseAfter p true depth n e u).2.story =
      .fired moment :: (retryEvents p depth n e ++ new) ++ t.story := by
    unfold pauseAfter
    rw [hstory', story_announceRetry, hstory]
    simp
  exact .backoff hwhole hfired' (quiet_append (quiet_retryEvents p depth n e) hquiet)
    ((underway_retryEvents p depth n e new).trans hrest)
    ⟨p, List.mem_cons_self, depth, n, e, new, rfl, hlasts⟩ hnow rfl

/-- A failure is only retried where the signal has not fired. -/
theorem Course.of_retry {r : Resolution α} {n : UInt32} {e : DispatchError}
    (hcourse : Course layers job t (.resolved r, u))
    (hpanicFree : ∀ n panic, (job.operation.payload n).ending ≠ .panic panic)
    (hverdict : judge p u.fired n r = .retry e) :
    ∃ new, u.story = new ++ t.story ∧ u.fired = false ∧ Quiet new ∧ underway new = none := by
  cases hcourse with
  | undisturbed hstory hfired hquiet hrest => exact ⟨_, hstory, hfired, hquiet, hrest⟩
  | @invocation _ _ _ _ n' _ hfired _ _ _ _ _ _ hanswer =>
    have hnoPanic := hpanicFree n'
    rw [← ending_invocation] at hnoPanic
    injection hanswer with hanswer
    rw [hfired, hanswer, judge_signalledOutcome p layers hnoPanic] at hverdict
    cases hverdict
  | backoff _ hfired _ _ _ _ hanswer =>
    injection hanswer with hanswer
    subst hanswer
    cases hverdict

end Layer

/-! ## The dispatcher at the bottom -/

section Stack

variable {job : Job α} (hlistening : job.listening = true)
  (hpanicFree : ∀ n panic, (job.operation.payload n).ending ≠ .panic panic)
include hlistening

theorem signalled_eq_fired (t : Timeline) : job.signalled t = t.fired := by
  simp [Job.signalled, hlistening]

include hpanicFree

/-- An invocation that has begun answers with what it ends with. -/
theorem runInline_of_not_fired {t : Timeline} (h : t.fired = false) :
    ∃ u, job.runInline t =
      (.resolved (signalledOutcome [] (job.operation.invocation t.calls).ending), u) ∧
      job.invoke true t = ((job.operation.invocation t.calls).ending, u) := by
  obtain ⟨u, -, hinvoked, -⟩ := invoke_elapsed job true t
  refine ⟨u.record (.completed u.now), ?_, hinvoked⟩
  have hnoPanic := hpanicFree t.calls
  rw [← ending_invocation] at hnoPanic
  unfold Job.runInline
  rw [signalled_eq_fired hlistening, h, hinvoked]
  cases he : (job.operation.invocation t.calls).ending with
  | value a => rfl
  | failure f => cases f <;> rfl
  | panic panic => exact absurd he (hnoPanic panic)

/-- The inline dispatcher looks at the signal before the invocation only. -/
theorem base_course (depth : Nat) {t : Timeline} (h : t.fired = false) :
    Course [] job t (Base.inline.enqueue job (t.record (.given depth))) := by
  obtain ⟨v, hanswer, hinvoked⟩ :=
    runInline_of_not_fired hlistening hpanicFree (t := t.record (.given depth)) h
  obtain ⟨u, helapsed, hinvoked', hnow⟩ := invoke_elapsed job true (t.record (.given depth))
  obtain rfl : u.record (.completed u.now) = v := by
    rw [hinvoked] at hinvoked'
    injection hinvoked' with _ hsame
    exact hsame.symm
  show Course [] job t (job.runInline _)
  rw [hanswer]
  cases helapsed with
  | quietly hfired hstory _ =>
    have hwhole : (u.record (.completed u.now)).story =
        [.completed u.now, .invoked t.now, .given depth] ++ t.story := by
      rw [story_record, hstory]
      rfl
    refine .undisturbed hwhole (hfired.trans h) ?_ rfl
    intro moment hm
    simp at hm
  | firing moment _ hfired hstory hcalls =>
    have hwhole : (u.record (.completed u.now)).story =
        [.completed u.now] ++ .fired moment :: [.invoked t.now, .given depth] ++ t.story := by
      rw [story_record, hstory]
      rfl
    refine .invocation hwhole hfired ⟨?_, ?_⟩ rfl ?_ List.mem_cons_self hnow hcalls rfl
    · intro moment' hm
      simp at hm
    · intro moment' hm
      simp at hm
    · intro moment' hm
      simp at hm

/-- Each layer hands on the course of the dispatcher below it. -/
theorem attempts_course (p : Policy) (layers : List Policy) (depth : Nat) {inner : Dispatcher α}
    (hbelow : ∀ t, t.fired = false → Course layers job t (inner t))
    (hclock : ∀ t, (inner t).2.longest = t.longest) (allowance : Nat) (attempt : UInt32)
    (t : Timeline) : t.fired = false →
    Course (p :: layers) job t (attempts p job depth inner allowance attempt t) := by
  have hlooks := signalled_eq_fired hlistening
  have hcame {t u : Timeline} {answer : Answer α} (h : t.fired = false)
    (hgiven : inner t = (answer, u)) :
      Course layers job t (answer, u) := hgiven ▸ hbelow t h
  refine attempts_induct (motive := fun _ t run => t.fired = false → Course (p :: layers) job t run)
    ?_ ?_ ?_ ?_ ?_ ?_ allowance attempt t
  · intro n t h
    exact .undisturbed (List.nil_append _).symm h (fun _ => List.not_mem_nil) rfl
  · intro n t hsignalled h
    rw [hlooks, h] at hsignalled
    cases hsignalled
  · intro n t u r final _ hgiven hverdict h
    rw [hlooks] at hverdict ⊢
    exact (hcame h hgiven).finish hpanicFree hverdict
  · intro n t u r e _ hgiven hverdict hpause h
    rw [hlooks] at hverdict
    rw [hlistening] at hpause ⊢
    obtain ⟨new, hstory, hfired, hquiet, hrest⟩ := (hcame h hgiven).of_retry hpanicFree hverdict
    exact .interrupted hstory hfired hquiet hrest hpause
  · intro n t u r e run _ hgiven hverdict hpause ih h
    rw [hlooks] at hverdict
    rw [hlistening] at hpause ih
    obtain ⟨new, hstory, hfired, hquiet, hrest⟩ := (hcame h hgiven).of_retry hpanicFree hverdict
    obtain ⟨hfired', hstory'⟩ := backoff_passed hpause
    have hwhole :
      (pauseAfter p true depth n e u).2.story = retryEvents p depth n e ++ new ++ t.story := by
      unfold pauseAfter
      rw [hstory', story_announceRetry, hstory, List.append_assoc]
    have hlongest : (pauseAfter p true depth n e u).2.longest = t.longest := by
      rw [gauge_longest.pause, ← hclock t, hgiven]
    exact (ih hfired').from hlongest hwhole (quiet_append (quiet_retryEvents p depth n e) hquiet)
      ((underway_retryEvents p depth n e new).trans hrest)
  · intro n t u answer _ hgiven hunresolved h
    cases hcame h hgiven with
    | undisturbed hstory hfired hquiet hrest => exact .undisturbed hstory hfired hquiet hrest
    | invocation _ _ _ _ _ _ _ _ hanswer => exact absurd hanswer (hunresolved _)
    | backoff _ _ _ _ _ _ hanswer => exact absurd hanswer (hunresolved _)

/-- So every stack has it. -/
theorem submit_course (allowance : Nat) (layers : List Policy) (depth : Nat) {t : Timeline}
    (h : t.fired = false) :
    Course layers job t (submit .inline job allowance depth layers t) := by
  induction layers generalizing depth t with
  | nil => exact base_course hlistening hpanicFree depth h
  | cons p layers ih =>
    have hcourse :=
      attempts_course hlistening hpanicFree p layers depth (fun u hu => ih (depth + 1) hu)
        (longest_submit .inline job allowance layers (depth + 1)) allowance 0
        (t.record (.given depth)) h
    have hreceived : (t.record (.given depth)).story = [.given depth] ++ t.story := rfl
    refine hcourse.from rfl hreceived ?_ rfl
    intro moment hm
    simp at hm

end Stack

/-! ## The law of the signal -/

/-- A stack that may submit at all finds a signal that has fired before it does. -/
theorem enqueue_of_fired {job : Job α} (hlistening : job.listening = true) (layers : List Policy)
    (allowance : Nat) {t : Timeline} (h : t.fired = true) :
    enqueue layers .inline job (allowance + 1) t =
      (.cancelled .signalled, t.record (.given 0)) := by
  have hsignalled : job.signalled (t.record (.given 0)) = true := by
    rw [signalled_eq_fired hlistening, fired_record, h]
  cases layers with
  | nil =>
    show job.runInline (t.record (.given 0)) = _
    unfold Job.runInline
    rw [if_pos hsignalled]
  | cons p layers => exact attempts_signalled hsignalled

/-- A job with a signal, submitted to a stack of policies over the inline
dispatcher.  A signal that has fired before lets nothing be invoked.  One that
fires later, at whatever moment, lets no further invocation begin and never ends
in an exhaustion: the invocation under way takes its whole time and decides what
the job comes to, and where none is under way a layer is waiting, and the run
ends with the firing. -/
theorem enqueue_signal {job : Job α} (hlistening : job.listening = true)
    (hpanicFree : ∀ n panic, (job.operation.payload n).ending ≠ .panic panic) (layers : List Policy)
    (allowance : Nat) (t : Timeline) :
    (t.fired = true →
      ∃ u, enqueue layers .inline job (allowance + 1) t = (.cancelled .signalled, u) ∧
      u.now = t.now ∧ u.calls = t.calls ∧ u.invocations = t.invocations) ∧
    (t.fired = false → ∀ answer u, enqueue layers .inline job allowance t = (answer, u) →
      ∀ after before moment, u.story = after ++ .fired moment :: before ++ t.story →
        (∀ start, .invoked start ∉ after) ∧
        (∀ count last, answer ≠ .resolved (.error (.exhausted count last))) ∧
        (∀ start, underway before = some start → ∃ n, u.calls = n + 1 ∧ .completed u.now ∈ after ∧
          u.now = start + t.lasting (job.operation.invocation n).duration ∧
          answer = .resolved (signalledOutcome layers (job.operation.invocation n).ending)) ∧
        (underway before = none →
          after = [] ∧ u.now = moment ∧ answer = .cancelled .signalled ∧
            Waiting layers before)) := by
  constructor
  · intro h
    refine ⟨_, enqueue_of_fired hlistening layers allowance h, rfl, rfl, ?_⟩
    simp [invocations, events]
  · intro h answer u hrun after before moment hstory
    have hcourse := submit_course hlistening hpanicFree allowance layers 0 h
    rw [show submit .inline job allowance 0 layers t = (answer, u) from hrun] at hcourse
    cases hcourse with
    | @undisturbed new hstory' _ hquiet _ =>
      have hsame : new = after ++ .fired moment :: before :=
        List.append_cancel_right (hstory'.symm.trans hstory)
      exact absurd (hsame ▸ List.mem_append_right after List.mem_cons_self) (hquiet moment)
    | @invocation _ _ _ start n hstory' _ hquiet hbegun hlast hcompleted hnow hcalls houtcome =>
      obtain ⟨rfl, rfl, rfl⟩ :=
        cut_unique hquiet.1 hquiet.2 (List.append_cancel_right (hstory'.symm.trans hstory))
      have hcame : answer =
        .resolved (signalledOutcome layers (job.operation.invocation n).ending) := houtcome
      refine ⟨hlast, ?_, ?_, ?_⟩
      · intro count failure hexhausted
        rw [hcame] at hexhausted
        injection hexhausted with hexhausted
        exact signalledOutcome_ne_exhausted _ _ _ _ hexhausted
      · intro start' hunder
        rw [hbegun] at hunder
        injection hunder with hunder
        subst hunder
        exact ⟨n, hcalls, hcompleted, hnow, hcame⟩
      · intro hrest
        rw [hbegun] at hrest
        cases hrest
    | backoff hstory' _ hquiet hrest hwaiting hnow houtcome =>
      obtain ⟨rfl, rfl, rfl⟩ := cut_unique (a := []) (fun _ => List.not_mem_nil) hquiet
        (List.append_cancel_right (hstory'.symm.trans hstory))
      have hcame : answer = .cancelled .signalled := houtcome
      refine ⟨fun _ => List.not_mem_nil, ?_, ?_, fun _ => ⟨rfl, hnow, hcame, hwaiting⟩⟩
      · intro count failure hexhausted
        rw [hcame] at hexhausted
        cases hexhausted
      · intro start hunder
        rw [hrest] at hunder
        cases hunder

/-- Two layers, of which the inner one gives up after one retry.  The signal is
due while the outer one waits. -/
theorem enqueue_signal_outerWait :
    let inner : Policy := { matcher := .all, wait := .fixed 10, limit := some 1 }
    let outer : Policy := { matcher := .all, wait := .fixed 7, limit := some 3 }
    let job : Job Unit :=
      { operation := { payload := fun _ => { ending := .failure (.plain "down") } }
        listening := true }
    let t : Timeline := { signal := .due 15 }
    let run := enqueue [outer, inner] .inline job 9 t
    job.listening = true ∧ (∀ n panic, (job.operation.payload n).ending ≠ .panic panic) ∧
    t.fired = false ∧
      run.2.story = [] ++ .fired 15 :: run.2.story.tail ++ t.story ∧
      underway run.2.story.tail = none ∧
      run.1 = .cancelled .signalled ∧ run.2.now = 15 ∧ Waiting [outer, inner] run.2.story.tail := by
  intro inner outer job t run
  have hlistening : job.listening = true := rfl
  have hpanicFree : ∀ n panic, (job.operation.payload n).ending ≠ .panic panic := by
    intro n panic h
    cases h
  have hfired : t.fired = false := rfl
  have hstory : run.2.story = [] ++ .fired 15 :: run.2.story.tail ++ t.story := by decide
  have hrest : underway run.2.story.tail = none := by decide
  have hlaw := (enqueue_signal hlistening hpanicFree [outer, inner] 9 t).2 hfired run.1 run.2
    rfl [] _ 15 hstory
  obtain ⟨-, hnow, hanswer, hwaiting⟩ := hlaw.2.2.2 hrest
  exact ⟨hlistening, hpanicFree, hfired, hstory, hrest, hanswer, hnow, hwaiting⟩

end Run
end Skein
