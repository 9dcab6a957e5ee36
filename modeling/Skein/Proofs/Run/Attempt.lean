import Skein.Proofs.Run.Invocation

/-!
# One attempt of a policy

A policy looks at the signal, submits, judges, and then ends the run or pauses.
`attempts` does this again and again; the equations below name its branches, one
for each way in which an attempt can come out, and say what the pause between
two attempts leaves behind.  Runs whose timelines policies cannot tell apart go in
step, attempt by attempt and through a whole stack: `submit_inStep`.
-/

namespace Skein
namespace Run

open Retry Timeline

variable {α : Type}

/-- A job that no signal was passed along to does not hear of one. -/
theorem signalled_deaf {job : Job α} (hdeaf : job.listening = false) (t : Timeline) :
    job.signalled t = false := by
  simp [Job.signalled, hdeaf]

/-! ## The branches of an attempt -/

section Branches

variable {p : Policy} {job : Job α} {depth : Nat} {inner : Dispatcher α} {allowance : Nat}
  {attempt : UInt32}
  {t u : Timeline}

/-- A signal that has fired ends the run before the submission. -/
theorem attempts_signalled (h : job.signalled t = true) :
    attempts p job depth inner (allowance + 1) attempt t = (.cancelled .signalled, t) := by
  simp [attempts, h]

/-- An attempt that the policy judges to be the last. -/
theorem attempts_finish {r final : Resolution α} (h : job.signalled t = false)
    (hanswer : inner t = (.resolved r, u))
    (hverdict : judge p (job.signalled u) attempt r = .finish final) :
    attempts p job depth inner (allowance + 1) attempt t =
      (.resolved final, u.log (closingReport p (job.signalled u) attempt r)) := by
  simp [attempts, h, hanswer, hverdict]

/-- An attempt that is retried after a pause. -/
theorem attempts_retry {r : Resolution α} {e : DispatchError} (h : job.signalled t = false)
    (hanswer : inner t = (.resolved r, u))
    (hverdict : judge p (job.signalled u) attempt r = .retry e)
    (hpause : (pauseAfter p job.listening depth attempt e u).1 = false) :
    attempts p job depth inner (allowance + 1) attempt t =
      attempts p job depth inner allowance (countOn attempt)
      (pauseAfter p job.listening depth attempt e u).2 := by
  simp only [attempts, h, hanswer, hverdict, Bool.false_eq_true, if_false]
  split
  · next hp => rw [hp] at hpause; cases hpause
  · next hp => rw [hp]

/-- An attempt after which the signal ends the pause. -/
theorem attempts_interrupted {r : Resolution α} {e : DispatchError} (h : job.signalled t = false)
    (hanswer : inner t = (.resolved r, u))
    (hverdict : judge p (job.signalled u) attempt r = .retry e)
    (hpause : (pauseAfter p job.listening depth attempt e u).1 = true) :
    attempts p job depth inner (allowance + 1) attempt t =
      (.cancelled .signalled, (pauseAfter p job.listening depth attempt e u).2) := by
  simp only [attempts, h, hanswer, hverdict, Bool.false_eq_true, if_false]
  split
  · next hp => rw [hp]
  · next hp => rw [hp] at hpause; cases hpause

/-- A submission that comes back without a resolution takes the whole run with
it. -/
theorem attempts_unresolved {answer : Answer α} (h : job.signalled t = false)
    (hgiven : inner t = (answer, u)) (hunresolved : ∀ r, answer ≠ .resolved r) :
    attempts p job depth inner (allowance + 1) attempt t = (answer, u) := by
  cases answer with
  | resolved r => exact absurd rfl (hunresolved r)
  | unwound panic => simp [attempts, h, hgiven]
  | unfinished => simp [attempts, h, hgiven]

/-- What holds of each way in which an attempt can end the run, and is handed
back over a retry, holds of the run from any attempt on. -/
theorem attempts_induct {motive : UInt32 → Timeline → Answer α × Timeline → Prop}
    (hunfinished : ∀ n t, motive n t (.unfinished, t))
    (hsignalled : ∀ n t, job.signalled t = true → motive n t (.cancelled .signalled, t))
    (hfinish : ∀ n t u r final, job.signalled t = false → inner t = (.resolved r, u) →
      judge p (job.signalled u) n r = .finish final →
      motive n t (.resolved final, u.log (closingReport p (job.signalled u) n r)))
    (hinterrupted : ∀ n t u r e, job.signalled t = false → inner t = (.resolved r, u) →
      judge p (job.signalled u) n r = .retry e → (pauseAfter p job.listening depth n e u).1 = true →
      motive n t (.cancelled .signalled, (pauseAfter p job.listening depth n e u).2))
    (hretry : ∀ n t u r e run, job.signalled t = false → inner t = (.resolved r, u) →
      judge p (job.signalled u) n r = .retry e →
      (pauseAfter p job.listening depth n e u).1 = false →
      motive (countOn n) (pauseAfter p job.listening depth n e u).2 run → motive n t run)
    (hunresolved : ∀ n t u answer, job.signalled t = false → inner t = (answer, u) →
      (∀ r, answer ≠ .resolved r) → motive n t (answer, u))
    (allowance : Nat) (n : UInt32) (t : Timeline) :
    motive n t (attempts p job depth inner allowance n t) := by
  induction allowance generalizing n t with
  | zero => exact hunfinished n t
  | succ allowance ih =>
    cases hs : job.signalled t with
    | true =>
      rw [attempts_signalled hs]
      exact hsignalled n t hs
    | false =>
      rcases hg : inner t with ⟨answer, u⟩
      cases answer with
      | resolved r =>
        cases hv : judge p (job.signalled u) n r with
        | finish final =>
          rw [attempts_finish hs hg hv]
          exact hfinish n t u r final hs hg hv
        | retry e =>
          cases hp : (pauseAfter p job.listening depth n e u).1 with
          | true =>
            rw [attempts_interrupted hs hg hv hp]
            exact hinterrupted n t u r e hs hg hv hp
          | false =>
            rw [attempts_retry hs hg hv hp]
            exact hretry n t u r e _ hs hg hv hp (ih _ _)
      | unwound panic =>
        rw [attempts_unresolved hs hg (by simp)]
        exact hunresolved n t u _ hs hg (by simp)
      | unfinished =>
        rw [attempts_unresolved hs hg (by simp)]
        exact hunresolved n t u _ hs hg (by simp)

end Branches

/-! ## Runs that go in step -/

/-- From related timelines the two dispatchers give one answer, and leave related
timelines behind. -/
def InStep (R : Timeline → Timeline → Prop) (inner inner' : Dispatcher α) : Prop :=
  ∀ t u, R t u → (inner t).1 = (inner' u).1 ∧ R (inner t).2 (inner' u).2

/-- What policies do with a job keeps timelines related, and does not tell them apart. -/
structure Blind (R : Timeline → Timeline → Prop) (job job' : Job α) : Prop where
  signalled : ∀ {t u}, R t u → job.signalled t = job'.signalled u
  given : ∀ {t u}, R t u → ∀ depth, R (t.record (.given depth)) (u.record (.given depth))
  log : ∀ {t u}, R t u → ∀ entries, R (t.log entries) (u.log entries)
  pause : ∀ {t u}, R t u → ∀ p depth n e,
    (pauseAfter p job.listening depth n e t).1 = (pauseAfter p job'.listening depth n e u).1 ∧
      R (pauseAfter p job.listening depth n e t).2 (pauseAfter p job'.listening depth n e u).2

section InStep

variable {R : Timeline → Timeline → Prop} {job job' : Job α} (hblind : Blind R job job')
include hblind

theorem attempts_inStep {p : Policy} {depth : Nat} {inner inner' : Dispatcher α}
    (hbelow : InStep R inner inner') (allowance : Nat) (n : UInt32) :
    InStep R (attempts p job depth inner allowance n)
      (attempts p job' depth inner' allowance n) := by
  -- the attempts go in step, and after each of them the timelines are related again
  induction allowance generalizing n with
  | zero => exact fun t u h => ⟨rfl, h⟩
  | succ allowance ih =>
    intro t u h
    have hsame := hblind.signalled h
    cases hs : job.signalled t with
    | true =>
      rw [attempts_signalled hs, attempts_signalled (hsame.symm.trans hs)]
      exact ⟨rfl, h⟩
    | false =>
      have hs' := hsame.symm.trans hs
      obtain ⟨hanswered, hlater⟩ := hbelow t u h
      rcases hgiven : inner t with ⟨answer, t'⟩
      rcases hgiven' : inner' u with ⟨answer', u'⟩
      rw [hgiven, hgiven'] at hanswered hlater
      obtain rfl : answer = answer' := hanswered
      have hlater : R t' u' := hlater
      cases answer with
      | resolved r =>
        have hsame' := hblind.signalled hlater
        cases hverdict : judge p (job.signalled t') n r with
        | finish final =>
          rw [attempts_finish hs hgiven hverdict, attempts_finish hs' hgiven' (hsame' ▸ hverdict),
            hsame']
          exact ⟨rfl, hblind.log hlater _⟩
        | retry e =>
          obtain ⟨hpaused, hafter⟩ := hblind.pause hlater p depth n e
          cases hended : (pauseAfter p job.listening depth n e t').1 with
          | true =>
            rw [attempts_interrupted hs hgiven hverdict hended,
              attempts_interrupted hs' hgiven' (hsame' ▸ hverdict) (hpaused.symm.trans hended)]
            exact ⟨rfl, hafter⟩
          | false =>
            rw [attempts_retry hs hgiven hverdict hended,
              attempts_retry hs' hgiven' (hsame' ▸ hverdict) (hpaused.symm.trans hended)]
            exact ih _ _ _ hafter
      | unwound panic =>
        rw [attempts_unresolved hs hgiven nofun, attempts_unresolved hs' hgiven' nofun]
        exact ⟨rfl, hlater⟩
      | unfinished =>
        rw [attempts_unresolved hs hgiven nofun, attempts_unresolved hs' hgiven' nofun]
        exact ⟨rfl, hlater⟩

/-- Stacks of the same policies go in step if the dispatchers at the bottom do. -/
theorem submit_inStep {base base' : Base}
    (hbottom : InStep R (base.enqueue job) (base'.enqueue job')) (allowance depth : Nat)
    (layers : List Policy) :
    InStep R (submit base job allowance depth layers)
      (submit base' job' allowance depth layers) := by
  induction layers generalizing depth with
  | nil => exact fun t u h => hbottom _ _ (hblind.given h depth)
  | cons p layers ih =>
    intro t u h
    exact attempts_inStep hblind (ih (depth + 1)) allowance 0 _ _ (hblind.given h depth)

end InStep

/-! ## The verdict on an attempt -/

/-- A resolution that ends the run whichever attempt it is of: a success, a
cancellation, or a failure that the matcher rejects. -/
def Settles (p : Policy) : Resolution α → Prop
  | .ok _ => True
  | .error e => e.isCancelled = true ∨ p.matcher.accepts e.failure = false

/-- What a settled attempt came to is handed on as it is. -/
theorem judge_settled {p : Policy} {r : Resolution α} (h : Settles p r) (signalled : Bool)
    (attempt : UInt32) :
    judge p signalled attempt r = .finish r := by
  cases r with
  | ok a => rfl
  | error e =>
    rcases h with hcancelled | hrejected
    · simp [judge, hcancelled]
    · simp [judge, hrejected]

/-- What is not settled is a failure that the matcher accepts. -/
theorem failure_of_not_settled {p : Policy} {r : Resolution α} (h : ¬ Settles p r) :
    ∃ e, r = .error e ∧ e.isCancelled = false ∧ p.matcher.accepts e.failure = true := by
  cases r with
  | ok a => exact absurd trivial h
  | error e =>
    refine ⟨e, rfl, ?_, ?_⟩
    · exact Bool.eq_false_iff.mpr fun hcancelled => h (.inl hcancelled)
    · exact Bool.not_eq_false _ ▸ fun hrejected => h (.inr hrejected)

section Accepted

variable {p : Policy} {e : DispatchError} (hkept : e.isCancelled = false)
  (haccepted : p.matcher.accepts e.failure = true)
include hkept haccepted

theorem judge_exhausted {attempt : UInt32} (hreached : p.limitReached attempt = true) :
    judge (α := α) p false attempt (.error e) =
      .finish (.error (.exhausted (countOn attempt) e.intoCause)) := by
  simp [judge, hkept, haccepted, hreached]

theorem judge_retry {attempt : UInt32} (hbelow : p.limitReached attempt = false) :
    judge (α := α) p false attempt (.error e) = .retry e := by
  simp [judge, hkept, haccepted, hbelow]

end Accepted

/-- All that a policy can make of an attempt. -/
inductive Judged (p : Policy) (signalled : Bool) (attempt : UInt32) :
    Resolution α → Verdict α → Prop
  | settled (r : Resolution α) (h : Settles p r) : Judged p signalled attempt r (.finish r)
  | signalled (e : DispatchError) (hkept : e.isCancelled = false)
      (haccepted : p.matcher.accepts e.failure = true) (h : signalled = true) :
      Judged p signalled attempt (.error e) (.finish (.error (.cancelled .signalled)))
  | exhausted (e : DispatchError) (hkept : e.isCancelled = false)
      (haccepted : p.matcher.accepts e.failure = true) (h : signalled = false)
      (hreached : p.limitReached attempt = true) :
      Judged p signalled attempt (.error e)
        (.finish (.error (.exhausted (countOn attempt) e.intoCause)))
  | retried (e : DispatchError) (hkept : e.isCancelled = false)
      (haccepted : p.matcher.accepts e.failure = true) (h : signalled = false)
      (hbelow : p.limitReached attempt = false) :
      Judged p signalled attempt (.error e) (.retry e)

theorem judge_judged (p : Policy) (signalled : Bool) (attempt : UInt32) (r : Resolution α) :
    Judged p signalled attempt r (judge p signalled attempt r) := by
  by_cases hsettled : Settles p r
  · rw [judge_settled hsettled]
    exact .settled r hsettled
  · obtain ⟨e, rfl, hkept, haccepted⟩ := failure_of_not_settled hsettled
    cases signalled with
    | true =>
      have hverdict : judge (α := α) p true attempt (.error e) =
          .finish (.error (.cancelled .signalled)) := by
        simp [judge, hkept, haccepted]
      rw [hverdict]
      exact .signalled e hkept haccepted rfl
    | false =>
      cases hreached : p.limitReached attempt with
      | true =>
        rw [judge_exhausted hkept haccepted hreached]
        exact .exhausted e hkept haccepted rfl hreached
      | false =>
        rw [judge_retry hkept haccepted hreached]
        exact .retried e hkept haccepted rfl hreached

/-- A retry is one more than the limit counts so far. -/
theorem below_of_retry {p : Policy} {signalled : Bool} {attempt most : UInt32} {r : Resolution α}
    {e : DispatchError} (hlimited : p.limit = some most)
    (h : judge p signalled attempt r = .retry e) : attempt.toNat < most.toNat := by
  have hjudged := judge_judged p signalled attempt r
  rw [h] at hjudged
  cases hjudged with
  | retried _ _ _ _ hbelow =>
    simp only [Policy.limitReached, hlimited, decide_eq_false_iff_not,
      UInt32.le_iff_toNat_le] at hbelow
    omega

/-- So it is counted exactly. -/
theorem toNat_countOn_below {attempt most : UInt32} (h : attempt.toNat < most.toNat) :
    (countOn attempt).toNat = attempt.toNat + 1 := by
  have hbound := most.toNat_lt
  rw [toNat_countOn]
  omega

/-! ## The pause between two attempts -/

/-- What the announcement of a retry leaves in the story. -/
def retryEvents (p : Policy) (depth : Nat) (attempt : UInt32) (e : DispatchError) : List Event :=
  .logged (retryingEntry attempt (p.wait.delay attempt) e) ::
    (p.wait.argument? attempt).toList.map (Event.asked depth)

theorem story_announceRetry (p : Policy) (depth : Nat) (attempt : UInt32) (e : DispatchError)
    (t : Timeline) :
    (announceRetry p depth attempt e t).story = retryEvents p depth attempt e ++ t.story := by
  unfold announceRetry retryEvents
  cases p.wait.argument? attempt <;> simp

@[simp] theorem fired_announceRetry (p : Policy) (depth : Nat) (attempt : UInt32)
    (e : DispatchError) (t : Timeline) :
    (announceRetry p depth attempt e t).fired = t.fired := by
  unfold announceRetry
  cases p.wait.argument? attempt <;> simp

theorem signal_announceRetry (p : Policy) (depth : Nat) (attempt : UInt32) (e : DispatchError)
    (t : Timeline) : (announceRetry p depth attempt e t).signal = t.signal := by
  unfold announceRetry
  cases p.wait.argument? attempt <;> rfl

@[simp] theorem calls_announceRetry (p : Policy) (depth : Nat) (attempt : UInt32)
    (e : DispatchError) (t : Timeline) :
    (announceRetry p depth attempt e t).calls = t.calls := by
  unfold announceRetry
  cases p.wait.argument? attempt <;> simp

theorem longest_announceRetry (p : Policy) (depth : Nat) (attempt : UInt32) (e : DispatchError)
    (t : Timeline) : (announceRetry p depth attempt e t).longest = t.longest := by
  unfold announceRetry
  cases p.wait.argument? attempt <;> rfl

theorem givenTo_announceRetry (p : Policy) (depth : Nat) (attempt : UInt32) (e : DispatchError)
    (t : Timeline) (d : Nat) : (announceRetry p depth attempt e t).givenTo d = t.givenTo d := by
  unfold announceRetry
  cases p.wait.argument? attempt <;> simp [givenTo_record]

/-- A pause submits nothing. -/
theorem givenTo_pauseAfter (p : Policy) (listening : Bool) (depth : Nat) (attempt : UInt32)
    (e : DispatchError) (t : Timeline) (d : Nat) :
    (pauseAfter p listening depth attempt e t).2.givenTo d = t.givenTo d := by
  unfold pauseAfter
  rw [(elapsed_backoff _ _ _).givenTo, givenTo_announceRetry]

/-- What can be read off a timeline that neither a report nor a pause changes. -/
structure Gauge {β : Type} (m : Timeline → β) : Prop where
  log : ∀ t entries, m (t.log entries) = m t
  pause : ∀ p listening depth attempt e t, m (pauseAfter p listening depth attempt e t).2 = m t

theorem gauge_givenTo (d : Nat) : Gauge (·.givenTo d) :=
  ⟨fun t entries => givenTo_log t entries d,
    fun p listening depth attempt e t => givenTo_pauseAfter p listening depth attempt e t d⟩

theorem gauge_calls : Gauge (·.calls) := by
  refine ⟨calls_log, ?_⟩
  intro p listening depth attempt e t
  show (Timeline.backoff _ listening _).2.calls = t.calls
  rw [(elapsed_backoff _ _ _).calls, calls_announceRetry]

theorem gauge_longest : Gauge (·.longest) := by
  refine ⟨longest_log, ?_⟩
  intro p listening depth attempt e t
  show (Timeline.backoff _ listening _).2.longest = t.longest
  rw [(elapsed_backoff _ _ _).longest, longest_announceRetry]

/-- What the dispatcher below leaves as it was, the run does. -/
theorem attempts_keeps {β : Type} {m : Timeline → β} (hgauge : Gauge m) {p : Policy} {job : Job α}
    {depth : Nat} {inner : Dispatcher α} (hkeeps : ∀ t, m (inner t).2 = m t) (allowance : Nat)
    (n : UInt32) (t : Timeline) : m (attempts p job depth inner allowance n t).2 = m t := by
  have hkept {t u : Timeline} {answer : Answer α} (h : inner t = (answer, u)) : m u = m t := by
    rw [← hkeeps t, h]
  refine attempts_induct (motive := fun _ t run => m run.2 = m t) ?_ ?_ ?_ ?_ ?_ ?_ allowance n t
  · exact fun _ _ => rfl
  · exact fun _ _ _ => rfl
  · intro n t u r final _ hanswer _
    rw [hgauge.log, hkept hanswer]
  · intro n t u r e _ hanswer _ _
    rw [hgauge.pause, hkept hanswer]
  · intro n t u r e run _ hanswer _ _ ih
    rw [ih, hgauge.pause, hkept hanswer]
  · intro n t u answer _ hgiven _
    exact hkept hgiven

/-- All of a run goes by one clock. -/
theorem longest_submit (base : Base) (job : Job α) (allowance : Nat) (layers : List Policy)
    (depth : Nat) (t : Timeline) :
    (submit base job allowance depth layers t).2.longest = t.longest := by
  induction layers generalizing depth t with
  | nil => exact longest_base base job _
  | cons p layers ih => exact attempts_keeps gauge_longest (ih (depth + 1)) allowance 0 _

/-- Without a signal to listen to, a pause lasts to its end. -/
theorem pauseAfter_deaf (p : Policy) (depth : Nat) (attempt : UInt32) (e : DispatchError)
    (t : Timeline) :
    (pauseAfter p false depth attempt e t).1 = false :=
  backoff_deaf _ _

end Run
end Skein
