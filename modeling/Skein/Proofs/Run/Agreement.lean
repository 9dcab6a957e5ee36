import Mathlib.Data.List.Basic
import Skein.Proofs.Run.Attempt
import Skein.Proofs.Run.Invocation

/-!
# Inline and on a fiber

A job comes to the same whether it is carried out inline or by a fiber, but for
its panics: on a fiber a panic is a failure of the job, so the inline job to
compare with is the one that fails in the same words.  `enqueue_agrees` says so
for whole stacks of policies.

The two timelines are not equal.  Inline an invocation takes time, and a fiber
reports failures.  They are `Alike` in what a policy can tell apart: whether the
signal has fired, how often the payload has been invoked, who was given
submissions and which questions were asked.  This goes through a whole run
because no signal is due and nobody disposes the fiber, so that the time that has
passed makes no difference.
-/

namespace Skein

/-- A panic that was caught is a failure in the same words. -/
def Ending.caught {α : Type} : Ending α → Ending α
  | .panic p => .failure (.panicked p.text)
  | ending => ending

namespace Run

open Retry Timeline

variable {α : Type}

/-- The job whose payload fails where the given one panics. -/
def Job.caught (job : Job α) : Job α :=
  let payload n :=
    let i := job.operation.payload n
    { i with ending := i.ending.caught }
  { job with operation := { job.operation with payload := payload } }

/-! ## What a policy can tell apart -/

def Event.counts : Event → Bool
  | .given _ | .asked _ _ => true
  | _ => false

/-- A timeline without its clock and its log. -/
structure Account where
  signal : Signal
  disposedAt : Option Millis
  calls : Nat
  /-- Submissions and questions, the last one first. -/
  story : List Event

def Timeline.account (t : Timeline) : Account :=
  { signal := t.signal, disposedAt := t.disposedAt, calls := t.calls
    story := t.story.filter Event.counts }

namespace Timeline

theorem givenTo_account (t : Timeline) (depth : Nat) :
    t.givenTo depth = t.account.story.countP (· = .given depth) := by
  show t.story.countP _ = (t.story.filter Event.counts).countP _
  rw [List.countP_filter]
  apply List.countP_congr
  intro e _
  cases e <;> simp [Event.counts]

theorem questions_account (t : Timeline) :
    t.questions = t.account.story.reverse.filterMap fun
      | .asked depth attempt => some (depth, attempt)
      | _ => none := by
  show t.story.reverse.filterMap _ = (t.story.filter Event.counts).reverse.filterMap _
  rw [← List.filter_reverse, List.filterMap_filter]
  apply List.filterMap_congr
  intro e _
  cases e <;> simp [Event.counts]

theorem account_record (t : Timeline) {e : Event} (h : e.counts = false) :
    (t.record e).account = t.account := by
  simp [account, record, h]

@[simp] theorem account_log (t : Timeline) (entries : List Log.Entry) :
    (t.log entries).account = t.account := by
  induction entries generalizing t with
  | nil => rfl
  | cons entry rest ih =>
    rw [log_cons, ih]
    exact account_record t rfl

theorem signal_log (t : Timeline) (entries : List Log.Entry) : (t.log entries).signal = t.signal :=
  congrArg Account.signal (account_log t entries)

/-- The signal does not fire by itself. -/
def Undue (t : Timeline) : Prop :=
  ∀ moment, t.signal ≠ .due moment

section Undue

variable {t u : Timeline}

theorem quiet_or_fired (h : t.Undue) : t.signal = .quiet ∨ t.signal = .fired := by
  cases hs : t.signal with
  | quiet => exact .inl rfl
  | due moment => exact absurd hs (h moment)
  | fired => exact .inr rfl

theorem fired_undue (h : t.Undue) : t.fired = (t.signal == .fired) := by
  rcases quiet_or_fired h with hs | hs <;> simp [fired, hs]

theorem account_pause (h : t.Undue) : t.pause.account = t.account := by
  rcases quiet_or_fired h with hs | hs <;> simp [pause, account, hs]

theorem fireBefore_undue (h : t.Undue) (later : Millis) : t.fireBefore later = t := by
  rcases quiet_or_fired h with hs | hs <;> simp [fireBefore, hs]

theorem awaitSignal_undue (h : t.Undue) : t.awaitSignal = t := by
  rcases quiet_or_fired h with hs | hs <;> simp [awaitSignal, hs]

/-- Timelines with one account have one signal. -/
theorem undue_congr (h : u.account = t.account) (hundue : t.Undue) : u.Undue := by
  have hsignal : u.signal = t.signal := congrArg Account.signal h
  intro moment
  rw [hsignal]
  exact hundue moment

theorem fired_congr (h : u.account = t.account) (hundue : t.Undue) : u.fired = t.fired := by
  have hsignal : u.signal = t.signal := congrArg Account.signal h
  rw [fired_undue hundue, fired_undue (undue_congr h hundue), hsignal]

theorem account_sleep (h : t.Undue) (d : Millis) : (t.sleep d).account = t.account := by
  have hpaused : (if t.waitsFor d then t.pause else t).account = t.account := by
    split
    · exact account_pause h
    · rfl
  unfold sleep
  -- the time that passes is no part of the account
  generalize (if t.waitsFor d then t.pause else t) = paused at hpaused
  simp only [fireBefore_undue (undue_congr hpaused h)]
  exact hpaused

theorem account_spend (h : t.Undue) (i : Invocation α) :
    (t.spend i).account = t.account := by
  have hpaused : (if i.yields then t.pause else t).account = t.account := by
    split
    · exact account_pause h
    · rfl
  unfold spend
  cases i.sleeps with
  | none => exact hpaused
  | some d => exact (account_sleep (undue_congr hpaused h) d).trans hpaused

theorem account_fire (h : t.Undue) :
    t.fire.account = { t.account with signal := .fired } := by
  unfold fire fireAt
  split
  next hfired =>
    rw [fired_undue h] at hfired
    have hsignal : t.account.signal = .fired := eq_of_beq hfired
    rw [← hsignal]
  next => rfl

theorem account_dispose (t : Timeline) :
    t.dispose.account = { t.account with disposedAt := t.dispose.disposedAt } := by
  unfold dispose
  split <;> rfl

end Undue

/-- No signal is due on the timelines, and they can be told apart by their clocks, their
logs and what became of the fiber only. -/
structure Alike (t u : Timeline) : Prop where
  undue : t.Undue
  signal : t.signal = u.signal
  calls : t.calls = u.calls
  story : t.account.story = u.account.story

namespace Alike

variable {t u t' u' : Timeline}

theorem undue_right (h : Alike t u) : u.Undue := by
  intro moment
  rw [← h.signal]
  exact h.undue moment

theorem fired (h : Alike t u) : t.fired = u.fired := by
  rw [fired_undue h.undue, fired_undue h.undue_right, h.signal]

/-- Timelines stay alike while their accounts stay what they are. -/
theorem of_account (h : Alike t u) (hleft : t'.account = t.account)
    (hright : u'.account = u.account) : Alike t' u' where
  undue := undue_congr hleft h.undue
  signal := by
    have hsignal : t'.signal = t.signal := congrArg Account.signal hleft
    have hsignal' : u'.signal = u.signal := congrArg Account.signal hright
    rw [hsignal, hsignal', h.signal]
  calls := by
    have hcalls : t'.calls = t.calls := congrArg Account.calls hleft
    have hcalls' : u'.calls = u.calls := congrArg Account.calls hright
    rw [hcalls, hcalls', h.calls]
  story := by rw [hleft, hright, h.story]

theorem record (h : Alike t u) (e : Event) : Alike (t.record e) (u.record e) where
  undue := h.undue
  signal := h.signal
  calls := h.calls
  story := by
    have hstory : t.story.filter Event.counts = u.story.filter Event.counts := h.story
    simp [account, Timeline.record, List.filter_cons, hstory]

theorem log (h : Alike t u) (entries entries' : List Log.Entry) :
    Alike (t.log entries) (u.log entries') :=
  h.of_account (account_log t entries) (account_log u entries')

end Alike

end Timeline

/-! ## One invocation -/

section Invocation

variable (job : Job α) {t u : Timeline}

theorem disposes_invocation {n : Nat} (h : (job.operation.payload n).disposes = false) :
    (job.operation.invocation n).disposes = false := by
  unfold Operation.invocation
  split <;> exact h

/-- An invocation may fire the signal and dispose the fiber, and counts; the time it
takes makes no difference. -/
theorem account_invoke (h : t.Undue) (takesTime : Bool) :
    ∃ disposedAt,
      (job.invoke takesTime t).2.account =
        { signal := if (job.operation.invocation t.calls).fires then .fired else t.signal
          disposedAt := disposedAt
          calls := t.calls + 1
          story := t.account.story } ∧
      ((job.operation.invocation t.calls).disposes = false → disposedAt = t.disposedAt) := by
  generalize hinvocation : job.operation.invocation t.calls = i
  have hbegun : t.begin.Undue := h
  have hspent : (if takesTime then t.begin.spend i else t.begin).account = t.begin.account := by
    split
    · exact account_spend hbegun i
    · rfl
  generalize hs : (if takesTime then t.begin.spend i else t.begin) = spent at hspent
  have hfired : (if i.fires then spent.fire else spent).account =
      { t.begin.account with signal := if i.fires then .fired else t.signal } := by
    split
    · rw [account_fire (undue_congr hspent hbegun), hspent]
    · exact hspent
  generalize hf : (if i.fires then spent.fire else spent) = fired at hfired
  have hdisposed : (if i.disposes then fired.dispose else fired).account =
      { fired.account with
        disposedAt := (if i.disposes then fired.dispose else fired).disposedAt } := by
    split
    · exact account_dispose fired
    · rfl
  refine ⟨(if i.disposes then fired.dispose else fired).disposedAt, ?_, ?_⟩
  · calc (job.invoke takesTime t).2.account
        = (if i.disposes then fired.dispose else fired).account := by
          rw [Job.invoke, account_record _ rfl, hinvocation, ← hf, ← hs]
          rfl
      _ = _ := by
          rw [hdisposed, hfired]
          rfl
  · intro hstays
    rw [hstays]
    exact congrArg Account.disposedAt hfired

theorem signal_invoke (h : t.Undue) (takesTime : Bool) :
    (job.invoke takesTime t).2.signal =
      if (job.operation.invocation t.calls).fires then .fired else t.signal := by
  obtain ⟨disposedAt, haccount, -⟩ := account_invoke job h takesTime
  exact congrArg Account.signal haccount

/-- Jobs that fire the signal in the same invocations keep timelines alike. -/
theorem Timeline.Alike.invoke (h : Alike t u) {job' : Job α}
    (hfires : ∀ n,
      (job.operation.invocation n).fires = (job'.operation.invocation n).fires)
    (takesTime takesTime' : Bool) :
    Alike (job.invoke takesTime t).2 (job'.invoke takesTime' u).2 := by
  obtain ⟨disposedAt, haccount, -⟩ := account_invoke job h.undue takesTime
  obtain ⟨disposedAt', haccount', -⟩ := account_invoke job' h.undue_right takesTime'
  constructor
  · intro moment
    rw [signal_invoke job h.undue]
    split
    · exact Signal.noConfusion
    · exact h.undue moment
  · rw [signal_invoke job h.undue, signal_invoke job' h.undue_right, h.calls, h.signal, hfires]
  · rw [calls_invoke, calls_invoke, h.calls]
  · rw [haccount, haccount']
    exact h.story

theorem invocation_caught (n : Nat) :
    job.caught.operation.invocation n =
      { job.operation.invocation n with
        ending := (job.operation.invocation n).ending.caught } := by
  unfold Operation.invocation
  show (if job.operation.async then _ else _) = _
  split <;> rfl

end Invocation

/-! ## The two dispatchers -/

structure Even (t u : Timeline) : Prop where
  alike : Alike t u
  active : t.disposedAt = none

/-- A panic that is caught on a fiber is sorted like the failure that takes its
place inline. -/
theorem resolution_caught (ending : Ending α) : ending.caught.resolution = ending.resolution := by
  cases ending <;> rfl

theorem caught_ne_panic (ending : Ending α) (p : Panic) : ending.caught ≠ .panic p := by
  cases ending <;> nofun

theorem runInline_caught {job : Job α} {t : Timeline} (h : job.caught.signalled t = false) :
    job.caught.runInline t =
      (.resolved (job.operation.invocation t.calls).ending.resolution,
        (job.caught.invoke true t).2) := by
  have hending : (job.caught.invoke true t).1 =
      (job.operation.invocation t.calls).ending.caught := by
    show (job.caught.operation.invocation t.calls).ending = _
    rw [invocation_caught]
  rw [Job.runInline, h]
  generalize hrun : job.caught.invoke true t = run at hending ⊢
  obtain ⟨ending, after⟩ := run
  rw [← resolution_caught, ← hending]
  cases ending with
  | value a => rfl
  | failure f => rfl
  | panic p => exact absurd hending.symm (caught_ne_panic _ p)

theorem base_inStep {job : Job α} (hstays : ∀ n, (job.operation.payload n).disposes = false) :
    InStep Even (Base.fiber.enqueue job) (Base.inline.enqueue job.caught) := by
  intro t u h
  have hactive : t.disposed = false := by rw [disposed, h.active, Option.any_none]
  have hsignalled : job.signalled t = job.caught.signalled u :=
    congrArg (job.listening && ·) h.alike.fired
  show Answer.resolved (job.runOnFiber t).1 = (job.caught.runInline u).1 ∧
    Even (job.runOnFiber t).2 (job.caught.runInline u).2
  rw [Job.runOnFiber, hactive]
  cases hs : job.signalled t with
  | true =>
    rw [Job.runInline, ← hsignalled, hs]
    exact ⟨rfl, h⟩
  | false =>
    rw [runInline_caught (hsignalled.symm.trans hs), ← h.alike.calls]
    have hfires (n : Nat) :
        (job.operation.invocation n).fires = (job.caught.operation.invocation n).fires := by
      rw [invocation_caught]
    refine ⟨rfl, (h.alike.invoke job hfires false true).log _ [], ?_⟩
    obtain ⟨disposedAt, haccount, hkept⟩ := account_invoke job h.alike.undue false
    show ((job.invoke false t).2.log _).account.disposedAt = none
    rw [account_log, haccount]
    exact (hkept (disposes_invocation job (hstays t.calls))).trans h.active

/-! ## The pause between two attempts -/

theorem Timeline.Alike.announceRetry {t u : Timeline} (h : Alike t u) (p : Policy) (depth : Nat)
    (attempt : UInt32) (e : DispatchError) :
    Alike (announceRetry p depth attempt e t) (announceRetry p depth attempt e u) := by
  unfold Run.announceRetry
  cases p.wait.argument? attempt with
  | none => exact h.log _ _
  | some n => exact (h.record _).log _ _

/-- A delay neither fires the signal nor counts, so it is the firing before it
that decides. -/
theorem backoff_undue {t : Timeline} (h : t.Undue) (listening : Bool) (d : Millis) :
    (t.backoff listening d).1 = (listening && t.fired) ∧
      (t.backoff listening d).2.account = t.account := by
  have hlater : (if d = 0 then t else t.sleep d).account = t.account := by
    split
    · rfl
    · exact account_sleep h d
  unfold backoff
  generalize (if d = 0 then t else t.sleep d) = later at hlater
  simp only [fired_congr hlater h, awaitSignal_undue h]
  split
  next hboth => exact ⟨hboth.symm, rfl⟩
  next hboth => exact ⟨(Bool.eq_false_iff.mpr hboth).symm, hlater⟩

theorem disposedAt_pauseAfter (p : Policy) (listening : Bool) (depth : Nat) (attempt : UInt32)
    (e : DispatchError) {t : Timeline} (h : t.Undue) :
    (pauseAfter p listening depth attempt e t).2.disposedAt = t.disposedAt := by
  have hundue := (((⟨h, rfl, rfl, rfl⟩ : Alike t t).announceRetry p depth attempt e)).undue
  obtain ⟨-, hafter⟩ := backoff_undue hundue listening (p.wait.delay attempt)
  refine (congrArg Account.disposedAt hafter).trans ?_
  show (announceRetry p depth attempt e t).disposedAt = t.disposedAt
  unfold announceRetry
  cases p.wait.argument? attempt <;> rfl

/-- Policies do not tell timelines apart that are alike. -/
theorem blind_alike {job job' : Job α} (hlistening : job.listening = job'.listening) :
    Blind Alike job job' where
  signalled h := by rw [Job.signalled, Job.signalled, hlistening, h.fired]
  given h _ := h.record _
  log h _ := h.log _ _
  pause h p depth n e := by
    have hannounced := h.announceRetry p depth n e
    obtain ⟨hended, hlater⟩ := backoff_undue hannounced.undue job.listening (p.wait.delay n)
    obtain ⟨hended', hlater'⟩ :=
      backoff_undue hannounced.undue_right job'.listening (p.wait.delay n)
    refine ⟨?_, hannounced.of_account hlater hlater'⟩
    unfold pauseAfter
    rw [hended, hended', hlistening, hannounced.fired]

theorem blind_even (job : Job α) : Blind Even job job.caught where
  signalled h := (blind_alike rfl).signalled h.alike
  given h _ := ⟨h.alike.record _, h.active⟩
  log h entries :=
    ⟨h.alike.log _ _, (congrArg Account.disposedAt (account_log _ entries)).trans h.active⟩
  pause h p depth n e := by
    obtain ⟨hended, hlater⟩ := (blind_alike rfl).pause h.alike p depth n e
    exact ⟨hended, hlater, (disposedAt_pauseAfter _ _ _ _ _ h.alike.undue).trans h.active⟩

/-! ## Whole runs -/

/-- Two runs came to the same answer with the same work: they invoked the payload
equally often, submitted equally often to each depth, and put the same questions
to the wait functions. -/
structure SameWork (run run' : Answer α × Timeline) : Prop where
  answer : run.1 = run'.1
  calls : run.2.calls = run'.2.calls
  given : ∀ depth, run.2.givenTo depth = run'.2.givenTo depth
  questions : run.2.questions = run'.2.questions

theorem Timeline.Alike.givenTo {t u : Timeline} (h : Alike t u) (depth : Nat) :
    t.givenTo depth = u.givenTo depth := by
  rw [givenTo_account, givenTo_account, h.story]

theorem Timeline.Alike.questions {t u : Timeline} (h : Alike t u) : t.questions = u.questions := by
  rw [questions_account, questions_account, h.story]

/-- A fiber that nobody disposes and the inline dispatcher do the same work under
every stack of policies. -/
theorem enqueue_agrees {job : Job α} (hstays : ∀ n, (job.operation.payload n).disposes = false)
    {t : Timeline} (hactive : t.disposedAt = none) (hsignal : ∀ moment, t.signal ≠ .due moment)
    (layers : List Policy) (allowance : Nat) :
    SameWork (enqueue layers .fiber job allowance t)
      (enqueue layers .inline job.caught allowance t) := by
  have heven : Even t t := ⟨⟨hsignal, rfl, rfl, rfl⟩, hactive⟩
  obtain ⟨hanswer, hafter⟩ :=
    submit_inStep (blind_even job) (base_inStep hstays) allowance 0 layers t t heven
  exact ⟨hanswer, hafter.alike.calls, hafter.alike.givenTo, hafter.alike.questions⟩

/-- The payload panics twice and then fires the signal that was passed along; the
inner layer gives up once in between. -/
theorem enqueue_agrees_panics :
    let inner : Policy := { matcher := .all, wait := .fixed 10, limit := some 1 }
    let outer : Policy := { matcher := .all, wait := .function fun n => n.toNat, limit := some 3 }
    let failing : Invocation Unit := { ending := .failure (.plain "down"), fires := true }
    let job : Job Unit :=
      { operation :=
          { payload := fun n => if n < 2 then { ending := .panic ⟨some "boom"⟩ } else failing }
        listening := true }
    let t : Timeline := {}
    let onFiber := enqueue [outer, inner] .fiber job 9 t
    let inline := enqueue [outer, inner] .inline job.caught 9 t
    (∀ n, (job.operation.payload n).disposes = false) ∧ t.disposedAt = none ∧
      (∀ moment, t.signal ≠ .due moment) ∧ SameWork onFiber inline ∧
      inline.2.calls = 3 ∧ inline.2.questions = [(0, 1)] ∧ inline.2.givenTo 1 = 2 := by
  intro inner outer failing job t onFiber inline
  have hstays : ∀ n, (job.operation.payload n).disposes = false := by
    intro n
    show (if n < 2 then _ else _ : Invocation Unit).disposes = false
    split <;> rfl
  have hsignal : ∀ moment, t.signal ≠ .due moment := fun moment h => by cases h
  have hsame : SameWork onFiber inline := enqueue_agrees hstays rfl hsignal [outer, inner] 9
  exact ⟨hstays, rfl, hsignal, hsame, by decide, by decide, by decide⟩

end Run
end Skein
