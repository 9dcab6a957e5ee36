import Skein.Proofs.Run.Agreement
import Skein.Proofs.Run.Counting
import Skein.Run.Detached

/-!
# Submitted and dispatched

A dispatched job does what it does when it is submitted.  It may do so later and by
another clock, since it is moved off a caller that must not be kept; but as long as no
signal is due, the two timelines stay `Alike`, and it makes no difference.

What a failure comes to with nobody waiting is a matter of its own.  A run of policies
reports the error of the submission unless that is a cancellation, and says so at no
other place: `dispatch_sameWork`.  The inline dispatcher looks at the payload's failure
before it is sorted, and so it also reports the one that says that the job was cancelled:
`dispatch_inline`.
-/

namespace Skein
namespace Run

open Retry Timeline

variable {α : Type}

/-! ## Off the caller -/

/-- The timeline on which a job goes on that was moved off its caller.  A worker of the
caller's executor comes to it after the time; anywhere else it has a clock of its own. -/
def Caller.handOver (caller : Caller) (waited : Millis) (t : Timeline) : Timeline :=
  match caller.away with
  | .pool => { t with now := t.now + waited, ended := 0 }
  | _ => { t with now := waited, ended := 0 }

def begunFrom (caller : Caller) (waited : Millis) (layers : List Policy) (base : Base)
    (job : Job α) (t : Timeline) : Timeline :=
  if place layers base caller job = caller.away then caller.handOver waited t else t

/-- Dispatches a job from the caller, to be carried out after the time if it is moved off
it. -/
def dispatchFrom (caller : Caller) (waited : Millis) (layers : List Policy) (base : Base)
    (job : Job α) (allowance : Nat) (t : Timeline) : Option Panic × Timeline :=
  dispatch layers base job allowance (begunFrom caller waited layers base job t)

section Begun

variable (caller : Caller) (waited : Millis) (layers : List Policy) (base : Base) (job : Job α)
  (t : Timeline)

/-- Only the clock is another one. -/
theorem begunFrom_eq :
    ∃ now ended, begunFrom caller waited layers base job t =
      { t with now := now, ended := ended } := by
  unfold begunFrom
  split
  · cases caller <;> exact ⟨_, _, rfl⟩
  · exact ⟨t.now, t.ended, rfl⟩

theorem alike_begunFrom {t : Timeline} (h : t.Undue) :
    Alike (begunFrom caller waited layers base job t) t := by
  obtain ⟨now, ended, hbegun⟩ := begunFrom_eq caller waited layers base job t
  rw [hbegun]
  exact ⟨h, rfl, rfl, rfl⟩

theorem entries_begunFrom : (begunFrom caller waited layers base job t).entries = t.entries := by
  obtain ⟨now, ended, hbegun⟩ := begunFrom_eq caller waited layers base job t
  rw [hbegun]
  rfl

end Begun

/-! ## Inline -/

/-- A job inline does not tell timelines apart that are alike. -/
theorem runInline_inStep (job : Job α) : InStep Alike job.runInline job.runInline := by
  intro t u h
  have hsame : job.signalled t = job.signalled u := (blind_alike rfl).signalled h
  have hending : (job.invoke true t).1 = (job.invoke true u).1 :=
    congrArg (fun n => (job.operation.invocation n).ending) h.calls
  have hlater := h.invoke job (fun _ => rfl) true true
  rw [Job.runInline, Job.runInline, ← hsame]
  cases job.signalled t with
  | true => exact ⟨rfl, h⟩
  | false =>
    rcases hran : job.invoke true t with ⟨left, t'⟩
    rcases hran' : job.invoke true u with ⟨right, u'⟩
    rw [hran, hran'] at hending hlater
    obtain rfl : left = right := hending
    cases left <;> exact ⟨rfl, hlater⟩

theorem enqueue_inStep (job : Job α) (allowance : Nat) (layers : List Policy) :
    InStep Alike (enqueue layers .inline job allowance) (enqueue layers .inline job allowance) := by
  have hbottom : InStep Alike (Base.inline.enqueue job) (Base.inline.enqueue job) :=
    runInline_inStep job
  exact submit_inStep (blind_alike rfl) hbottom allowance 0 layers

/-- The inline dispatcher logs nothing. -/
theorem entries_runInline (job : Job α) (t : Timeline) :
    (job.runInline t).2.entries = t.entries := by
  rw [entries_eq_read, read_runInline (fun _ => rfl) (fun _ => rfl)]
  simp [entries_eq_read, Event.entry?]

theorem entries_record (t : Timeline) {e : Event} (h : Event.entry? e = none) :
    (t.record e).entries = t.entries := by
  rw [entries_eq_read, read_record, h]
  exact List.append_nil _

theorem entries_log (t : Timeline) (entries : List Log.Entry) :
    (t.log entries).entries = t.entries ++ entries := by
  rw [entries_eq_read, read_log, entry?_logged]
  rfl

/-! ## What is said of a run -/

def Timeline.saying (message : String) (t : Timeline) : List Log.Entry :=
  t.entries.filter (·.message = message)

def attemptMessages : List String :=
  ["operation succeeded after retry", "retry limit reached", "attempt failed, retrying"]

theorem message_reports {p : Policy} {job : Job α} {depth : Nat} {inner : Dispatcher α}
    {a : UInt32 × Timeline} {entry : Log.Entry} (h : entry ∈ reports p job depth inner a) :
    entry.message ∈ attemptMessages := by
  rcases mem_reports h with rfl | ⟨e, rfl⟩ | ⟨e, rfl⟩
  all_goals simp [attemptMessages, successEntry, limitEntry, retryingEntry]

/-- Over the inline dispatcher, the log of a run is what the policies say of their
attempts. -/
theorem entries_submit (job : Job α) (allowance depth : Nat) (layers : List Policy) (t : Timeline) :
    ∃ said : List Log.Entry,
      (submit .inline job allowance depth layers t).2.entries = t.entries ++ said ∧
      ∀ entry ∈ said, entry.message ∈ attemptMessages := by
  induction layers generalizing depth t with
  | nil =>
    refine ⟨[], ?_, nofun⟩
    show (job.runInline (t.record (.given depth))).2.entries = _
    rw [entries_runInline, entries_record t rfl, List.append_nil]
  | cons p layers ih =>
    choose below hlogs hquiet using ih (depth + 1)
    refine ⟨(starts p job depth (submit .inline job allowance (depth + 1) layers) allowance 0
      (t.record (.given depth))).flatMap fun a => below a.2 ++
        reports p job depth (submit .inline job allowance (depth + 1) layers) a, ?_, ?_⟩
    · have hgiven : (t.record (.given depth)).entries = t.entries := entries_record t rfl
      rw [← hgiven]
      exact attempts_read (fun _ => rfl) hlogs allowance 0 (t.record (.given depth))
    · intro entry hsaid
      obtain ⟨a, -, hsaid⟩ := List.mem_flatMap.mp hsaid
      rcases List.mem_append.mp hsaid with hlower | hown
      · exact hquiet a.2 entry hlower
      · exact message_reports hown

theorem saying_log (message : String) (t : Timeline) (entries : List Log.Entry) :
    (t.log entries).saying message =
      t.saying message ++ entries.filter (·.message = message) := by
  rw [saying, entries_log, List.filter_append]
  rfl

/-- What the policies do not say is not said in the run. -/
theorem saying_enqueue {message : String} (h : message ∉ attemptMessages) (job : Job α)
    (allowance : Nat) (layers : List Policy) (t : Timeline) :
    (enqueue layers .inline job allowance t).2.saying message = t.saying message := by
  obtain ⟨said, hentries, hquiet⟩ := entries_submit job allowance 0 layers t
  have hsilent : said.filter (·.message = message) = [] := by
    refine List.filter_eq_nil_iff.mpr fun entry hmem => ?_
    intro hsame
    exact h (of_decide_eq_true hsame ▸ hquiet entry hmem)
  show (submit .inline job allowance 0 layers t).2.saying message = _
  rw [saying, hentries, List.filter_append, hsilent, List.append_nil]
  rfl

/-! ## The same work -/

/-- The payload was invoked equally often, each depth received equally many submissions, and
the wait functions were asked the same questions, all in the same order. -/
structure Timeline.SameDeeds (t u : Timeline) : Prop where
  calls : t.calls = u.calls
  given : ∀ depth, t.givenTo depth = u.givenTo depth
  questions : t.questions = u.questions
  order : t.account.story = u.account.story

theorem Timeline.Alike.sameDeeds {t u : Timeline} (h : Alike t u) : t.SameDeeds u :=
  ⟨h.calls, h.givenTo, h.questions, h.story⟩

/-- Carried out later and elsewhere, a submission comes to the same answer with the same
work, whatever is reported of it in the end; and what the policies do not say themselves is
said in that report only. -/
theorem enqueue_begunFrom (layers : List Policy) (job : Job α) (allowance : Nat) (caller : Caller)
    (waited : Millis) {t : Timeline} (hundue : t.Undue) {message : String}
    (hunsaid : message ∉ attemptMessages) (report : Answer α → List Log.Entry) :
    let submitted := enqueue layers .inline job allowance t
    let detached :=
      enqueue layers .inline job allowance (begunFrom caller waited layers .inline job t)
    let after := detached.2.log (report detached.1)
    detached.1 = submitted.1 ∧ after.SameDeeds submitted.2 ∧
      after.saying message =
        t.saying message ++ (report submitted.1).filter (·.message = message) := by
  intro submitted detached after
  have hbegun := alike_begunFrom caller waited layers .inline job hundue
  obtain ⟨hanswer, hlater⟩ := enqueue_inStep job allowance layers _ _ hbegun
  have hquiet : detached.2.saying message = t.saying message := by
    rw [saying_enqueue hunsaid, saying, entries_begunFrom]
    rfl
  refine ⟨hanswer, (hlater.log _ []).sameDeeds, ?_⟩
  rw [saying_log, hquiet, show detached.1 = submitted.1 from hanswer]

theorem dispatchReport_cancelled {answer : Answer α}
    (h : ∀ e, answer = .resolved (.error e) → e.isCancelled = true) :
    dispatchReport answer = [] := by
  cases answer with
  | resolved r =>
    cases r with
    | ok a => rfl
    | error e => simp [dispatchReport, h e rfl]
  | unwound p => rfl
  | unfinished => rfl

/-- Whoever dispatches a job to a stack of policies, and whenever it is carried out, the
payload is invoked as often as if the job were submitted, every layer and the inline
dispatcher below them receive the same submissions, and the wait functions are asked the
same.  The error of the submission is said to have failed the dispatch, once, unless it is
a cancellation; without such an error nothing is said to have. -/
theorem dispatch_sameWork (p : Policy) (layers : List Policy) (job : Job α) (allowance : Nat)
    (caller : Caller) (waited : Millis) {t : Timeline}
    (hsignal : ∀ moment, t.signal ≠ .due moment) :
    let submitted := enqueue (p :: layers) .inline job allowance t
    let dispatched := dispatchFrom caller waited (p :: layers) .inline job allowance t
    let before := t.saying "retried dispatch failed"
    let said := dispatched.2.saying "retried dispatch failed"
    dispatched.1 = none ∧ dispatched.2.SameDeeds submitted.2 ∧
      (∀ e, submitted.1 = .resolved (.error e) → e.isCancelled = false →
        said = before ++ [dispatchEntry e]) ∧
      ((∀ e, submitted.1 = .resolved (.error e) → e.isCancelled = true) → said = before) := by
  intro submitted dispatched before said
  have hunsaid : "retried dispatch failed" ∉ attemptMessages := by decide
  obtain ⟨-, hsame, hsaid_eq⟩ :=
    enqueue_begunFrom (p :: layers) job allowance caller waited hsignal hunsaid dispatchReport
  refine ⟨rfl, hsame, ?_, ?_⟩
  · intro e hfailed hkept
    rw [hfailed, dispatchReport, hkept] at hsaid_eq
    exact hsaid_eq.trans (congrArg (before ++ ·) (by simp [dispatchEntry]))
  · intro hcancelled
    rw [dispatchReport_cancelled hcancelled] at hsaid_eq
    exact hsaid_eq.trans (List.append_nil before)

/-- From an executor with workers of its own, an asynchronous job that sleeps and fails is
taken up after some time.  Two layers retry it once each, and both give up. -/
theorem dispatch_sameWork_exhausted :
    let inner : Policy := { matcher := .all, wait := .fixed 10, limit := some 1 }
    let outer : Policy := { matcher := .all, wait := .function fun n => n.toNat, limit := some 1 }
    let failing : Invocation Unit := { ending := .failure (.plain "down"), sleeps := some 5 }
    let job : Job Unit := { operation := { async := true, payload := fun _ => failing } }
    let submitted := enqueue [outer, inner] .inline job 9 {}
    let dispatched := dispatchFrom .pooled 40 [outer, inner] .inline job 9 {}
    let e : DispatchError := .exhausted 2 (.exhausted 2 (.plain "down"))
    (∀ moment, ({} : Timeline).signal ≠ .due moment) ∧
      submitted.1 = .resolved (.error e) ∧ dispatched.2.SameDeeds submitted.2 ∧
      dispatched.2.calls = 4 ∧ dispatched.2.questions = [(0, 1)] ∧
      submitted.2.now = 41 ∧ dispatched.2.now = 81 ∧
      dispatched.2.saying "retried dispatch failed" = [dispatchEntry e] := by
  intro inner outer failing job submitted dispatched e
  have hsignal : ∀ moment, ({} : Timeline).signal ≠ .due moment := nofun
  obtain ⟨-, hsame, hfailed, -⟩ := dispatch_sameWork outer [inner] job 9 .pooled 40 hsignal
  exact ⟨hsignal, rfl, hsame, by decide, by decide, by decide, by decide, hfailed e rfl rfl⟩

/-! ## Inline, with nobody waiting -/

def Answer.panic? : Answer α → Option Panic
  | .unwound panic => some panic
  | _ => none

/-- What the inline dispatcher reports where a submission would come to the answer. -/
def inlineReport : Answer α → List Log.Entry
  | .resolved (.error (.cancelled .cooperative)) => [inlineEntry .cancelledByJob]
  | .resolved (.error (.cancelled _)) => []
  | .resolved (.error e) => [inlineEntry e.failure]
  | _ => []

theorem panic?_eq_some {answer : Answer α} {panic : Panic} (h : answer.panic? = some panic) :
    answer = .unwound panic := by
  cases answer with
  | unwound p => exact congrArg Answer.unwound (Option.some.inj h)
  | resolved r => cases h
  | unfinished => cases h

theorem dispatchInline_eq (job : Job α) (t : Timeline) :
    job.dispatchInline t =
      ((job.runInline t).1.panic?, (job.runInline t).2.log (inlineReport (job.runInline t).1)) := by
  rw [Job.dispatchInline, Job.runInline]
  cases job.signalled t with
  | true => rfl
  | false =>
    obtain ⟨ending, u⟩ := job.invoke true t
    cases ending with
    | value a => rfl
    | panic panic => rfl
    | failure f => cases f <;> rfl

theorem inlineReport_failed {e : DispatchError} (hkept : e.isCancelled = false) :
    inlineReport (α := α) (.resolved (.error e)) = [inlineEntry e.failure] := by
  cases e with
  | cancelled reason => cases hkept
  | operation cause => rfl
  | exhausted attempts last => rfl

theorem inlineReport_cancelled {answer : Answer α} (hother : answer ≠ .cancelled .cooperative)
    (h : ∀ e, answer = .resolved (.error e) → e.isCancelled = true) : inlineReport answer = [] := by
  cases answer with
  | resolved r =>
    cases r with
    | ok a => rfl
    | error e =>
      have hcancelled := h e rfl
      cases e with
      | cancelled reason =>
        cases reason with
        | cooperative => exact absurd rfl hother
        | signalled => rfl
        | fiberDisposed => rfl
        | abandoned => rfl
      | operation cause => cases hcancelled
      | exhausted attempts last => cases hcancelled
  | unwound panic => rfl
  | unfinished => rfl

/-- The inline dispatcher invokes a dispatched job as often as a submitted one, whoever
dispatches it and whenever it is carried out.  Where the submission would not come back as
cancelled by the job, its error is said to have failed the dispatch unless it is a
cancellation, and nothing is said without an error.  Where it would, the job's own failure
is said to have failed the dispatch all the same. -/
theorem dispatch_inline (job : Job α) (allowance : Nat) (caller : Caller) (waited : Millis)
    {t : Timeline} (hsignal : ∀ moment, t.signal ≠ .due moment) :
    let submitted := enqueue [] .inline job allowance t
    let dispatched := dispatchFrom caller waited [] .inline job allowance t
    let before := t.saying "inline dispatch failed"
    let said := dispatched.2.saying "inline dispatch failed"
    dispatched.2.SameDeeds submitted.2 ∧
      (∀ panic, dispatched.1 = some panic → submitted.1 = .unwound panic) ∧
      (submitted.1 ≠ .cancelled .cooperative →
        (∀ e, submitted.1 = .resolved (.error e) → e.isCancelled = false →
          said = before ++ [inlineEntry e.failure]) ∧
        ((∀ e, submitted.1 = .resolved (.error e) → e.isCancelled = true) → said = before)) ∧
      (submitted.1 = .cancelled .cooperative → said = before ++ [inlineEntry .cancelledByJob]) := by
  intro submitted dispatched before said
  have hunsaid : "inline dispatch failed" ∉ attemptMessages := by decide
  have hreported (f : Failure) :
      [inlineEntry f].filter (·.message = "inline dispatch failed") = [inlineEntry f] := by
    simp [inlineEntry]
  obtain ⟨hanswer, hsame, hsaid_eq⟩ :=
    enqueue_begunFrom [] job allowance caller waited hsignal hunsaid inlineReport
  have hdispatched_eq : dispatched =
      let detached := enqueue [] .inline job allowance (begunFrom caller waited [] .inline job t)
      (if job.operation.async then none else detached.1.panic?,
        detached.2.log (inlineReport detached.1)) := by
    show dispatchFrom caller waited [] .inline job allowance t = _
    rw [dispatchFrom, dispatch, dispatchInline_eq]
    rfl
  have hafter := congrArg Prod.snd hdispatched_eq
  have hsaid_eq : said = before ++
      (inlineReport submitted.1).filter (·.message = "inline dispatch failed") :=
    (congrArg (saying "inline dispatch failed") hafter).trans hsaid_eq
  refine ⟨?_, ?_, fun hother => ⟨?_, ?_⟩, ?_⟩
  · rw [hafter]
    exact hsame
  · intro panic hunwound
    rw [hdispatched_eq] at hunwound
    cases hblocking : job.operation.async with
    | true => simp [hblocking] at hunwound
    | false =>
      simp only [hblocking, Bool.false_eq_true, if_false] at hunwound
      exact hanswer.symm.trans (panic?_eq_some hunwound)
  · intro e hfailed hkept
    rw [hsaid_eq, hfailed, inlineReport_failed hkept, hreported]
  · intro hcancelled
    rw [hsaid_eq, inlineReport_cancelled hother hcancelled]
    exact List.append_nil _
  · intro hcooperative
    rw [hsaid_eq, hcooperative]
    exact congrArg (before ++ ·) (hreported .cancelledByJob)

/-- An asynchronous job that fails, dispatched by a fiber, fires the signal on its way: that
makes its failure no cancellation. -/
theorem dispatch_inline_fails :
    let failing : Invocation Unit := { ending := .failure (.plain "down"), fires := true }
    let job : Job Unit :=
      { operation := { async := true, payload := fun _ => failing }, listening := true }
    let submitted := enqueue [] .inline job 1 {}
    let dispatched := dispatchFrom .fiber 7 [] .inline job 1 {}
    let e : DispatchError := .operation (.plain "down")
    (∀ moment, ({} : Timeline).signal ≠ .due moment) ∧
      submitted.1 = .resolved (.error e) ∧ dispatched.2.SameDeeds submitted.2 ∧
      dispatched.2.calls = 1 ∧ dispatched.2.signal = .fired ∧
      dispatched.2.saying "inline dispatch failed" = [inlineEntry (.plain "down")] := by
  intro failing job submitted dispatched e
  have hsignal : ∀ moment, ({} : Timeline).signal ≠ .due moment := nofun
  obtain ⟨hsame, -, hsaid, -⟩ := dispatch_inline job 1 .fiber 7 hsignal
  have hother : submitted.1 ≠ .cancelled .cooperative := nofun
  exact ⟨hsignal, rfl, hsame, by decide, by decide, (hsaid hother).1 e rfl rfl⟩

/-- A job that says that it was cancelled comes back from a submission as cancelled.
Dispatched inline it is said to have failed, while neither a policy nor a fiber says so. -/
theorem not_dispatch_inline_cancelledByJob :
    let job : Job Unit :=
      { operation := { payload := fun _ => { ending := .failure .cancelledByJob } } }
    let p : Policy := { matcher := .all, limit := some 1 }
    let submitted := enqueue [] .inline job 1 {}
    let dispatched := dispatchFrom .plain 0 [] .inline job 1 {}
    submitted.1 = .cancelled .cooperative ∧
      dispatched.2.saying "inline dispatch failed" = [inlineEntry .cancelledByJob] ∧
      ¬ (dispatched.2.saying "inline dispatch failed" ≠ [] ↔
        ∃ e, submitted.1 = .resolved (.error e) ∧ e.isCancelled = false) ∧
      (dispatch [p] .inline job 1 {}).2.saying "retried dispatch failed" = [] ∧
      (dispatch [] .fiber job 1 {}).2.saying "unobserved work item failed" = [] := by
  intro job p submitted dispatched
  have hsaid : dispatched.2.saying "inline dispatch failed" = [inlineEntry .cancelledByJob] := by
    decide
  refine ⟨rfl, hsaid, fun hsame => ?_, by decide, by decide⟩
  obtain ⟨e, hfailed, hkept⟩ := hsame.mp (by simp [hsaid])
  obtain rfl : DispatchError.cancelled .cooperative = e :=
    Except.error.inj (Answer.resolved.inj hfailed)
  cases hkept

end Run
end Skein
