import Skein.Proofs.Run.Accounting

/-!
# Where a failure comes from

A stack adds exhaustions to a failure and takes nothing away from it.  The
failure that comes out is the payload's own, inside one exhaustion for each layer
whose last submission ran out of retries: `enqueue_provenance`.  A search by kind
goes past the exhaustions, so every layer judges by the payload's failure.

Which layers those are is read off the run itself: `starts` lists the attempts
of a layer, and the last of them is where its last submission was decided.
-/

namespace Skein

namespace Failure

/-! ## Failures inside exhaustions -/

def within : List UInt32 → Failure → Failure
  | [], f => f
  | count :: rest, f => .exhausted count (within rest f)

def attempts? : Failure → Option UInt32
  | .exhausted count _ => some count
  | _ => none

/-- The chain is one exhaustion after the other, and then the chain of the
failure itself. -/
theorem chain_within (counts : List UInt32) (f : Failure) :
    ∃ outer, (f.within counts).chain = outer ++ f.chain ∧
      outer.map attempts? = counts.map some := by
  induction counts with
  | nil => exact ⟨[], rfl, rfl⟩
  | cons count rest ih =>
    obtain ⟨outer, hchain, hcounts⟩ := ih
    refine ⟨.exhausted count (f.within rest) :: outer, ?_, ?_⟩
    · rw [within, chain, hchain]
      rfl
    · rw [List.map_cons, hcounts]
      rfl

theorem text_within (counts : List UInt32) (f : Failure) :
    ∃ words, (f.within counts).text = words ++ f.text := by
  induction counts with
  | nil =>
    refine ⟨"", ?_⟩
    rw [within, String.empty_append]
  | cons count rest ih =>
    obtain ⟨words, htext⟩ := ih
    obtain ⟨front, hfront⟩ :
        ∃ front, (f.within (count :: rest)).text = front ++ (f.within rest).text := ⟨_, rfl⟩
    refine ⟨front ++ words, ?_⟩
    rw [hfront, htext, String.append_assoc]

/-- A search for anything but a dispatch error does not see the exhaustions. -/
theorem find?_within {kind : Kind} (h : kind ≠ .dispatch) (counts : List UInt32) (f : Failure) :
    (f.within counts).find? kind = f.find? kind := by
  induction counts with
  | nil => rfl
  | cons count rest ih =>
    have hother : decide ((Failure.exhausted count (f.within rest)).kind = kind) = false :=
      decide_eq_false h.symm
    rw [← ih]
    show List.find? _ (_ :: (f.within rest).chain) = _
    rw [List.find?_cons, hother]
    rfl

end Failure

theorem DispatchError.text_failure (e : DispatchError) :
    ∃ words, e.text = words ++ e.failure.text := by
  cases e with
  | operation cause => exact ⟨"operation failed: ", rfl⟩
  | cancelled reason => exact ⟨"", String.empty_append.symm⟩
  | exhausted count last => exact ⟨"", String.empty_append.symm⟩

namespace Run

open Retry Timeline

variable {α : Type}

/-! ## The attempts of a layer -/

def starts (p : Policy) (job : Job α) (depth : Nat) (inner : Dispatcher α) :
    Nat → UInt32 → Timeline → List (UInt32 × Timeline)
  | 0, _, _ => []
  | allowance + 1, n, t =>
    if job.signalled t then []
    else
      (n, t) ::
        match inner t with
        | (.resolved r, u) =>
          match judge p (job.signalled u) n r with
          | .finish _ => []
          | .retry e =>
            match pauseAfter p job.listening depth n e u with
            | (true, _) => []
            | (false, v) => starts p job depth inner allowance (countOn n) v
        | _ => []

section Starts

variable {p : Policy} {job : Job α} {depth : Nat} {inner : Dispatcher α} {allowance : Nat}
  {n : UInt32} {t u : Timeline}

theorem starts_signalled (h : job.signalled t = true) (allowance : Nat) :
    starts p job depth inner allowance n t = [] := by
  cases allowance <;> simp [starts, h]

/-- An attempt after which the run ends is the only one. -/
theorem starts_finish {r final : Resolution α} (h : job.signalled t = false)
    (hanswer : inner t = (.resolved r, u))
    (hverdict : judge p (job.signalled u) n r = .finish final) :
    starts p job depth inner (allowance + 1) n t = [(n, t)] := by
  simp [starts, h, hanswer, hverdict]

theorem starts_interrupted {r : Resolution α} {e : DispatchError} (h : job.signalled t = false)
    (hanswer : inner t = (.resolved r, u)) (hverdict : judge p (job.signalled u) n r = .retry e)
    (hpause : (pauseAfter p job.listening depth n e u).1 = true) :
    starts p job depth inner (allowance + 1) n t = [(n, t)] := by
  have hpaused : pauseAfter p job.listening depth n e u =
      (true, (pauseAfter p job.listening depth n e u).2) := Prod.ext hpause rfl
  rw [starts, h, hanswer]
  simp only [Bool.false_eq_true, if_false, hverdict]
  rw [hpaused]

theorem starts_retry {r : Resolution α} {e : DispatchError} (h : job.signalled t = false)
    (hanswer : inner t = (.resolved r, u)) (hverdict : judge p (job.signalled u) n r = .retry e)
    (hpause : (pauseAfter p job.listening depth n e u).1 = false) :
    starts p job depth inner (allowance + 1) n t =
      (n, t) :: starts p job depth inner allowance (countOn n)
        (pauseAfter p job.listening depth n e u).2 := by
  have hpaused : pauseAfter p job.listening depth n e u =
      (false, (pauseAfter p job.listening depth n e u).2) := Prod.ext hpause rfl
  rw [starts, h, hanswer]
  simp only [Bool.false_eq_true, if_false, hverdict]
  rw [hpaused]

theorem starts_unresolved {answer : Answer α} (h : job.signalled t = false)
    (hgiven : inner t = (answer, u)) (hunresolved : ∀ r, answer ≠ .resolved r) :
    starts p job depth inner (allowance + 1) n t = [(n, t)] := by
  cases answer with
  | resolved r => exact absurd rfl (hunresolved r)
  | unwound panic => simp [starts, h, hgiven]
  | unfinished => simp [starts, h, hgiven]

end Starts

def runsOut (p : Policy) (signalled : Bool) (n : UInt32) : Resolution α → Bool
  | .ok _ => false
  | .error e =>
    !e.isCancelled && p.matcher.accepts e.failure && !signalled && p.limitReached n

/-- The numbers of attempts of the layers whose last submission ended with them
out of retries, from the outside in. -/
def exhaustions (base : Base) (job : Job α) (allowance : Nat) :
    Nat → List Policy → Timeline → List UInt32
  | _, [], _ => []
  | depth, p :: layers, t =>
    let inner := submit base job allowance (depth + 1) layers
    match (starts p job depth inner allowance 0 (t.record (.given depth))).getLast? with
    | none => []
    | some (n, s) =>
      let below := exhaustions base job allowance (depth + 1) layers s
      match inner s with
      | (.resolved r, u) => if runsOut p (job.signalled u) n r then countOn n :: below else below
      | _ => below

theorem isCancelled_of_eq {reason : CancelReason} {e : DispatchError} {u w : Timeline}
    (h : (Answer.cancelled (α := α) reason, u) = (.resolved (.error e), w)) :
    e.isCancelled = true := by
  injection h with hanswer _
  injection hanswer with hanswer
  injection hanswer with hanswer
  rw [← hanswer]
  rfl

/-- A verdict that ends a run with an error which is no cancellation hands on the error
of the attempt, or makes it an exhaustion. -/
theorem finish_provenance {p : Policy} {signalled : Bool} {n : UInt32} {r : Resolution α}
    {e : DispatchError} (hkept : e.isCancelled = false)
    (h : judge p signalled n r = .finish (.error e)) :
    ∃ e', r = .error e' ∧ e'.isCancelled = false ∧
      (runsOut (α := α) p signalled n (.error e') = false ∧ e = e' ∨
        runsOut (α := α) p signalled n (.error e') = true ∧
          e = .exhausted (countOn n) e'.failure) := by
  have hjudged := judge_judged p signalled n r
  rw [h] at hjudged
  cases hjudged with
  | settled _ hsettles =>
    refine ⟨e, rfl, hkept, .inl ⟨?_, rfl⟩⟩
    rcases hsettles with hcancelled | hrejected
    · cases hkept.symm.trans hcancelled
    · simp [runsOut, hrejected]
  | signalled => cases hkept
  | exhausted e' hkept' haccepted hsilent hreached =>
    refine ⟨e', rfl, hkept', .inr ⟨?_, ?_⟩⟩
    · simp [runsOut, hkept', haccepted, hsilent, hreached]
    · rw [DispatchError.intoCause_eq_failure]

/-- A run that ends with an error which is no cancellation had that error from
its last attempt, or made it an exhaustion. -/
theorem attempts_last {p : Policy} {job : Job α} {depth : Nat} {inner : Dispatcher α}
    (hgrows : ∀ t, t.calls ≤ (inner t).2.calls) {allowance : Nat} {n : UInt32} {t w : Timeline}
    {e : DispatchError} (hkept : e.isCancelled = false)
    (h : attempts p job depth inner allowance n t = (.resolved (.error e), w)) :
    ∃ m s u e', (starts p job depth inner allowance n t).getLast? = some (m, s) ∧
      inner s = (.resolved (.error e'), u) ∧ t.calls ≤ s.calls ∧ e'.isCancelled = false ∧
      w.calls = u.calls ∧
      (runsOut (α := α) p (job.signalled u) m (.error e') = false ∧ e = e' ∨
        runsOut (α := α) p (job.signalled u) m (.error e') = true ∧
          e = .exhausted (countOn m) e'.failure) := by
  induction allowance generalizing n t with
  | zero => cases h
  | succ allowance ih =>
    cases hsignalled : job.signalled t with
    | true =>
      rw [attempts_signalled hsignalled] at h
      cases hkept.symm.trans (isCancelled_of_eq h)
    | false =>
      rcases hgiven : inner t with ⟨answer, u⟩
      cases answer with
      | resolved r =>
        cases hverdict : judge p (job.signalled u) n r with
        | finish final =>
          rw [attempts_finish hsignalled hgiven hverdict] at h
          cases h
          obtain ⟨e', rfl, hkept', hended⟩ := finish_provenance hkept hverdict
          refine ⟨n, t, u, e', ?_, hgiven, Nat.le_refl _, hkept', calls_log u _, hended⟩
          rw [starts_finish hsignalled hgiven hverdict]
          rfl
        | retry e' =>
          cases hpause : (pauseAfter p job.listening depth n e' u).1 with
          | true =>
            rw [attempts_interrupted hsignalled hgiven hverdict hpause] at h
            cases hkept.symm.trans (isCancelled_of_eq h)
          | false =>
            rw [attempts_retry hsignalled hgiven hverdict hpause] at h
            obtain ⟨m, s, u', e'', hlast, hcame, hlater, hrest⟩ := ih h
            rw [gauge_calls.pause] at hlater
            have hfirst := hgrows t
            rw [hgiven] at hfirst
            refine ⟨m, s, u', e'', ?_, hcame, Nat.le_trans hfirst hlater, hrest⟩
            rw [starts_retry hsignalled hgiven hverdict hpause]
            simp only [List.getLast?_cons, hlast, Option.getD_some]
      | unwound panic =>
        rw [attempts_unresolved hsignalled hgiven nofun] at h
        cases h
      | unfinished =>
        rw [attempts_unresolved hsignalled hgiven nofun] at h
        cases h

/-! ## Stacks -/

theorem submit_grows (base : Base) (job : Job α) (allowance depth : Nat) (layers : List Policy)
    (t : Timeline) : t.calls ≤ (submit base job allowance depth layers t).2.calls := by
  induction layers generalizing depth t with
  | nil =>
    show t.calls ≤ (base.enqueue job (t.record (.given depth))).2.calls
    have hinvoked (takesTime : Bool) :
        t.calls ≤ (job.invoke takesTime (t.record (.given depth))).2.calls := by
      rw [calls_invoke]
      exact Nat.le_succ t.calls
    cases base with
    | inline =>
      show t.calls ≤ (job.runInline _).2.calls
      unfold Job.runInline
      split
      · exact Nat.le_refl _
      · have hgrown := hinvoked true
        split <;> next hgiven => rwa [hgiven] at hgrown
    | fiber =>
      show t.calls ≤ (job.runOnFiber _).2.calls
      unfold Job.runOnFiber
      split
      · exact Nat.le_refl _
      · split
        · exact Nat.le_refl _
        · rw [calls_log]
          exact hinvoked false
  | cons p layers ih =>
    show (t.record (.given depth)).calls ≤ (attempts p job depth
      (submit base job allowance (depth + 1) layers) allowance 0 (t.record (.given depth))).2.calls
    exact attempts_ge gauge_calls (ih (depth + 1)) allowance 0 _

/-- Inline, a failure is what the invocation ended with. -/
theorem runInline_provenance {job : Job α} {t w : Timeline} {e : DispatchError}
    (hkept : e.isCancelled = false) (h : job.runInline t = (.resolved (.error e), w)) :
    w.calls = t.calls + 1 ∧
      ∃ f, (job.operation.payload t.calls).ending = .failure f ∧ e = .operation f := by
  by_cases hsignalled : job.signalled t = true
  · rw [Job.runInline, if_pos hsignalled] at h
    cases hkept.symm.trans (isCancelled_of_eq h)
  have hcalls := calls_invoke job true t
  obtain ⟨u, -, hinvoked, -⟩ := invoke_elapsed job true t
  rw [Job.runInline, if_neg hsignalled, hinvoked] at h
  rw [hinvoked] at hcalls
  rw [← ending_invocation]
  generalize (job.operation.invocation t.calls).ending = ending at h
  cases ending with
  | value a => cases h
  | panic panic => cases h
  | failure f =>
    injection h with hanswer hw
    injection hanswer with hanswer
    injection hanswer with hanswer
    subst hanswer hw
    refine ⟨hcalls, f, rfl, ?_⟩
    cases f with
    | cancelledByJob => cases hkept
    | _ => rfl

theorem submit_provenance {job : Job α} {allowance depth : Nat} {layers : List Policy}
    {t w : Timeline} {e : DispatchError} (hkept : e.isCancelled = false)
    (h : submit .inline job allowance depth layers t = (.resolved (.error e), w)) :
    ∃ n f, w.calls = n + 1 ∧ t.calls ≤ n ∧ (job.operation.payload n).ending = .failure f ∧
      e.failure = f.within (exhaustions .inline job allowance depth layers t) := by
  induction layers generalizing depth t w e with
  | nil =>
    obtain ⟨hcalls, f, hfailed, rfl⟩ := runInline_provenance hkept h
    exact ⟨t.calls, f, hcalls, Nat.le_refl _, hfailed, rfl⟩
  | cons p layers ih =>
    obtain ⟨m, s, u, e', hlast, hcame, hlater, hkept', hcalls, hended⟩ :=
      attempts_last (submit_grows .inline job allowance (depth + 1) layers) hkept h
    obtain ⟨n, f, hcalls', hbegan, hfailed, hwithin⟩ := ih hkept' hcame
    refine ⟨n, f, hcalls.trans hcalls', Nat.le_trans hlater hbegan, hfailed, ?_⟩
    rw [exhaustions]
    simp only [hlast, hcame]
    rcases hended with ⟨hpassed, rfl⟩ | ⟨hout, rfl⟩
    · rw [hpassed]
      exact hwithin
    · rw [hout, if_pos rfl]
      show Failure.exhausted _ e'.failure = _
      rw [hwithin]
      rfl

/-- A failure that is no cancellation leads to the payload's own: its chain is one
exhaustion for each layer whose last submission ran out of retries, from the
outside in, and then the chain of the failure with which the last invocation
ended.  Its words end with the words of that failure.  So a search for any kind
but that of dispatch errors finds the same in both, and a rule that asks for the
kind takes both or neither, at whatever layer it stands. -/
theorem enqueue_provenance {job : Job α} {layers : List Policy} {allowance : Nat} {t w : Timeline}
    {e : DispatchError} (h : enqueue layers .inline job allowance t = (.resolved (.error e), w))
    (hkept : e.isCancelled = false) :
    (∃ n f, w.calls = n + 1 ∧ t.calls ≤ n ∧ (job.operation.payload n).ending = .failure f ∧
      (∃ outer, e.failure.chain = outer ++ f.chain ∧
        outer.map Failure.attempts? =
          (exhaustions .inline job allowance 0 layers t).map some) ∧
      (∃ words, e.text = words ++ f.text) ∧
      ∀ kind, kind ≠ .dispatch → e.failure.find? kind = f.find? kind) ∧
    ∀ upper p lower, layers = upper ++ p :: lower → ∀ s v e',
      submit .inline job allowance (upper.length + 1) lower s = (.resolved (.error e'), v) →
      e'.isCancelled = false →
      ∃ n f, v.calls = n + 1 ∧ s.calls ≤ n ∧ (job.operation.payload n).ending = .failure f ∧
        ∀ kind, kind ≠ .dispatch →
          (Matcher.ofKind kind).accepts e'.failure = (Matcher.ofKind kind).accepts f := by
  constructor
  · obtain ⟨n, f, hcalls, hbegan, hfailed, hwithin⟩ := submit_provenance hkept h
    obtain ⟨front, hfront⟩ := e.text_failure
    obtain ⟨words, hwords⟩ :=
      Failure.text_within (exhaustions .inline job allowance 0 layers t) f
    refine ⟨n, f, hcalls, hbegan, hfailed, ?_, ⟨front ++ words, ?_⟩, ?_⟩
    · rw [hwithin]
      exact Failure.chain_within _ f
    · rw [hfront, hwithin, hwords, String.append_assoc]
    · intro kind hother
      rw [hwithin, Failure.find?_within hother]
  · intro upper p lower _ s v e' hcame hkept'
    obtain ⟨n, f, hcalls, hbegan, hfailed, hwithin⟩ := submit_provenance hkept' hcame
    refine ⟨n, f, hcalls, hbegan, hfailed, ?_⟩
    intro kind hother
    rw [Matcher.ofKind, Matcher.accepts_orKind, Matcher.accepts_orKind, hwithin,
      Failure.find?_within hother]
    rfl

/-- The inner layer gives up, the middle one rejects the exhaustion, and the outer
one gives up in its turn. -/
theorem enqueue_provenance_twoOfThree :
    let inner : Policy := { matcher := .all, wait := .fixed 10, limit := some 1 }
    let middle : Policy := { matcher := .ofKind .formatting, limit := some 4 }
    let outer : Policy := { matcher := .all, limit := some 0 }
    let f : Failure := .caused (.wrap "lost") (.reported (.timeout 30))
    let job : Job Unit := { operation := { payload := fun _ => { ending := .failure f } } }
    let layers := [outer, middle, inner]
    let e : DispatchError := .exhausted 1 (.exhausted 2 f)
    ∃ w, enqueue layers .inline job 5 {} = (.resolved (.error e), w) ∧ e.isCancelled = false ∧
      exhaustions .inline job 5 0 layers {} = [1, 2] ∧ w.calls = 2 ∧
      (∃ around, e.failure.chain = around ++ f.chain ∧
        around.map Failure.attempts? = [some 1, some 2]) ∧
      (∃ words, e.text = words ++ f.text) ∧
      ∀ kind, kind ≠ .dispatch → e.failure.find? kind = f.find? kind := by
  intro inner middle outer f job layers e
  have hkept : e.isCancelled = false := rfl
  have hcounts : exhaustions .inline job 5 0 layers {} = [1, 2] := by decide
  have hcalls : (enqueue layers .inline job 5 {}).2.calls = 2 := by decide
  have hcame : enqueue layers .inline job 5 {} =
      (.resolved (.error e), (enqueue layers .inline job 5 {}).2) := rfl
  obtain ⟨n, f', -, -, hfailed, hchain, hwords, hfound⟩ := (enqueue_provenance hcame hkept).1
  obtain rfl : f = f' := by
    injection hfailed
  rw [hcounts] at hchain
  exact ⟨_, hcame, hkept, hcounts, hcalls, hchain, hwords, hfound⟩

end Run
end Skein
