import Skein.Proofs.Run.Agreement
import Skein.Proofs.Run.Provenance

/-!
# A stack of policies as one loop

Policies that retry every failure do together what one of them does that has the
limits multiplied: each retry of an outer layer starts the attempts of the inner
one anew, and so the invocations of the payload follow one another as in a single
loop.  `enqueue_flattens` compares the two.

The loop is `Job.series`, which knows of no policy and no clock.  What a submission
to a stack comes to is read off it, `Flat`.  This takes a signal that does not fire
by itself, since the delays of the two runs differ.
-/

namespace Skein

def DispatchError.within : List UInt32 → Failure → DispatchError
  | [], f => .operation f
  | count :: rest, f => .exhausted count (f.within rest)

theorem DispatchError.failure_within (counts : List UInt32) (f : Failure) :
    (DispatchError.within counts f).failure = f.within counts := by
  cases counts <;> rfl

theorem DispatchError.isCancelled_within (counts : List UInt32) (f : Failure) :
    (DispatchError.within counts f).isCancelled = false := by
  cases counts <;> rfl

namespace Run

open Retry Timeline

variable {α : Type}

/-! ## Invocations one after the other -/

/-- What an invocation decides: a success, a cancellation, or nothing, so that the
payload is to be invoked again. -/
def Job.decision (job : Job α) (n : Nat) : Option (Resolution α) :=
  match (job.operation.payload n).ending.resolution with
  | .ok a => some (.ok a)
  | .error e =>
    if e.isCancelled then some (.error e)
    else if job.listening && (job.operation.payload n).fires then
      some (.error (.cancelled .signalled))
    else none

/-- What at most `m` invocations decide, from number `n` on, and the number of the
invocation that would be next. -/
def Job.series (job : Job α) : Nat → Nat → Option (Resolution α) × Nat
  | 0, n => (none, n)
  | m + 1, n =>
    match job.decision n with
    | some r => (some r, n + 1)
    | none => job.series m (n + 1)

section Series

variable {job : Job α} {m n n' : Nat} {r : Resolution α}

theorem decision_value {a : α} (h : (job.operation.payload n).ending = .value a) :
    job.decision n = some (.ok a) := by
  simp [Job.decision, h, Ending.resolution]

theorem decision_failure {f : Failure} (h : (job.operation.payload n).ending = .failure f) :
    job.decision n =
      if (DispatchError.ofJob f).isCancelled then some (.error (.ofJob f))
      else if job.listening && (job.operation.payload n).fires then
        some (.error (.cancelled .signalled))
      else none := by
  simp [Job.decision, h, Ending.resolution]

theorem series_one (job : Job α) (n : Nat) : job.series 1 n = (job.decision n, n + 1) := by
  unfold Job.series
  cases job.decision n <;> rfl

theorem decision_final (h : job.decision n = some r) :
    (∃ a, r = .ok a) ∨ ∃ reason, r = .error (.cancelled reason) := by
  unfold Job.decision at h
  cases hr : (job.operation.payload n).ending.resolution with
  | ok a =>
    rw [hr] at h
    injection h with h
    exact .inl ⟨a, h.symm⟩
  | error e =>
    rw [hr] at h
    simp only at h
    split at h
    next hcancelled =>
      injection h with h
      cases e with
      | cancelled reason => exact .inr ⟨reason, h.symm⟩
      | operation cause => cases hcancelled
      | exhausted count last => cases hcancelled
    next =>
      split at h
      · injection h with h
        exact .inr ⟨.signalled, h.symm⟩
      · cases h

theorem series_final (h : job.series m n = (some r, n')) :
    (∃ a, r = .ok a) ∨ ∃ reason, r = .error (.cancelled reason) := by
  induction m generalizing n with
  | zero => cases h
  | succ m ih =>
    unfold Job.series at h
    cases hd : job.decision n with
    | none =>
      rw [hd] at h
      exact ih h
    | some r' =>
      rw [hd] at h
      injection h with hr _
      injection hr with hr
      subst hr
      exact decision_final hd

/-- A decision stands, however many invocations might have followed. -/
theorem series_add_some (h : job.series m n = (some r, n')) (k : Nat) :
    job.series (m + k) n = (some r, n') := by
  induction m generalizing n with
  | zero => cases h
  | succ m ih =>
    rw [Nat.succ_add]
    unfold Job.series at h ⊢
    cases hd : job.decision n with
    | none =>
      rw [hd] at h
      exact ih h
    | some r' =>
      rw [hd] at h
      exact h

theorem series_add_none (h : job.series m n = (none, n')) (k : Nat) :
    job.series (m + k) n = job.series k n' := by
  induction m generalizing n with
  | zero =>
    injection h with _ hn
    rw [Nat.zero_add, ← hn]
  | succ m ih =>
    rw [Nat.succ_add]
    unfold Job.series at h
    rw [Job.series]
    cases hd : job.decision n with
    | none =>
      rw [hd] at h
      exact ih h
    | some r' =>
      rw [hd] at h
      cases h

theorem series_none (h : job.series m n = (none, n')) : n' = n + m := by
  induction m generalizing n with
  | zero =>
    injection h with _ hn
    exact hn.symm
  | succ m ih =>
    unfold Job.series at h
    cases hd : job.decision n with
    | none =>
      rw [hd] at h
      have := ih h
      omega
    | some r' =>
      rw [hd] at h
      cases h

end Series

/-! ## Signals that do not fire by themselves -/

/-- A signal that is listened to is not due. -/
def Steady (job : Job α) (t : Timeline) : Prop :=
  job.listening = true → t.Undue

section Steady

variable {job : Job α} {t : Timeline}

theorem signalled_of_listening (h : job.listening = true) (hsteady : Steady job t) :
    job.signalled t = (t.signal == .fired) := by
  rw [Job.signalled, h, Bool.true_and, fired_undue (hsteady h)]

theorem signalled_of_deaf (h : job.listening = false) (t : Timeline) : job.signalled t = false := by
  rw [Job.signalled, h, Bool.false_and]

theorem steady_congr {u : Timeline} (h : u.signal = t.signal) (hsteady : Steady job t) :
    Steady job u := by
  intro hlistening moment
  rw [h]
  exact hsteady hlistening moment

theorem signalled_congr {u : Timeline} (h : u.signal = t.signal) (hsteady : Steady job t) :
    job.signalled u = job.signalled t := by
  cases hlistening : job.listening with
  | false => rw [signalled_of_deaf hlistening, signalled_of_deaf hlistening]
  | true =>
    rw [signalled_of_listening hlistening hsteady,
      signalled_of_listening hlistening (steady_congr h hsteady), h]

/-- A pause goes on to its end unless the signal has fired before. -/
theorem pauseAfter_steady (hsteady : Steady job t) (hunsignalled : job.signalled t = false)
    (p : Policy) (depth : Nat) (attempt : UInt32) (e : DispatchError) :
    (pauseAfter p job.listening depth attempt e t).1 = false ∧
      Steady job (pauseAfter p job.listening depth attempt e t).2 ∧
      job.signalled (pauseAfter p job.listening depth attempt e t).2 = false := by
  cases hlistening : job.listening with
  | false =>
    refine ⟨pauseAfter_deaf p depth attempt e t, ?_, signalled_of_deaf hlistening _⟩
    intro h
    cases hlistening.symm.trans h
  | true =>
    have hannounced := signal_announceRetry p depth attempt e t
    have hsteady' : Steady job (announceRetry p depth attempt e t) :=
      steady_congr hannounced hsteady
    obtain ⟨hended, haccount⟩ := backoff_undue (hsteady' hlistening) true (p.wait.delay attempt)
    have hsignal : (pauseAfter p true depth attempt e t).2.signal = t.signal :=
      (congrArg Account.signal haccount).trans hannounced
    have hunfired : t.fired = false := by
      rw [Job.signalled, hlistening, Bool.true_and] at hunsignalled
      exact hunsignalled
    refine ⟨?_, steady_congr hsignal hsteady, ?_⟩
    · show ((announceRetry p depth attempt e t).backoff true (p.wait.delay attempt)).1 = false
      rw [hended, fired_announceRetry, hunfired]
      rfl
    · rw [signalled_congr hsignal hsteady]
      exact hunsignalled

/-- The payload alone can fire the signal while it is invoked. -/
theorem invoke_steady (hsteady : Steady job t) (hunsignalled : job.signalled t = false) :
    Steady job (job.invoke true t).2 ∧
      job.signalled (job.invoke true t).2 =
        (job.listening && (job.operation.payload t.calls).fires) := by
  cases hlistening : job.listening with
  | false =>
    refine ⟨?_, ?_⟩
    · intro h
      cases hlistening.symm.trans h
    · rw [signalled_of_deaf hlistening, Bool.false_and]
  | true =>
    have hsignal := signal_invoke job (hsteady hlistening) true
    rw [fires_invocation] at hsignal
    have hsteady' : Steady job (job.invoke true t).2 := by
      intro _ moment
      rw [hsignal]
      split
      · nofun
      · exact hsteady hlistening moment
    refine ⟨hsteady', ?_⟩
    rw [signalled_of_listening hlistening hsteady] at hunsignalled
    rw [signalled_of_listening hlistening hsteady', hsignal]
    cases (job.operation.payload t.calls).fires with
    | true => rfl
    | false => exact hunsignalled

end Steady

/-! ## Submissions -/

/-- What a submission comes to that allows for `m` invocations, from number `n` on:
what the series decides or, if it decides nothing, the failure of the last
invocation inside exhaustions.  Without a policy above it, an invocation that fires
the signal and fails has its failure reported; any policy makes a cancellation of
that. -/
inductive Flat (job : Job α) (m n : Nat) : List UInt32 → Answer α × Timeline → Prop
  | settled (counts : List UInt32) (r : Resolution α) (u : Timeline)
      (hseries : job.series m n = (some r, u.calls)) : Flat job m n counts (.resolved r, u)
  | interrupted (f : Failure) (u : Timeline)
      (hseries : job.series m n = (some (.error (.cancelled .signalled)), u.calls))
      (hsignalled : job.signalled u = true) :
      Flat job m n [] (.resolved (.error (.operation f)), u)
  | failed (counts : List UInt32) (f : Failure) (u : Timeline)
      (hseries : job.series m n = (none, u.calls))
      (hlast : (job.operation.payload (u.calls - 1)).ending = .failure f)
      (hsteady : Steady job u) (hunsignalled : job.signalled u = false) :
      Flat job m n counts (.resolved (.error (.within counts f)), u)

/-- A series that has decided nothing is gone on with. -/
theorem Flat.after {job : Job α} {m k n n' : Nat} {counts : List UInt32}
    {run : Answer α × Timeline} (h : Flat job k n' counts run)
    (hbefore : job.series m n = (none, n')) : Flat job (m + k) n counts run := by
  have hwhole := series_add_none hbefore k
  cases h with
  | settled _ r u hseries => exact .settled counts r u (hwhole.trans hseries)
  | interrupted f u hseries hsignalled => exact .interrupted f u (hwhole.trans hseries) hsignalled
  | failed _ f u hseries hlast hsteady hunsignalled =>
    exact .failed counts f u (hwhole.trans hseries) hlast hsteady hunsignalled

theorem Flat.log {job : Job α} {m n : Nat} {counts : List UInt32} {answer : Answer α}
    {u : Timeline} (h : Flat job m n counts (answer, u)) (entries : List Log.Entry) :
    Flat job m n counts (answer, u.log entries) := by
  have hcalls := calls_log u entries
  have hsignal := signal_log u entries
  cases h with
  | settled _ r _ hseries =>
    apply Flat.settled
    rw [hcalls]
    exact hseries
  | interrupted f _ hseries hsignalled =>
    apply Flat.interrupted
    · rw [hcalls]
      exact hseries
    · rw [Job.signalled, fired_log]
      exact hsignalled
  | failed _ f _ hseries hlast hsteady hunsignalled =>
    apply Flat.failed
    · rw [hcalls]
      exact hseries
    · rw [hcalls]
      exact hlast
    · exact steady_congr hsignal hsteady
    · rw [signalled_congr hsignal hsteady]
      exact hunsignalled

/-- Inline, a submission is an invocation. -/
theorem runInline_flat {job : Job α}
    (hpanicFree : ∀ n panic, (job.operation.payload n).ending ≠ .panic panic) {t : Timeline}
    (hsteady : Steady job t) (hunsignalled : job.signalled t = false) :
    Flat job 1 t.calls [] (job.runInline t) := by
  obtain ⟨hsteady', hsignalled⟩ := invoke_steady hsteady hunsignalled
  have hcalls := calls_invoke job true t
  obtain ⟨u, -, hinvoked, -⟩ := invoke_elapsed job true t
  rw [Job.runInline, hunsignalled, hinvoked]
  rw [hinvoked] at hsteady' hsignalled hcalls
  generalize u.record (.completed u.now) = v at hsteady' hsignalled hcalls
  have hseries := series_one job t.calls
  rw [← hcalls] at hseries
  rw [ending_invocation]
  cases hended : (job.operation.payload t.calls).ending with
  | panic panic => exact absurd hended (hpanicFree _ panic)
  | value a =>
    rw [decision_value hended] at hseries
    exact .settled [] _ v hseries
  | failure f =>
    rw [decision_failure hended] at hseries
    by_cases hcancelled : (DispatchError.ofJob f).isCancelled = true
    · rw [if_pos hcancelled] at hseries
      exact .settled [] _ v hseries
    have hkept : DispatchError.ofJob f = .operation f := by
      cases f with
      | cancelledByJob => exact absurd rfl hcancelled
      | _ => rfl
    rw [if_neg hcancelled] at hseries
    simp only [Bool.false_eq_true, if_false]
    rw [hkept]
    by_cases hfires : (job.listening && (job.operation.payload t.calls).fires) = true
    · rw [if_pos hfires] at hseries
      exact .interrupted f v hseries (hsignalled.trans hfires)
    · rw [if_neg hfires] at hseries
      refine .failed [] f v hseries ?_ hsteady' (hsignalled.trans (Bool.eq_false_iff.mpr hfires))
      rw [hcalls]
      exact hended

section Layer

variable {p : Policy} {job : Job α} {depth m : Nat} {inner : Dispatcher α} {counts : List UInt32}

/-- From attempt number `a` on there are `n - a + 1` attempts left, and each of them
is gone on with where the one before it left off. -/
theorem attempts_flat (hall : ∀ f, p.matcher.accepts f = true) {n : UInt32}
    (hlimited : p.limit = some n)
    (h : ∀ t, Steady job t → job.signalled t = false → Flat job m t.calls counts (inner t))
    (allowance : Nat) (a : UInt32) (t : Timeline) (hle : a.toNat ≤ n.toNat)
    (henough : n.toNat - a.toNat < allowance) (hsteady : Steady job t)
    (hunsignalled : job.signalled t = false) :
    Flat job ((n.toNat - a.toNat + 1) * m) t.calls (countOn n :: counts)
      (attempts p job depth inner allowance a t) := by
  induction allowance generalizing a t with
  | zero => exact absurd henough (Nat.not_lt_zero _)
  | succ allowance ih =>
    have hfirst := h t hsteady hunsignalled
    -- this attempt has the first `m` invocations, the attempts after it have the others
    have hsplit : (n.toNat - a.toNat + 1) * m = m + (n.toNat - a.toNat) * m := by
      rw [Nat.succ_mul, Nat.add_comm]
    rw [hsplit]
    generalize hgiven : inner t = run at hfirst
    cases hfirst with
    | settled _ r u hseries =>
      have hsettles : Settles p r := by
        rcases series_final hseries with ⟨a, rfl⟩ | ⟨reason, rfl⟩
        · trivial
        · exact .inl rfl
      rw [attempts_finish hunsignalled hgiven (judge_settled hsettles _ a)]
      exact (Flat.settled _ r u (series_add_some hseries _)).log _
    | interrupted f u hseries hsignalled =>
      have hverdict : judge (α := α) p (job.signalled u) a (.error (.operation f)) =
          .finish (.error (.cancelled .signalled)) := by
        simp [judge, DispatchError.isCancelled, hall, hsignalled]
      rw [attempts_finish hunsignalled hgiven hverdict]
      exact (Flat.settled _ _ u (series_add_some hseries _)).log _
    | failed _ f u hseries hlast hsteady' hunsignalled' =>
      have hkept := DispatchError.isCancelled_within counts f
      have hreached : p.limitReached a = decide (n.toNat ≤ a.toNat) := by
        simp [Policy.limitReached, hlimited, UInt32.le_iff_toNat_le]
      by_cases hout : n.toNat ≤ a.toNat
      · have hverdict : judge (α := α) p (job.signalled u) a (.error (.within counts f)) =
            .finish (.error (.within (countOn n :: counts) f)) := by
          obtain rfl : a = n := UInt32.toNat_inj.1 (Nat.le_antisymm hle hout)
          rw [hunsignalled', judge_exhausted hkept (hall _) (by rw [hreached, decide_eq_true hout]),
            DispatchError.intoCause_eq_failure, DispatchError.failure_within]
          rfl
        rw [attempts_finish hunsignalled hgiven hverdict]
        have hdone : n.toNat - a.toNat = 0 := by omega
        rw [hdone, Nat.zero_mul, Nat.add_zero]
        exact (Flat.failed _ f u hseries hlast hsteady' hunsignalled').log _
      · have hverdict : judge (α := α) p (job.signalled u) a (.error (.within counts f)) =
            .retry (.within counts f) := by
          rw [hunsignalled']
          exact judge_retry hkept (hall _) (by rw [hreached, decide_eq_false hout])
        obtain ⟨hpause, hsteady'', hunsignalled''⟩ :=
          pauseAfter_steady hsteady' hunsignalled' p depth a (.within counts f)
        rw [attempts_retry hunsignalled hgiven hverdict hpause]
        have hcounted : (countOn a).toNat = a.toNat + 1 :=
          toNat_countOn_below (Nat.lt_of_not_le hout)
        have hrest := ih (countOn a) _ (by omega) (by omega) hsteady'' hunsignalled''
        rw [gauge_calls.pause, hcounted] at hrest
        have hleft : n.toNat - (a.toNat + 1) + 1 = n.toNat - a.toNat := by omega
        rw [hleft] at hrest
        exact hrest.after hseries

end Layer

theorem submit_flat {job : Job α}
    (hpanicFree : ∀ n panic, (job.operation.payload n).ending ≠ .panic panic)
    {layers : List Policy} {limits : List UInt32}
    (hall : ∀ p ∈ layers, ∀ f, p.matcher.accepts f = true)
    (hlimited : layers.map Policy.limit = limits.map some) {allowance : Nat}
    (henough : ∀ n ∈ limits, n.toNat < allowance) (depth : Nat) (t : Timeline)
    (hsteady : Steady job t) (hunsignalled : job.signalled t = false) :
    Flat job (most limits) t.calls (limits.map countOn)
      (submit .inline job allowance depth layers t) := by
  induction layers generalizing limits depth t with
  | nil =>
    obtain rfl : limits = [] := by simpa using hlimited.symm
    exact runInline_flat hpanicFree (t := t.record (.given depth)) hsteady hunsignalled
  | cons p layers ih =>
    cases limits with
    | nil => cases hlimited
    | cons n limits =>
      injection hlimited with hfirst hrest
      rw [most_cons]
      refine attempts_flat (hall p List.mem_cons_self) hfirst ?_ allowance 0
        (t.record (.given depth))
        (Nat.zero_le _) (henough n List.mem_cons_self) hsteady hunsignalled
      exact ih (fun q hq => hall q (List.mem_cons_of_mem p hq)) hrest
        (fun k hk => henough k (List.mem_cons_of_mem n hk)) (depth + 1)

/-! ## The comparison -/

/-- Below one policy at least, what a submission comes to depends on the series
alone, but for the counts of the exhaustions. -/
theorem Flat.compare {job : Job α} {m n : Nat} {count count' : UInt32} {counts : List UInt32}
    {run run' : Answer α × Timeline} (h : Flat job m n (count :: counts) run)
    (h' : Flat job m n [count'] run') :
    ∃ r r' u u', run = (.resolved r, u) ∧ run' = (.resolved r', u') ∧ u.calls = u'.calls ∧
      ((r' = r ∧ ((∃ a, r = .ok a) ∨ ∃ reason, r = .error (.cancelled reason))) ∨
        ∃ f, u.calls = n + m ∧ (job.operation.payload (u.calls - 1)).ending = .failure f ∧
          r' = .error (.exhausted count' f) ∧ r = .error (.within (count :: counts) f)) := by
  cases h with
  | settled _ r u hseries =>
    cases h' with
    | settled _ r' u' hseries' =>
      have hboth := hseries.symm.trans hseries'
      injection hboth with hr hcalls
      injection hr with hr
      exact ⟨r, r', u, u', rfl, rfl, hcalls, .inl ⟨hr.symm, series_final hseries⟩⟩
    | failed _ f u' hseries' => cases hseries.symm.trans hseries'
  | failed _ f u hseries hfailed =>
    cases h' with
    | settled _ r' u' hseries' => cases hseries.symm.trans hseries'
    | failed _ f' u' hseries' hfailed' =>
      have hboth := hseries.symm.trans hseries'
      injection hboth with _ hcalls
      rw [← hcalls, hfailed] at hfailed'
      injection hfailed' with hf
      subst hf
      exact ⟨_, _, u, u', rfl, rfl, hcalls, .inr ⟨f, series_none hseries, hfailed, rfl, rfl⟩⟩

/-- A stack of policies that retry every failure, and the one policy that allows for
as many invocations: the payload is invoked as often, a success and a cancellation
come out the same, and where the one policy is exhausted, each layer of the stack
is, around the payload's last failure. -/
theorem enqueue_flattens {job : Job α}
    (hpanicFree : ∀ n panic, (job.operation.payload n).ending ≠ .panic panic)
    {layers : List Policy} {limits : List UInt32} {single : Policy} {last : UInt32}
    (hall : ∀ p ∈ single :: layers, ∀ f, p.matcher.accepts f = true) (hnonempty : layers ≠ [])
    (hlimited : layers.map Policy.limit = limits.map some) (hlimit : single.limit = some last)
    (hproduct : last.toNat + 1 = most limits) {allowance allowance' : Nat}
    (henough : ∀ n ∈ limits, n.toNat < allowance) (henough' : last.toNat < allowance')
    {t : Timeline} (hsignal : job.listening = true → ∀ moment, t.signal ≠ .due moment) :
    ∃ r r' u u', enqueue layers .inline job allowance t = (.resolved r, u) ∧
      enqueue [single] .inline job allowance' t = (.resolved r', u') ∧ u.calls = u'.calls ∧
      ((r' = r ∧ ((∃ a, r = .ok a) ∨ ∃ reason, r = .error (.cancelled reason))) ∨
        ∃ f counts, u.calls = t.calls + most limits ∧
          (job.operation.payload (u.calls - 1)).ending = .failure f ∧
          counts.map UInt32.toNat = limits.map (fun n => min (n.toNat + 1) (UInt32.size - 1)) ∧
          r' = .error (.exhausted (countOn last) f) ∧ r = .error (.within counts f)) := by
  obtain ⟨p, lower, rfl⟩ := List.exists_cons_of_ne_nil hnonempty
  cases limits with
  | nil => cases hlimited
  | cons n limits =>
    by_cases hsignalled : job.signalled t = true
    · obtain ⟨a, ha⟩ : ∃ a, allowance = a + 1 :=
        ⟨allowance - 1, by have := henough n List.mem_cons_self; omega⟩
      obtain ⟨a', ha'⟩ : ∃ a', allowance' = a' + 1 := ⟨allowance' - 1, by omega⟩
      subst ha ha'
      exact ⟨_, _, _, _, attempts_signalled (t := t.record (.given 0)) hsignalled,
        attempts_signalled (t := t.record (.given 0)) hsignalled, rfl, .inl ⟨rfl, .inr ⟨_, rfl⟩⟩⟩
    have hunsignalled : job.signalled t = false := Bool.eq_false_iff.mpr hsignalled
    have hstacked : Flat job (most (n :: limits)) t.calls ((n :: limits).map countOn)
        (enqueue (p :: lower) .inline job allowance t) :=
      submit_flat hpanicFree (fun q hq => hall q (List.mem_cons_of_mem _ hq)) hlimited henough 0 t
        hsignal hunsignalled
    have halone : Flat job (most [last]) t.calls ([last].map countOn)
        (enqueue [single] .inline job allowance' t) := by
      apply submit_flat hpanicFree
      · intro q hq
        rw [List.mem_singleton.mp hq]
        exact hall single List.mem_cons_self
      · rw [List.map_singleton, hlimit]
        rfl
      · simpa using henough'
      · exact hsignal
      · exact hunsignalled
    have hsame : most [last] = most (n :: limits) := by
      rw [← hproduct, most_cons]
      exact Nat.mul_one _
    rw [hsame] at halone
    obtain ⟨r, r', u, u', hcame, hcame', hcalls, hended⟩ := hstacked.compare halone
    refine ⟨r, r', u, u', hcame, hcame', hcalls, hended.imp_right ?_⟩
    rintro ⟨f, hall_made, hfailed, hsingle_ended, hnested⟩
    refine ⟨f, (n :: limits).map countOn, hall_made, hfailed, ?_, hsingle_ended, hnested⟩
    rw [List.map_map]
    apply List.map_congr_left
    intro k _
    exact toNat_countOn k

/-- Two layers with two and three attempts use up what the policy with six does. -/
theorem enqueue_flattens_sixAttempts :
    let inner : Policy := { matcher := .all, wait := .function fun n => n.toNat, limit := some 2 }
    let outer : Policy := { matcher := .all, wait := .fixed 10, limit := some 1 }
    let single : Policy := { matcher := .all, limit := some 5 }
    let f : Failure := .plain "down"
    let job : Job Unit :=
      { operation := { payload := fun _ => { ending := .failure f } }, listening := true }
    let t : Timeline := {}
    let stacked := enqueue [outer, inner] .inline job 3 t
    let alone := enqueue [single] .inline job 6 t
    (∀ n panic, (job.operation.payload n).ending ≠ .panic panic) ∧
      (∀ p ∈ [single, outer, inner], ∀ f, p.matcher.accepts f = true) ∧ [outer, inner] ≠ [] ∧
      [outer, inner].map Policy.limit = [1, 2].map some ∧ single.limit = some 5 ∧
      (5 : UInt32).toNat + 1 = most [1, 2] ∧ (∀ n ∈ ([1, 2] : List UInt32), n.toNat < 3) ∧
      (5 : UInt32).toNat < 6 ∧ (job.listening = true → ∀ moment, t.signal ≠ .due moment) ∧
      stacked.2.calls = alone.2.calls ∧ stacked.2.calls = 6 ∧
      alone.1 = .resolved (.error (.exhausted 6 f)) ∧
      ∃ counts, counts.map UInt32.toNat = [2, 3] ∧
        stacked.1 = .resolved (.error (.within counts f)) := by
  intro inner outer single f job t stacked alone
  have hpanicFree : ∀ n panic, (job.operation.payload n).ending ≠ .panic panic := nofun
  have hall : ∀ p ∈ [single, outer, inner], ∀ f, p.matcher.accepts f = true := by
    intro p hp f
    simp only [List.mem_cons, List.not_mem_nil, or_false] at hp
    rcases hp with rfl | rfl | rfl <;> exact Matcher.accepts_all f
  have hlimited : [outer, inner].map Policy.limit = [1, 2].map some := rfl
  have hproduct : (5 : UInt32).toNat + 1 = most [1, 2] := by decide
  have henough : ∀ n ∈ ([1, 2] : List UInt32), n.toNat < 3 := by simp
  have henough' : (5 : UInt32).toNat < 6 := by decide
  have hsignal : job.listening = true → ∀ moment, t.signal ≠ .due moment := nofun
  obtain ⟨r, r', u, u', hcame, hcame', hcalls, hended⟩ :=
    enqueue_flattens hpanicFree hall (List.cons_ne_nil outer [inner]) hlimited rfl hproduct henough
      henough' hsignal
  have hfirst : stacked = (.resolved r, u) := hcame
  have hsecond : alone = (.resolved r', u') := hcame'
  have hexhausted : alone.1 = .resolved (.error (.exhausted 6 f)) := rfl
  have hsix : stacked.2.calls = 6 := by decide
  refine ⟨hpanicFree, hall, List.cons_ne_nil _ _, hlimited, rfl, hproduct, henough, henough',
    hsignal, ?_, hsix, hexhausted, ?_⟩
  · rw [hfirst, hsecond]
    exact hcalls
  · have hanswered : r' = .error (.exhausted 6 f) := by
      rw [hsecond] at hexhausted
      injection hexhausted
    rcases hended with ⟨hsame, ⟨a, hvalue⟩ | ⟨reason, hcancelled⟩⟩ |
      ⟨f', counts, -, hfailed, hcounted, -, hnested⟩
    · rw [hanswered, hvalue] at hsame
      cases hsame
    · rw [hanswered, hcancelled] at hsame
      cases hsame
    · obtain rfl : f = f' := by
        injection hfailed
      refine ⟨counts, hcounted, ?_⟩
      rw [hfirst, hnested]

end Run
end Skein
