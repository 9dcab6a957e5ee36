import Skein.Proofs.Run.Attempt
import Skein.Proofs.Run.Invocation

/-!
# The whole run of a policy

The dispatcher below a policy is any dispatcher at all.  What it does in one run
is seen as the sequence of its answers, `r 0`, `r 1` and so on, where `r n`
answers submission number `n` if every attempt before it was retried.  Without a
signal, the run is decided by the least `i` at which it ends: the attempt is
settled, or it is the one that the limit still allows.  `attempts_wholeRun` says
what the run returns then, that it has made `i + 1` submissions, and that it
never returns if there is no such `i`.

The attempt counter has 32 bits and stays at its end; before attempt number `n`
it is `counter n`.
-/

namespace Skein
namespace Run

open Retry Timeline

variable {α : Type}

/-! ## The attempt counter -/

def counter (n : Nat) : UInt32 :=
  UInt32.ofNat (min n 4294967295)

theorem toNat_counter (n : Nat) : (counter n).toNat = min n 4294967295 := by
  unfold counter
  rw [UInt32.toNat_ofNat']
  omega

theorem countOn_counter (n : Nat) : countOn (counter n) = counter (n + 1) := by
  apply UInt32.toNat_inj.1
  rw [toNat_countOn, toNat_counter, toNat_counter]
  omega

/-- A limit is met exactly, as it has no more than 32 bits: the counter reaches
it at the attempt of that number. -/
theorem limitReached_counter (p : Policy) (n : Nat) :
    p.limitReached (counter n) = true ↔ ∃ most, p.limit = some most ∧ most.toNat ≤ n := by
  unfold Policy.limitReached
  cases p.limit with
  | none => simp
  | some most =>
    have hsmall := most.toNat_lt
    simp only [decide_eq_true_eq, Option.some.injEq, exists_eq_left', UInt32.le_iff_toNat_le,
      toNat_counter]
    omega

/-! ## The run as a sequence of answers -/

def Ends (p : Policy) (r : Nat → Resolution α) (i : Nat) : Prop :=
  Settles p (r i) ∨ ∃ most, p.limit = some most ∧ most.toNat = i

/-- The timeline on which attempt number `n` begins when every attempt before it
is retried. -/
def attemptStart (p : Policy) (depth : Nat) (inner : Dispatcher α) (t : Timeline) : Nat → Timeline
  | 0 => t
  | n + 1 =>
    match inner (attemptStart p depth inner t n) with
    | (.resolved (.error e), u) => (pauseAfter p false depth (counter n) e u).2
    | (_, u) => u

/-- The dispatcher answers the submissions of the run with `r 0`, `r 1` and so
on, as far as the run goes. -/
def Answers (p : Policy) (depth : Nat) (inner : Dispatcher α) (t : Timeline)
    (r : Nat → Resolution α) : Prop :=
  ∀ n, (∀ j, j < n → ¬ Ends p r j) → (inner (attemptStart p depth inner t n)).1 = .resolved (r n)

def Notes (inner : Dispatcher α) (depth : Nat) : Prop :=
  ∀ t, (inner t).2.givenTo depth = t.givenTo depth + 1

section Sequence

variable {p : Policy} {job : Job α} {depth : Nat} {inner : Dispatcher α} {t : Timeline}
  {r : Nat → Resolution α}

/-- As long as the run has not ended, the limit has not been reached. -/
theorem below_limit {n : Nat} (hgoing : ∀ j, j < n → ¬ Ends p r j) (h : ¬ Ends p r n) :
    p.limitReached (counter n) = false := by
  apply Bool.eq_false_iff.mpr
  intro hreached
  obtain ⟨most, hlimit, hle⟩ := (limitReached_counter p n).mp hreached
  rcases Nat.lt_or_eq_of_le hle with hlt | heq
  · exact hgoing most.toNat hlt (.inr ⟨most, hlimit, rfl⟩)
  · exact h (.inr ⟨most, hlimit, heq⟩)

/-- An attempt that is not the last leads to the next one. -/
theorem attempts_step (hunsignalled : job.listening = false)
    (hanswers : Answers p depth inner t r) {n : Nat}
    (hgoing : ∀ j, j < n → ¬ Ends p r j) (h : ¬ Ends p r n) (allowance : Nat) :
    attempts p job depth inner (allowance + 1) (counter n) (attemptStart p depth inner t n) =
      attempts p job depth inner allowance (counter (n + 1))
      (attemptStart p depth inner t (n + 1)) := by
  have hquiet (u : Timeline) : job.signalled u = false := by simp [Job.signalled, hunsignalled]
  obtain ⟨e, hfailed, hkept, haccepted⟩ := failure_of_not_settled fun hsettled => h (.inl hsettled)
  have hanswer := hanswers n hgoing
  rw [hfailed] at hanswer
  -- The dispatcher leaves some timeline behind, and the next attempt begins after the pause on it.
  obtain ⟨u, hgiven⟩ : ∃ u, inner (attemptStart p depth inner t n) = (.resolved (.error e), u) :=
    ⟨_, Prod.ext hanswer rfl⟩
  have hnext : attemptStart p depth inner t (n + 1) =
    (pauseAfter p false depth (counter n) e u).2 := by
    simp [attemptStart, hgiven]
  have hverdict : judge p (job.signalled u) (counter n) (.error e : Resolution α) = .retry e := by
    rw [hquiet]
    exact judge_retry hkept haccepted (below_limit hgoing h)
  rw [attempts_retry (hquiet _) hgiven hverdict
    (by rw [hunsignalled]; exact pauseAfter_deaf _ _ _ _ _), hunsignalled, hnext,
    countOn_counter]

/-- A run that does not end before attempt number `n` comes to it. -/
theorem attempts_reach (hunsignalled : job.listening = false)
    (hanswers : Answers p depth inner t r) (n : Nat)
    (hgoing : ∀ j, j < n → ¬ Ends p r j) (allowance : Nat) :
    attempts p job depth inner (n + allowance) 0 t =
      attempts p job depth inner allowance (counter n) (attemptStart p depth inner t n) := by
  induction n generalizing allowance with
  | zero =>
    rw [Nat.zero_add]
    rfl
  | succ n ih =>
    have hbefore : ∀ j, j < n → ¬ Ends p r j := fun j hj => hgoing j (Nat.lt_succ_of_lt hj)
    rw [Nat.succ_add_eq_add_succ, ih hbefore (allowance + 1),
      attempts_step hunsignalled hanswers hbefore (hgoing n (Nat.lt_succ_self n))]

/-- Each attempt that is retried has made one submission. -/
theorem givenTo_attemptStart (hnotes : Notes inner (depth + 1)) (n : Nat) :
    (attemptStart p depth inner t n).givenTo (depth + 1) = t.givenTo (depth + 1) + n := by
  induction n with
  | zero => rfl
  | succ n ih =>
    have hnoted := hnotes (attemptStart p depth inner t n)
    rw [ih] at hnoted
    unfold attemptStart
    split
    · next hgiven =>
      rw [hgiven] at hnoted
      rw [givenTo_pauseAfter, hnoted, Nat.add_assoc]
    · next hgiven =>
      rw [hgiven] at hnoted
      rw [hnoted, Nat.add_assoc]

end Sequence

/-! ## Stacks note their submissions -/

def submitOver (bottom : Dispatcher α) (job : Job α) (allowance : Nat) :
    Nat → List Policy → Dispatcher α
  | depth, [], t => bottom (t.record (.given depth))
  | depth, p :: layers, t =>
    attempts p job depth (submitOver bottom job allowance (depth + 1) layers) allowance 0
      (t.record (.given depth))

theorem submit_eq (base : Base) (job : Job α) (allowance depth : Nat) (layers : List Policy) :
    submit base job allowance depth layers =
      submitOver (base.enqueue job) job allowance depth layers := by
  induction layers generalizing depth with
  | nil => rfl
  | cons p layers ih =>
    funext t
    rw [submit, submitOver, ih]

section Notes

variable {bottom : Dispatcher α}

/-- A layer says nothing about those above it. -/
theorem givenTo_submitOver_above {d : Nat} (hsilent : ∀ t, (bottom t).2.givenTo d = t.givenTo d)
    (job : Job α) (allowance : Nat) (layers : List Policy) {depth : Nat} (h : d < depth)
    (t : Timeline) :
    (submitOver bottom job allowance depth layers t).2.givenTo d = t.givenTo d := by
  have hother : Event.given depth ≠ .given d := by
    intro hsame
    injection hsame with hsame
    omega
  induction layers generalizing depth t with
  | nil =>
    show (bottom (t.record (.given depth))).2.givenTo d = _
    rw [hsilent, givenTo_record, if_neg hother, Nat.add_zero]
  | cons p layers ih =>
    show (attempts p job depth
      (submitOver bottom job allowance (depth + 1) layers) allowance 0 _).2.givenTo d = _
    have hbelow : Event.given (depth + 1) ≠ .given d := by
      intro hsame
      injection hsame with hsame
      omega
    rw [attempts_keeps (gauge_givenTo d) fun u => ih (Nat.lt_succ_of_lt h) u hbelow, givenTo_record,
      if_neg hother, Nat.add_zero]

/-- Every stack notes each submission that it receives, and notes it once. -/
theorem submitOver_notes {depth : Nat}
    (hsilent : ∀ t, (bottom t).2.givenTo depth = t.givenTo depth) (job : Job α) (allowance : Nat)
    (layers : List Policy) : Notes (submitOver bottom job allowance depth layers) depth := by
  intro t
  have hnoted : (t.record (.given depth)).givenTo depth = t.givenTo depth + 1 := by
    rw [givenTo_record, if_pos rfl]
  cases layers with
  | nil =>
    show (bottom (t.record (.given depth))).2.givenTo depth = _
    rw [hsilent, hnoted]
  | cons p layers =>
    show (attempts p job depth
      (submitOver bottom job allowance (depth + 1) layers) allowance 0 _).2.givenTo depth = _
    rw [attempts_keeps (gauge_givenTo depth) fun u =>
      givenTo_submitOver_above hsilent job allowance layers (Nat.lt_succ_self depth) u, hnoted]

theorem submit_notes (base : Base) (job : Job α) (allowance : Nat) (layers : List Policy)
    (depth : Nat) :
    Notes (submit base job allowance depth layers) depth := by
  rw [submit_eq]
  exact submitOver_notes (fun t => givenTo_base base job t depth) job allowance layers

end Notes

/-! ## The whole run -/

/-- Without a signal, the least attempt `i` at which the run ends decides it.
The run then makes `i + 1` submissions and hands on a settled answer as it is;
any other answer is a failure that the matcher accepted, and it comes back
inside an exhaustion.  While there is no such attempt the run goes on, however
many submissions it is allowed. -/
theorem attempts_wholeRun {p : Policy} {job : Job α} {depth : Nat} {inner : Dispatcher α}
    {t : Timeline}
    {r : Nat → Resolution α} (hunsignalled : job.listening = false)
    (hnotes : Notes inner (depth + 1))
    (hanswers : Answers p depth inner t r) :
    (∀ i, Ends p r i → (∀ j, j < i → ¬ Ends p r j) → ∀ allowance, i < allowance →
      ∃ final u, attempts p job depth inner allowance 0 t = (.resolved final, u) ∧
        u.givenTo (depth + 1) = t.givenTo (depth + 1) + (i + 1) ∧
        (Settles p (r i) → final = r i) ∧
        (¬ Settles p (r i) → ∃ e count, r i = .error e ∧ p.matcher.accepts e.intoCause = true ∧
          count.toNat = min (i + 1) (UInt32.size - 1) ∧
          final = .error (.exhausted count e.intoCause))) ∧
    ∀ m, (∀ j, j < m → ¬ Ends p r j) →
      ∃ u, attempts p job depth inner m 0 t = (.unfinished, u) ∧
        u.givenTo (depth + 1) = t.givenTo (depth + 1) + m := by
  have hquiet (u : Timeline) : job.signalled u = false := by simp [Job.signalled, hunsignalled]
  constructor
  · intro i hends hgoing allowance henough
    obtain ⟨rest, rfl⟩ : ∃ rest, allowance = i + (rest + 1) := ⟨allowance - i - 1, by omega⟩
    rw [attempts_reach hunsignalled hanswers i hgoing (rest + 1)]
    obtain ⟨u, hgiven⟩ : ∃ u, inner (attemptStart p depth inner t i) = (.resolved (r i), u) :=
      ⟨_, Prod.ext (hanswers i hgoing) rfl⟩
    have hcount : u.givenTo (depth + 1) = t.givenTo (depth + 1) + (i + 1) := by
      have hnoted := hnotes (attemptStart p depth inner t i)
      rw [hgiven, givenTo_attemptStart hnotes] at hnoted
      exact hnoted
    by_cases hsettled : Settles p (r i)
    · have hverdict := judge_settled hsettled (job.signalled u) (counter i)
      refine ⟨_, _, attempts_finish (hquiet _) hgiven hverdict, ?_, fun _ => rfl,
        fun h => absurd hsettled h⟩
      rw [givenTo_log, hcount]
    · obtain ⟨e, hfailed, hkept, haccepted⟩ := failure_of_not_settled hsettled
      have hreached : p.limitReached (counter i) = true := by
        rcases hends with h | ⟨most, hlimit, hhere⟩
        · exact absurd h hsettled
        · exact (limitReached_counter p i).mpr ⟨most, hlimit, Nat.le_of_eq hhere⟩
      have hverdict : judge p (job.signalled u) (counter i) (r i) =
          .finish (.error (.exhausted (countOn (counter i)) e.intoCause)) := by
        rw [hfailed, hquiet]
        exact judge_exhausted hkept haccepted hreached
      refine ⟨_, _, attempts_finish (hquiet _) hgiven hverdict, ?_, fun h => absurd h hsettled,
        fun _ =>
        ⟨e, countOn (counter i), hfailed, ?_, ?_, rfl⟩⟩
      · rw [givenTo_log, hcount]
      · rw [DispatchError.intoCause_eq_failure, haccepted]
      · rw [countOn_counter]
        exact toNat_counter (i + 1)
  · intro m hgoing
    refine ⟨attemptStart p depth inner t m, ?_, givenTo_attemptStart hnotes m⟩
    exact attempts_reach hunsignalled hanswers m hgoing 0

/-- A job that always fails, and a policy that retries everything twice. -/
theorem attempts_wholeRun_twoRetries :
    let p : Policy := { matcher := .all, limit := some 2 }
    let job : Job Unit :=
      { operation := { payload := fun _ => { ending := .failure (.plain "down") } } }
    let inner : Dispatcher Unit := submit .inline job 1 1 []
    let r : Nat → Resolution Unit := fun _ => .error (.operation (.plain "down"))
    job.listening = false ∧ Notes inner 1 ∧ Answers p 0 inner {} r ∧ Ends p r 2 ∧
    (∀ j, j < 2 → ¬ Ends p r j) ∧
      ∃ final u, attempts p job 0 inner 3 0 {} = (.resolved final, u) ∧ u.givenTo 1 = 3 ∧
        ∃ e count, r 2 = .error e ∧ count.toNat = 3 ∧
        final = .error (.exhausted count e.intoCause) := by
  intro p job inner r
  have hunsettled (i : Nat) : ¬ Settles p (r i) := by
    simp [Settles, r, p, DispatchError.isCancelled]
  have hends : Ends p r 2 := .inr ⟨2, rfl, rfl⟩
  have hgoing : ∀ j, j < 2 → ¬ Ends p r j := by
    rintro j hj (hsettled | ⟨most, hlimit, hhere⟩)
    · exact hunsettled j hsettled
    · injection hlimit with hlimit
      subst hlimit
      exact absurd hhere (Nat.ne_of_gt hj)
  have hanswers : Answers p 0 inner {} r := fun n _ => rfl
  have hunsignalled : job.listening = false := rfl
  have hnotes : Notes inner 1 := submit_notes .inline job 1 [] 1
  obtain ⟨final, u, hrun, hcount, -, hexhausted⟩ :=
    (attempts_wholeRun hunsignalled hnotes hanswers).1 2 hends hgoing 3 (by decide)
  obtain ⟨e, number, hfailed, -, htimes, hlast⟩ := hexhausted (hunsettled 2)
  exact ⟨hunsignalled, hnotes, hanswers, hends, hgoing, final, u, hrun, hcount, e, number,
    hfailed, htimes, hlast⟩

end Run
end Skein
