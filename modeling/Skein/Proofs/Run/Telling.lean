import Skein.Proofs.Run.Counting
import Skein.Run.Layer

/-!
# What the log of a policy tells

The log of one policy for one submission tells the run: a warning for each attempt that
is retried, in order, and at most one entry that closes it.  `Told` says so of a policy
at each of its stages, with the numbers that the entries give, and of each way in which
the run can end.  Every move keeps it, whenever the signal is fired, so it holds in
every run; and `attempts` makes the moves of such a run (`attempts_told`).

A policy whose matcher rejects an exhaustion of the dispatcher below hands it on and
reports nothing, so the result alone does not show what the log contains.

The numbers are right in runs of fewer than `2 ^ 32 - 1` attempts; `Counting` says what
is reported beyond.
-/

namespace Skein
namespace Run

open Retry Timeline

variable {α : Type}

/-! ## The entries -/

/-- The warning that attempt number `i` has failed and will be retried; attempts are
numbered from zero, and the entry counts them from one. -/
def retryWarning (p : Policy) (i : Nat) (e : DispatchError) : Log.Entry where
  level := .warn
  origin := .policy
  message := "attempt failed, retrying"
  fields := [("attempt", .count (i + 1)),
    ("delay_ms", .count (min (p.wait.delay (UInt32.ofNat i)) (UInt64.size - 1))),
    ("error", .text e.text)]

def limitWarning (attempts : Nat) (last : DispatchError) : Log.Entry where
  level := .warn
  origin := .policy
  message := "retry limit reached"
  fields := [("attempts", .count attempts), ("error", .text last.text)]

def successNote (attempts : Nat) : Log.Entry where
  level := .debug
  origin := .policy
  message := "operation succeeded after retry"
  fields := [("attempts", .count attempts)]

def retryWarnings (p : Policy) (errors : List DispatchError) : List Log.Entry :=
  errors.mapIdx (retryWarning p)

theorem counter_eq {i : Nat} (hsmall : i < UInt32.size) : counter i = UInt32.ofNat i := by
  have hinRange : min i 4294967295 = i := by
    simp only [UInt32.size] at hsmall
    omega
  rw [counter, hinRange]

/-- The number that an entry gives is right as long as it is in range. -/
theorem number_counter {i : Nat} (hsmall : i + 1 < UInt32.size) :
    (counter i + 1).toNat = i + 1 := by
  rw [toNat_counter_succ, if_pos (by omega)]

theorem retryingEntry_counter (p : Policy) {i : Nat} (hsmall : i + 1 < UInt32.size)
    (e : DispatchError) :
    retryingEntry (counter i) (p.wait.delay (counter i)) e = retryWarning p i e := by
  rw [retryingEntry, number_counter hsmall, counter_eq (Nat.lt_of_succ_lt hsmall), retryWarning]

theorem limitEntry_counter {i : Nat} (hsmall : i + 1 < UInt32.size) (e : DispatchError) :
    limitEntry (counter i) e = limitWarning (i + 1) e := by
  rw [limitEntry, number_counter hsmall, limitWarning]

theorem successEntry_counter {i : Nat} (hsmall : i + 1 < UInt32.size) :
    successEntry (counter i) = successNote (i + 1) := by
  rw [successEntry, number_counter hsmall, successNote]

theorem counter_eq_zero {i : Nat} : counter i = 0 ↔ i = 0 := by
  rw [← UInt32.toNat_inj, toNat_counter, UInt32.toNat_zero]
  omega

/-! ## What has been told at each stage -/

namespace Layer

/-- The answers are these errors, each of which was retried, and then `last`; the log
has the warnings about the errors and then `closing`. -/
structure Records (p : Policy) (s : Layer α) (errors : List DispatchError)
    (last : List (Resolution α)) (closing : List Log.Entry) : Prop where
  answers : s.answers = errors.map .error ++ last
  log : s.log = retryWarnings p errors ++ closing

/-- How a run can have ended, after the errors of the attempts that were retried: what it
came to, how often the job was submitted, and what closes the log. -/
inductive Ended (p : Policy) (listening : Bool) (s : Layer α) (errors : List DispatchError) :
    Resolution α → Prop
  /-- The signal has ended the last pause, or was found fired after it; with no pause, it
  had fired before the run. -/
  | stopped (hsubmissions : s.submissions = errors.length) (hrecords : Records p s errors [] [])
      (hheard : listening = true ∧ s.fired = true) :
      Ended p listening s errors (.error (.cancelled .signalled))
  | succeeded {a : α} (hsubmissions : s.submissions = errors.length + 1)
      (hrecords : Records p s errors [.ok a]
        (if errors = [] then [] else [successNote (errors.length + 1)])) :
      Ended p listening s errors (.ok a)
  /-- The limit is reached. -/
  | exhausted {e : DispatchError} {count : UInt32}
    (hsubmissions : s.submissions = errors.length + 1)
      (hrecords : Records p s errors [.error e] [limitWarning (errors.length + 1) e])
      (hkept : e.isCancelled = false) (haccepted : p.matcher.accepts e.failure = true)
      (hnumber : count.toNat = errors.length + 1) :
      Ended p listening s errors (.error (.exhausted count e.intoCause))
  /-- The last answer is a cancellation, or a failure that the matcher rejects. -/
  | handedOn {e : DispatchError} (hsubmissions : s.submissions = errors.length + 1)
      (hrecords : Records p s errors [.error e] [])
      (hsettled : e.isCancelled = true ∨ p.matcher.accepts e.failure = false) :
      Ended p listening s errors (.error e)
  /-- The signal was found fired after the last answer. -/
  | signalled {e : DispatchError} (hsubmissions : s.submissions = errors.length + 1)
      (hrecords : Records p s errors [.error e] []) (hheard : listening = true ∧ s.fired = true) :
      Ended p listening s errors (.error (.cancelled .signalled))

def Told (p : Policy) (listening : Bool) (s : Layer α) : Prop :=
  match s.stage with
  | .ready n => ∃ errors : List DispatchError, n = counter errors.length ∧
      s.submissions = errors.length ∧ Records p s errors [] []
  | .submitted n => ∃ errors : List DispatchError, n = counter errors.length ∧
      s.submissions = errors.length + 1 ∧ Records p s errors [] []
  | .pausing n => ∃ (errors : List DispatchError) (e : DispatchError), n = counter errors.length ∧
      s.submissions = errors.length + 1 ∧ Records p s (errors ++ [e]) [] []
  | .finished final => ∃ errors, Ended p listening s errors final

/-! ## One move -/

/-- All that a move can do. -/
inductive Moves (p : Policy) (listening : Bool) (s : Layer α) : Layer α → Prop
  | idle : Moves p listening s s
  | fire : Moves p listening s { s with fired := true }
  | stop {n : UInt32} (hstage : s.stage = .ready n ∨ s.stage = .pausing n)
      (hheard : listening = true ∧ s.fired = true) : Moves p listening s s.stop
  | submit {n : UInt32} (hstage : s.stage = .ready n) :
      Moves p listening s { s with stage := .submitted n, submissions := s.submissions + 1 }
  | finish {n : UInt32} {r final : Resolution α} (hstage : s.stage = .submitted n)
      (hverdict : judge p (listening && s.fired) n r = .finish final) :
      Moves p listening s
        { s with stage := .finished final
                 answers := s.answers ++ [r]
                 log := s.log ++ closingReport p (listening && s.fired) n r }
  | retry {n : UInt32} {r : Resolution α} {e : DispatchError} (hstage : s.stage = .submitted n)
      (hverdict : judge p (listening && s.fired) n r = .retry e) :
      Moves p listening s
        { s with stage := .pausing n
                 answers := s.answers ++ [r]
                 log := s.log ++ [retryingEntry n (p.wait.delay n) e] }
  | wake {n : UInt32} (hstage : s.stage = .pausing n) :
      Moves p listening s { s with stage := .ready (countOn n) }

theorem step_moves (p : Policy) (listening : Bool) (s : Layer α) (move : Move α) :
    Moves p listening s (s.step p listening move) := by
  have hheard (h : (listening && s.fired) = true) : listening = true ∧ s.fired = true :=
    (Bool.and_eq_true _ _).mp h
  cases hstage : s.stage with
  | ready n =>
    cases move with
    | fire => exact .fire
    | submit =>
      simp only [step, hstage]
      split
      · next h => exact .stop (.inl hstage) (hheard h)
      · exact .submit hstage
    | _ => simpa only [step, hstage] using .idle
  | submitted n =>
    cases move with
    | fire => exact .fire
    | answer r =>
      simp only [step, hstage, take]
      split
      · next hverdict => exact .finish hstage hverdict
      · next hverdict => exact .retry hstage hverdict
    | _ => simpa only [step, hstage] using .idle
  | pausing n =>
    cases move with
    | fire => exact .fire
    | wake =>
      simp only [step, hstage]
      split
      · next h => exact .stop (.inr hstage) (hheard h.2)
      · exact .wake hstage
    | interrupt =>
      simp only [step, hstage]
      split
      · next h => exact .stop (.inr hstage) (hheard h)
      · exact .idle
    | _ => simpa only [step, hstage] using .idle
  | finished final =>
    cases move with
    | fire => exact .fire
    | _ => simpa only [step, hstage] using .idle

section Told

variable {p : Policy} {listening : Bool} {s s' : Layer α}

theorem told_start (p : Policy) (listening fired : Bool) :
    Told (α := α) p listening { fired := fired } :=
  ⟨[], rfl, rfl, rfl, rfl⟩

/-- Submissions are not taken back. -/
theorem Moves.submissions_le (hmoves : Moves p listening s s') :
    s.submissions ≤ s'.submissions := by
  cases hmoves with
  | submit => exact Nat.le_succ _
  | _ => exact Nat.le_refl _

/-- Nothing but the signal has changed. -/
theorem Told.fire (htold : Told p listening s) : Told p listening { s with fired := true } := by
  unfold Told at htold ⊢
  cases hstage : s.stage with
  | ready n =>
    simp only [hstage] at htold ⊢
    obtain ⟨errors, hnumber, hsubmissions, hanswers, hlog⟩ := htold
    exact ⟨errors, hnumber, hsubmissions, hanswers, hlog⟩
  | submitted n =>
    simp only [hstage] at htold ⊢
    obtain ⟨errors, hnumber, hsubmissions, hanswers, hlog⟩ := htold
    exact ⟨errors, hnumber, hsubmissions, hanswers, hlog⟩
  | pausing n =>
    simp only [hstage] at htold ⊢
    obtain ⟨errors, e, hnumber, hsubmissions, hanswers, hlog⟩ := htold
    exact ⟨errors, e, hnumber, hsubmissions, hanswers, hlog⟩
  | finished final =>
    simp only [hstage] at htold ⊢
    obtain ⟨errors, hended⟩ := htold
    refine ⟨errors, ?_⟩
    cases hended with
    | stopped hsubmissions hrecords hheard =>
      exact .stopped hsubmissions ⟨hrecords.answers, hrecords.log⟩ ⟨hheard.1, rfl⟩
    | succeeded hsubmissions hrecords =>
      exact .succeeded hsubmissions ⟨hrecords.answers, hrecords.log⟩
    | exhausted hsubmissions hrecords hkept haccepted hnumber =>
      exact .exhausted hsubmissions ⟨hrecords.answers, hrecords.log⟩ hkept haccepted hnumber
    | handedOn hsubmissions hrecords hsettled =>
      exact .handedOn hsubmissions ⟨hrecords.answers, hrecords.log⟩ hsettled
    | signalled hsubmissions hrecords hheard =>
      exact .signalled hsubmissions ⟨hrecords.answers, hrecords.log⟩ ⟨hheard.1, rfl⟩

/-- A run that the signal stops before an attempt has told of every pause. -/
theorem Told.stop (htold : Told p listening s) {n : UInt32}
    (hstage : s.stage = .ready n ∨ s.stage = .pausing n)
    (hheard : listening = true ∧ s.fired = true) :
    Told p listening s.stop := by
  unfold Told at htold
  rcases hstage with hstage | hstage
  · simp only [hstage] at htold
    obtain ⟨errors, -, hsubmissions, hanswers, hlog⟩ := htold
    exact ⟨errors, .stopped hsubmissions ⟨hanswers, hlog⟩ hheard⟩
  · simp only [hstage] at htold
    obtain ⟨errors, e, -, hsubmissions, hanswers, hlog⟩ := htold
    refine ⟨errors ++ [e], .stopped ?_ ⟨hanswers, hlog⟩ hheard⟩
    rw [List.length_append]
    exact hsubmissions

/-- The last answer is reported by the number of its attempt. -/
theorem ended_finish {errors : List DispatchError} {r final : Resolution α}
    (hsubmissions : s.submissions = errors.length + 1) (hrecords : Records p s errors [] [])
    (hsmall : s.submissions < UInt32.size - 1)
    (hverdict : judge p (listening && s.fired) (counter errors.length) r = .finish final) :
    Ended p listening
      { s with stage := .finished final
               answers := s.answers ++ [r]
               log := s.log ++ closingReport p (listening && s.fired) (counter errors.length) r }
      errors final := by
  have hinRange : errors.length + 1 < UInt32.size := by omega
  have hanswers : s.answers ++ [r] = errors.map .error ++ [r] := by
    rw [hrecords.answers, List.append_nil]
  have hlog (entries : List Log.Entry) : s.log ++ entries = retryWarnings p errors ++ entries := by
    rw [hrecords.log, List.append_nil]
  have hjudged := judge_judged p (listening && s.fired) (counter errors.length) r
  rw [hverdict] at hjudged
  cases hjudged with
  | settled _ hsettled =>
    cases r with
    | ok a =>
      refine .succeeded hsubmissions ⟨hanswers, (hlog _).trans (congrArg _ ?_)⟩
      simp only [closingReport, counter_eq_zero, List.length_eq_zero_iff,
        successEntry_counter hinRange]
    | error e =>
      refine .handedOn hsubmissions ⟨hanswers, (hlog _).trans (congrArg _ ?_)⟩ hsettled
      rcases hsettled with hcancelled | hrejected
      · simp [closingReport, hcancelled]
      · simp [closingReport, hrejected]
  | signalled e hkept haccepted h =>
    refine .signalled hsubmissions ⟨hanswers, (hlog _).trans (congrArg _ ?_)⟩
      ((Bool.and_eq_true _ _).mp h)
    simp [closingReport, h]
  | exhausted e hkept haccepted h hreached =>
    refine .exhausted hsubmissions ⟨hanswers, (hlog _).trans (congrArg _ ?_)⟩ hkept haccepted ?_
    · simp [closingReport, hkept, haccepted, h, hreached, limitEntry_counter hinRange]
    · rw [countOn_counter, toNat_counter]
      simp only [UInt32.size] at hinRange
      omega

/-- An attempt that is retried is reported by its number. -/
theorem records_retry {errors : List DispatchError} {e : DispatchError}
    (hrecords : Records p s errors [] []) (hinRange : errors.length + 1 < UInt32.size)
    (stage : Stage α) :
    Records p
      { s with stage := stage
               answers := s.answers ++ [.error e]
               log := s.log ++
                [retryingEntry (counter errors.length) (p.wait.delay (counter errors.length)) e] }
      (errors ++ [e]) [] [] := by
  constructor
  · simp [hrecords.answers]
  · simp [hrecords.log, retryWarnings, retryingEntry_counter p hinRange]

/-- Every move keeps the log a tale of the run. -/
theorem Told.moves (htold : Told p listening s) (hmoves : Moves p listening s s')
    (hsmall : s'.submissions < UInt32.size - 1) : Told p listening s' := by
  cases hmoves with
  | idle => exact htold
  | fire => exact htold.fire
  | stop hstage hheard => exact htold.stop hstage hheard
  | submit hstage =>
    simp only [Told, hstage] at htold
    obtain ⟨errors, hnumber, hsubmissions, hanswers, hlog⟩ := htold
    exact ⟨errors, hnumber, congrArg (· + 1) hsubmissions, hanswers, hlog⟩
  | finish hstage hverdict =>
    simp only [Told, hstage] at htold
    obtain ⟨errors, rfl, hsubmissions, hrecords⟩ := htold
    exact ⟨errors, ended_finish hsubmissions hrecords hsmall hverdict⟩
  | retry hstage hverdict =>
    simp only [Told, hstage] at htold
    obtain ⟨errors, rfl, hsubmissions, hrecords⟩ := htold
    have hinRange : errors.length + 1 < UInt32.size := by
      simp only at hsmall
      omega
    have hjudged := judge_judged p (listening && s.fired) (counter errors.length) ‹Resolution α›
    rw [hverdict] at hjudged
    cases hjudged
    exact ⟨errors, _, rfl, hsubmissions, records_retry hrecords hinRange _⟩
  | wake hstage =>
    simp only [Told, hstage] at htold
    obtain ⟨errors, e, rfl, hsubmissions, hanswers, hlog⟩ := htold
    refine ⟨errors ++ [e], ?_, ?_, hanswers, hlog⟩
    · rw [countOn_counter, List.length_append]
      rfl
    · rw [List.length_append]
      exact hsubmissions

theorem submissions_le_run (p : Policy) (listening : Bool) (s : Layer α) (moves : List (Move α)) :
    s.submissions ≤ (s.run p listening moves).submissions := by
  induction moves generalizing s with
  | nil => exact Nat.le_refl _
  | cons move rest ih => exact Nat.le_trans (step_moves p listening s move).submissions_le (ih _)

theorem Told.run (htold : Told p listening s) (moves : List (Move α))
    (hsmall : (s.run p listening moves).submissions < UInt32.size - 1) :
    Told p listening (s.run p listening moves) := by
  induction moves generalizing s with
  | nil => exact htold
  | cons move rest ih =>
    have hbefore := submissions_le_run p listening (s.step p listening move) rest
    exact ih (htold.moves (step_moves p listening s move) (Nat.lt_of_le_of_lt hbefore hsmall))
      hsmall

end Told

end Layer

/-! ## The moves of a run -/

def Answer.resolution? : Answer α → Option (Resolution α)
  | .resolved r => some r
  | _ => none

namespace Layer

variable {p : Policy} {job : Job α} {depth allowance : Nat} {inner : Dispatcher α} {n : UInt32}
  {t : Timeline} {list : List (UInt32 × Timeline)} {run : Answer α × Timeline} {s s' : Layer α}

/-- From `s` to `s'` the policy has made the attempts of the list, and nothing else has
been submitted, answered or reported. -/
structure Made (p : Policy) (job : Job α) (depth : Nat) (inner : Dispatcher α) (s s' : Layer α)
    (list : List (UInt32 × Timeline)) : Prop where
  submissions : s'.submissions = s.submissions + list.length
  answers : s'.answers = s.answers ++ list.filterMap fun a => (inner a.2).1.resolution?
  log : s'.log = s.log ++ list.flatMap (reports p job depth inner)

theorem Made.none (stage : Stage α) (fired : Bool) :
    Made p job depth inner s { s with stage := stage, fired := fired } [] :=
  ⟨rfl, (List.append_nil _).symm, (List.append_nil _).symm⟩

theorem Made.cons {a : UInt32 × Timeline} {middle : Layer α}
    (hfirst : Made p job depth inner s middle [a]) (hrest : Made p job depth inner middle s' list) :
    Made p job depth inner s s' (a :: list) where
  submissions := by
    rw [hrest.submissions, hfirst.submissions, List.length_singleton, List.length_cons]
    omega
  answers := by
    rw [hrest.answers, hfirst.answers, List.append_assoc, ← List.filterMap_append]
    rfl
  log := by
    rw [hrest.log, hfirst.log, List.append_assoc, ← List.flatMap_append]
    rfl

/-- A submission that is answered, with the signal fired meanwhile if it is found fired
then. -/
theorem run_answered (hready : s.stage = .ready n) (hunfired : s.fired = false)
    {signalled : Bool} (hlistens : signalled = true → job.listening = true) (r : Resolution α) :
    ∃ moves middle, s.run p job.listening moves = middle.take p signalled n r ∧
      middle = { s with stage := .submitted n, submissions := s.submissions + 1
                        fired := signalled } := by
  cases signalled with
  | false => exact ⟨[.submit, .answer r], _, by simp [step, hready, hunfired], rfl⟩
  | true =>
    have hlistening := hlistens rfl
    exact ⟨[.submit, .fire, .answer r], _, by simp [step, hready, hunfired, hlistening], rfl⟩

theorem made_finish (depth : Nat) {u : Timeline} {r final : Resolution α}
    (hanswer : inner t = (.resolved r, u))
    (hverdict : judge p (job.signalled u) n r = .finish final) (hready : s.stage = .ready n)
    (hunfired : s.fired = false) :
    ∃ moves, (s.run p job.listening moves).stage = .finished final ∧
      Made p job depth inner s (s.run p job.listening moves) [(n, t)] := by
  have hlistens : job.signalled u = true → job.listening = true :=
    fun h => ((Bool.and_eq_true _ _).mp h).1
  obtain ⟨moves, middle, hafter, rfl⟩ := run_answered (p := p) hready hunfired hlistens r
  refine ⟨moves, ?_⟩
  rw [hafter, take, hverdict]
  refine ⟨rfl, rfl, ?_, ?_⟩
  · simp [hanswer, Answer.resolution?]
  · simp only [List.flatMap_singleton, reports, remarks_finish hanswer hverdict, entry?_logged]

/-- An answer that is retried was given before the signal was fired. -/
theorem made_retry (depth : Nat) {u : Timeline} {r : Resolution α} {e : DispatchError}
    (hanswer : inner t = (.resolved r, u)) (hverdict : judge p (job.signalled u) n r = .retry e)
    (hready : s.stage = .ready n) (hunfired : s.fired = false) :
    ∃ moves, (s.run p job.listening moves).stage = .pausing n ∧
      (s.run p job.listening moves).fired = false ∧
      Made p job depth inner s (s.run p job.listening moves) [(n, t)] := by
  have hquiet : job.signalled u = false := by
    have hjudged := judge_judged p (job.signalled u) n r
    rw [hverdict] at hjudged
    cases hjudged
    assumption
  have hlistens : job.signalled u = true → job.listening = true :=
    fun h => ((Bool.and_eq_true _ _).mp h).1
  obtain ⟨moves, middle, hafter, rfl⟩ := run_answered (p := p) hready hunfired hlistens r
  refine ⟨moves, ?_⟩
  rw [hafter, take, hverdict]
  refine ⟨rfl, hquiet, rfl, ?_, ?_⟩
  · simp [hanswer, Answer.resolution?]
  · simp only [List.flatMap_singleton, reports, remarks_retry hanswer hverdict,
      entry?_retryEvents]

/-- The attempts of a run are the moves of a policy among others, where the signal is
fired just before the policy finds it fired. -/
theorem moves_of_succession (hsuccession : Succession p job depth inner allowance n t list run)
    (hready : s.stage = .ready n) (hunfired : s.fired = false) :
    ∃ moves, (∀ final, run.1 = .resolved final →
        (s.run p job.listening moves).stage = .finished final) ∧
      Made p job depth inner s (s.run p job.listening moves) list := by
  induction hsuccession generalizing s with
  | spent => exact ⟨[], nofun, .none s.stage s.fired⟩
  | signalled h =>
    -- The timeline has fired the signal earlier; the policy cannot tell.
    have hlistening := ((Bool.and_eq_true _ _).mp h).1
    refine ⟨[.fire, .submit], ?_⟩
    have hafter : s.run p job.listening [.fire, .submit] = { s.stop with fired := true } := by
      simp [step, hready, hlistening, stop]
    rw [hafter]
    refine ⟨?_, .none _ true⟩
    rintro final ⟨⟩
    rfl
  | finish _ hanswer hverdict =>
    obtain ⟨moves, hstage, hmade⟩ := made_finish depth hanswer hverdict hready hunfired
    refine ⟨moves, ?_, hmade⟩
    rintro final ⟨⟩
    exact hstage
  | interrupted h hanswer hverdict hpause =>
    obtain ⟨moves, hpausing, hquiet, hmade⟩ := made_retry depth hanswer hverdict hready hunfired
    have hlistening : job.listening = true := by
      by_contra hdeaf
      rw [Bool.eq_false_iff.mpr hdeaf, pauseAfter_deaf] at hpause
      cases hpause
    refine ⟨moves ++ [.fire, .interrupt], ?_⟩
    rw [run_append]
    generalize s.run p job.listening moves = middle at hpausing hmade
    have hafter : middle.run p job.listening [.fire, .interrupt] =
        { middle.stop with fired := true } := by
      simp [step, hpausing, hlistening, stop]
    rw [hafter]
    refine ⟨?_, hmade.cons (.none _ true)⟩
    rintro final ⟨⟩
    rfl
  | @retry _ n _ _ _ _ _ _ h hanswer hverdict hpause hrest ih =>
    obtain ⟨moves, hpausing, hquiet, hmade⟩ := made_retry depth hanswer hverdict hready hunfired
    generalize hafter : s.run p job.listening moves = middle at hpausing hquiet hmade
    obtain ⟨later, hstage, hmade'⟩ :=
      ih (s := { middle with stage := .ready (countOn n) }) rfl hquiet
    refine ⟨moves ++ .wake :: later, ?_⟩
    have hwoken : middle.step p job.listening .wake =
        { middle with stage := .ready (countOn n) } := by
      simp [step, hpausing, hquiet]
    rw [run_append, hafter, run_cons, hwoken]
    exact ⟨hstage, hmade.cons ⟨hmade'.submissions, hmade'.answers, hmade'.log⟩⟩
  | @unresolved _ n _ _ _ h hgiven hunresolved =>
    refine ⟨[.submit], ?_⟩
    have hafter : s.run p job.listening [.submit] =
        { s with stage := .submitted n, submissions := s.submissions + 1 } := by
      simp [step, hready, hunfired]
    rw [hafter]
    refine ⟨fun final hresolved => absurd hresolved (hunresolved final), rfl, ?_, ?_⟩
    · have hnothing := hunresolved
      simp only [hgiven, List.filterMap_cons, List.filterMap_nil]
      cases ‹Answer α› with
      | resolved r => exact absurd rfl (hnothing r)
      | unwound panic => simp [Answer.resolution?]
      | unfinished => simp [Answer.resolution?]
    · simp [reports, remarks_unresolved hgiven hunresolved]

end Layer

/-- The dispatcher below has noted a submission for each attempt. -/
theorem Succession.given {p : Policy} {job : Job α} {depth allowance : Nat} {inner : Dispatcher α}
    {n : UInt32} {t : Timeline} {list : List (UInt32 × Timeline)} {run : Answer α × Timeline}
    (hnotes : Notes inner (depth + 1))
    (hsuccession : Succession p job depth inner allowance n t list run) :
    run.2.givenTo (depth + 1) = t.givenTo (depth + 1) + list.length := by
  have hnoted {s u : Timeline} {answer : Answer α} (hgiven : inner s = (answer, u)) :
      u.givenTo (depth + 1) = s.givenTo (depth + 1) + 1 := by
    rw [← hnotes s, hgiven]
  induction hsuccession with
  | spent => rfl
  | signalled => rfl
  | finish _ hanswer _ =>
    rw [givenTo_log, hnoted hanswer]
    rfl
  | interrupted _ hanswer _ _ =>
    rw [givenTo_pauseAfter, hnoted hanswer]
    rfl
  | retry _ hanswer _ _ _ ih =>
    rw [ih, givenTo_pauseAfter, hnoted hanswer, List.length_cons]
    omega
  | unresolved _ hgiven _ =>
    rw [hnoted hgiven]
    rfl

/-! ## The whole log -/

/-- However the signal and the dispatcher below behave, the log of a policy has told its
run at each stage of it, and in particular when it is over (`Layer.Ended`): each attempt
that was retried, with its number, its delay and its error, and then the entry that
closes the run, if there is one.

The attempts of a run are the moves of such a policy.  It has submitted as often as the
dispatcher below has noted, and been answered as that dispatcher answers; what it has
reported is what the log of the run contains besides the entries of the dispatcher
below; and the run is resolved as the policy ends. -/
theorem attempts_told (p : Policy) :
    (∀ (listening fired : Bool) (moves : List (Move α)),
      let s := Layer.run p listening { fired := fired } moves
      s.submissions < UInt32.size - 1 → Layer.Told p listening s) ∧
    ∀ (job : Job α) (depth : Nat) (inner : Dispatcher α) (below : Timeline → List Log.Entry),
      (∀ s, (inner s).2.entries = s.entries ++ below s) → Notes inner (depth + 1) →
      ∀ (allowance : Nat) (t : Timeline),
        let runs := starts p job depth inner allowance 0 t
        let run := attempts p job depth inner allowance 0 t
        ∃ moves : List (Move α), let s := Layer.run p job.listening {} moves
          run.2.entries =
            t.entries ++ runs.flatMap (fun a => below a.2 ++ reports p job depth inner a) ∧
          s.log = runs.flatMap (reports p job depth inner) ∧
          s.answers = runs.filterMap (fun a => (inner a.2).1.resolution?) ∧
          run.2.givenTo (depth + 1) = t.givenTo (depth + 1) + s.submissions ∧
          ∀ final, run.1 = .resolved final → s.stage = .finished final := by
  refine ⟨?_, ?_⟩
  · intro listening fired moves s hsmall
    exact (Layer.told_start p listening fired).run moves hsmall
  · intro job depth inner below hlogs hnotes allowance t runs run
    have hsuccession := attempts_succession p job depth inner allowance 0 t
    obtain ⟨moves, hstage, hmade⟩ := Layer.moves_of_succession (s := {}) hsuccession rfl rfl
    have hsubmissions : (Layer.run p job.listening {} moves).submissions = runs.length :=
      hmade.submissions.trans (Nat.zero_add _)
    refine ⟨moves, ?_, hmade.log, hmade.answers, ?_, hstage⟩
    · exact attempts_read (fun _ => rfl) hlogs allowance 0 t
    · rw [hsubmissions]
      exact hsuccession.given hnotes

/-- The signal is fired while the policy waits after its first attempt: the log tells of
a retry that is never made, and there was one submission. -/
theorem attempts_told_lateSignal :
    let p : Policy := { matcher := .all, wait := .fixed 10, limit := none }
    let e : DispatchError := .operation (.plain "down")
    let moves : List (Move Unit) := [.submit, .answer (.error e), .fire, .wake, .submit]
    let s := Layer.run p true { fired := false } moves
    s.submissions = 1 ∧ s.submissions < UInt32.size - 1 ∧ Layer.Told p true s ∧
      s.log = [retryWarning p 0 e] ∧
    let job : Job Unit :=
      { operation := { payload := fun _ => { ending := .failure (.plain "down") } } }
    let inner := submit .inline job 1 1 []
    (∀ t, (inner t).2.entries = t.entries ++ []) ∧ Notes inner 1 ∧
      ∃ moves : List (Move Unit), let s := Layer.run p job.listening {} moves
        (attempts p job 0 inner 2 0 {}).2.entries = s.log ∧ s.submissions = 2 := by
  intro p e moves s
  have honce : s.submissions = 1 := rfl
  have hsmall : s.submissions < UInt32.size - 1 := by
    rw [honce]
    decide
  refine ⟨honce, hsmall, (attempts_told p).1 true false moves hsmall, rfl, ?_⟩
  intro job inner
  have hlogs : ∀ t, (inner t).2.entries = t.entries ++ [] := by
    intro t
    rw [entries_eq_read, entries_eq_read]
    exact read_inline (fun _ => rfl) (fun _ => rfl) rfl 1 1 t
  have hnotes : Notes inner 1 := submit_notes .inline job 1 [] 1
  obtain ⟨moves, hentries, hlog, -, hgiven, -⟩ :=
    (attempts_told p).2 job 0 inner (fun _ => []) hlogs hnotes 2 {}
  refine ⟨hlogs, hnotes, moves, ?_, ?_⟩
  · rw [hentries, hlog]
    rfl
  · have htwice : (attempts p job 0 inner 2 0 {}).2.givenTo 1 = 2 := by decide
    have hnone : (({} : Timeline).givenTo 1) = 0 := rfl
    rw [htwice, hnone] at hgiven
    omega

/-- A policy that matches nothing hands on the exhaustion of the policy below it: the
result is an exhaustion, and the policy itself has reported nothing, neither of a retry
nor of a limit. -/
theorem not_attempts_told_handedOn :
    let p : Policy := { matcher := .none, limit := some 0 }
    let q : Policy := { matcher := .all, limit := some 0 }
    let job : Job Unit :=
      { operation := { payload := fun _ => { ending := .failure (.plain "transient") } } }
    let inner := submit .inline job 1 1 [q]
    let last : DispatchError := .exhausted 1 (.plain "transient")
    (attempts p job 0 inner 1 0 {}).1 = .resolved (.error last) ∧
      (starts p job 0 inner 1 0 {}).flatMap (reports p job 0 inner) = [] ∧
      ¬ ∃ errors, (starts p job 0 inner 1 0 {}).flatMap (reports p job 0 inner) =
        retryWarnings p errors ++ [limitWarning (errors.length + 1) last] := by
  intro p q job inner last
  have hsilent : (starts p job 0 inner 1 0 {}).flatMap (reports p job 0 inner) = [] := by decide
  refine ⟨rfl, hsilent, ?_⟩
  rintro ⟨errors, htold⟩
  rw [hsilent] at htold
  exact absurd htold.symm (List.append_ne_nil_of_right_ne_nil _ (List.cons_ne_nil _ _))

end Run
end Skein
