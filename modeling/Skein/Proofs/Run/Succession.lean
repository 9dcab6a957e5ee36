import Mathlib.Data.List.Chain
import Skein.Proofs.Run.Provenance

/-!
# The attempts of a layer, one after the other

`starts` lists the attempts that a layer makes.  `Succession` ties the list to what comes
of the run: it has a case for each way in which an attempt can come out, and what is
proved by induction on it holds of the attempts and of the result at once.

Two things are read off.  Each attempt follows from the one before it, which was
judged to be retried and whose pause has passed (`starts_chain`), so that what is
known of the first attempt and kept from one to the next is known of attempt number
`i` (`starts_induct`).  And the story of the run is made of what the dispatcher below
notes in each attempt and what the layer itself remarks on it (`attempts_read`).
-/

namespace Skein
namespace Run

open Retry Timeline

variable {α β : Type}

/-! ## The succession of attempts -/

/-- Within so many submissions, the layer makes the attempts of the list from attempt
number `n` on, and the run comes to the result. -/
inductive Succession (p : Policy) (job : Job α) (depth : Nat) (inner : Dispatcher α) :
    Nat → UInt32 → Timeline → List (UInt32 × Timeline) → Answer α × Timeline → Prop
  /-- The submissions that were allowed for have been made. -/
  | spent (n : UInt32) (t : Timeline) : Succession p job depth inner 0 n t [] (.unfinished, t)
  | signalled {allowance : Nat} {n : UInt32} {t : Timeline} (h : job.signalled t = true) :
      Succession p job depth inner (allowance + 1) n t [] (.cancelled .signalled, t)
  | finish {allowance : Nat} {n : UInt32} {t u : Timeline} {r final : Resolution α}
      (h : job.signalled t = false) (hanswer : inner t = (.resolved r, u))
      (hverdict : judge p (job.signalled u) n r = .finish final) :
      Succession p job depth inner (allowance + 1) n t [(n, t)]
        (.resolved final, u.log (closingReport p (job.signalled u) n r))
  /-- The signal ends the pause. -/
  | interrupted {allowance : Nat} {n : UInt32} {t u : Timeline} {r : Resolution α}
      {e : DispatchError} (h : job.signalled t = false) (hanswer : inner t = (.resolved r, u))
      (hverdict : judge p (job.signalled u) n r = .retry e)
      (hpause : (pauseAfter p job.listening depth n e u).1 = true) :
      Succession p job depth inner (allowance + 1) n t [(n, t)]
        (.cancelled .signalled, (pauseAfter p job.listening depth n e u).2)
  | retry {allowance : Nat} {n : UInt32} {t u : Timeline} {r : Resolution α} {e : DispatchError}
      {later : List (UInt32 × Timeline)} {run : Answer α × Timeline}
      (h : job.signalled t = false) (hanswer : inner t = (.resolved r, u))
      (hverdict : judge p (job.signalled u) n r = .retry e)
      (hpause : (pauseAfter p job.listening depth n e u).1 = false)
      (hrest : Succession p job depth inner allowance (countOn n)
        (pauseAfter p job.listening depth n e u).2 later run) :
      Succession p job depth inner (allowance + 1) n t ((n, t) :: later) run
  | unresolved {allowance : Nat} {n : UInt32} {t u : Timeline} {answer : Answer α}
      (h : job.signalled t = false) (hgiven : inner t = (answer, u))
      (hunresolved : ∀ r, answer ≠ .resolved r) :
      Succession p job depth inner (allowance + 1) n t [(n, t)] (answer, u)

def Retries (p : Policy) (job : Job α) (inner : Dispatcher α) (a : UInt32 × Timeline)
    (e : DispatchError) (u : Timeline) : Prop :=
  ∃ r, inner a.2 = (.resolved r, u) ∧ judge p (job.signalled u) a.1 r = .retry e

def Follows (p : Policy) (job : Job α) (depth : Nat) (inner : Dispatcher α)
    (a b : UInt32 × Timeline) : Prop :=
  ∃ e u, Retries p job inner a e u ∧
    pauseAfter p job.listening depth a.1 e u = (false, b.2) ∧ b.1 = countOn a.1

def remarks (p : Policy) (job : Job α) (depth : Nat) (inner : Dispatcher α)
    (a : UInt32 × Timeline) : List Event :=
  match inner a.2 with
  | (.resolved r, u) =>
    match judge p (job.signalled u) a.1 r with
    | .finish _ => (closingReport p (job.signalled u) a.1 r).map .logged
    | .retry e => (retryEvents p depth a.1 e).reverse
  | _ => []

section Layer

variable {p : Policy} {job : Job α} {depth : Nat} {inner : Dispatcher α} {allowance : Nat}
  {n : UInt32} {t u : Timeline} {list : List (UInt32 × Timeline)} {run : Answer α × Timeline}

theorem attempts_succession (p : Policy) (job : Job α) (depth : Nat) (inner : Dispatcher α)
    (allowance : Nat) (n : UInt32) (t : Timeline) :
    Succession p job depth inner allowance n t (starts p job depth inner allowance n t)
      (attempts p job depth inner allowance n t) := by
  induction allowance generalizing n t with
  | zero => exact .spent n t
  | succ allowance ih =>
    by_cases hsignalled : job.signalled t = true
    · rw [starts_signalled hsignalled, attempts_signalled hsignalled]
      exact .signalled hsignalled
    have hunsignalled : job.signalled t = false := Bool.eq_false_iff.mpr hsignalled
    rcases hgiven : inner t with ⟨answer, u⟩
    cases answer with
    | resolved r =>
      cases hverdict : judge p (job.signalled u) n r with
      | finish final =>
        rw [starts_finish hunsignalled hgiven hverdict,
          attempts_finish hunsignalled hgiven hverdict]
        exact .finish hunsignalled hgiven hverdict
      | retry e =>
        cases hpause : (pauseAfter p job.listening depth n e u).1 with
        | true =>
          rw [starts_interrupted hunsignalled hgiven hverdict hpause,
            attempts_interrupted hunsignalled hgiven hverdict hpause]
          exact .interrupted hunsignalled hgiven hverdict hpause
        | false =>
          rw [starts_retry hunsignalled hgiven hverdict hpause,
            attempts_retry hunsignalled hgiven hverdict hpause]
          exact .retry hunsignalled hgiven hverdict hpause (ih _ _)
    | unwound panic =>
      rw [starts_unresolved hunsignalled hgiven nofun,
        attempts_unresolved hunsignalled hgiven nofun]
      exact .unresolved hunsignalled hgiven nofun
    | unfinished =>
      rw [starts_unresolved hunsignalled hgiven nofun,
        attempts_unresolved hunsignalled hgiven nofun]
      exact .unresolved hunsignalled hgiven nofun

section Remarks

variable {s : Timeline} {r : Resolution α}

theorem remarks_finish {final : Resolution α} (hanswer : inner s = (.resolved r, u))
    (hverdict : judge p (job.signalled u) n r = .finish final) :
    remarks p job depth inner (n, s) = (closingReport p (job.signalled u) n r).map .logged := by
  simp [remarks, hanswer, hverdict]

theorem remarks_retry {e : DispatchError} (hanswer : inner s = (.resolved r, u))
    (hverdict : judge p (job.signalled u) n r = .retry e) :
    remarks p job depth inner (n, s) = (retryEvents p depth n e).reverse := by
  simp [remarks, hanswer, hverdict]

theorem remarks_unresolved {answer : Answer α} (hgiven : inner s = (answer, u))
    (hunresolved : ∀ r, answer ≠ .resolved r) (n : UInt32) :
    remarks p job depth inner (n, s) = [] := by
  cases answer with
  | resolved r => exact absurd rfl (hunresolved r)
  | unwound panic => simp [remarks, hgiven]
  | unfinished => simp [remarks, hgiven]

/-- A layer closes the run with a report, announces a retry, or says nothing. -/
theorem remarks_cases (a : UInt32 × Timeline) :
    (∃ (signalled : Bool) (r : Resolution α),
      remarks p job depth inner a = (closingReport p signalled a.1 r).map .logged) ∨
    (∃ e, remarks p job depth inner a = (retryEvents p depth a.1 e).reverse) ∨
    remarks p job depth inner a = [] := by
  rcases hgiven : inner a.2 with ⟨answer, u⟩
  cases answer with
  | resolved r =>
    cases hverdict : judge p (job.signalled u) a.1 r with
    | finish final => exact .inl ⟨job.signalled u, r, remarks_finish hgiven hverdict⟩
    | retry e => exact .inr (.inl ⟨e, remarks_retry hgiven hverdict⟩)
  | unwound panic => exact .inr (.inr (remarks_unresolved hgiven nofun _))
  | unfinished => exact .inr (.inr (remarks_unresolved hgiven nofun _))

end Remarks

/-! ## From one attempt to the next -/

theorem Succession.first (hsuccession : Succession p job depth inner allowance n t list run) :
    ∀ a ∈ list.head?, a = (n, t) := by
  cases hsuccession with
  | spent => nofun
  | signalled => nofun
  | finish => simp
  | interrupted => simp
  | retry => simp
  | unresolved => simp

theorem Succession.chain (hsuccession : Succession p job depth inner allowance n t list run) :
    list.IsChain (Follows p job depth inner) := by
  induction hsuccession with
  | spent => exact .nil
  | signalled => exact .nil
  | finish => exact .singleton _
  | interrupted => exact .singleton _
  | retry _ hanswer hverdict hpause hrest ih =>
    refine List.isChain_cons.mpr ⟨?_, ih⟩
    intro b hb
    rw [hrest.first b hb]
    exact ⟨_, _, ⟨_, hanswer, hverdict⟩, Prod.ext hpause rfl, rfl⟩
  | unresolved => exact .singleton _

theorem starts_chain (p : Policy) (job : Job α) (depth : Nat) (inner : Dispatcher α)
    (allowance : Nat) (n : UInt32) (t : Timeline) :
    (starts p job depth inner allowance n t).IsChain (Follows p job depth inner) :=
  (attempts_succession p job depth inner allowance n t).chain

/-- Attempt number `i` goes by the number `i`, as far as the counter goes; and what holds
of the first attempt, and of each that follows one of which it holds, holds of it. -/
theorem starts_induct {P : Nat → UInt32 × Timeline → Prop} (hfirst : P 0 (0, t))
    (hnext : ∀ i a b, Follows p job depth inner a b → a.1 = counter i → P i a → P (i + 1) b)
    {i : Nat} {a : UInt32 × Timeline}
    (h : (starts p job depth inner allowance 0 t)[i]? = some a) : a.1 = counter i ∧ P i a := by
  induction i generalizing a with
  | zero =>
    rw [← List.head?_eq_getElem?] at h
    rw [(attempts_succession p job depth inner allowance 0 t).first a h]
    exact ⟨rfl, hfirst⟩
  | succ i ih =>
    obtain ⟨hlater, rfl⟩ := List.getElem?_eq_some_iff.mp h
    obtain ⟨hnumber, hearlier⟩ := ih (List.getElem?_eq_getElem (Nat.lt_of_succ_lt hlater))
    have hchain := starts_chain p job depth inner allowance 0 t
    have hfollows := List.isChain_iff_getElem.mp hchain i hlater
    refine ⟨?_, hnext i _ _ hfollows hnumber hearlier⟩
    obtain ⟨_, _, _, _, hcounted⟩ := hfollows
    rw [hcounted, hnumber, countOn_counter]

theorem starts_number {i : Nat} {a : UInt32 × Timeline}
    (h : (starts p job depth inner allowance 0 t)[i]? = some a) : a.1 = counter i :=
  (starts_induct (P := fun _ _ => True) trivial (fun _ _ _ _ _ => id) h).1

/-! ## Without a signal -/

section Unsignalled

variable (hunsignalled : job.listening = false)
include hunsignalled

/-- A run that is resolved ends with its last attempt: nothing comes after that but the
report. -/
theorem Succession.resolved (hsuccession : Succession p job depth inner allowance n t list run)
    {final : Resolution α} (h : run.1 = .resolved final) :
    ∃ a ∈ list.getLast?, ∃ r u, inner a.2 = (.resolved r, u) ∧
      judge p (job.signalled u) a.1 r = .finish final ∧
      run.2 = u.log (closingReport p (job.signalled u) a.1 r) := by
  have hquiet := signalled_deaf hunsignalled
  induction hsuccession with
  | spent => cases h
  | signalled hsignalled => cases hsignalled.symm.trans (hquiet _)
  | finish _ hanswer hverdict =>
    injection h with h
    subst h
    exact ⟨_, rfl, _, _, hanswer, hverdict, rfl⟩
  | interrupted _ _ _ hpause =>
    rw [hunsignalled, pauseAfter_deaf] at hpause
    cases hpause
  | retry _ _ _ _ _ ih =>
    obtain ⟨a, hlast, hrest⟩ := ih h
    refine ⟨a, ?_, hrest⟩
    rw [List.getLast?_cons, hlast]
    rfl
  | unresolved _ _ hunresolved => exact absurd h (hunresolved final)

/-- Where every submission is answered, a run that comes to no end makes all the
attempts that it may make. -/
theorem Succession.unfinished (hsuccession : Succession p job depth inner allowance n t list run)
    (hanswers : ∀ s, ∃ r, (inner s).1 = .resolved r) :
    (∃ final, run.1 = .resolved final) ∨ run.1 = .unfinished ∧ list.length = allowance := by
  have hquiet := signalled_deaf hunsignalled
  induction hsuccession with
  | spent => exact .inr ⟨rfl, rfl⟩
  | signalled hsignalled => cases hsignalled.symm.trans (hquiet _)
  | finish => exact .inl ⟨_, rfl⟩
  | interrupted => exact .inl ⟨_, rfl⟩
  | retry _ _ _ _ _ ih =>
    rcases ih with hresolved | ⟨hunfinished, hspent⟩
    · exact .inl hresolved
    · exact .inr ⟨hunfinished, congrArg (· + 1) hspent⟩
  | unresolved _ hgiven hunresolved =>
    obtain ⟨r, hanswer⟩ := hanswers _
    rw [hgiven] at hanswer
    exact absurd hanswer (hunresolved r)

end Unsignalled

/-! ## The story of a run -/

def Event.entry? : Event → Option Log.Entry
  | .logged entry => some entry
  | _ => none

def Event.question? : Event → Option (Nat × UInt32)
  | .asked depth n => some (depth, n)
  | _ => none

def Event.invocation? : Event → Option Millis
  | .invoked moment => some moment
  | _ => none

def Timeline.read (f : Event → Option β) (t : Timeline) : List β :=
  t.events.filterMap f

theorem entries_eq_read (t : Timeline) : t.entries = t.read Event.entry? := rfl

theorem questions_eq_read (t : Timeline) : t.questions = t.read Event.question? := rfl

theorem invocations_eq_read (t : Timeline) : t.invocations = t.read Event.invocation? := rfl

theorem read_record (f : Event → Option β) (t : Timeline) (e : Event) :
    (t.record e).read f = t.read f ++ (f e).toList := by
  simp [Timeline.read, events, List.filterMap_append, List.filterMap_cons]
  cases f e <;> rfl

theorem read_log (f : Event → Option β) (t : Timeline) (entries : List Log.Entry) :
    (t.log entries).read f = t.read f ++ (entries.map Event.logged).filterMap f := by
  simp [Timeline.read, events, List.filterMap_append]

section Reading

variable {f : Event → Option β} (hdeaf : ∀ moment, f (.fired moment) = none)
include hdeaf

theorem read_elapsed (h : Elapsed t u) : u.read f = t.read f := by
  cases h with
  | quietly _ hstory _ => rw [Timeline.read, events, hstory, Timeline.read, events]
  | firing moment _ _ hstory _ =>
    rw [Timeline.read, events, hstory, List.reverse_cons, List.filterMap_append,
      List.filterMap_cons_none (hdeaf moment)]
    exact List.append_nil _

theorem read_pauseAfter (p : Policy) (listening : Bool) (depth : Nat) (n : UInt32)
    (e : DispatchError) (t : Timeline) :
    (pauseAfter p listening depth n e t).2.read f =
      t.read f ++ (retryEvents p depth n e).reverse.filterMap f := by
  rw [pauseAfter, read_elapsed hdeaf (elapsed_backoff _ _ _), Timeline.read, events,
    story_announceRetry, List.reverse_append, List.filterMap_append]
  rfl

theorem Succession.read {below : Timeline → List β}
    (hnotes : ∀ s, (inner s).2.read f = s.read f ++ below s)
    (hsuccession : Succession p job depth inner allowance n t list run) :
    run.2.read f =
      t.read f ++ list.flatMap fun a => below a.2 ++ (remarks p job depth inner a).filterMap f := by
  have hnoted {s v : Timeline} {answer : Answer α} (hgiven : inner s = (answer, v)) :
      v.read f = s.read f ++ below s := by
    rw [← hnotes s, hgiven]
  induction hsuccession with
  | spent => exact (List.append_nil _).symm
  | signalled => exact (List.append_nil _).symm
  | finish _ hanswer hverdict =>
    rw [read_log, hnoted hanswer, List.flatMap_singleton, remarks_finish hanswer hverdict,
      List.append_assoc]
  | interrupted _ hanswer hverdict _ =>
    rw [read_pauseAfter hdeaf, hnoted hanswer, List.flatMap_singleton,
      remarks_retry hanswer hverdict, List.append_assoc]
  | retry _ hanswer hverdict _ _ ih =>
    rw [ih, read_pauseAfter hdeaf, hnoted hanswer, List.flatMap_cons,
      remarks_retry hanswer hverdict]
    simp only [List.append_assoc]
  | unresolved _ hgiven hunresolved =>
    rw [hnoted hgiven, List.flatMap_singleton, remarks_unresolved hgiven hunresolved]
    exact congrArg (_ ++ ·) (List.append_nil _).symm

/-- A run is read by reading, attempt by attempt, what the dispatcher below notes and
what the layer remarks. -/
theorem attempts_read {below : Timeline → List β}
    (hnotes : ∀ s, (inner s).2.read f = s.read f ++ below s) (allowance : Nat) (n : UInt32)
    (t : Timeline) :
    (attempts p job depth inner allowance n t).2.read f =
      t.read f ++ (starts p job depth inner allowance n t).flatMap fun a =>
        below a.2 ++ (remarks p job depth inner a).filterMap f :=
  (attempts_succession p job depth inner allowance n t).read hdeaf hnotes

/-- Carried out inline, a job notes its invocation, if it comes to one. -/
theorem read_runInline (hunended : ∀ moment, f (.completed moment) = none) (job : Job α)
    (t : Timeline) :
    (job.runInline t).2.read f =
      t.read f ++ if job.signalled t then [] else (f (.invoked t.now)).toList := by
  cases hsignalled : job.signalled t with
  | true => simp [Job.runInline, hsignalled]
  | false =>
    obtain ⟨u, helapsed, hinvoked, -⟩ := invoke_elapsed job true t
    have hbegun : t.begin.read f = (t.record (.invoked t.now)).read f := rfl
    rw [runInline_unsignalled hsignalled, hinvoked, read_record, hunended,
      read_elapsed hdeaf helapsed, hbegun, read_record]
    simp

/-- The inline dispatcher notes the submission and the invocation. -/
theorem read_inline (hunended : ∀ moment, f (.completed moment) = none) {job : Job α}
    (hunsignalled : job.listening = false) (allowance depth : Nat) (t : Timeline) :
    (submit .inline job allowance depth [] t).2.read f =
      t.read f ++ ((f (.given depth)).toList ++ (f (.invoked t.now)).toList) := by
  have hquiet := signalled_deaf hunsignalled (t.record (.given depth))
  show (job.runInline (t.record (.given depth))).2.read f = _
  rw [read_runInline hdeaf hunended, hquiet, read_record, List.append_assoc]
  rfl

end Reading

/-! ## The questions of a layer -/

def asks (p : Policy) (depth l : Nat) : List Event :=
  (p.wait.argument? (counter l)).toList.map (Event.asked depth)

section Questions

variable {f : Event → Option β} (hunreported : ∀ entry, f (.logged entry) = none)
include hunreported

theorem filterMap_logged (entries : List Log.Entry) :
    (entries.map Event.logged).filterMap f = [] := by
  rw [List.filterMap_map]
  exact List.filterMap_eq_nil_iff.mpr fun entry _ => hunreported entry

theorem filterMap_remarks (hunasked : ∀ m, f (.asked depth m) = none) (a : UInt32 × Timeline) :
    (remarks p job depth inner a).filterMap f = [] := by
  rcases remarks_cases a with ⟨signalled, r, hclosing⟩ | ⟨e, hannounced⟩ | hnone
  · rw [hclosing]
    exact filterMap_logged hunreported _
  · rw [hannounced]
    unfold retryEvents
    cases p.wait.argument? a.1 <;> simp [hunreported, hunasked]
  · rw [hnone]
    rfl

theorem filterMap_retryEvents (p : Policy) (depth l : Nat) (e : DispatchError) :
    (retryEvents p depth (counter l) e).reverse.filterMap f = (asks p depth l).filterMap f := by
  unfold retryEvents asks
  cases p.wait.argument? (counter l) <;>
    simp [List.filterMap_cons, hunreported]

/-- Without a signal, a layer asks once for each retry and for nothing else, and what it
asks is told by the number of the retry. -/
theorem Succession.asked (hunsignalled : job.listening = false)
    (hsuccession : Succession p job depth inner allowance n t list run) {k : Nat}
    (hnumber : n = counter k) :
    ∃ retries,
      (list.flatMap fun a => (remarks p job depth inner a).filterMap f) =
        ((List.range' k retries).flatMap fun l => (asks p depth l).filterMap f) ∧
      ((∃ final, run.1 = .resolved final) → list.length = retries + 1) ∧
      ((∀ s, ∃ r, (inner s).1 = .resolved r) → run.1 = .unfinished → list.length = retries) := by
  have hquiet := signalled_deaf hunsignalled
  induction hsuccession generalizing k with
  | spent =>
    refine ⟨0, rfl, ?_, fun _ _ => rfl⟩
    rintro ⟨final, h⟩
    cases h
  | signalled hsignalled => cases hsignalled.symm.trans (hquiet _)
  | finish _ hanswer hverdict =>
    refine ⟨0, ?_, fun _ => rfl, fun _ h => absurd h (by simp)⟩
    rw [List.flatMap_singleton, remarks_finish hanswer hverdict, filterMap_logged hunreported]
    rfl
  | interrupted _ _ _ hpause =>
    rw [hunsignalled, pauseAfter_deaf] at hpause
    cases hpause
  | retry _ hanswer hverdict _ _ ih =>
    subst hnumber
    obtain ⟨retries, hasked, hresolved, hunfinished⟩ := ih (countOn_counter k)
    refine ⟨retries + 1, ?_, fun h => congrArg (· + 1) (hresolved h),
      fun hanswers h => congrArg (· + 1) (hunfinished hanswers h)⟩
    rw [List.flatMap_cons, List.range'_succ, List.flatMap_cons, hasked,
      remarks_retry hanswer hverdict, filterMap_retryEvents hunreported]
  | unresolved _ hgiven hunresolved =>
    refine ⟨0, ?_, ?_, ?_⟩
    · rw [List.flatMap_singleton, remarks_unresolved hgiven hunresolved]
      rfl
    · rintro ⟨final, h⟩
      exact absurd h (hunresolved final)
    · intro hanswers _
      obtain ⟨r, hanswer⟩ := hanswers _
      rw [hgiven] at hanswer
      exact absurd hanswer (hunresolved r)

end Questions

end Layer

end Run
end Skein
