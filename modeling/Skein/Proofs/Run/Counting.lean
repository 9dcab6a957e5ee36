import Skein.Proofs.Run.Succession

/-!
# How a policy counts its attempts

The counter of a policy stays at its end, and so do the number that a wait function is
asked about and the count that an exhaustion gives.  The reports of a policy add one to
the counter as well, but they add it modulo `2 ^ 32`.  So `attempts_counted` has two
parts: what saturates is right for every attempt, and what is reported is right for the
attempts before number `2 ^ 32 - 1`.  A smaller limit keeps a run among these; the
greatest one does not, and then the report that closes the run says that there were no
attempts at all.
-/

namespace Skein

def Log.Entry.number? (entry : Log.Entry) : Option Nat :=
  match entry.fields with
  | ("attempt", .count k) :: _ => some k
  | ("attempts", .count k) :: _ => some k
  | _ => none

namespace Run

open Retry Timeline

variable {α : Type}

def reports (p : Policy) (job : Job α) (depth : Nat) (inner : Dispatcher α)
    (a : UInt32 × Timeline) : List Log.Entry :=
  (remarks p job depth inner a).filterMap Event.entry?

def inquiries (p : Policy) (job : Job α) (depth : Nat) (inner : Dispatcher α)
    (a : UInt32 × Timeline) : List (Nat × UInt32) :=
  (remarks p job depth inner a).filterMap Event.question?

/-! ## What is said of one attempt -/

theorem entry?_logged (entries : List Log.Entry) :
    (entries.map Event.logged).filterMap Event.entry? = entries := by
  rw [List.filterMap_map]
  exact List.filterMap_some

theorem mem_closingReport {p : Policy} {signalled : Bool} {n : UInt32} {r : Resolution α}
    {entry : Log.Entry} (h : entry ∈ closingReport p signalled n r) :
    entry = successEntry n ∨ ∃ e, entry = limitEntry n e := by
  cases r with
  | ok a =>
    simp only [closingReport] at h
    split at h
    · cases h
    · exact .inl (List.mem_singleton.mp h)
  | error e =>
    simp only [closingReport] at h
    split at h
    · exact .inr ⟨e, List.mem_singleton.mp h⟩
    · cases h

theorem entry?_retryEvents (p : Policy) (depth : Nat) (n : UInt32) (e : DispatchError) :
    (retryEvents p depth n e).reverse.filterMap Event.entry? =
      [retryingEntry n (p.wait.delay n) e] := by
  unfold retryEvents
  cases p.wait.argument? n <;> rfl

theorem question?_retryEvents (p : Policy) (depth : Nat) (n : UInt32) (e : DispatchError) :
    (retryEvents p depth n e).reverse.filterMap Event.question? =
      (p.wait.argument? n).toList.map (Prod.mk depth) := by
  unfold retryEvents
  cases p.wait.argument? n <;> rfl

theorem argument?_mem {w : Wait} {n m : UInt32} (h : m ∈ w.argument? n) : m = countOn n := by
  cases w with
  | function f => exact (Option.some.inj h).symm
  | _ => cases h

section Attempt

variable {p : Policy} {job : Job α} {depth : Nat} {inner : Dispatcher α} {a : UInt32 × Timeline}

/-- A policy reports a success after retries, the limit, or a retry. -/
theorem mem_reports {entry : Log.Entry} (h : entry ∈ reports p job depth inner a) :
    entry = successEntry a.1 ∨ (∃ e, entry = limitEntry a.1 e) ∨
      ∃ e, entry = retryingEntry a.1 (p.wait.delay a.1) e := by
  unfold reports at h
  rcases remarks_cases a with ⟨signalled, r, hclosing⟩ | ⟨e, hannounced⟩ | hnone
  · rw [hclosing, entry?_logged] at h
    exact (mem_closingReport h).imp_right .inl
  · rw [hannounced, entry?_retryEvents] at h
    exact .inr (.inr ⟨e, List.mem_singleton.mp h⟩)
  · rw [hnone] at h
    cases h

/-- The reports of a policy add one to its counter, and do not look at the end of it. -/
theorem number?_reports {entry : Log.Entry} (h : entry ∈ reports p job depth inner a) :
    entry.number? = some (a.1 + 1).toNat := by
  rcases mem_reports h with rfl | ⟨e, rfl⟩ | ⟨e, rfl⟩ <;> rfl

/-- A wait function is asked about the counter's next value. -/
theorem eq_of_mem_inquiries {question : Nat × UInt32}
    (h : question ∈ inquiries p job depth inner a) : question = (depth, countOn a.1) := by
  unfold inquiries at h
  rcases remarks_cases a with ⟨signalled, r, hclosing⟩ | ⟨e, hannounced⟩ | hnone
  · rw [hclosing, filterMap_logged fun _ => rfl] at h
    cases h
  · rw [hannounced, question?_retryEvents] at h
    obtain ⟨m, hm, rfl⟩ := List.mem_map.mp h
    rw [argument?_mem (Option.mem_toList.mp hm)]
  · rw [hnone] at h
    cases h

end Attempt

/-- A limit bounds the numbers of the attempts. -/
theorem starts_limited {p : Policy} {job : Job α} {depth allowance : Nat} {inner : Dispatcher α}
    {t : Timeline} {most : UInt32} (hlimited : p.limit = some most) {i : Nat}
    {a : UInt32 × Timeline} (h : (starts p job depth inner allowance 0 t)[i]? = some a) :
    i ≤ most.toNat := by
  refine (starts_induct (P := fun i _ => i ≤ most.toNat) (Nat.zero_le _) ?_ h).2
  rintro i a b ⟨e, u, ⟨r, -, hverdict⟩, -, -⟩ hnumber -
  have hbelow := below_of_retry hlimited hverdict
  have hbound := most.toNat_lt
  rw [hnumber, toNat_counter] at hbelow
  omega

/-! ## The count of a run -/

theorem toNat_counter_succ (i : Nat) :
    (counter i + 1).toNat = if i < UInt32.size - 1 then i + 1 else 0 := by
  have hone : (1 : UInt32).toNat = 1 := rfl
  rw [UInt32.toNat_add, toNat_counter, hone]
  simp only [UInt32.size]
  split <;> omega

/-- The log of a run consists, attempt by attempt, of what the dispatcher below logs
and of what the policy reports.  Attempt number `i` has a counter that saturates, as
have the number that the wait function is asked about and the count of an exhaustion.
Every report gives the counter and one more, but modulo `2 ^ 32`: the sum stays in range
as long as `i` is less than `2 ^ 32 - 1`, and is reported as zero from there on.  A
limit keeps `i` from growing past it, so one that is less than `2 ^ 32 - 1` keeps all
reports right. -/
theorem attempts_counted (p : Policy) (job : Job α) (depth : Nat) {inner : Dispatcher α}
    {below : Timeline → List Log.Entry} (hlogs : ∀ s, (inner s).2.entries = s.entries ++ below s)
    (allowance : Nat) (t : Timeline) :
    let runs := starts p job depth inner allowance 0 t
    (attempts p job depth inner allowance 0 t).2.entries =
      t.entries ++ runs.flatMap (fun a => below a.2 ++ reports p job depth inner a) ∧
    (∀ i a, runs[i]? = some a →
      a.1.toNat = min i (UInt32.size - 1) ∧
      (∀ entry ∈ reports p job depth inner a,
        entry.number? = some ((a.1.toNat + 1) % UInt32.size) ∧
        entry.number? = some (if i < UInt32.size - 1 then i + 1 else 0)) ∧
      (a.1.toNat + 1 ≤ UInt32.size - 1 ↔ i < UInt32.size - 1) ∧
      (∀ question ∈ inquiries p job depth inner a,
        question.1 = depth ∧ question.2.toNat = min (i + 1) (UInt32.size - 1)) ∧
      ∀ e u count last, inner a.2 = (.resolved (.error e), u) →
        judge (α := α) p (job.signalled u) a.1 (.error e) =
          .finish (.error (.exhausted count last)) →
        e = .exhausted count last ∨ count.toNat = min (i + 1) (UInt32.size - 1)) ∧
    ∀ most, p.limit = some most → most.toNat < UInt32.size - 1 →
      ∀ a ∈ runs, a.1.toNat + 1 ≤ UInt32.size - 1 := by
  intro runs
  refine ⟨?_, ?_, ?_⟩
  · exact attempts_read (fun _ => rfl) hlogs allowance 0 t
  · intro i a h
    have hnumber : a.1 = counter i := starts_number h
    have hcount : (countOn a.1).toNat = min (i + 1) (UInt32.size - 1) := by
      rw [hnumber, countOn_counter]
      exact toNat_counter (i + 1)
    refine ⟨?_, ?_, ?_, ?_, ?_⟩
    · rw [hnumber]
      exact toNat_counter i
    · intro entry hreported
      rw [number?_reports hreported]
      refine ⟨congrArg some (UInt32.toNat_add a.1 1), ?_⟩
      rw [hnumber, toNat_counter_succ]
    · rw [hnumber, toNat_counter]
      simp only [UInt32.size]
      omega
    · intro question hasked
      rw [eq_of_mem_inquiries hasked]
      exact ⟨rfl, hcount⟩
    · intro e u count' last _ hverdict
      have hjudged := judge_judged (α := α) p (job.signalled u) a.1 (.error e)
      rw [hverdict] at hjudged
      cases hjudged with
      | settled => exact .inl rfl
      | exhausted => exact .inr hcount
  · intro most hlimited hsmall a hmade
    obtain ⟨i, hi⟩ := List.mem_iff_getElem?.mp hmade
    have hupto := starts_limited hlimited hi
    rw [starts_number hi, toNat_counter]
    omega

/-- Two failures and a success are three attempts, and the entries count them so. -/
theorem attempts_counted_thirdTime :
    let p : Policy := { matcher := .all, wait := .function fun n => 10 * n.toNat, limit := some 5 }
    let job : Job Nat := { operation := { payload := fun n =>
      { ending := if n < 2 then .failure (.plain "down") else .value n } } }
    let inner := submit .inline job 6 1 []
    let runs := starts p job 0 inner 6 0 {}
    (∀ s, (inner s).2.entries = s.entries ++ []) ∧
      (attempts p job 0 inner 6 0 {}).2.entries = runs.flatMap (reports p job 0 inner) ∧
      (attempts p job 0 inner 6 0 {}).2.entries.map Log.Entry.number? = [some 1, some 2, some 3] ∧
      runs.length = 3 ∧ ∀ a ∈ runs, a.1.toNat + 1 ≤ UInt32.size - 1 := by
  intro p job inner runs
  have hlogs : ∀ s, (inner s).2.entries = s.entries ++ [] := by
    intro s
    rw [entries_eq_read, entries_eq_read]
    exact read_inline (fun _ => rfl) (fun _ => rfl) rfl 6 1 s
  obtain ⟨hentries, -, hsmall⟩ := attempts_counted p job 0 hlogs 6 {}
  refine ⟨hlogs, ?_, by decide, by decide, hsmall 5 rfl (by decide)⟩
  exact hentries

/-! ## At the end of the counter -/

/-- A job that never comes to anything else makes all the attempts that the limit
allows, and the report of the last one closes the run. -/
theorem attempts_inVain {p : Policy} {job : Job α} {depth : Nat} {inner : Dispatcher α}
    {e : DispatchError} {most : UInt32} (hlimited : p.limit = some most)
    (hunsignalled : job.listening = false) (hkept : e.isCancelled = false)
    (haccepted : p.matcher.accepts e.failure = true)
    (hfails : ∀ s, (inner s).1 = .resolved (.error e)) (t : Timeline) :
    ∃ s u, inner s = (.resolved (.error e), u) ∧
      attempts p job depth inner (most.toNat + 1) 0 t =
        (.resolved (.error (.exhausted (countOn most) e.intoCause)),
          u.log [limitEntry most e]) := by
  have hquiet := signalled_deaf hunsignalled
  have hunsettled : ¬ Settles (α := α) p (.error e) := by simp [Settles, hkept, haccepted]
  have hgoing : ∀ j, j < most.toNat → ¬ Ends (α := α) p (fun _ => .error e) j := by
    rintro j hj (hsettled | ⟨last, hlimit, hhere⟩)
    · exact hunsettled hsettled
    · rw [hlimited] at hlimit
      obtain rfl := Option.some.inj hlimit
      omega
  have hnumber : counter most.toNat = most := by
    apply UInt32.toNat_inj.1
    have hbound := most.toNat_lt
    rw [toNat_counter]
    omega
  have hreached : p.limitReached most = true := by
    simp [Policy.limitReached, hlimited]
  have hanswers : Answers p depth inner t (fun _ => .error e) := fun n _ => hfails _
  obtain ⟨u, hgiven⟩ : ∃ u, inner (attemptStart p depth inner t most.toNat) =
      (.resolved (.error e), u) := ⟨_, Prod.ext (hfails _) rfl⟩
  refine ⟨_, u, hgiven, ?_⟩
  have hverdict : judge (α := α) p (job.signalled u) most (.error e) =
      .finish (.error (.exhausted (countOn most) e.intoCause)) := by
    rw [hquiet]
    exact judge_exhausted hkept haccepted hreached
  have hreport : closingReport (α := α) p (job.signalled u) most (.error e) =
      [limitEntry most e] := by
    simp [closingReport, hkept, haccepted, hquiet, hreached]
  rw [attempts_reach hunsignalled hanswers most.toNat hgoing 1, hnumber,
    attempts_finish (hquiet _) hgiven hverdict, hreport]

/-- With the greatest limit there is, the sum is out of range in the report that closes
the run: it says that no attempts were made, while the error counts `2 ^ 32 - 1`. -/
theorem not_attempts_counted_greatestLimit :
    let p : Policy := { matcher := .all, limit := some 4294967295 }
    let job : Job Unit :=
      { operation := { payload := fun _ => { ending := .failure (.plain "transient") } } }
    let inner := submit .inline job 1 1 []
    let e : DispatchError := .operation (.plain "transient")
    ∃ s u, inner s = (.resolved (.error e), u) ∧
      attempts p job 0 inner ((4294967295 : UInt32).toNat + 1) 0 {} =
        (.resolved (.error (.exhausted 4294967295 (.plain "transient"))),
          u.log [limitEntry 4294967295 e]) ∧
      (limitEntry 4294967295 e).number? = some 0 ∧
      ¬ (4294967295 : UInt32).toNat + 1 ≤ UInt32.size - 1 := by
  intro p job inner e
  obtain ⟨s, u, hgiven, hrun⟩ : ∃ s u, inner s = (.resolved (.error e), u) ∧
      attempts p job 0 inner ((4294967295 : UInt32).toNat + 1) 0 {} =
        (.resolved (.error (.exhausted (countOn 4294967295) e.intoCause)),
          u.log [limitEntry 4294967295 e]) :=
    attempts_inVain rfl rfl rfl rfl (fun _ => rfl) {}
  exact ⟨s, u, hgiven, hrun, rfl, by decide⟩

end Run
end Skein
