import Skein.Proofs.Run.Arrivals

/-!
# A fiber that is disposed under a stack of policies

A fiber may be disposed before a job is submitted, by an invocation of the payload,
or while some layer of the stack waits before a retry.  From then on the payload is
not invoked any more.  The layer that is about to retry does submit once more; the
fiber refuses, the refusal is a cancellation, and no layer retries that.
`enqueue_closesDown` says so for all stacks, those without a limit included.

Whoever disposes the fiber from outside while nothing waits, during an invocation or
between two attempts that no delay parts, is no event of its own on a timeline: such
a run is the one in which the invocation before it disposes the fiber.
-/

namespace Skein
namespace Run

open Retry Timeline

variable {α : Type}

/-! ## The law of disposal -/

/-- What becomes of a job that is to be submitted again, but is not to be invoked. -/
def stoppedBy (signalled : Bool) : Answer α :=
  .cancelled (if signalled then .signalled else .fiberDisposed)

/-- The timeline after these arrivals: the invocation that the last of them began has
ended, or the run has yet to begin. -/
def upTo (job : Job α) (t : Timeline) (arr : List Arrival) : Timeline :=
  match arr.getLast? with
  | none => t
  | some a => a.after job

theorem upTo_concat (job : Job α) (t : Timeline) (before : List Arrival) (a : Arrival) :
    upTo job t (before ++ [a]) = a.after job := by
  rw [upTo, List.getLast?_concat]

/-- What the run comes to.  If no layer retries the last invocation, it is what the
layers make of that; a layer that looks at the signal after the invocation does not
retry either. -/
def closingAnswer (layers : List Policy) (job : Job α) (arr : List Arrival) (u : Timeline) :
    Answer α :=
  match (arr.filter (·.active)).getLast?.map (Arrival.verdict job layers) with
  | some (.finish r) => .resolved r
  | _ => stoppedBy (job.signalled u)

/-- A run to which `arr` arrived at the fiber closes down with the fiber, whenever that
is disposed. -/
structure ClosesDown (layers : List Policy) (job : Job α) (t : Timeline) (arr : List Arrival)
    (run : Answer α × Timeline) : Prop where
  /-- The arrivals are the submissions to the fiber that the story tells of. -/
  arrived : receipts layers.length run.2.story =
    (arr.map (·.t.story)).reverse ++ receipts layers.length t.story
  /-- Those that find the fiber active are the invocations. -/
  invoked : run.2.calls = t.calls + arr.countP (·.active)
  /-- When the moment has come at which the fiber is disposed, be it in a wait, no
  arrival finds it active. -/
  onTime : ∀ moment, t.disposedAt = some moment → ∀ a ∈ arr, moment ≤ a.t.now → a.active = false
  /-- An invocation that disposes the fiber is the last one, and one more submission
  arrives at most. -/
  disposing : ∀ before a after, arr = before ++ a :: after → a.active = true →
    a.disposes job = true → after.length ≤ 1 ∧ ∀ b ∈ after, b.active = false
  /-- Once it is disposed and no invocation is under way, one more submission arrives
  at most, and none that begins an invocation. -/
  atMostOne : ∀ before after, arr = before ++ after → (upTo job t before).disposed = true →
    after.length ≤ 1 ∧ ∀ a ∈ after, a.active = false
  /-- A refusal ends the run on the timeline of the refusal: no layer waits, retries,
  submits or reports. -/
  refused : ∀ before a after, arr = before ++ a :: after → a.active = false →
    after = [] ∧ run = (.cancelled .fiberDisposed, a.t)
  answer : run.1 = .unfinished ∨ run.1 = closingAnswer layers job arr run.2

theorem Ended.resolved_or_unfinished {job : Job α} {layers : List Policy} {last : Option Arrival}
    {run : Answer α × Timeline} (hended : Ended job layers last run) :
    (∃ r, run.1 = .resolved r) ∨ run.1 = .unfinished := by
  cases hended with
  | settled => exact .inl ⟨_, rfl⟩
  | refused => exact .inl ⟨_, rfl⟩
  | stopped => exact .inl ⟨_, rfl⟩
  | unfinished => exact .inr rfl

section Law

variable {job : Job α} {layers : List Policy} {t : Timeline} {arr : List Arrival}
  {run : Answer α × Timeline}

theorem getLast?_active {a : Arrival} (hactive : a.active = true) (before : List Arrival) :
    ((before ++ [a]).filter (·.active)).getLast? = some a := by
  simp [List.filter_append, hactive]

theorem closingAnswer_finish {a : Arrival} {r : Resolution α} (hactive : a.active = true)
    (hverdict : a.verdict job layers = .finish r) (before : List Arrival) (u : Timeline) :
    closingAnswer layers job (before ++ [a]) u = .resolved r := by
  simp only [closingAnswer, getLast?_active hactive, Option.map_some, hverdict]

theorem closingAnswer_retried {a : Arrival} {u : Timeline} (hretried : Retried job layers a u)
    (before : List Arrival) (v : Timeline) :
    closingAnswer layers job (before ++ [a]) v = stoppedBy (job.signalled v) := by
  obtain ⟨e, hverdict⟩ := hretried.verdict
  simp only [closingAnswer, getLast?_active hretried.active, Option.map_some, hverdict]

namespace Passage

variable {bottom : Nat} (hpassage : Passage job layers bottom t arr run)
include hpassage

theorem refused {before after : List Arrival} {a : Arrival} (hsplit : arr = before ++ a :: after)
    (hclosed : a.active = false) : after = [] ∧ run = (.cancelled .fiberDisposed, a.t) := by
  have hnotRetried {u : Timeline} : ¬ Retried job layers a u := by
    intro hretried
    cases hclosed.symm.trans hretried.active
  cases after with
  | cons b after => exact absurd (hpassage.way.link hsplit) hnotRetried
  | nil =>
    have hended := hpassage.ended
    rw [hsplit, List.getLast?_concat] at hended
    refine ⟨rfl, ?_⟩
    cases hended with
    | settled hactive _ => cases hclosed.symm.trans hactive
    | refused _ => rfl
    | stopped hretried _ => exact absurd hretried hnotRetried
    | unfinished hretried => exact absurd (hretried a rfl) hnotRetried

theorem closed_of_disposed {before after : List Arrival} {b : Arrival}
    (hsplit : arr = before ++ b :: after) (hdisposed : (upTo job t before).disposed = true) :
    b.active = false := by
  have hages : Ages (upTo job t before) b.t := by
    unfold upTo
    cases hlast : before.getLast? with
    | none => exact hpassage.way.since b (hsplit ▸ List.mem_append_right _ List.mem_cons_self)
    | some a =>
      obtain ⟨earlier, rfl⟩ := List.getLast?_eq_some_iff.mp hlast
      rw [List.append_assoc] at hsplit
      exact (hpassage.way.link hsplit).ages
  simp [Arrival.active, hages.disposed hdisposed]

theorem atMostOne {before after : List Arrival} (hsplit : arr = before ++ after)
    (hdisposed : (upTo job t before).disposed = true) :
    after.length ≤ 1 ∧ ∀ a ∈ after, a.active = false := by
  cases after with
  | nil => exact ⟨Nat.zero_le 1, List.forall_mem_nil _⟩
  | cons b after =>
    have hclosed := hpassage.closed_of_disposed hsplit hdisposed
    obtain ⟨rfl, -⟩ := hpassage.refused hsplit hclosed
    exact ⟨Nat.le_refl 1, by simpa using hclosed⟩

theorem answer : run.1 = .unfinished ∨ run.1 = closingAnswer layers job arr run.2 := by
  obtain ⟨hway, hended⟩ := hpassage
  generalize hfinal : arr.getLast? = a? at hended
  cases hended with
  | settled hactive hverdict =>
    obtain ⟨before, rfl⟩ := List.getLast?_eq_some_iff.mp hfinal
    exact .inr (closingAnswer_finish hactive hverdict before _).symm
  | stopped hretried hsignalled =>
    obtain ⟨before, rfl⟩ := List.getLast?_eq_some_iff.mp hfinal
    rw [closingAnswer_retried hretried, hsignalled]
    exact .inr rfl
  | unfinished _ => exact .inl rfl
  | @refused a hclosed =>
    obtain ⟨before, rfl⟩ := List.getLast?_eq_some_iff.mp hfinal
    have hunsignalled : job.signalled a.t = false :=
      hway.unsignalled a (List.mem_append_right _ List.mem_cons_self)
    have hothers : closingAnswer layers job (before ++ [a]) a.t =
        closingAnswer layers job before a.t := by
      simp [closingAnswer, List.filter_append, hclosed]
    rw [hothers]
    -- what arrived before the refusal, if anything did, was retried
    cases hlast : before.getLast? with
    | none =>
      obtain rfl : before = [] := List.getLast?_eq_none_iff.mp hlast
      exact .inr (congrArg stoppedBy hunsignalled.symm)
    | some b =>
      obtain ⟨earlier, rfl⟩ := List.getLast?_eq_some_iff.mp hlast
      rw [closingAnswer_retried (hway.link (List.append_assoc earlier [b] [a])), hunsignalled]
      exact .inr rfl

end Passage

theorem Passage.closesDown (hpassage : Passage job layers layers.length t arr run) :
    ClosesDown layers job t arr run where
  arrived := hpassage.way.arrived
  invoked := hpassage.way.invoked
  onTime := by
    intro moment hplanned a ha hreached
    have hdisposed : t.disposedBy moment = true := by simp [disposedBy, hplanned]
    have hclosed : a.t.disposed = true :=
      disposedBy_mono hreached ((hpassage.way.since a ha).disposedBy moment hdisposed)
    simp [Arrival.active, hclosed]
  disposing := by
    intro before a after hsplit _ hdisposes
    have hdisposed : (upTo job t (before ++ [a])).disposed = true := by
      rw [upTo_concat]
      exact disposed_invoke hdisposes false
    exact hpassage.atMostOne (hsplit.trans (List.append_cons before a after)) hdisposed
  atMostOne before after := hpassage.atMostOne
  refused before a after := hpassage.refused
  answer := hpassage.answer

end Law

/-! ## The run comes to an end -/

/-- The longer run does what the run does, and finishes what the run leaves
unfinished on a disposed fiber. -/
structure Outlasts (longer run : Answer α × Timeline) : Prop where
  same : ∀ r, run.1 = .resolved r → longer = run
  closes : run.1 = .unfinished → run.2.disposed = true →
    ∃ u, longer = (.cancelled .fiberDisposed, u)

theorem outlasts_resolved (r : Resolution α) (u : Timeline) :
    Outlasts (.resolved r, u) (.resolved r, u) :=
  ⟨fun _ _ => rfl, nofun⟩

section Outlasts

variable {p : Policy} {job : Job α} {depth : Nat} {inner inner' : Dispatcher α}

/-- No layer waits or retries after a refusal. -/
theorem attempts_refused {t u : Timeline} (hunsignalled : job.signalled t = false)
    (hgiven : inner t = (.cancelled .fiberDisposed, u)) (allowance : Nat) (n : UInt32) :
    attempts p job depth inner (allowance + 1) n t = (.cancelled .fiberDisposed, u) :=
  attempts_finish hunsignalled hgiven rfl

theorem submit_refused (job : Job α) (allowance : Nat) (layers : List Policy) (depth : Nat)
    {t : Timeline} (hunsignalled : job.signalled t = false) (hdisposed : t.disposed = true) :
    ∃ u, submit .fiber job (allowance + 1) depth layers t = (.cancelled .fiberDisposed, u) := by
  induction layers generalizing depth t with
  | nil =>
    have hrefused := runOnFiber_disposed job (t := t.record (.given depth)) hdisposed
    refine ⟨t.record (.given depth), ?_⟩
    rw [submit_fiber, hrefused]
    rfl
  | cons p layers ih =>
    obtain ⟨u, hgiven⟩ := ih (depth + 1) (t := t.record (.given depth)) hunsignalled hdisposed
    exact ⟨u, attempts_refused (t := t.record (.given depth)) hunsignalled hgiven allowance 0⟩

theorem attempts_outlasts
    (hbelow : ∀ t, job.signalled t = false → Outlasts (inner' t) (inner t))
    (hrefuses : ∀ t, job.signalled t = false → t.disposed = true →
      ∃ u, inner' t = (.cancelled .fiberDisposed, u))
    {allowance more : Nat} (hlonger : allowance < more) (n : UInt32) (t : Timeline)
    (hunsignalled : job.signalled t = false) :
    Outlasts (attempts p job depth inner' more n t) (attempts p job depth inner allowance n t) := by
  -- the two runs go in step until the shorter one has used up what it is allowed
  induction allowance generalizing more n t with
  | zero =>
    obtain ⟨rest, rfl⟩ : ∃ rest, more = rest + 1 := ⟨more - 1, by omega⟩
    refine ⟨nofun, fun _ hdisposed => ?_⟩
    obtain ⟨u, hgiven⟩ := hrefuses t hunsignalled hdisposed
    exact ⟨u, attempts_refused hunsignalled hgiven rest n⟩
  | succ allowance ih =>
    obtain ⟨rest, rfl⟩ : ∃ rest, more = rest + 1 := ⟨more - 1, by omega⟩
    obtain ⟨hsame, hcloses⟩ := hbelow t hunsignalled
    rcases hgiven : inner t with ⟨answer, u⟩
    rw [hgiven] at hsame hcloses
    cases answer with
    | resolved r =>
      have hgiven' : inner' t = (.resolved r, u) := hsame r rfl
      cases hverdict : judge p (job.signalled u) n r with
      | finish final =>
        rw [attempts_finish hunsignalled hgiven hverdict,
          attempts_finish hunsignalled hgiven' hverdict]
        exact outlasts_resolved final _
      | retry e =>
        cases hpause : (pauseAfter p job.listening depth n e u).1 with
        | true =>
          rw [attempts_interrupted hunsignalled hgiven hverdict hpause,
            attempts_interrupted hunsignalled hgiven' hverdict hpause]
          exact outlasts_resolved _ _
        | false =>
          rw [attempts_retry hunsignalled hgiven hverdict hpause,
            attempts_retry hunsignalled hgiven' hverdict hpause]
          exact ih (by omega) _ _ (signalled_of_passed hpause)
    | unwound panic =>
      rw [attempts_unresolved hunsignalled hgiven nofun]
      exact ⟨nofun, nofun⟩
    | unfinished =>
      rw [attempts_unresolved hunsignalled hgiven nofun]
      refine ⟨nofun, fun _ hdisposed => ?_⟩
      obtain ⟨v, hgiven'⟩ := hcloses rfl hdisposed
      exact ⟨v, attempts_refused hunsignalled hgiven' rest n⟩

theorem submit_outlasts (job : Job α) {allowance more : Nat} (hlonger : allowance < more)
    (layers : List Policy) (depth : Nat) {t : Timeline} (hunsignalled : job.signalled t = false) :
    Outlasts (submit .fiber job more depth layers t)
      (submit .fiber job allowance depth layers t) := by
  induction layers generalizing depth t with
  | nil => exact outlasts_resolved _ _
  | cons p layers ih =>
    obtain ⟨rest, rfl⟩ : ∃ rest, more = rest + 1 := ⟨more - 1, by omega⟩
    exact attempts_outlasts (fun u h => ih (depth + 1) h)
      (fun u h hdisposed => submit_refused job rest layers (depth + 1) h hdisposed) hlonger 0 _
      hunsignalled

end Outlasts

/-- A stack that finds the signal fired submits nothing. -/
theorem closesDown_of_signalled {job : Job α} {layers : List Policy} (hlayered : layers ≠ [])
    {t : Timeline} (hsignalled : job.signalled t = true) {answer : Answer α}
    (hends : answer = .unfinished ∨ answer = .cancelled .signalled) :
    ClosesDown layers job t [] (answer, t.record (.given 0)) where
  arrived := (meanwhile_given (Ne.symm (mt List.length_eq_zero_iff.mp hlayered)) t).receipts
  invoked := rfl
  onTime _ _ := List.forall_mem_nil _
  disposing := by
    intro before a after hsplit
    exact absurd hsplit.symm (by simp)
  atMostOne := by
    intro before after hsplit _
    obtain ⟨-, rfl⟩ := List.append_eq_nil_iff.mp hsplit.symm
    exact ⟨Nat.zero_le 1, List.forall_mem_nil _⟩
  refused := by
    intro before a after hsplit
    exact absurd hsplit.symm (by simp)
  answer := by
    have hstops : job.signalled (t.record (.given 0)) = true := hsignalled
    have hclosing : closingAnswer layers job [] (t.record (.given 0)) = .cancelled .signalled := by
      show stoppedBy (job.signalled (t.record (.given 0))) = _
      rw [hstops]
      rfl
    rw [hclosing]
    exact hends

/-- A job with any payload is submitted to a stack of one layer or more over a fiber,
which may be disposed before, at any moment of the run, or by the payload.  Then the
run closes down: once the fiber is disposed, be it by the invocation under way, and that
has ended, one more submission arrives at most, and what is refused ends the run at
once.  A run
that has used up what it was allowed when the fiber is disposed comes to an end if it
is allowed any more. -/
theorem enqueue_closesDown (outer : Policy) (inner : List Policy) (job : Job α) (allowance : Nat)
    (t : Timeline) :
    let layers := outer :: inner
    let run := enqueue layers .fiber job allowance t
    ClosesDown layers job t (arrivals job allowance 0 layers t) run ∧
      (run.2.disposed = true → ∀ more, allowance < more →
        ∃ r, (enqueue layers .fiber job more t).1 = .resolved r) := by
  intro layers run
  cases hsignalled : job.signalled t with
  | false =>
    have hpassage : Passage job layers layers.length t (arrivals job allowance 0 layers t) run :=
      submit_passage job allowance (Nat.zero_add _) hsignalled
    refine ⟨hpassage.closesDown, fun hdisposed more hlonger => ?_⟩
    have houtlasts : Outlasts (enqueue layers .fiber job more t) run :=
      submit_outlasts job hlonger layers 0 hsignalled
    rcases hpassage.ended.resolved_or_unfinished with ⟨r, hresolved⟩ | hunfinished
    · rw [houtlasts.same r hresolved]
      exact ⟨r, hresolved⟩
    · obtain ⟨v, hclosed⟩ := houtlasts.closes hunfinished hdisposed
      rw [hclosed]
      exact ⟨_, rfl⟩
  | true =>
    have hreceived : job.signalled (t.record (.given 0)) = true := hsignalled
    have hstopped (rest : Nat) : enqueue layers .fiber job (rest + 1) t =
        (.cancelled .signalled, t.record (.given 0)) := attempts_signalled hreceived
    constructor
    · have hnothing : arrivals job allowance 0 layers t = [] := by
        rw [arrivals, starts_signalled hreceived]
        rfl
      rw [hnothing]
      cases allowance with
      | zero => exact closesDown_of_signalled (List.cons_ne_nil _ _) hsignalled (.inl rfl)
      | succ rest =>
        show ClosesDown layers job t [] (enqueue layers .fiber job (rest + 1) t)
        rw [hstopped]
        exact closesDown_of_signalled (List.cons_ne_nil _ _) hsignalled (.inr rfl)
    · intro _ more hlonger
      obtain ⟨rest, rfl⟩ : ∃ rest, more = rest + 1 := ⟨more - 1, by omega⟩
      rw [hstopped]
      exact ⟨_, rfl⟩

/-- The inner layer gives up after one retry, and the outer one never does.  The fiber
is disposed during the second wait of the outer one, or by the third invocation of the
payload. -/
theorem enqueue_closesDown_waitOrPayload :
    let inner : Policy := { matcher := .all, limit := some 1 }
    let outer : Policy := { matcher := .all, wait := .fixed 10, limit := none }
    let job (last : Option Nat) : Job Unit :=
      { operation := { payload := fun n =>
          { ending := .failure (.plain "down"), disposes := last = some n } } }
    let t : Timeline := { disposedAt := some 15 }
    let waiting (allowance : Nat) := enqueue [outer, inner] .fiber (job none) allowance t
    let invoking := enqueue [outer, inner] .fiber (job (some 2)) 3 {}
    let arr := arrivals (job none) 3 0 [outer, inner] t
    let arr' := arrivals (job (some 2)) 3 0 [outer, inner] {}
    (waiting 2).1 = .unfinished ∧ (waiting 2).2.disposed = true ∧
      (∃ r, (waiting 3).1 = .resolved r) ∧
      ClosesDown [outer, inner] (job none) t arr (waiting 3) ∧
      arr.map (fun a => (a.attempts, a.active)) =
        [([0, 0], true), ([0, 1], true), ([1, 0], true), ([1, 1], true), ([2, 0], false)] ∧
      (waiting 3).1 = .cancelled .fiberDisposed ∧ (waiting 3).2.calls = 4 ∧
      ClosesDown [outer, inner] (job (some 2)) {} arr' invoking ∧
      arr'.map (fun a => (a.attempts, a.active, a.disposes (job (some 2)))) =
        [([0, 0], true, false), ([0, 1], true, false), ([1, 0], true, true),
          ([1, 1], false, false)] ∧
      invoking.1 = .cancelled .fiberDisposed ∧ invoking.2.calls = 3 := by
  intro inner outer job t waiting invoking arr arr'
  have hdisposed : (waiting 2).2.disposed = true := by decide
  have hcloses := (enqueue_closesDown outer [inner] (job none) 3 t).1
  have hcloses' := (enqueue_closesDown outer [inner] (job (some 2)) 3 {}).1
  have hends := (enqueue_closesDown outer [inner] (job none) 2 t).2 hdisposed 3 (by decide)
  have hplaces : arr.map (fun a => (a.attempts, a.active)) =
      [([0, 0], true), ([0, 1], true), ([1, 0], true), ([1, 1], true), ([2, 0], false)] := by
    decide
  have hplaces' : arr'.map (fun a => (a.attempts, a.active, a.disposes (job (some 2)))) =
      [([0, 0], true, false), ([0, 1], true, false), ([1, 0], true, true),
        ([1, 1], false, false)] := by
    decide
  have hfour : arr.countP (·.active) = 4 := by decide
  have hthree : arr'.countP (·.active) = 3 := by decide
  refine ⟨rfl, hdisposed, hends, hcloses, hplaces, rfl, ?_, hcloses', hplaces', rfl, ?_⟩
  · rw [hcloses.invoked, hfour]
  · rw [hcloses'.invoked, hthree]

end Run
end Skein
