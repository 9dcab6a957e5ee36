import Mathlib.Data.List.Chain
import Skein.Proofs.Run.Ageing
import Skein.Proofs.Run.Provenance
import Skein.Proofs.Run.Signal

/-!
# What arrives at the fiber

A job that is submitted to a stack of policies over a fiber arrives there again and
again, each time on another timeline and while each layer is making another attempt.
What finds the fiber active is invoked; what finds it disposed is refused.  Between
one arrival and the next a layer has retried what the invocation came to, and the
last arrival decides how the run ends: `Passage`.  The dispatcher at the bottom has
such a passage, and each layer makes one out of those of the dispatcher below it.
-/

namespace Skein
namespace Run

open Retry Timeline

variable {α : Type}

/-! ## What the story says of a depth -/

/-- The stories of the moments at which the dispatcher at the depth received a
submission, the last one first. -/
def receipts (depth : Nat) : List Event → List (List Event)
  | [] => []
  | e :: earlier =>
    if e = .given depth then (e :: earlier) :: receipts depth earlier else receipts depth earlier

section Receipts

variable {depth : Nat}

theorem receipts_given (earlier : List Event) :
    receipts depth (.given depth :: earlier) =
      (.given depth :: earlier) :: receipts depth earlier := by
  simp [receipts]

theorem receipts_append {later : List Event} (hnone : .given depth ∉ later) (earlier : List Event) :
    receipts depth (later ++ earlier) = receipts depth earlier := by
  induction later with
  | nil => rfl
  | cons e later ih =>
    rw [List.mem_cons, not_or] at hnone
    rw [List.cons_append, receipts, if_neg (Ne.symm hnone.1), ih hnone.2]

theorem receipts_elapsed {t u : Timeline} (h : Elapsed t u) :
    receipts depth u.story = receipts depth t.story := by
  cases h with
  | quietly _ hstory _ => rw [hstory]
  | firing moment _ _ hstory _ =>
    rw [hstory]
    exact receipts_append (by simp : Event.given depth ∉ [Event.fired moment]) t.story

end Receipts

/-- From `t` to `u` the dispatcher at the depth received nothing, and the payload
was not invoked. -/
structure Meanwhile (depth : Nat) (t u : Timeline) : Prop where
  ages : Ages t u
  receipts : receipts depth u.story = receipts depth t.story
  calls : u.calls = t.calls

theorem meanwhile_log (depth : Nat) (t : Timeline) (entries : List Log.Entry) :
    Meanwhile depth t (t.log entries) := by
  refine ⟨ages_log t entries, ?_, calls_log t entries⟩
  rw [story_log]
  exact receipts_append (by simp) t.story

theorem meanwhile_given {bottom depth : Nat} (hother : depth ≠ bottom) (t : Timeline) :
    Meanwhile bottom t (t.record (.given depth)) :=
  ⟨ages_record t _,
    receipts_append (by simpa using hother.symm : Event.given bottom ∉ [Event.given depth]) t.story,
    rfl⟩

theorem meanwhile_pauseAfter (bottom : Nat) (p : Policy) (listening : Bool) (depth : Nat)
    (attempt : UInt32) (e : DispatchError) (t : Timeline) :
    Meanwhile bottom t (pauseAfter p listening depth attempt e t).2 := by
  refine ⟨ages_pauseAfter p listening depth attempt e t, ?_, gauge_calls.pause _ _ _ _ _ _⟩
  rw [pauseAfter, receipts_elapsed (elapsed_backoff _ _ _), story_announceRetry]
  refine receipts_append ?_ t.story
  unfold retryEvents
  cases p.wait.argument? attempt <;> simp

/-! ## Submissions as they arrive at the fiber -/

/-- A submission on its arrival at the fiber. -/
structure Arrival where
  /-- The numbers of the attempts that the layers are making, the outermost one
  first. -/
  attempts : List UInt32
  t : Timeline

namespace Arrival

def active (a : Arrival) : Bool := !a.t.disposed

def under (n : UInt32) (a : Arrival) : Arrival :=
  { a with attempts := n :: a.attempts }

def ending (job : Job α) (a : Arrival) : Ending α := (job.invoke false a.t).1

def after (job : Job α) (a : Arrival) : Timeline := (job.invoke false a.t).2

def disposes (job : Job α) (a : Arrival) : Bool := (job.operation.invocation a.t.calls).disposes

end Arrival

/-- What arrives at the fiber in the attempts of a layer, if `below` is what arrives
there in one submission to the dispatcher below it. -/
def passedOn (below : Timeline → List Arrival) (attempts : List (UInt32 × Timeline)) :
    List Arrival :=
  attempts.flatMap fun (n, s) => (below s).map (.under n)

def arrivals (job : Job α) (allowance : Nat) : Nat → List Policy → Timeline → List Arrival
  | depth, [], t => [{ attempts := [], t := t.record (.given depth) }]
  | depth, p :: layers, t =>
    passedOn (arrivals job allowance (depth + 1) layers)
      (starts p job depth (submit .fiber job allowance (depth + 1) layers) allowance 0
        (t.record (.given depth)))

/-- What layers make of an attempt, each in its turn from the inside out, until one
of them retries. -/
def judgeAll (signalled : Bool) : List (Policy × UInt32) → Resolution α → Verdict α
  | [], r => .finish r
  | (p, n) :: inner, r =>
    match judgeAll signalled inner r with
    | .finish r => judge p signalled n r
    | .retry e => .retry e

def Arrival.verdict (job : Job α) (layers : List Policy) (a : Arrival) : Verdict α :=
  judgeAll (job.signalled (a.after job)) (layers.zip a.attempts) (a.ending job).resolution

section JudgeAll

variable {signalled : Bool} {inner : List (Policy × UInt32)} {r final : Resolution α}
  {e : DispatchError}

theorem judgeAll_finish (h : judgeAll signalled inner r = .finish final) (p : Policy) (n : UInt32) :
    judgeAll signalled ((p, n) :: inner) r = judge p signalled n final := by
  simp only [judgeAll, h]

theorem judgeAll_retry (h : judgeAll signalled inner r = .retry e) (p : Policy) (n : UInt32) :
    judgeAll signalled ((p, n) :: inner) r = .retry e := by
  simp only [judgeAll, h]

end JudgeAll

/-- One of the layers retries what the invocation comes to that the arrival begins,
and `u` is no earlier than the end of that invocation. -/
structure Retried (job : Job α) (layers : List Policy) (a : Arrival) (u : Timeline) : Prop where
  active : a.active = true
  verdict : ∃ e, a.verdict job layers = .retry e
  ages : Ages (a.after job) u

theorem Retried.later {job : Job α} {layers : List Policy} {a : Arrival} {u v : Timeline}
    (h : Retried job layers a u) (hlater : Ages u v) : Retried job layers a v :=
  ⟨h.active, h.verdict, h.ages.trans hlater⟩

/-- A retry by an inner layer is none of the business of the outer ones. -/
theorem Retried.under {job : Job α} {layers : List Policy} {a : Arrival} {u : Timeline}
    (h : Retried job layers a u) (p : Policy) (n : UInt32) :
    Retried job (p :: layers) (a.under n) u := by
  obtain ⟨e, hverdict⟩ := h.verdict
  exact ⟨h.active, ⟨e, judgeAll_retry hverdict p n⟩, h.ages⟩

/-! ## The way from arrival to arrival -/

/-- What lies between the timeline on which a job is submitted, at a moment when the
signal has not fired, and the one that its run has come to. -/
structure Way (job : Job α) (layers : List Policy) (bottom : Nat) (t : Timeline)
    (arr : List Arrival) (u : Timeline) : Prop where
  ages : Ages t u
  since : ∀ a ∈ arr, Ages t a.t
  unsignalled : ∀ a ∈ arr, job.signalled a.t = false
  /-- Only what is retried is followed by another submission. -/
  chain : arr.IsChain fun a b => Retried job layers a b.t
  arrived : receipts bottom u.story = (arr.map (·.t.story)).reverse ++ receipts bottom t.story
  invoked : u.calls = t.calls + arr.countP (·.active)

namespace Way

variable {job : Job α} {layers : List Policy} {bottom : Nat} {s t u v : Timeline}
  {arr arr' : List Arrival}

theorem nil (t : Timeline) : Way job layers bottom t [] t :=
  ⟨.refl t, List.forall_mem_nil _, List.forall_mem_nil _, .nil, rfl, rfl⟩

theorem link (hway : Way job layers bottom t arr u) {earlier later : List Arrival} {a b : Arrival}
    (hsplit : arr = earlier ++ a :: b :: later) : Retried job layers a b.t := by
  have hchain := hway.chain
  rw [hsplit, List.isChain_append_cons_cons] at hchain
  exact hchain.2.1

theorem before (h : Meanwhile bottom s t) (hway : Way job layers bottom t arr u) :
    Way job layers bottom s arr u where
  ages := h.ages.trans hway.ages
  since a ha := h.ages.trans (hway.since a ha)
  unsignalled := hway.unsignalled
  chain := hway.chain
  arrived := by rw [hway.arrived, h.receipts]
  invoked := by rw [hway.invoked, h.calls]

theorem andThen (hway : Way job layers bottom t arr u) (h : Meanwhile bottom u v) :
    Way job layers bottom t arr v where
  ages := hway.ages.trans h.ages
  since := hway.since
  unsignalled := hway.unsignalled
  chain := hway.chain
  arrived := by rw [h.receipts, hway.arrived]
  invoked := by rw [h.calls, hway.invoked]

theorem append (hway : Way job layers bottom t arr u) (hway' : Way job layers bottom u arr' v)
    (hlink : ∀ a ∈ arr.getLast?, ∀ b ∈ arr'.head?, Retried job layers a b.t) :
    Way job layers bottom t (arr ++ arr') v where
  ages := hway.ages.trans hway'.ages
  since := by
    intro a ha
    rcases List.mem_append.mp ha with ha | ha
    · exact hway.since a ha
    · exact hway.ages.trans (hway'.since a ha)
  unsignalled := by
    intro a ha
    rcases List.mem_append.mp ha with ha | ha
    · exact hway.unsignalled a ha
    · exact hway'.unsignalled a ha
  chain := hway.chain.append hway'.chain hlink
  arrived := by
    rw [hway'.arrived, hway.arrived, List.map_append, List.reverse_append, List.append_assoc]
  invoked := by rw [hway'.invoked, hway.invoked, List.countP_append, Nat.add_assoc]

/-- The way as it is seen by the layer above. -/
theorem under (hway : Way job layers bottom t arr u) (p : Policy) (n : UInt32) :
    Way job (p :: layers) bottom t (arr.map (.under n)) u where
  ages := hway.ages
  since := by
    intro b hb
    obtain ⟨a, ha, rfl⟩ := List.mem_map.mp hb
    exact hway.since a ha
  unsignalled := by
    intro b hb
    obtain ⟨a, ha, rfl⟩ := List.mem_map.mp hb
    exact hway.unsignalled a ha
  chain := List.isChain_map_of_isChain _ (fun _ _ h => h.under p n) hway.chain
  arrived := by
    rw [List.map_map]
    exact hway.arrived
  invoked := by
    rw [List.countP_map]
    exact hway.invoked

end Way

/-! ## How a run ends -/

inductive Ended (job : Job α) (layers : List Policy) : Option Arrival → Answer α × Timeline → Prop
  /-- No layer retries the invocation. -/
  | settled {a : Arrival} {r : Resolution α} {entries : List Log.Entry} (hactive : a.active = true)
      (hverdict : a.verdict job layers = .finish r) :
      Ended job layers (some a) (.resolved r, (a.after job).log entries)
  /-- The fiber refuses, and that is all. -/
  | refused {a : Arrival} (hclosed : a.active = false) :
      Ended job layers (some a) (.cancelled .fiberDisposed, a.t)
  /-- The signal fires before the next attempt. -/
  | stopped {a : Arrival} {u : Timeline} (hretried : Retried job layers a u)
      (hsignalled : job.signalled u = true) :
      Ended job layers (some a) (.cancelled .signalled, u)
  | unfinished {last : Option Arrival} {u : Timeline}
      (hretried : ∀ a ∈ last, Retried job layers a u) : Ended job layers last (.unfinished, u)

structure Passage (job : Job α) (layers : List Policy) (bottom : Nat) (t : Timeline)
    (arr : List Arrival) (run : Answer α × Timeline) : Prop where
  way : Way job layers bottom t arr run.2
  ended : Ended job layers arr.getLast? run

/-- A passage goes on where a way has led that ends with a retry. -/
theorem Passage.after {job : Job α} {layers : List Policy} {bottom : Nat} {t u : Timeline}
    {arr arr' : List Arrival} {a : Arrival} {run : Answer α × Timeline}
    (hpassage : Passage job layers bottom u arr' run) (hway : Way job layers bottom t arr u)
    (hfinal : arr.getLast? = some a) (hretried : Retried job layers a u) :
    Passage job layers bottom t (arr ++ arr') run := by
  constructor
  · refine hway.append hpassage.way ?_
    intro a' ha b hb
    obtain rfl : a = a' := Option.some.inj (hfinal.symm.trans ha)
    exact hretried.later (hpassage.way.since b (List.mem_of_head? hb))
  · rw [List.getLast?_append]
    cases hlast : arr'.getLast? with
    | some b =>
      rw [Option.some_or, ← hlast]
      exact hpassage.ended
    | none =>
      have hended := hpassage.ended
      rw [hlast] at hended
      rw [Option.none_or, hfinal]
      cases hended with
      | unfinished _ =>
        refine .unfinished fun a' ha => ?_
        obtain rfl : a = a' := Option.some.inj ha
        exact hretried.later hpassage.way.ages

theorem signalled_log (job : Job α) (t : Timeline) (entries : List Log.Entry) :
    job.signalled (t.log entries) = job.signalled t := by
  rw [Job.signalled, fired_log, Job.signalled]

section Layer

variable {p : Policy} {job : Job α} {layers : List Policy} {n : UInt32} {u : Timeline}
  {last : Option Arrival} {r : Resolution α}

/-- A cancellation is handed on, and nothing is reported. -/
theorem finish_cancelled {reason : CancelReason} {final : Resolution α} {signalled : Bool}
    (h : judge (α := α) p signalled n (.error (.cancelled reason)) = .finish final) :
    final = .error (.cancelled reason) := by
  injection h with h
  exact h.symm

/-- The layer has the run end as it ends for the layer below. -/
theorem Ended.finish {final : Resolution α} (hended : Ended job layers last (.resolved r, u))
    (hverdict : judge p (job.signalled u) n r = .finish final) :
    Ended job (p :: layers) (last.map (.under n))
      (.resolved final, u.log (closingReport p (job.signalled u) n r)) := by
  cases hended with
  | settled hactive hbelow =>
    rw [signalled_log] at hverdict ⊢
    rw [log_log]
    exact .settled hactive ((judgeAll_finish hbelow p n).trans hverdict)
  | refused hclosed =>
    obtain rfl := finish_cancelled hverdict
    exact .refused hclosed
  | stopped hretried hsignalled =>
    obtain rfl := finish_cancelled hverdict
    exact .stopped (hretried.under p n) hsignalled

/-- Only the outcome of an invocation is retried. -/
theorem Ended.retry {e : DispatchError} (hended : Ended job layers last (.resolved r, u))
    (hverdict : judge p (job.signalled u) n r = .retry e) :
    ∃ a, last = some a ∧ Retried job (p :: layers) (a.under n) u := by
  cases hended with
  | @settled a _ entries hactive hbelow =>
    rw [signalled_log] at hverdict
    exact ⟨a, rfl, hactive, ⟨e, (judgeAll_finish hbelow p n).trans hverdict⟩, ages_log _ entries⟩
  | refused hclosed => cases hverdict
  | stopped hretried hsignalled => cases hverdict

end Layer

/-! ## Whole stacks -/

section Pause

variable {p : Policy} {job : Job α} {depth : Nat} {n : UInt32} {e : DispatchError} {u : Timeline}

theorem signalled_of_interrupted (hunsignalled : job.signalled u = false)
    (hpause : (pauseAfter p job.listening depth n e u).1 = true) :
    job.signalled (pauseAfter p job.listening depth n e u).2 = true := by
  cases hlistening : job.listening with
  | false =>
    rw [hlistening, pauseAfter_deaf] at hpause
    cases hpause
  | true =>
    rw [hlistening] at hpause
    have hunfired : (announceRetry p depth n e u).fired = false := by
      rw [signalled_eq_fired hlistening] at hunsignalled
      rw [fired_announceRetry, hunsignalled]
    obtain ⟨-, moment, -, hfired, -⟩ := backoff_interrupted hunfired hpause
    rw [signalled_eq_fired hlistening]
    exact hfired

theorem signalled_of_passed (hpause : (pauseAfter p job.listening depth n e u).1 = false) :
    job.signalled (pauseAfter p job.listening depth n e u).2 = false := by
  cases hlistening : job.listening with
  | false => simp [Job.signalled, hlistening]
  | true =>
    rw [hlistening] at hpause
    rw [signalled_eq_fired hlistening]
    exact (backoff_passed hpause).1

end Pause

theorem signalled_of_retry {p : Policy} {signalled : Bool} {n : UInt32} {r : Resolution α}
    {e : DispatchError} (h : judge p signalled n r = .retry e) : signalled = false := by
  have hjudged := judge_judged p signalled n r
  rw [h] at hjudged
  cases hjudged with
  | retried _ _ _ hunsignalled _ => exact hunsignalled

/-- Each layer hands on the passage of the dispatcher below it. -/
theorem attempts_passage {p : Policy} {job : Job α} {layers : List Policy} {bottom depth : Nat}
    {inner : Dispatcher α} {arr : Timeline → List Arrival}
    (hbelow : ∀ t, job.signalled t = false → Passage job layers bottom t (arr t) (inner t))
    (allowance : Nat) (n : UInt32) (t : Timeline) (hunsignalled : job.signalled t = false) :
    Passage job (p :: layers) bottom t
      (passedOn arr (starts p job depth inner allowance n t))
      (attempts p job depth inner allowance n t) := by
  -- the way below is the first stretch, and leads through a pause to the next attempt
  induction allowance generalizing n t with
  | zero => exact ⟨.nil t, .unfinished nofun⟩
  | succ allowance ih =>
    obtain ⟨hway, hended⟩ := hbelow t hunsignalled
    rcases hgiven : inner t with ⟨answer, u⟩
    rw [hgiven] at hway hended
    have hone : passedOn arr [(n, t)] = (arr t).map (.under n) := List.flatMap_singleton _ _
    have hlast : ((arr t).map (Arrival.under n)).getLast? = (arr t).getLast?.map (.under n) :=
      List.getLast?_map
    generalize (arr t).getLast? = prior at hended hlast
    cases answer with
    | resolved r =>
      cases hverdict : judge p (job.signalled u) n r with
      | finish final =>
        rw [starts_finish hunsignalled hgiven hverdict,
          attempts_finish hunsignalled hgiven hverdict, hone]
        refine ⟨(hway.under p n).andThen (meanwhile_log bottom u _), ?_⟩
        rw [hlast]
        exact hended.finish hverdict
      | retry e =>
        have hmeanwhile := meanwhile_pauseAfter bottom p job.listening depth n e u
        obtain ⟨a, ha, hretried⟩ := hended.retry hverdict
        have hretried : Retried job (p :: layers) (a.under n)
            (pauseAfter p job.listening depth n e u).2 := hretried.later hmeanwhile.ages
        rw [ha] at hlast
        cases hpause : (pauseAfter p job.listening depth n e u).1 with
        | true =>
          rw [starts_interrupted hunsignalled hgiven hverdict hpause,
            attempts_interrupted hunsignalled hgiven hverdict hpause, hone]
          refine ⟨(hway.under p n).andThen hmeanwhile, ?_⟩
          rw [hlast]
          exact .stopped hretried
            (signalled_of_interrupted (signalled_of_retry hverdict) hpause)
        | false =>
          rw [starts_retry hunsignalled hgiven hverdict hpause,
            attempts_retry hunsignalled hgiven hverdict hpause]
          exact (ih _ _ (signalled_of_passed hpause)).after
            ((hway.under p n).andThen hmeanwhile) hlast hretried
    | unwound panic => cases hended
    | unfinished =>
      rw [starts_unresolved hunsignalled hgiven nofun,
        attempts_unresolved hunsignalled hgiven nofun, hone]
      refine ⟨hway.under p n, ?_⟩
      rw [hlast]
      cases hended with
      | unfinished hretried =>
        refine .unfinished fun b hb => ?_
        obtain ⟨a, ha, rfl⟩ := Option.map_eq_some_iff.mp hb
        exact (hretried a ha).under p n

section Bottom

variable (job : Job α) {t : Timeline}

theorem runOnFiber_disposed (hdisposed : t.disposed = true) :
    job.runOnFiber t = (.error (.cancelled .fiberDisposed), t) :=
  if_pos hdisposed

theorem runOnFiber_active (hactive : t.disposed = false) (hunsignalled : job.signalled t = false) :
    job.runOnFiber t =
      ((job.invoke false t).1.resolution,
        (job.invoke false t).2.log
          (WorkItem.executionReport (job.invoke false t).1.resolution)) := by
  rw [Job.runOnFiber, hactive, hunsignalled]
  rfl

theorem submit_fiber (allowance depth : Nat) (t : Timeline) :
    submit .fiber job allowance depth [] t =
      (.resolved (job.runOnFiber (t.record (.given depth))).1,
        (job.runOnFiber (t.record (.given depth))).2) := rfl

theorem receipts_invoke (depth : Nat) (t : Timeline) :
    receipts depth (job.invoke false t).2.story = receipts depth t.story := by
  obtain ⟨u, helapsed, hinvoked, -⟩ := invoke_elapsed job false t
  have hended := receipts_append (by simp : Event.given depth ∉ [Event.completed u.now]) u.story
  have hbegun := receipts_append (by simp : Event.given depth ∉ [Event.invoked t.now]) t.story
  rw [hinvoked]
  exact hended.trans ((receipts_elapsed helapsed).trans hbegun)

/-- The way from a submission to the fiber to a timeline on which it has been dealt
with. -/
theorem way_base {depth : Nat} {a : Arrival} {u : Timeline}
    (harrived : a.t = t.record (.given depth)) (hunsignalled : job.signalled t = false)
    (hages : Ages a.t u) (hreceived : receipts depth u.story = receipts depth a.t.story)
    (hinvoked : u.calls = t.calls + if a.active then 1 else 0) : Way job [] depth t [a] u where
  ages := (harrived ▸ ages_record t _ : Ages t a.t).trans hages
  since := by
    rw [List.forall_mem_singleton, harrived]
    exact ages_record t _
  unsignalled := by
    rw [List.forall_mem_singleton, harrived]
    exact hunsignalled
  chain := .singleton a
  arrived := by
    have hstory : receipts depth a.t.story = a.t.story :: receipts depth t.story := by
      rw [harrived]
      exact receipts_given t.story
    rw [hreceived, hstory]
    rfl
  invoked := by
    rw [hinvoked, List.countP_singleton]

/-- A submission to the fiber is an invocation, or is refused. -/
theorem base_passage (allowance depth : Nat) (hunsignalled : job.signalled t = false) :
    Passage job [] depth t (arrivals job allowance depth [] t)
      (submit .fiber job allowance depth [] t) := by
  obtain ⟨a, ha⟩ : ∃ a : Arrival, a = { attempts := [], t := t.record (.given depth) } := ⟨_, rfl⟩
  have harrived : a.t = t.record (.given depth) := by rw [ha]
  have hsilent : job.signalled a.t = false := by
    rw [harrived]
    exact hunsignalled
  have hcalls : a.t.calls = t.calls := by rw [harrived, calls_record]
  have hway {u : Timeline} := way_base job (u := u) harrived hunsignalled
  rw [arrivals, ← ha, submit_fiber, ← harrived]
  cases hclosed : a.t.disposed with
  | true =>
    have hrefused : a.active = false := by rw [Arrival.active, hclosed, Bool.not_true]
    rw [runOnFiber_disposed job hclosed]
    refine ⟨hway (.refl a.t) rfl ?_, .refused hrefused⟩
    rw [hcalls, hrefused]
    rfl
  | false =>
    have hactive : a.active = true := by rw [Arrival.active, hclosed, Bool.not_false]
    have hreported := meanwhile_log depth (job.invoke false a.t).2
      (WorkItem.executionReport (job.invoke false a.t).1.resolution)
    rw [runOnFiber_active job hclosed hsilent]
    constructor
    · refine hway ((ages_invoke job a.t).trans hreported.ages) ?_ ?_
      · rw [hreported.receipts, receipts_invoke]
      · rw [hreported.calls, calls_invoke, hcalls, hactive]
        rfl
    · refine .settled hactive ?_
      show judgeAll _ (List.zip [] _) _ = _
      rw [List.zip_nil_left]
      rfl

end Bottom

/-- So every stack has its passage, if the signal has not fired before. -/
theorem submit_passage (job : Job α) (allowance : Nat) {layers : List Policy} {depth bottom : Nat}
    (hdeep : depth + layers.length = bottom) {t : Timeline}
    (hunsignalled : job.signalled t = false) :
    Passage job layers bottom t (arrivals job allowance depth layers t)
      (submit .fiber job allowance depth layers t) := by
  induction layers generalizing depth t with
  | nil =>
    obtain rfl : depth = bottom := hdeep
    exact base_passage job allowance depth hunsignalled
  | cons p layers ih =>
    rw [List.length_cons] at hdeep
    have hbelow (u : Timeline) (h : job.signalled u = false) :
        Passage job layers bottom u (arrivals job allowance (depth + 1) layers u)
          (submit .fiber job allowance (depth + 1) layers u) := ih (by omega) h
    have hpassage : Passage job (p :: layers) bottom (t.record (.given depth))
        (arrivals job allowance depth (p :: layers) t)
        (submit .fiber job allowance depth (p :: layers) t) :=
      attempts_passage hbelow allowance 0 _ hunsignalled
    exact ⟨hpassage.way.before (meanwhile_given (by omega) t), hpassage.ended⟩

end Run
end Skein
