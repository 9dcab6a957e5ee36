import Mathlib.Algebra.BigOperators.Group.List.Basic
import Skein.Proofs.Run.WholeRun

/-!
# What one submission costs

A layer with a limit submits no more often than the limit allows, whatever its
matcher accepts and whatever the dispatcher below it does.  So in a stack the
limits multiply: `enqueue_accounted` bounds what reaches the dispatcher at the
bottom by the product of the `n + 1`, shows that the run comes to an end, and
counts the invocations of the payload.

The dispatcher at the bottom may be any dispatcher that notes no submission to
those above it.

What is counted is a gauge, that is a reading of the timeline that reports and
pauses leave alone: the submissions that a depth has received, or the invocations
of the payload.  The bound of a layer is proved for all gauges at once.
-/

namespace Skein
namespace Run

open Retry Timeline

variable {α : Type}

/-! ## One layer -/

def most (limits : List UInt32) : Nat :=
  (limits.map fun n => n.toNat + 1).prod

theorem most_cons (n : UInt32) (limits : List UInt32) :
    most (n :: limits) = (n.toNat + 1) * most limits :=
  List.prod_cons

section Layer

variable {p : Policy} {job : Job α} {depth : Nat} {inner : Dispatcher α} {m : Timeline → Nat}

/-- From attempt number `a` on there are at most `n - a + 1` attempts left, each
of which costs what one submission costs. -/
theorem attempts_le (hgauge : Gauge m) {n : UInt32} (hlimited : p.limit = some n) {cost : Nat}
    (h : ∀ t, m (inner t).2 ≤ m t + cost) (allowance : Nat) (a : UInt32) (t : Timeline) :
    a.toNat ≤ n.toNat →
      m (attempts p job depth inner allowance a t).2 ≤ m t + (n.toNat - a.toNat + 1) * cost := by
  have hpaid {t u : Timeline} {answer : Answer α} (hgiven : inner t = (answer, u)) :
      m u ≤ m t + cost := by
    have := h t
    rwa [hgiven] at this
  have hone (left : Nat) : cost ≤ (left + 1) * cost := Nat.le_mul_of_pos_left cost left.succ_pos
  refine attempts_induct
    (motive := fun a t run => a.toNat ≤ n.toNat →
      m run.2 ≤ m t + (n.toNat - a.toNat + 1) * cost) ?_ ?_ ?_ ?_ ?_ ?_ allowance a t
  · intro a t _
    exact Nat.le_add_right _ _
  · intro a t _ _
    exact Nat.le_add_right _ _
  · intro a t u r final _ hgiven _ _
    rw [hgauge.log]
    exact Nat.le_trans (hpaid hgiven) (Nat.add_le_add_left (hone _) _)
  · intro a t u r e _ hgiven _ _ _
    rw [hgauge.pause]
    exact Nat.le_trans (hpaid hgiven) (Nat.add_le_add_left (hone _) _)
  · intro a t u r e run _ hgiven hverdict _ ih _
    have hbelow := below_of_retry hlimited hverdict
    have hcounted := toNat_countOn_below hbelow
    have hcost := ih (by omega)
    rw [hgauge.pause, hcounted] at hcost
    obtain ⟨left, hleft⟩ : ∃ left, n.toNat - a.toNat = left + 1 :=
      ⟨n.toNat - a.toNat - 1, by omega⟩
    have hrest : n.toNat - (a.toNat + 1) = left := by omega
    rw [hrest] at hcost
    rw [hleft, Nat.succ_mul (left + 1) cost]
    have hfirst := hpaid hgiven
    omega
  · intro a t u answer _ hgiven _ _
    exact Nat.le_trans (hpaid hgiven) (Nat.add_le_add_left (hone _) _)

/-- What no submission lowers, no run lowers. -/
theorem attempts_ge (hgauge : Gauge m) (h : ∀ t, m t ≤ m (inner t).2) (allowance : Nat) (a : UInt32)
    (t : Timeline) : m t ≤ m (attempts p job depth inner allowance a t).2 := by
  have hkept {t u : Timeline} {answer : Answer α} (hgiven : inner t = (answer, u)) : m t ≤ m u := by
    have := h t
    rwa [hgiven] at this
  refine attempts_induct (motive := fun _ t run => m t ≤ m run.2) ?_ ?_ ?_ ?_ ?_ ?_ allowance a t
  · exact fun _ _ => Nat.le_refl _
  · exact fun _ _ _ => Nat.le_refl _
  · intro a t u r final _ hgiven _
    rw [hgauge.log]
    exact hkept hgiven
  · intro a t u r e _ hgiven _ _
    rw [hgauge.pause]
    exact hkept hgiven
  · intro a t u r e run _ hgiven _ _ ih
    rw [hgauge.pause] at ih
    exact Nat.le_trans (hkept hgiven) ih
  · intro a t u answer _ hgiven _
    exact hkept hgiven

/-- A run that the signal does not stop at once makes its first submission. -/
theorem attempts_submits (hgauge : Gauge m) (h : ∀ t, m t < m (inner t).2) (allowance : Nat)
    (a : UInt32) {t : Timeline} (hunsignalled : job.signalled t = false) :
    m t < m (attempts p job depth inner (allowance + 1) a t).2 := by
  rcases hgiven : inner t with ⟨answer, u⟩
  have hfirst : m t < m u := by
    have := h t
    rwa [hgiven] at this
  cases answer with
  | resolved r =>
    cases hverdict : judge p (job.signalled u) a r with
    | finish final =>
      rw [attempts_finish hunsignalled hgiven hverdict, hgauge.log]
      exact hfirst
    | retry e =>
      cases hpause : (pauseAfter p job.listening depth a e u).1 with
      | true =>
        rw [attempts_interrupted hunsignalled hgiven hverdict hpause, hgauge.pause]
        exact hfirst
      | false =>
        rw [attempts_retry hunsignalled hgiven hverdict hpause]
        refine Nat.lt_of_lt_of_le hfirst ?_
        rw [← hgauge.pause p job.listening depth a e u]
        exact attempts_ge hgauge (fun t => Nat.le_of_lt (h t)) allowance _ _
  | unwound panic =>
    rw [attempts_unresolved hunsignalled hgiven nofun]
    exact hfirst
  | unfinished =>
    rw [attempts_unresolved hunsignalled hgiven nofun]
    exact hfirst

/-- A run that may make as many submissions as its limit has it make comes to an
end if they do. -/
theorem attempts_ends {n : UInt32} (hlimited : p.limit = some n)
    (h : ∀ t, (inner t).1 ≠ .unfinished) (allowance : Nat) (a : UInt32) (t : Timeline)
    (hle : a.toNat ≤ n.toNat) (henough : n.toNat - a.toNat < allowance) :
    (attempts p job depth inner allowance a t).1 ≠ .unfinished := by
  induction allowance generalizing a t with
  | zero => exact absurd henough (Nat.not_lt_zero _)
  | succ allowance ih =>
    by_cases hsignalled : job.signalled t = true
    · rw [attempts_signalled hsignalled]
      nofun
    have hunsignalled : job.signalled t = false := Bool.eq_false_iff.mpr hsignalled
    have hended := h t
    rcases hgiven : inner t with ⟨answer, u⟩
    rw [hgiven] at hended
    cases answer with
    | resolved r =>
      cases hverdict : judge p (job.signalled u) a r with
      | finish final =>
        rw [attempts_finish hunsignalled hgiven hverdict]
        nofun
      | retry e =>
        cases hpause : (pauseAfter p job.listening depth a e u).1 with
        | true =>
          rw [attempts_interrupted hunsignalled hgiven hverdict hpause]
          nofun
        | false =>
          rw [attempts_retry hunsignalled hgiven hverdict hpause]
          have hbelow := below_of_retry hlimited hverdict
          have hcounted := toNat_countOn_below hbelow
          exact ih _ _ (by omega) (by omega)
    | unwound panic =>
      rw [attempts_unresolved hunsignalled hgiven nofun]
      nofun
    | unfinished => exact absurd rfl hended

/-- What a layer hands on of one submission that it receives. -/
theorem attempts_accounted {n : UInt32} (hlimited : p.limit = some n)
    (hnotes : Notes inner (depth + 1)) {allowance : Nat} (henough : 0 < allowance) (t : Timeline) :
    ∃ k, (attempts p job depth inner allowance 0 (t.record (.given depth))).2.givenTo (depth + 1) =
        t.givenTo (depth + 1) + k ∧
      k ≤ n.toNat + 1 ∧ (job.signalled t = false → 1 ≤ k) ∧ (job.signalled t = true → k = 0) := by
  have hgauge := gauge_givenTo (depth + 1)
  have hreceived : (t.record (.given depth)).givenTo (depth + 1) = t.givenTo (depth + 1) := by
    rw [givenTo_record, if_neg (by simp), Nat.add_zero]
  generalize hs : t.record (.given depth) = s at hreceived
  have hsame : job.signalled s = job.signalled t := by
    rw [← hs]
    rfl
  obtain ⟨rest, rfl⟩ : ∃ rest, allowance = rest + 1 := ⟨allowance - 1, by omega⟩
  have hupto : (attempts p job depth inner (rest + 1) 0 s).2.givenTo (depth + 1) ≤
      s.givenTo (depth + 1) + (n.toNat - 0 + 1) * 1 :=
    attempts_le hgauge hlimited (fun u => Nat.le_of_eq (hnotes u)) _ _ _ (Nat.zero_le _)
  have hleast : s.givenTo (depth + 1) ≤
      (attempts p job depth inner (rest + 1) 0 s).2.givenTo (depth + 1) :=
    attempts_ge hgauge (fun u => Nat.le.intro (hnotes u).symm) _ _ _
  rw [hreceived] at hupto hleast
  obtain ⟨k, hk⟩ := Nat.exists_eq_add_of_le hleast
  refine ⟨k, hk, by omega, ?_, ?_⟩
  · intro hunsignalled
    have hone : s.givenTo (depth + 1) <
        (attempts p job depth inner (rest + 1) 0 s).2.givenTo (depth + 1) :=
      attempts_submits hgauge (fun u => Nat.le_of_eq (hnotes u).symm) rest 0
        (hsame.trans hunsignalled)
    omega
  · intro hsignalled
    rw [attempts_signalled (hsame.trans hsignalled)] at hk
    have hstopped : s.givenTo (depth + 1) = t.givenTo (depth + 1) + k := hk
    omega

end Layer

/-! ## Stacks -/

section Stack

variable {bottom : Dispatcher α} {job : Job α} {allowance : Nat} {m : Timeline → Nat}

/-- A gauge that only submissions at the bottom move goes up by no more than the
product of the limits allows. -/
theorem submitOver_le (hgauge : Gauge m) {layers : List Policy} {limits : List UInt32}
    (hlimited : layers.map Policy.limit = limits.map some) {depth cost : Nat}
    (habove : ∀ t d, d < depth + layers.length → m (t.record (.given d)) = m t)
    (h : ∀ t, m (bottom (t.record (.given (depth + layers.length)))).2 ≤ m t + cost)
    (t : Timeline) :
    m (submitOver bottom job allowance depth layers t).2 ≤ m t + most limits * cost := by
  induction layers generalizing limits depth t with
  | nil =>
    obtain rfl : limits = [] := by simpa using hlimited.symm
    rw [most, List.map_nil, List.prod_nil, Nat.one_mul]
    exact h t
  | cons p layers ih =>
    cases limits with
    | nil => cases hlimited
    | cons n limits =>
      injection hlimited with hfirst hrest
      have hdeeper : depth + 1 + layers.length = depth + (p :: layers).length := by
        rw [List.length_cons]
        omega
      have hbelow (u : Timeline) :
          m (submitOver bottom job allowance (depth + 1) layers u).2 ≤
            m u + most limits * cost := by
        apply ih hrest
        · rw [hdeeper]
          exact habove
        · rw [hdeeper]
          exact h
      rw [← habove t depth (by simp), most_cons, Nat.mul_assoc]
      exact attempts_le hgauge hfirst hbelow allowance 0 _ (Nat.zero_le _)

theorem submitOver_ends (h : ∀ t, (bottom t).1 ≠ .unfinished) {layers : List Policy}
    {limits : List UInt32} (hlimited : layers.map Policy.limit = limits.map some)
    (henough : ∀ n ∈ limits, n.toNat < allowance) (depth : Nat) (t : Timeline) :
    (submitOver bottom job allowance depth layers t).1 ≠ .unfinished := by
  induction layers generalizing limits depth t with
  | nil => exact h _
  | cons p layers ih =>
    cases limits with
    | nil => cases hlimited
    | cons n limits =>
      injection hlimited with hfirst hrest
      have hbelow : ∀ u, (submitOver bottom job allowance (depth + 1) layers u).1 ≠ .unfinished :=
        ih hrest (fun k hk => henough k (List.mem_cons_of_mem n hk)) (depth + 1)
      exact attempts_ends hfirst hbelow allowance 0 _ (Nat.zero_le _)
        (henough n List.mem_cons_self)

end Stack

/-! ## Invocations inline -/

/-- Unless the signal has fired by the end, there were as many invocations as
submissions to the dispatcher at this depth. -/
structure Balanced (job : Job α) (d : Nat) (t u : Timeline) : Prop where
  before : job.signalled u = false → job.signalled t = false
  calls : job.signalled u = false → u.calls + t.givenTo d = t.calls + u.givenTo d

namespace Balanced

variable {job : Job α} {d : Nat} {t u v : Timeline}

theorem trans (h : Balanced job d t u) (h' : Balanced job d u v) : Balanced job d t v := by
  constructor
  · intro hunsignalled
    exact h.before (h'.before hunsignalled)
  · intro hunsignalled
    have hfirst := h.calls (h'.before hunsignalled)
    have hsecond := h'.calls hunsignalled
    omega

theorem of_same (hfired : u.fired = false → t.fired = false) (hcalls : u.calls = t.calls)
    (hgiven : u.givenTo d = t.givenTo d) : Balanced job d t u := by
  constructor
  · unfold Job.signalled
    cases job.listening with
    | false => exact id
    | true => exact hfired
  · intro _
    rw [hcalls, hgiven]

theorem refl (t : Timeline) : Balanced job d t t := of_same id rfl rfl

theorem log (entries : List Log.Entry) : Balanced job d t (t.log entries) := by
  apply of_same
  · rw [fired_log]
    exact id
  · exact calls_log t entries
  · exact givenTo_log t entries d

theorem pause (p : Policy) (listening : Bool) (depth : Nat) (attempt : UInt32) (e : DispatchError) :
    Balanced job d t (pauseAfter p listening depth attempt e t).2 := by
  apply of_same
  · intro hunfired
    have hannounced := elapsed_backoff (announceRetry p depth attempt e t) listening
      (p.wait.delay attempt)
    cases hannounced with
    | quietly hfired _ _ =>
      rw [← fired_announceRetry p depth attempt e t, ← hfired]
      exact hunfired
    | firing _ _ hfired _ _ => cases hunfired.symm.trans hfired
  · exact gauge_calls.pause p listening depth attempt e t
  · exact (gauge_givenTo d).pause p listening depth attempt e t

end Balanced

theorem attempts_balanced {p : Policy} {job : Job α} {depth d : Nat} {inner : Dispatcher α}
    (h : ∀ t, Balanced job d t (inner t).2) (allowance : Nat) (a : UInt32) (t : Timeline) :
    Balanced job d t (attempts p job depth inner allowance a t).2 := by
  have hcame {t u : Timeline} {answer : Answer α} (hgiven : inner t = (answer, u)) :
      Balanced job d t u := by
    have := h t
    rwa [hgiven] at this
  refine attempts_induct (motive := fun _ t run => Balanced job d t run.2)
    ?_ ?_ ?_ ?_ ?_ ?_ allowance a t
  · exact fun _ t => .refl t
  · exact fun _ t _ => .refl t
  · intro a t u r final _ hgiven _
    exact (hcame hgiven).trans (.log _)
  · intro a t u r e _ hgiven _ _
    exact (hcame hgiven).trans (.pause p job.listening depth a e)
  · intro a t u r e run _ hgiven _ _ ih
    exact ((hcame hgiven).trans (.pause p job.listening depth a e)).trans ih
  · intro a t u answer _ hgiven _
    exact hcame hgiven

/-- A submission inline is an invocation, unless the signal has fired. -/
theorem runInline_balanced (job : Job α) (d : Nat) (t : Timeline) :
    Balanced job d t (job.runInline (t.record (.given d))).2 := by
  have hnoted : (t.record (.given d)).givenTo d = t.givenTo d + 1 := by
    rw [givenTo_record, if_pos rfl]
  cases hsignalled : job.signalled (t.record (.given d)) with
  | true =>
    have hsame : (job.runInline (t.record (.given d))).2 = t.record (.given d) := by
      rw [Job.runInline, if_pos hsignalled]
    rw [hsame]
    constructor <;>
    · intro hunsignalled
      cases hsignalled.symm.trans hunsignalled
  | false =>
    have hgiven := givenTo_invoke job true (t.record (.given d)) d
    have hcalls := calls_invoke job true (t.record (.given d))
    rw [runInline_unsignalled hsignalled]
    constructor
    · intro _
      exact hsignalled
    · intro _
      rw [hgiven, hnoted, hcalls, calls_record]
      omega

theorem submit_balanced (job : Job α) (allowance depth : Nat) (layers : List Policy)
    (t : Timeline) :
    Balanced job (depth + layers.length) t (submit .inline job allowance depth layers t).2 := by
  induction layers generalizing depth t with
  | nil => exact runInline_balanced job depth t
  | cons p layers ih =>
    have hother : Event.given depth ≠ .given (depth + (p :: layers).length) := by
      intro hsame
      injection hsame with hsame
      simp at hsame
    have hunmoved : (t.record (.given depth)).givenTo (depth + (p :: layers).length) =
        t.givenTo (depth + (p :: layers).length) := by
      rw [givenTo_record, if_neg hother, Nat.add_zero]
    have hreceived : Balanced job (depth + (p :: layers).length) t (t.record (.given depth)) :=
      .of_same id rfl hunmoved
    apply hreceived.trans
    apply attempts_balanced
    intro u
    have hbelow := ih (depth + 1) u
    rwa [Nat.add_assoc, Nat.add_comm 1] at hbelow

/-! ## The account of a submission -/

/-- A stack of policies with limits, over any dispatcher.  Each layer hands every
submission that it receives on at least once, unless the signal has fired, and at
most once more than it may retry.  So the submissions that reach the bottom are
bounded by a product, the run comes to an end if the dispatcher at the bottom
does, and inline every submission is one invocation as long as the signal does
not fire. -/
theorem enqueue_accounted {bottom : Dispatcher α} {job : Job α} {layers : List Policy}
    {limits : List UInt32} (hlimited : layers.map Policy.limit = limits.map some)
    (hsilent : ∀ t d, d ≤ layers.length → (bottom t).2.givenTo d = t.givenTo d)
    {allowance : Nat} (henough : ∀ n ∈ limits, n.toNat < allowance) (t : Timeline) :
    (∀ upper p lower n, layers = upper ++ p :: lower → p.limit = some n → ∀ s,
      ∃ k, (submitOver bottom job allowance upper.length (p :: lower) s).2.givenTo
          (upper.length + 1) = s.givenTo (upper.length + 1) + k ∧
        k ≤ n.toNat + 1 ∧ (job.signalled s = false → 1 ≤ k) ∧
        (job.signalled s = true → k = 0)) ∧
    (submitOver bottom job allowance 0 layers t).2.givenTo layers.length ≤
      t.givenTo layers.length + most limits ∧
    ((∀ s, (bottom s).1 ≠ .unfinished) →
      (submitOver bottom job allowance 0 layers t).1 ≠ .unfinished ∧
      ∀ cost, (∀ s, (bottom s).2.calls ≤ s.calls + cost) →
        (submitOver bottom job allowance 0 layers t).2.calls ≤ t.calls + most limits * cost) ∧
    (job.signalled (enqueue layers .inline job allowance t).2 = false →
      (enqueue layers .inline job allowance t).2.calls + t.givenTo layers.length =
        t.calls + (enqueue layers .inline job allowance t).2.givenTo layers.length) := by
  refine ⟨?_, ?_, ?_, ?_⟩
  · rintro upper p lower n rfl hlimit s
    have hmem : some n ∈ limits.map some := by
      rw [← hlimited, List.map_append, List.map_cons, hlimit]
      exact List.mem_append_right _ List.mem_cons_self
    have hsome_allowed : 0 < allowance := by
      obtain ⟨k, hk, -⟩ := List.mem_map.mp hmem
      exact Nat.zero_lt_of_lt (henough k hk)
    have hquiet (u : Timeline) :
        (bottom u).2.givenTo (upper.length + 1) = u.givenTo (upper.length + 1) :=
      hsilent u _ (by simp)
    exact attempts_accounted hlimit (submitOver_notes hquiet job allowance lower) hsome_allowed s
  · have habove (s : Timeline) (d : Nat) (h : d < 0 + layers.length) :
        (s.record (.given d)).givenTo layers.length = s.givenTo layers.length := by
      have hother : Event.given d ≠ .given layers.length := by
        intro hsame
        injection hsame with hsame
        omega
      rw [givenTo_record, if_neg hother, Nat.add_zero]
    have hreceived (s : Timeline) :
        (bottom (s.record (.given (0 + layers.length)))).2.givenTo layers.length ≤
          s.givenTo layers.length + 1 := by
      have hnoted := givenTo_record s (.given layers.length) layers.length
      rw [if_pos rfl] at hnoted
      rw [Nat.zero_add, ← hnoted]
      exact Nat.le_of_eq (hsilent _ _ (Nat.le_refl _))
    rw [← Nat.mul_one (most limits)]
    exact submitOver_le (gauge_givenTo layers.length) hlimited habove hreceived t
  · intro hends
    refine ⟨submitOver_ends hends hlimited henough 0 t, ?_⟩
    intro cost hpaid
    exact submitOver_le gauge_calls hlimited (fun _ _ _ => rfl) (fun _ => hpaid _) t
  · intro hunsignalled
    have hbalanced := submit_balanced job allowance 0 layers t
    rw [Nat.zero_add] at hbalanced
    exact hbalanced.calls hunsignalled

/-- A payload that always fails uses up all that two layers allow. -/
theorem enqueue_accounted_full :
    let inner : Policy := { matcher := .all, wait := .fixed 10, limit := some 2 }
    let outer : Policy := { matcher := .all, limit := some 1 }
    let job : Job Unit :=
      { operation := { payload := fun _ => { ending := .failure (.plain "down") } }
        listening := true }
    let bottom := Base.inline.enqueue job
    let run := submitOver bottom job 3 0 [outer, inner] {}
    [outer, inner].map Policy.limit = [1, 2].map some ∧
      (∀ t d, d ≤ 2 → (bottom t).2.givenTo d = t.givenTo d) ∧
      (∀ n ∈ ([1, 2] : List UInt32), n.toNat < 3) ∧ (∀ s, (bottom s).1 ≠ .unfinished) ∧
      run.2.givenTo 2 ≤ 0 + most [1, 2] ∧ most [1, 2] = 6 ∧ run.1 ≠ .unfinished ∧
      run.2.givenTo 2 = 6 ∧ (enqueue [outer, inner] .inline job 3 {}).2.calls + 0 = 0 + 6 := by
  intro inner outer job bottom run
  have hlimited : [outer, inner].map Policy.limit = [1, 2].map some := rfl
  have hsilent : ∀ t d, d ≤ 2 → (bottom t).2.givenTo d = t.givenTo d := by
    intro t d _
    exact givenTo_base .inline job t d
  have henough : ∀ n ∈ ([1, 2] : List UInt32), n.toNat < 3 := by simp
  have hends : ∀ s, (bottom s).1 ≠ .unfinished := by
    intro s
    show (job.runInline s).1 ≠ .unfinished
    unfold Job.runInline
    split
    · nofun
    · split <;> nofun
  have hunsignalled : job.signalled (enqueue [outer, inner] .inline job 3 {}).2 = false := by decide
  obtain ⟨-, hbound, hfinished, hbalanced⟩ := enqueue_accounted hlimited hsilent henough {}
  have hsame : enqueue [outer, inner] .inline job 3 {} = run :=
    congrFun (submit_eq .inline job 3 0 [outer, inner]) {}
  have hgiven : run.2.givenTo 2 = 6 := by decide
  have hcalls := hbalanced hunsignalled
  rw [hsame] at hcalls
  refine ⟨hlimited, hsilent, henough, hends, hbound, by decide, (hfinished hends).1, hgiven, ?_⟩
  rw [hsame, ← hgiven]
  exact hcalls

end Run
end Skein
