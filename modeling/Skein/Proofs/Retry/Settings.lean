import Mathlib.Data.List.Forall2
import Mathlib.Data.List.GetD
import Skein.Retry.Settings
import Skein.Run.Detached
import Skein.Run.Layer

/-!
# A policy from settings and one put together by hand

Settings keep their waits as a list, and make another kind of wait of a list with no
entry, with one, and with more.  A policy put together by hand waits through any list in
sequence.  What a run can see of the two is the same (`Policy.Agrees`): a run asks a
policy for its verdict on a failure, for its limit, and for one delay after the other.
-/

namespace Skein

open Run

variable {α : Type}

namespace Retry

/-- No run can tell the policies apart. -/
structure Policy.Agrees (p q : Policy) : Prop where
  matcher : p.matcher = q.matcher
  limit : p.limit = q.limit
  delay : ∀ n, p.wait.delay n = q.wait.delay n
  argument? : ∀ n, p.wait.argument? n = q.wait.argument? n

namespace Policy.Agrees

variable {p q : Policy}

theorem refl (p : Policy) : p.Agrees p :=
  ⟨rfl, rfl, fun _ => rfl, fun _ => rfl⟩

theorem limitReached (h : p.Agrees q) (n : UInt32) : p.limitReached n = q.limitReached n := by
  rw [Policy.limitReached, Policy.limitReached, h.limit]

/-! ## Runs -/

theorem judge (h : p.Agrees q) (signalled : Bool) (n : UInt32) (r : Resolution α) :
    Run.judge p signalled n r = Run.judge q signalled n r := by
  cases r with
  | ok a => rfl
  | error e => simp only [Run.judge, h.matcher, h.limitReached]

theorem closingReport (h : p.Agrees q) (signalled : Bool) (n : UInt32) (r : Resolution α) :
    Run.closingReport p signalled n r = Run.closingReport q signalled n r := by
  cases r with
  | ok a => rfl
  | error e => simp only [Run.closingReport, h.matcher, h.limitReached]

theorem pauseAfter (h : p.Agrees q) (listening : Bool) (depth : Nat) (n : UInt32)
    (e : DispatchError) (t : Timeline) :
    Run.pauseAfter p listening depth n e t = Run.pauseAfter q listening depth n e t := by
  simp only [Run.pauseAfter, announceRetry, h.delay, h.argument?]

theorem attempts (h : p.Agrees q) (job : Job α) (depth : Nat) (inner : Dispatcher α)
    (allowance : Nat) (n : UInt32) :
    Run.attempts p job depth inner allowance n = Run.attempts q job depth inner allowance n := by
  induction allowance generalizing n with
  | zero => rfl
  | succ allowance ih =>
    funext t
    simp only [Run.attempts, h.judge, h.closingReport, h.pauseAfter, ih]

/-- Stacks that agree layer by layer make the same of a submission. -/
theorem submit {layers layers' : List Policy} (h : List.Forall₂ Policy.Agrees layers layers')
    (base : Base) (job : Job α) (allowance depth : Nat) :
    Run.submit base job allowance depth layers = Run.submit base job allowance depth layers' := by
  induction h generalizing depth with
  | nil => rfl
  | cons hfirst _ ih =>
    funext t
    rw [Run.submit, Run.submit, ih, hfirst.attempts]

theorem dispatch {layers layers' : List Policy} (h : List.Forall₂ Policy.Agrees layers layers')
    (base : Base) (job : Job α) (allowance : Nat) :
    Run.dispatch layers base job allowance = Run.dispatch layers' base job allowance := by
  cases h with
  | nil => rfl
  | cons hfirst hrest =>
    funext t
    simp only [Run.dispatch, Run.enqueue, submit (.cons hfirst hrest)]

theorem step (h : p.Agrees q) (listening : Bool) (s : Layer α) (move : Move α) :
    s.step p listening move = s.step q listening move := by
  rcases s with ⟨stage, fired, submissions, answers, log⟩
  cases move <;> cases stage <;>
    simp only [Layer.step, Layer.take, h.judge, h.closingReport, h.delay]

theorem run (h : p.Agrees q) (listening : Bool) (s : Layer α) (moves : List (Move α)) :
    s.run p listening moves = s.run q listening moves := by
  induction moves generalizing s with
  | nil => rfl
  | cons move rest ih => rw [Layer.run_cons, Layer.run_cons, h.step, ih]

end Policy.Agrees

/-! ## Settings -/

namespace Settings

def byHand (s : Settings) : Policy :=
  let builder := Builder.matchAll.withSequence s.waits
  match s.maxRetries with
  | some n => builder.withMaxRetries n
  | none => builder.forever

theorem wait_policy (s : Settings) : s.policy.wait = s.wait := by
  unfold policy
  cases s.maxRetries <;> rfl

theorem wait_byHand (s : Settings) : s.byHand.wait = .sequence s.waits := by
  unfold byHand
  cases s.maxRetries <;> rfl

theorem delay_wait (s : Settings) (n : UInt32) :
    s.wait.delay n = (Wait.sequence s.waits).delay n := by
  unfold wait
  match s.waits with
  | [] => rfl
  | [only] => simp [Wait.delay]
  | _ :: _ :: _ => rfl

theorem argument?_wait (s : Settings) (n : UInt32) : s.wait.argument? n = none := by
  unfold wait
  match s.waits with
  | [] => rfl
  | [_] => rfl
  | _ :: _ :: _ => rfl

theorem agrees_byHand (s : Settings) : s.policy.Agrees s.byHand where
  matcher := by
    unfold policy byHand
    cases s.maxRetries <;> rfl
  limit := by
    unfold policy byHand
    cases s.maxRetries <;> rfl
  delay n := by rw [wait_policy, wait_byHand, delay_wait]
  argument? n := by
    rw [wait_policy, wait_byHand, argument?_wait]
    rfl

/-- A sequence that is not empty is never looked at behind its end. -/
theorem delay_sequence_inside {ds : List Millis} (hsome : ds ≠ []) (n : UInt32) :
    ∃ hinside : min n.toNat (ds.length - 1) < ds.length,
      (Wait.sequence ds).delay n = ds[min n.toNat (ds.length - 1)] := by
  have hlength := List.length_pos_iff.mpr hsome
  have hinside : min n.toNat (ds.length - 1) < ds.length := by omega
  exact ⟨hinside, List.getD_eq_getElem ds 0 hinside⟩

/-- The policy of settings goes through every run as the one put together by hand: over
any dispatcher, at any place in a stack with or without somebody who waits, and among
any moves of the dispatcher below and of whoever fires the signal.  Both wait the listed
times, the last one again and again, and look for a time only where there is one. -/
theorem policy_byHand (s : Settings) :
    (∀ n : UInt32,
      (s.waits = [] ∧ s.policy.wait.delay n = 0 ∨
        ∃ hinside : min n.toNat (s.waits.length - 1) < s.waits.length,
          s.policy.wait.delay n = s.waits[min n.toNat (s.waits.length - 1)]) ∧
      s.byHand.wait.delay n = s.policy.wait.delay n) ∧
    (∀ {α : Type} (job : Job α) (depth : Nat) (inner : Dispatcher α) (allowance : Nat)
      (n : UInt32) (t : Timeline),
      attempts s.policy job depth inner allowance n t =
        attempts s.byHand job depth inner allowance n t) ∧
    (∀ {α : Type} (above below : List Policy) (base : Base) (job : Job α) (allowance : Nat)
      (t : Timeline),
      enqueue (above ++ s.policy :: below) base job allowance t =
          enqueue (above ++ s.byHand :: below) base job allowance t ∧
        dispatch (above ++ s.policy :: below) base job allowance t =
          dispatch (above ++ s.byHand :: below) base job allowance t) ∧
    ∀ {α : Type} (listening fired : Bool) (moves : List (Move α)),
      Layer.run s.policy listening { fired := fired } moves =
        Layer.run s.byHand listening { fired := fired } moves := by
  have hagrees := s.agrees_byHand
  refine ⟨fun n => ⟨?_, (hagrees.delay n).symm⟩, ?_, ?_, ?_⟩
  · rw [wait_policy, delay_wait]
    by_cases hempty : s.waits = []
    · refine .inl ⟨hempty, ?_⟩
      rw [hempty]
      rfl
    · exact .inr (delay_sequence_inside hempty n)
  · intro α job depth inner allowance n t
    rw [hagrees.attempts]
  · intro α above below base job allowance t
    have halike : List.Forall₂ Policy.Agrees (above ++ s.policy :: below)
        (above ++ s.byHand :: below) :=
      List.rel_append (List.forall₂_same.mpr fun p _ => Policy.Agrees.refl p)
        (.cons hagrees (List.forall₂_same.mpr fun p _ => Policy.Agrees.refl p))
    exact ⟨congrFun (Policy.Agrees.submit halike base job allowance 0) t,
      congrFun (Policy.Agrees.dispatch halike base job allowance) t⟩
  · intro α listening fired moves
    exact hagrees.run listening _ moves

end Settings

end Retry

end Skein
