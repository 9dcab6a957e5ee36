import Skein.Proofs.Run.Invocation

/-!
# A fiber is disposed for good

A timeline knows the moment at which the fiber is disposed.  That may lie ahead, and
an invocation that disposes the fiber moves it to the present.  `Ages t u` says what
nothing on the way from `t` to `u` undoes: the clock does not go back, and a fiber
that is disposed by some moment is not disposed later than that.  Each operation of a
run is shown to be of this kind.
-/

namespace Skein
namespace Run

open Retry Timeline

variable {α : Type}

namespace Timeline

def disposedBy (t : Timeline) (moment : Millis) : Bool :=
  t.disposedAt.any (· ≤ moment)

theorem disposedBy_mono {t : Timeline} {moment later : Millis} (hle : moment ≤ later)
    (h : t.disposedBy moment = true) : t.disposedBy later = true := by
  unfold disposedBy at h ⊢
  cases hd : t.disposedAt with
  | none => simp [hd] at h
  | some m =>
    simp only [hd, Option.any_some, decide_eq_true_eq] at h ⊢
    exact Nat.le_trans h hle

/-- The clock of `u` is not behind that of `t`, and the fiber of `u` is disposed by
every moment by which that of `t` is. -/
structure Ages (t u : Timeline) : Prop where
  now : t.now ≤ u.now
  disposedBy : ∀ moment, t.disposedBy moment = true → u.disposedBy moment = true

namespace Ages

variable {t u v : Timeline}

theorem refl (t : Timeline) : Ages t t := ⟨Nat.le_refl _, fun _ => id⟩

theorem trans (h : Ages t u) (h' : Ages u v) : Ages t v :=
  ⟨Nat.le_trans h.now h'.now, fun moment => h'.disposedBy moment ∘ h.disposedBy moment⟩

theorem disposed (h : Ages t u) (hclosed : t.disposed = true) : u.disposed = true :=
  disposedBy_mono h.now (h.disposedBy t.now hclosed)

theorem of_later (hlater : t.now ≤ u.now) (hsame : u.disposedAt = t.disposedAt) : Ages t u := by
  refine ⟨hlater, fun moment h => ?_⟩
  rw [Timeline.disposedBy, hsame]
  exact h

end Ages

@[simp] theorem disposedAt_log (t : Timeline) (entries : List Log.Entry) :
    (t.log entries).disposedAt = t.disposedAt := by
  induction entries generalizing t with
  | nil => rfl
  | cons entry rest ih =>
    rw [log_cons, ih]
    rfl

theorem log_log (t : Timeline) (entries entries' : List Log.Entry) :
    (t.log entries).log entries' = t.log (entries ++ entries') := by
  rw [log, log, log, List.foldl_append]

@[simp] theorem disposedAt_fireAt (t : Timeline) (moment : Millis) :
    (t.fireAt moment).disposedAt = t.disposedAt := by
  unfold fireAt
  split <;> rfl

theorem ages_record (t : Timeline) (e : Event) : Ages t (t.record e) :=
  .of_later (Nat.le_refl _) rfl

theorem ages_log (t : Timeline) (entries : List Log.Entry) : Ages t (t.log entries) :=
  .of_later (Nat.le_of_eq (now_log t entries).symm) (disposedAt_log t entries)

theorem ages_pause (t : Timeline) : Ages t t.pause := by
  refine .of_later (Nat.le_of_eq (now_pause t).symm) ?_
  unfold pause
  simp only
  split
  · split
    · exact disposedAt_fireAt _ _
    · rfl
  · rfl

theorem ages_sleep (t : Timeline) (d : Millis) : Ages t (t.sleep d) := by
  have hpaused : Ages t (if t.waitsFor d then t.pause else t) := by
    split
    · exact ages_pause t
    · exact .refl t
  unfold sleep
  generalize (if t.waitsFor d then t.pause else t) = u at hpaused
  refine hpaused.trans (.of_later (Nat.le_add_right _ _) ?_)
  show (u.fireBefore _).disposedAt = _
  unfold fireBefore
  split
  · split
    · exact disposedAt_fireAt _ _
    · rfl
  · rfl

theorem ages_awaitSignal (t : Timeline) : Ages t t.awaitSignal := by
  unfold awaitSignal
  split
  · exact .of_later (Nat.le_max_left _ _) (disposedAt_fireAt t _)
  · exact .refl t

theorem ages_backoff (t : Timeline) (listening : Bool) (d : Millis) :
    Ages t (t.backoff listening d).2 := by
  have hlater : Ages t (if d = 0 then t else t.sleep d) := by
    split
    · exact .refl t
    · exact ages_sleep t d
  unfold backoff
  simp only
  generalize (if d = 0 then t else t.sleep d) = u at hlater
  split
  · exact ages_awaitSignal t
  · exact hlater

/-- To dispose a fiber whose moment is still to come is to have that moment come
now. -/
theorem ages_dispose (t : Timeline) : Ages t t.dispose := by
  unfold dispose
  split
  · exact .refl t
  · next hactive =>
    refine ⟨Nat.le_refl _, fun moment h => ?_⟩
    have hahead : t.now ≤ moment := Nat.le_of_not_le fun hpast => hactive (disposedBy_mono hpast h)
    simpa [disposedBy] using hahead

theorem disposed_dispose (t : Timeline) : t.dispose.disposed = true := by
  unfold dispose
  split
  · next hclosed => exact hclosed
  · simp [Timeline.disposed]

end Timeline

theorem ages_pauseAfter (p : Policy) (listening : Bool) (depth : Nat) (attempt : UInt32)
    (e : DispatchError) (t : Timeline) : Ages t (pauseAfter p listening depth attempt e t).2 := by
  have hannounced : Ages t (announceRetry p depth attempt e t) := by
    unfold announceRetry
    cases p.wait.argument? attempt with
    | none => exact ages_log t _
    | some n => exact (ages_record t (.asked depth n)).trans (ages_log _ _)
  exact hannounced.trans (ages_backoff _ _ _)

/-- On a fiber an invocation takes no time; it may fire the signal and dispose the
fiber. -/
theorem ages_invoke (job : Job α) (t : Timeline) : Ages t (job.invoke false t).2 := by
  have hfired : Ages t.begin
      (if (job.operation.invocation t.calls).fires then t.begin.fire else t.begin) := by
    split
    · exact .of_later (Nat.le_of_eq (now_fireAt t.begin _).symm) (disposedAt_fireAt t.begin _)
    · exact .refl _
  have hdisposed (u : Timeline) :
      Ages u (if (job.operation.invocation t.calls).disposes then u.dispose else u) := by
    split
    · exact ages_dispose u
    · exact .refl u
  have hbegun : Ages t t.begin := .of_later (Nat.le_refl _) rfl
  exact (hbegun.trans (hfired.trans (hdisposed _))).trans (ages_record _ _)

/-- An invocation that disposes the fiber leaves it disposed. -/
theorem disposed_invoke {job : Job α} {t : Timeline}
    (hdisposes : (job.operation.invocation t.calls).disposes = true) (takesTime : Bool) :
    (job.invoke takesTime t).2.disposed = true := by
  unfold Job.invoke
  simp only [hdisposes, if_true]
  exact disposed_dispose _

end Run
end Skein
