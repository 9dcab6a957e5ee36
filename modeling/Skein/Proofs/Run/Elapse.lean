import Skein.Run.Stack

/-!
# How time passes in a run

Waits, sleeps and delays move the clock, and on the way the signal may fire.
`Elapsed t u` says that this is all that lies between two timelines: their
stories differ by at most one event, the firing.  Every operation of
`Skein.Run.Timeline` that lets time pass is shown to be of this kind, so that
the laws of a run need not look at the clock again.
-/

namespace Skein
namespace Run

open Retry

namespace Timeline

/-! ## Noting events -/

@[simp] theorem story_record (t : Timeline) (e : Event) : (t.record e).story = e :: t.story := rfl

@[simp] theorem fired_record (t : Timeline) (e : Event) : (t.record e).fired = t.fired := rfl

@[simp] theorem now_record (t : Timeline) (e : Event) : (t.record e).now = t.now := rfl

@[simp] theorem calls_record (t : Timeline) (e : Event) : (t.record e).calls = t.calls := rfl

@[simp] theorem longest_record (t : Timeline) (e : Event) :
    (t.record e).longest = t.longest := rfl

/-- Log entries stand in the story in the order in which they were noted. -/
theorem log_cons (t : Timeline) (entry : Log.Entry) (rest : List Log.Entry) :
    t.log (entry :: rest) = (t.record (.logged entry)).log rest := rfl

@[simp] theorem story_log (t : Timeline) (entries : List Log.Entry) :
    (t.log entries).story = (entries.map Event.logged).reverse ++ t.story := by
  induction entries generalizing t with
  | nil => rfl
  | cons entry rest ih =>
    rw [log_cons, ih]
    simp

@[simp] theorem fired_log (t : Timeline) (entries : List Log.Entry) :
    (t.log entries).fired = t.fired := by
  induction entries generalizing t with
  | nil => rfl
  | cons entry rest ih => rw [log_cons, ih, fired_record]

@[simp] theorem now_log (t : Timeline) (entries : List Log.Entry) :
    (t.log entries).now = t.now := by
  induction entries generalizing t with
  | nil => rfl
  | cons entry rest ih => rw [log_cons, ih, now_record]

@[simp] theorem calls_log (t : Timeline) (entries : List Log.Entry) :
    (t.log entries).calls = t.calls := by
  induction entries generalizing t with
  | nil => rfl
  | cons entry rest ih => rw [log_cons, ih, calls_record]

@[simp] theorem longest_log (t : Timeline) (entries : List Log.Entry) :
    (t.log entries).longest = t.longest := by
  induction entries generalizing t with
  | nil => rfl
  | cons entry rest ih => rw [log_cons, ih, longest_record]

/-! ## Letting time pass -/

/-- From `t` to `u` time may have passed and the signal may have fired; nothing
else has happened. -/
inductive Elapsed (t u : Timeline) : Prop
  /-- The signal stands as it stood. -/
  | quietly (hfired : u.fired = t.fired) (hstory : u.story = t.story) (hcalls : u.calls = t.calls)
      (hlongest : u.longest = t.longest)
  /-- The signal fired on the way. -/
  | firing (moment : Millis) (hbefore : t.fired = false) (hfired : u.fired = true)
      (hstory : u.story = .fired moment :: t.story) (hcalls : u.calls = t.calls)
      (hlongest : u.longest = t.longest)

theorem Elapsed.refl (t : Timeline) : Elapsed t t := .quietly rfl rfl rfl rfl

theorem Elapsed.calls {t u : Timeline} (h : Elapsed t u) : u.calls = t.calls := by
  cases h with
  | quietly _ _ hcalls _ => exact hcalls
  | firing _ _ _ _ hcalls _ => exact hcalls

theorem Elapsed.longest {t u : Timeline} (h : Elapsed t u) : u.longest = t.longest := by
  cases h with
  | quietly _ _ _ hlongest => exact hlongest
  | firing _ _ _ _ _ hlongest => exact hlongest

/-- A signal fires once, so two passages of time are one. -/
theorem Elapsed.trans {t u v : Timeline} (h : Elapsed t u) (h' : Elapsed u v) : Elapsed t v := by
  have hlongest := h'.longest.trans h.longest
  cases h with
  | quietly hfired hstory hcalls =>
    cases h' with
    | quietly hfired' hstory' hcalls' =>
      exact .quietly (hfired'.trans hfired) (hstory'.trans hstory) (hcalls'.trans hcalls) hlongest
    | firing moment hbefore hfired' hstory' hcalls' =>
      exact .firing moment (hfired ▸ hbefore) hfired' (hstory ▸ hstory')
        (hcalls'.trans hcalls) hlongest
  | firing moment hbefore hfired hstory hcalls =>
    cases h' with
    | quietly hfired' hstory' hcalls' =>
      exact .firing moment hbefore (hfired'.trans hfired) (hstory'.trans hstory)
        (hcalls'.trans hcalls) hlongest
    | firing _ hbefore' _ _ _ _ =>
      rw [hfired] at hbefore'
      cases hbefore'

/-- A signal that has fired has still fired later. -/
theorem fired_mono {t u : Timeline} (hsignal : u.signal = t.signal) (hlater : t.now ≤ u.now)
    (h : t.fired = true) :
    u.fired = true := by
  unfold fired at h ⊢
  rw [hsignal]
  cases hs : t.signal with
  | quiet => simp [hs] at h
  | due moment =>
    rw [hs] at h
    exact decide_eq_true (Nat.lt_of_lt_of_le (of_decide_eq_true h) hlater)
  | fired => rfl

/-- Where only the clock has moved, the signal stands as it stood: it had fired
before, or it has not fired yet. -/
theorem elapsed_of_later {t u : Timeline} (hsignal : u.signal = t.signal) (hlater : t.now ≤ u.now)
    (hstill : t.fired = true ∨ u.fired = false) (hstory : u.story = t.story)
    (hcalls : u.calls = t.calls) (hlongest : u.longest = t.longest) :
    Elapsed t u := by
  refine .quietly ?_ hstory hcalls hlongest
  rcases hstill with hpast | hahead
  · rw [hpast, fired_mono hsignal hlater hpast]
  · cases hpast : t.fired with
    | false => exact hahead
    | true => exact fired_mono hsignal hlater hpast

/-- A signal that can fire by itself has fired when its moment is past. -/
theorem fired_of_due {t : Timeline} {moment : Millis} (h : t.signal = .due moment) :
    t.fired = decide (moment < t.now) := by
  simp [fired, h]

theorem fireAt_of_fired {t : Timeline} (h : t.fired = true) (moment : Millis) :
    t.fireAt moment = t :=
  if_pos h

theorem fireAt_of_not_fired {t : Timeline} (h : t.fired = false) (moment : Millis) :
    t.fireAt moment = { t.record (.fired moment) with signal := .fired } :=
  if_neg (by simp [h])

theorem elapsed_fireAt (t : Timeline) (moment : Millis) : Elapsed t (t.fireAt moment) := by
  cases h : t.fired with
  | true =>
    rw [fireAt_of_fired h]
    exact .refl t
  | false =>
    rw [fireAt_of_not_fired h]
    exact .firing moment h rfl rfl rfl rfl

@[simp] theorem now_fireAt (t : Timeline) (moment : Millis) : (t.fireAt moment).now = t.now := by
  unfold fireAt
  split <;> rfl

theorem elapsed_pause (t : Timeline) : Elapsed t t.pause := by
  have h : Elapsed t { t with ended := 0 } := .quietly rfl rfl rfl rfl
  unfold pause
  simp only
  split
  · split
    · exact h.trans (elapsed_fireAt _ t.now)
    · exact h
  · exact h

@[simp] theorem now_pause (t : Timeline) : t.pause.now = t.now := by
  unfold pause
  simp only
  split
  · split
    · exact now_fireAt _ _
    · rfl
  · rfl

/-- The clock goes on to a later moment: a signal that is due before then fires
on the way. -/
theorem elapsed_fireBefore (t : Timeline) {later : Millis} (h : t.now ≤ later) (ended : Nat) :
    Elapsed t { t.fireBefore later with now := later, ended := ended } := by
  cases hpast : t.fired with
  | true =>
    have hstays : t.fireBefore later = t := by
      unfold fireBefore
      split
      · split
        · exact fireAt_of_fired hpast _
        · rfl
      · rfl
    rw [hstays]
    exact elapsed_of_later rfl h (.inl hpast) rfl rfl rfl
  | false =>
    unfold fireBefore
    split
    · next moment hs =>
      split
      · next hearly =>
        rw [fireAt_of_not_fired hpast]
        exact .firing moment hpast rfl rfl rfl rfl
      · next hlate =>
        refine elapsed_of_later rfl h (.inr ?_) rfl rfl rfl
        exact (fired_of_due (t := { t with now := later, ended := ended }) hs).trans
          (decide_eq_false hlate)
    · next hnever =>
      refine .quietly ?_ rfl rfl rfl
      unfold fired
      cases hs : t.signal with
      | due moment => exact absurd hs (hnever moment)
      | quiet => rfl
      | fired => rfl

theorem elapsed_sleep (t : Timeline) (d : Millis) : Elapsed t (t.sleep d) := by
  unfold sleep
  simp only
  split
  · exact (elapsed_pause t).trans (elapsed_fireBefore _ (Nat.le_add_right _ _) _)
  · exact elapsed_fireBefore _ (Nat.le_add_right _ _) _

/-- A sleep lasts as long as the clock has it last, signal or not. -/
@[simp] theorem now_sleep (t : Timeline) (d : Millis) :
    (t.sleep d).now = t.now + t.lasting d := by
  unfold sleep lasting
  simp only
  split
  · rw [now_pause, (elapsed_pause t).longest]
  · rfl

/-- A run that waits for its signal goes on at the moment of the firing. -/
theorem awaitSignal_of_due {t : Timeline} {moment : Millis} (hdue : t.signal = .due moment)
    (h : t.fired = false) :
    Elapsed t t.awaitSignal ∧ t.awaitSignal.story = .fired moment :: t.story ∧
    t.awaitSignal.fired = true ∧
      t.awaitSignal.now = moment := by
  have hreached : t.awaitSignal = { t.fireAt moment with now := max t.now moment } := by
    simp [awaitSignal, hdue]
  have hahead : t.now ≤ moment := by
    rw [fired_of_due hdue] at h
    exact Nat.le_of_not_lt (of_decide_eq_false h)
  rw [hreached, fireAt_of_not_fired h]
  exact ⟨.firing moment h rfl rfl rfl rfl, rfl, rfl, Nat.max_eq_right hahead⟩

theorem elapsed_awaitSignal (t : Timeline) : Elapsed t t.awaitSignal := by
  cases hpast : t.fired with
  | false =>
    cases hs : t.signal with
    | due moment => exact (awaitSignal_of_due hs hpast).1
    | quiet => simpa [awaitSignal, hs] using Elapsed.refl t
    | fired => simpa [awaitSignal, hs] using Elapsed.refl t
  | true =>
    unfold awaitSignal
    split
    · next moment hs =>
      rw [fireAt_of_fired hpast]
      exact elapsed_of_later rfl (Nat.le_max_left _ _) (.inl hpast) rfl rfl rfl
    · exact .refl t

/-- A delay that the signal ends, and one that it does not, are both no more
than time passing. -/
theorem elapsed_backoff (t : Timeline) (listening : Bool) (d : Millis) :
    Elapsed t (t.backoff listening d).2 := by
  have hlater : Elapsed t (if d = 0 then t else t.sleep d) := by
    split
    · exact .refl t
    · exact elapsed_sleep t d
  unfold backoff
  simp only
  generalize (if d = 0 then t else t.sleep d) = u at hlater
  split
  · exact elapsed_awaitSignal t
  · exact hlater

/-- A delay that nobody listens in passes to its end. -/
theorem backoff_deaf (t : Timeline) (d : Millis) : (t.backoff false d).1 = false := by
  simp [backoff]

/-! ## Counting submissions -/

theorem givenTo_record (t : Timeline) (e : Event) (depth : Nat) :
    (t.record e).givenTo depth = t.givenTo depth + if e = .given depth then 1 else 0 := by
  simp [givenTo, List.countP_cons]

@[simp] theorem givenTo_log (t : Timeline) (entries : List Log.Entry) (depth : Nat) :
    (t.log entries).givenTo depth = t.givenTo depth := by
  induction entries generalizing t with
  | nil => rfl
  | cons entry rest ih =>
    rw [log_cons, ih, givenTo_record]
    simp

theorem Elapsed.givenTo {t u : Timeline} (h : Elapsed t u) (depth : Nat) :
    u.givenTo depth = t.givenTo depth := by
  cases h with
  | quietly _ hstory => rw [Timeline.givenTo, hstory, Timeline.givenTo]
  | firing _ _ _ hstory => simp [Timeline.givenTo, hstory]

end Timeline

end Run
end Skein
