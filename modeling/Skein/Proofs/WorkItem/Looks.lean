import Skein.Proofs.Fiber.Settlement
import Skein.Proofs.WorkItem.Life

/-!
# What a completion tells to those who look again and again

A completion gives the resolution of its item to the first look after it, and to every
later look it gives `Completion.abandoned`, the resolution of an item that was dropped.
`run_answers` describes all the answers of a session: so a look that is told that the item
was abandoned has been told so of an item that was dropped, or of one whose resolution
an earlier look has taken.
-/

namespace Skein
namespace Session
namespace WorkItems

variable {α : Type}

namespace Step

def isLook : Step α → Bool
  | .tryTake => true
  | _ => false

/-- Does the step leave the completion to those who look? Waiting for the resolution uses
it up, and so does a new item of the name. -/
def leavesHandle : Step α → Bool
  | .new .. | .dropHandle | .wait => false
  | _ => true

section

variable {st : Step α}

theorem eq_tryTake (hlook : st.isLook = true) : st = .tryTake := by
  cases st with
  | tryTake => rfl
  | _ => cases hlook

theorem keeps_of_leaves (hleaves : st.leavesHandle = true) : st.dropsHandle = false := by
  cases st with
  | dropHandle => cases hleaves
  | _ => rfl

/-- A step that leaves the completion alone and is no look does not see it. -/
theorem unseen_of_leaves (hleaves : st.leavesHandle = true) (hlook : st.isLook = false) :
    st.looks = false := by
  cases st with
  | new | dropHandle | wait => cases hleaves
  | tryTake => cases hlook
  | _ => rfl

end

end Step

def lookCount (name : String) (steps : List (String × Step α)) : Nat :=
  steps.countP fun x => x.1 == name && x.2.isLook

namespace State

variable {s : State α} {name : String} {call : Call α} {token : Option String}

def answers (s : State α) (name : String) (steps : List (String × Step α)) : List (Reply α) :=
  ((steps.zip (s.run steps).1).filter fun x => x.1.1 == name && x.1.2.isLook).map (·.2)

theorem run_cons (s : State α) (name : String) (st : Step α) (rest : List (String × Step α)) :
    s.run ((name, st) :: rest) =
      ((s.step name st).1 :: ((s.step name st).2.run rest).1, ((s.step name st).2.run rest).2) :=
  rfl

theorem answers_cons (s : State α) (name other : String) (st : Step α)
    (rest : List (String × Step α)) :
    s.answers name ((other, st) :: rest) =
      (if other == name && st.isLook then [(s.step other st).1] else []) ++
        (s.step other st).2.answers name rest := by
  unfold answers
  rw [run_cons, List.zip_cons_cons, List.filter_cons]
  by_cases hhere : (other == name && st.isLook) = true
  · rw [if_pos hhere, if_pos hhere, List.map_cons, List.singleton_append]
  · rw [if_neg hhere, if_neg hhere, List.nil_append]

theorem answers_append (s : State α) (name : String) (steps steps' : List (String × Step α)) :
    s.answers name (steps ++ steps') =
      s.answers name steps ++ (s.run steps).2.answers name steps' := by
  induction steps generalizing s with
  | nil => rfl
  | cons x rest ih =>
    obtain ⟨other, st⟩ := x
    rw [List.cons_append, answers_cons, answers_cons, ih, List.append_assoc, run_cons]

theorem lookCount_cons (name other : String) (st : Step α) (rest : List (String × Step α)) :
    lookCount name ((other, st) :: rest) =
      lookCount name rest + if other == name && st.isLook then 1 else 0 :=
  List.countP_cons

/-- As long as a look is answered the same, all looks are. -/
theorem answers_same (name : String) {P : State α → Prop} {answer : Reply α}
    {steps : List (String × Step α)} {s : State α} (hstart : P s)
    (hown : ∀ u, ∀ y ∈ steps, y.1 = name → P u → P (u.step name y.2).2)
    (hothers : ∀ u v other, name ≠ other → Touched other u v → P u → P v)
    (hlook : ∀ u, P u → (u.step name .tryTake).1 = answer) :
    s.answers name steps = List.replicate (lookCount name steps) answer := by
  induction steps generalizing s with
  | nil => rfl
  | cons y rest ih =>
    obtain ⟨other, st⟩ := y
    have hown' : ∀ u, ∀ y ∈ rest, y.1 = name → P u → P (u.step name y.2).2 :=
      fun u y hy => hown u y (List.mem_cons_of_mem _ hy)
    rw [answers_cons, lookCount_cons]
    by_cases hsame : other = name
    · subst hsame
      rw [ih (hown s _ List.mem_cons_self rfl hstart) hown']
      cases st with
      | tryTake =>
        rw [hlook s hstart]
        simp [Step.isLook, List.replicate_succ]
      | _ => simp [Step.isLook]
    · rw [ih (hothers s _ other (Ne.symm hsame) (touched_step s other st) hstart) hown']
      simp [hsame]

/-! ## Before the item is used up -/

theorem answers_waiting {x : Call α × Option String} {before : List (String × Step α)}
    (hstands : s.Stands name (some x) (waiting true))
    (hunused : ∀ y ∈ before, y.1 = name → y.2.usesUp = false)
    (hleft : ∀ y ∈ before, y.1 = name → y.2.leavesHandle = true) :
    s.answers name before = List.replicate (lookCount name before) .pending := by
  refine answers_same name (P := fun u => u.Stands name (some x) (waiting true)) hstands ?_ ?_ ?_
  · intro u y hy hhere hstands
    have hkeeps : y.2.dropsHandle = false := Step.keeps_of_leaves (hleft y hy hhere)
    exact (unmoved_step_waiting hstands (hunused y hy hhere) hkeeps).stands hstands
  · exact fun u v other hne htouched hstands => htouched.stands hne hstands
  · intro u hstands
    have hentry : u.entry name = _ := hstands
    simp only [step, hentry]
    rfl

/-! ## After it -/

/-- A look takes what the completion gives, and closes it. -/
theorem step_look {c : Completion α} {r : Resolution α} (hstands : s.Stands name none (some c))
    (hgives : c.tryTake = (some r, .closed)) :
    (s.step name .tryTake).1 = .resolution r ∧
      (s.step name .tryTake).2.Stands name none (some .closed) := by
  have hentry : s.entry name = _ := hstands
  constructor
  · simp only [step, hentry, hgives]
  · simp only [step, hentry, hgives]
    exact stands_keep s name none (some .closed)

/-- What the looks at a completion are answered that gives `r`: that, and from then on that
the item was abandoned. -/
def handedOut (r : Resolution α) (looks : Nat) : List (Reply α) :=
  (List.replicate looks (.resolution Completion.abandoned)).set 0 (.resolution r)

theorem answers_used {after : List (String × Step α)} {c : Completion α} {r : Resolution α}
    (hstands : s.Stands name none (some c)) (hgives : c.tryTake = (some r, .closed))
    (hleft : ∀ y ∈ after, y.1 = name → y.2.leavesHandle = true) :
    s.answers name after = handedOut r (lookCount name after) := by
  induction after generalizing s with
  | nil => rfl
  | cons y rest ih =>
    obtain ⟨other, st⟩ := y
    have hleft' : ∀ y ∈ rest, y.1 = name → y.2.leavesHandle = true :=
      fun y hy => hleft y (List.mem_cons_of_mem _ hy)
    rw [answers_cons, lookCount_cons]
    by_cases hsame : other = name
    · subst hsame
      cases hlook : st.isLook with
      | false =>
        have hunseen := Step.unseen_of_leaves (hleft _ List.mem_cons_self rfl) hlook
        rw [ih ((unmoved_step_used hstands hunseen).stands hstands) hleft']
        simp
      | true =>
        cases st with
        | tryTake =>
          obtain ⟨hanswer, hclosed⟩ := step_look hstands hgives
          -- the completion is closed, and stays so
          have hrest : (s.step other .tryTake).2.answers other rest =
              List.replicate (lookCount other rest) (.resolution Completion.abandoned) := by
            refine answers_same other (P := fun u => u.Stands other none (some .closed)) hclosed
              ?_ ?_ ?_
            · intro u y hy hhere hstands
              cases hlook : y.2.isLook with
              | false =>
                have hunseen := Step.unseen_of_leaves (hleft' y hy hhere) hlook
                exact (unmoved_step_used hstands hunseen).stands hstands
              | true =>
                rw [Step.eq_tryTake hlook]
                exact (step_look hstands rfl).2
            · exact fun u v other hne htouched hstands => htouched.stands hne hstands
            · exact fun u hstands => (step_look hstands rfl).1
          rw [hanswer, hrest]
          simp [handedOut, List.replicate_succ]
        | _ => cases hlook
    · have htouched := touched_step s other st
      rw [ih (htouched.stands (Ne.symm hsame) hstands) hleft']
      simp [hsame]

/-! ## All of them -/

theorem getElem?_handedOut (r : Resolution α) (looks k : Nat) :
    (handedOut r looks)[k]? =
      if k < looks then some (.resolution (if k = 0 then r else Completion.abandoned))
      else none := by
  unfold handedOut
  rw [List.getElem?_set, List.getElem?_replicate, List.length_replicate]
  rcases k with _ | k
  · by_cases h : 0 < looks <;> simp [h]
  · simp

/-- The answers by their numbers: nothing before the item is used up, then its resolution, and
then that it was abandoned. -/
theorem getElem?_answers (r : Resolution α) (early late k : Nat) :
    (List.replicate early .pending ++ handedOut r late)[k]? =
      if k < early then some .pending
      else if k < early + late then
        some (.resolution (if k = early then r else Completion.abandoned))
      else none := by
  by_cases hfirst : k < early
  · rw [List.getElem?_append_left (by simpa using hfirst), List.getElem?_replicate, if_pos hfirst,
      if_pos hfirst]
  · have hplace : k - early < late ↔ k < early + late := by omega
    have hstart : k - early = 0 ↔ k = early := by omega
    rw [List.getElem?_append_right (by simpa using hfirst), List.length_replicate,
      getElem?_handedOut, if_neg hfirst]
    simp only [hplace, hstart]

end State

/-- An execution never says that the item was abandoned. -/
theorem Use.resolution_eq_abandoned (call : Call α) (use : Use) :
    use.resolution call = Completion.abandoned ↔ use = .drop ∨ use = .cancel .abandoned := by
  cases use with
  | execute =>
    have hkept : CancelReason.abandoned ≠ .cooperative := nofun
    have hother : call.ending.resolution ≠ Completion.abandoned :=
      call.ending.resolution_ne_cancelled hkept
    simp [Use.resolution, hother]
  | cancel reason => simp [Use.resolution, Completion.abandoned]
  | drop => simp [Use.resolution]

namespace State

/-- An item is made and later used up, in a session in which any other steps happen too and
the completion is left to those who look.  Until the item is used up they learn nothing;
the next look takes the resolution, and every look after that one is told that the item
was abandoned.  So who is told this looks at an item that was dropped, or cancelled in
these words, or else looks after somebody who has taken the resolution. -/
theorem run_answers (s : State α) (name : String) (call : Call α) (token : Option String)
    (use : Use) (before after : List (String × Step α))
    (hunused : ∀ y ∈ before, y.1 = name → y.2.usesUp = false)
    (hleft : ∀ y ∈ before ++ after, y.1 = name → y.2.leavesHandle = true) :
    let made := (s.step name (.new call token)).2
    let answers := made.answers name (before ++ (name, use.step) :: after)
    let r := use.resolution call
    let early := lookCount name before
    let late := lookCount name after
    made.answers name before = List.replicate early .pending ∧
    answers = List.replicate early .pending ++ handedOut r late ∧
    (r = Completion.abandoned ↔ use = .drop ∨ use = .cancel .abandoned) ∧
    ∀ k, answers[k]? = some (.resolution Completion.abandoned) ↔ k < early + late ∧
      (early ≤ k ∧ r = Completion.abandoned ∨ ∃ j < k, answers[j]? = some (.resolution r)) := by
  intro made answers r early late
  have hstands : made.Stands name (some (call, token)) (waiting true) :=
    stands_keep s name (some (call, token)) (some .pending)
  have hbefore' : ∀ y ∈ before, y.1 = name → y.2.leavesHandle = true :=
    fun y hy => hleft y (List.mem_append_left _ hy)
  have hafter' : ∀ y ∈ after, y.1 = name → y.2.leavesHandle = true :=
    fun y hy => hleft y (List.mem_append_right _ hy)
  have hkept : holding name before = true := by
    refine List.all_eq_true.mpr fun y hy => ?_
    by_cases hhere : y.1 = name
    · simp [Step.keeps_of_leaves (hbefore' y hy hhere)]
    · simp [hhere]
  have hwaited := answers_waiting hstands hunused hbefore'
  have hstands' := (run_waiting hstands hunused).1
  rw [hkept, Bool.and_true] at hstands'
  have hused := answers_used (step_use hstands' use).2.1 (use.tryTake_completion call) hafter'
  have hwhole : answers = List.replicate early .pending ++ handedOut r late := by
    have hunlooked : (use.step : Step α).isLook = false := by
      cases use <;> rfl
    show made.answers name (before ++ (name, use.step) :: after) = _
    rw [answers_append, hwaited, answers_cons, hused, hunlooked, Bool.and_false]
    rfl
  refine ⟨hwaited, hwhole, use.resolution_eq_abandoned call, fun k => ?_⟩
  rw [hwhole]
  simp only [getElem?_answers]
  constructor
  · intro htold
    by_cases hfirst : k < early
    · rw [if_pos hfirst] at htold
      cases htold
    by_cases hlast : k < early + late
    · rw [if_neg hfirst, if_pos hlast] at htold
      by_cases hhere : k = early
      · rw [if_pos hhere] at htold
        exact ⟨hlast, .inl ⟨Nat.le_of_not_lt hfirst, Reply.resolution.inj (Option.some.inj htold)⟩⟩
      · -- the first look after the use has taken the resolution
        refine ⟨hlast, .inr ⟨early, by omega, ?_⟩⟩
        rw [if_neg (Nat.lt_irrefl _), if_pos (by omega), if_pos rfl]
    · rw [if_neg hfirst, if_neg hlast] at htold
      cases htold
  · rintro ⟨hlast, ⟨hbehind, hsame⟩ | ⟨j, hearlier, htaken⟩⟩
    · rw [if_neg (Nat.not_lt.mpr hbehind), if_pos hlast, hsame, ite_self]
    · have hbehind : early ≤ j := by
        by_contra hfirst
        rw [if_pos (Nat.lt_of_not_le hfirst)] at htaken
        cases htaken
      rw [if_neg (by omega), if_pos hlast, if_neg (by omega)]

/-- A dropped item that is looked at once before and twice after, among the steps of another
one. -/
theorem run_answers_dropped :
    let call : Call Nat := { ending := .value 7 }
    let before : List (String × Step Nat) :=
      [("b", .new call none), ("a", .tryTake), ("b", .execute)]
    let after : List (String × Step Nat) := [("a", .tryTake), ("b", .tryTake), ("a", .tryTake)]
    let made := (State.step {} "a" (.new call none)).2
    let answers := made.answers "a" (before ++ ("a", .drop) :: after)
    (∀ y ∈ before, y.1 = "a" → y.2.usesUp = false) ∧
      (∀ y ∈ before ++ after, y.1 = "a" → y.2.leavesHandle = true) ∧
      answers = [.pending, .resolution Completion.abandoned, .resolution Completion.abandoned] ∧
      ∀ k, answers[k]? = some (.resolution Completion.abandoned) ↔ k < 3 ∧
        (1 ≤ k ∧ (Completion.abandoned : Resolution Nat) = Completion.abandoned ∨
          ∃ j < k, answers[j]? = some (.resolution Completion.abandoned)) := by
  intro call before after made answers
  have hunused : ∀ y ∈ before, y.1 = "a" → y.2.usesUp = false := by
    simp [before, Step.usesUp]
  have hleft : ∀ y ∈ before ++ after, y.1 = "a" → y.2.leavesHandle = true := by
    simp [before, after, Step.leavesHandle]
  obtain ⟨-, htold, -, htold'⟩ := run_answers {} "a" call none .drop before after hunused hleft
  exact ⟨hunused, hleft, htold, htold'⟩

/-- The item was executed, its value was taken, and yet the second look is told that the item
was abandoned. -/
theorem not_run_answers_executed :
    let call : Call Nat := { ending := .value 7 }
    let steps : List (String × Step Nat) := [("a", .execute), ("a", .tryTake), ("a", .tryTake)]
    let answers := (State.step {} "a" (.new call none)).2.answers "a" steps
    answers[0]? = some (.resolution (.ok 7)) ∧
      ¬ ∀ k : Nat, answers[k]? = some (.resolution Completion.abandoned) →
        ("a", Step.drop) ∈ steps := by
  intro call steps answers
  refine ⟨rfl, fun honly => ?_⟩
  have hdropped : ("a", Step.drop) ∈ steps := honly 1 rfl
  simp [steps] at hdropped

end State
end WorkItems
end Session
end Skein
