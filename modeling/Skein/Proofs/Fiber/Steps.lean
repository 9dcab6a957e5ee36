import Skein.Fiber.Race
import Skein.Proofs.Queue.Locked

/-!
# What one step of a fiber can change

`work_works` and `call_calls` say once what a step of the worker and of a call
can do; everything that is proved of schedules goes back to them.  The queue of a
fiber goes through a race of its own, so what every strategy keeps holds of it:
`kept_run`.

`orderly_run` ties the places of the worker and of the calls to the state and the
lock.  The fiber is disposed exactly when the worker has stored so, and whoever
has waited for the worker has found it gone.
-/

namespace Skein

namespace Fiber

variable {ι α : Type}

namespace State

def rank : State → Nat
  | active => 0
  | disposing => 1
  | disposed => 2

theorem ne_active_of_rank_le {state later : State} (hle : state.rank ≤ later.rank)
    (h : state ≠ active) : later ≠ active := by
  intro hlater
  subst hlater
  cases state with
  | active => exact h rfl
  | _ => simp [rank] at hle

end State

namespace Worker

def told : Worker ι α → Bool
  | storing | finishing | gone => true
  | _ => false

def exits : Worker ι α → Bool
  | closing | taking true | resolving true _ _ | storing | finishing | gone => true
  | _ => false

def ended : Worker ι α → Bool
  | finishing | gone => true
  | _ => false

theorem eq_of_ended {w : Worker ι α} (h : w.ended = true) : w = finishing ∨ w = gone := by
  cases w with
  | finishing => exact .inl rfl
  | gone => exact .inr rfl
  | _ => cases h

theorem eq_gone_of_isGone {w : Worker ι α} (h : w.isGone = true) : w = gone := by
  cases w with
  | gone => rfl
  | _ => cases h

end Worker

namespace Race

theorem calls_place (s : Race ι α) (k : Nat) (c : Call) : (s.place k c).calls k = c :=
  Function.update_self k _ _

theorem calls_place_of_ne (s : Race ι α) {j k : Nat} (h : j ≠ k) (c : Call) :
    (s.place k c).calls j = s.calls j :=
  Function.update_of_ne h _ _

section Steps

variable [DecidableEq ι] (plan : Plan ι α)

/-- What a step of the worker can do, by the place where it stands. -/
inductive Works (s : Race ι α) : Worker ι α → Race ι α → Prop
  | start : Works s .starting { s with worker := .taking false }
  | startBadly : Works s .starting { s with worker := .leaving }
  | wait (last : Bool) (h : ∀ r, (s.line.move plan.config.queue .consumer).consumer ≠ .returned r) :
      Works s (.taking last) (s.queueMove plan .consumer)
  | take (a : ι) (h : (s.line.move plan.config.queue .consumer).consumer = .returned (some a)) :
      Works s (.taking false)
        { s.queueMove plan .consumer with worker := .taken a, story := s.story ++ [.took a] }
  | drain (a : ι) (h : (s.line.move plan.config.queue .consumer).consumer = .returned (some a)) :
      Works s (.taking true)
        { s.queueMove plan .consumer with
          worker := .resolving true a (cancelled .fiberDisposed)
          story := s.story ++ [.took a] }
  | leave (h : (s.line.move plan.config.queue .consumer).consumer = .returned none) :
      Works s (.taking false) { s.queueMove plan .consumer with worker := .leaving }
  | empty (h : (s.line.move plan.config.queue .consumer).consumer = .returned none) :
      Works s (.taking true) { s.queueMove plan .consumer with worker := .storing }
  | pass (a : ι) (h : s.state = .active) :
      Works s (.taken a) { s with worker := .admitted a, story := s.story ++ [.read a s.state] }
  | skip (a : ι) (h : s.state ≠ .active) :
      Works s (.taken a)
        { s with
          worker := .resolving false a (cancelled .fiberDisposed)
          story := s.story ++ [.read a s.state] }
  | clear (a : ι) (h : (plan.signal a).any s.fired = false) :
      Works s (.admitted a) { s with worker := .cleared a, story := s.story ++ [.looked a false] }
  | cancel (a : ι) (h : (plan.signal a).any s.fired = true) :
      Works s (.admitted a)
        { s with
          worker := .resolving false a (cancelled .signalled)
          story := s.story ++ [.looked a true] }
  | begin (a : ι) :
      Works s (.cleared a) { s with worker := .running a, story := s.story ++ [.began a] }
  | finish (a : ι) :
      Works s (.running a)
        { s with
          worker := .resolving false a (plan.outcome a)
          story := s.story ++ [.ended a] }
  | resolve (last : Bool) (a : ι) (r : Resolution α) :
      Works s (.resolving last a r)
        { s with worker := .taking last, story := s.story ++ [.resolved a r] }
  | decide (h : s.state = .active) : Works s .leaving { s with worker := .marking }
  | keep (h : s.state ≠ .active) : Works s .leaving { s with worker := .closing }
  | mark : Works s .marking { s with state := .disposing, worker := .closing }
  | close : Works s .closing { s.queueMove plan (.closer 0) with worker := .closing }
  | shut : Works s .closing { s.queueMove plan (.closer 0) with worker := .taking true }
  | store : Works s .storing { s with state := .disposed, worker := .finishing }
  | vanish : Works s .finishing { s with worker := .gone }
  | rest : Works s .gone s

theorem work_taking {s : Race ι α} {last : Bool} (hw : s.worker = .taking last) :
    Works plan s (.taking last) (s.work plan) := by
  rw [work, hw]
  dsimp only
  split
  next a hc =>
    cases last with
    | false => exact .take a hc
    | true => exact .drain a hc
  next hc =>
    cases last with
    | false => exact .leave hc
    | true => exact .empty hc
  next hsome hnone =>
    refine .wait last fun r hr => ?_
    cases r with
    | none => exact hnone hr
    | some a => exact hsome a hr

theorem work_admitted {s : Race ι α} {a : ι} (hw : s.worker = .admitted a) :
    Works plan s (.admitted a) (s.work plan) := by
  rw [work, hw]
  dsimp only
  cases hfired : (plan.signal a).any s.fired with
  | true => exact .cancel a hfired
  | false => exact .clear a hfired

theorem work_works (s : Race ι α) : Works plan s s.worker (s.work plan) := by
  cases hw : s.worker with
  | taking last => exact work_taking plan hw
  | admitted a => exact work_admitted plan hw
  | starting =>
    rw [work, hw]
    dsimp only
    split
    · exact .startBadly
    · exact .start
  | taken a =>
    rw [work, hw]
    dsimp only
    split
    next hactive => exact .pass a hactive
    next hactive => exact .skip a hactive
  | leaving =>
    rw [work, hw]
    dsimp only
    split
    next hactive => exact .decide hactive
    next hactive => exact .keep hactive
  | closing =>
    rw [work, hw]
    dsimp only
    split
    · exact .shut
    · exact .close
  | cleared a =>
    rw [work, hw]
    exact .begin a
  | running a =>
    rw [work, hw]
    exact .finish a
  | resolving last a r =>
    rw [work, hw]
    exact .resolve last a r
  | marking =>
    rw [work, hw]
    exact .mark
  | storing =>
    rw [work, hw]
    exact .store
  | finishing =>
    rw [work, hw]
    exact .vanish
  | gone =>
    rw [work, hw]
    exact .rest

/-- What a step of call number `k` can do, by the place where it stands. -/
inductive Calls (s : Race ι α) (k : Nat) : Call → Race ι α → Prop
  | win (h : s.state = .active) :
      Calls s k .ahead ({ s with state := .disposing }.place k .closing)
  | lose (h : s.state ≠ .active) : Calls s k .ahead (s.goOn plan k)
  | close (h : (s.line.move plan.config.queue (.closer (k + 1))).closings (k + 1) ≠ .returned) :
      Calls s k .closing (s.queueMove plan (.closer (k + 1)))
  | shut (h : (s.line.move plan.config.queue (.closer (k + 1))).closings (k + 1) = .returned) :
      Calls s k .closing ((s.queueMove plan (.closer (k + 1))).goOn plan k)
  | wait (c : Call) (h : c = .locking ∧ s.holder.isSome ∨ c = .joining ∧ s.worker.isGone = false) :
      Calls s k c s
  | lock (h : s.holder = none) (hjoined : s.joined = false) :
      Calls s k .locking ({ s with holder := some k, joined := true }.place k .joining)
  | lockLate (h : s.holder = none) (hjoined : s.joined = true) :
      Calls s k .locking ({ s with holder := some k, joined := true }.place k .unlocking)
  | join (c : Call) (hc : c = .marking ∨ c = .unlocking) (h : s.worker.isGone = true) :
      Calls s k .joining (s.place k c)
  | mark : Calls s k .marking ({ s with state := .disposed }.place k .unlocking)
  | unlock : Calls s k .unlocking ({ s with holder := none }.place k .returned)
  | rest : Calls s k .returned s

theorem call_calls (s : Race ι α) (k : Nat) : Calls plan s k (s.calls k) (s.call plan k) := by
  rw [call]
  split
  next h =>
    rw [h]
    split
    next hactive => exact .win hactive
    next hactive => exact .lose hactive
  next h =>
    rw [h]
    dsimp only
    split
    next hdone => exact .shut hdone
    next hdone => exact .close hdone
  next h =>
    rw [h]
    split
    next hheld => exact .wait .locking (.inl ⟨rfl, hheld⟩)
    next hheld =>
      have hfree : s.holder = none := by simpa using hheld
      by_cases hjoined : s.joined = true
      · rw [if_pos hjoined]
        exact .lockLate hfree hjoined
      · rw [if_neg hjoined]
        exact .lock hfree (Bool.eq_false_iff.mpr hjoined)
  next h =>
    rw [h]
    split
    next hgone =>
      refine .join _ ?_ hgone
      by_cases hpanics : plan.hookPanics = true
      · exact .inl (if_pos hpanics)
      · exact .inr (if_neg hpanics)
    next hgone => exact .wait .joining (.inr ⟨rfl, Bool.eq_false_iff.mpr hgone⟩)
  next h =>
    rw [h]
    exact .mark
  next h =>
    rw [h]
    exact .unlock
  next h =>
    rw [h]
    exact .rest

section Moves

variable {plan} {s t : Race ι α}

/-! ## The queue -/

theorem Works.line {w : Worker ι α} (h : Works plan s w t) :
    ∃ moves, t.line = s.line.play plan.config.queue moves := by
  cases h with
  | wait | take | drain | leave | empty => exact ⟨[.consumer], rfl⟩
  | close | shut => exact ⟨[.closer 0], rfl⟩
  | _ => exact ⟨[], rfl⟩

theorem Calls.line {k : Nat} {c : Call} (h : Calls plan s k c t) :
    ∃ moves, t.line = s.line.play plan.config.queue moves := by
  cases h with
  | close | shut => exact ⟨[.closer (k + 1)], rfl⟩
  | _ => exact ⟨[], rfl⟩

variable (plan) in
theorem line_step (s : Race ι α) (agent : Agent ι) :
    ∃ moves, (s.step plan agent).line = s.line.play plan.config.queue moves := by
  cases agent with
  | submitter a => exact ⟨[.producer a], rfl⟩
  | signal n => exact ⟨[], rfl⟩
  | caller k => exact (call_calls plan s k).line
  | worker => exact (work_works plan s).line
  | stranger => exact ⟨[.stranger], rfl⟩

variable (plan) in
theorem line_run (s : Race ι α) (schedule : List (Agent ι)) :
    ∃ moves, (s.run plan schedule).line = s.line.play plan.config.queue moves := by
  induction schedule generalizing s with
  | nil => exact ⟨[], rfl⟩
  | cons agent rest ih =>
    obtain ⟨first, hfirst⟩ := line_step plan s agent
    obtain ⟨more, hmore⟩ := ih (s.step plan agent)
    refine ⟨first ++ more, ?_⟩
    rw [run_cons, hmore, hfirst, Queue.Race.play_append]

/-- The queue of a fiber keeps what every queue keeps. -/
theorem kept_run (schedule : List (Agent ι)) :
    Queue.Race.Kept (run plan ({} : Race ι α) schedule).line := by
  obtain ⟨moves, hmoves⟩ := line_run plan ({} : Race ι α) schedule
  rw [hmoves]
  exact Queue.Race.kept_play plan.config.queue moves

/-- Only the worker takes items. -/
theorem answers_step {agent : Agent ι} (h : agent ≠ .worker) :
    (s.step plan agent).line.answers = s.line.answers := by
  cases agent with
  | worker => exact absurd rfl h
  | submitter a => exact Queue.Race.answers_move_of_ne _ _ nofun
  | signal n => rfl
  | stranger => exact Queue.Race.answers_move_of_ne _ _ nofun
  | caller k =>
    have hmove := call_calls plan s k
    show (s.call plan k).line.answers = s.line.answers
    generalize s.call plan k = t at hmove ⊢
    generalize s.calls k = c at hmove
    cases hmove with
    | close | shut => exact Queue.Race.answers_move_of_ne _ _ nofun
    | _ => rfl

variable (plan s) in
/-- Only the worker moves the worker, and only its steps are told. -/
theorem worker_step {agent : Agent ι} (h : agent ≠ .worker) :
    (s.step plan agent).worker = s.worker ∧ (s.step plan agent).story = s.story := by
  cases agent with
  | worker => exact absurd rfl h
  | caller k =>
    have hmove := call_calls plan s k
    show (s.call plan k).worker = s.worker ∧ (s.call plan k).story = s.story
    generalize s.call plan k = t at hmove ⊢
    generalize s.calls k = c at hmove
    cases hmove <;> exact ⟨rfl, rfl⟩
  | _ => exact ⟨rfl, rfl⟩

end Moves

end Steps

/-! ## Places, state and lock -/

/-- What the worker's place says of the queue and of the state. -/
structure Phase (s : Race ι α) : Prop where
  told : s.worker.told = true → none ∈ s.line.answers
  shut : s.worker.exits = true → s.state ≠ .active
  disposed : s.state = .disposed ↔ s.worker.ended = true

/-- What goes with a place of call number `k`. -/
def Fits (plan : Plan ι α) (s : Race ι α) (k : Nat) : Call → Prop
  | .ahead | .closing => True
  | .locking => plan.joins k = true
  | .joining => plan.joins k = true ∧ s.holder = some k
  | .marking | .unlocking => plan.joins k = true ∧ s.holder = some k ∧ s.worker.isGone = true
  | .returned => plan.joins k = true → s.worker.isGone = true

/-- The calls take turns at the lock, and the thread's handle is missing only
while somebody joins the thread and after that. -/
structure Orderly (plan : Plan ι α) (s : Race ι α) : Prop extends Phase s where
  calls : ∀ k, Fits plan s k (s.calls k)
  joined : s.joined = true → s.worker.isGone = true ∨ ∃ k, s.calls k = .joining

variable {plan : Plan ι α} {s t : Race ι α}

theorem orderly_start : Orderly plan ({} : Race ι α) := by
  constructor
  · exact ⟨nofun, nofun, nofun, nofun⟩
  · intro k
    trivial
  · nofun

theorem Fits.frame {k : Nat} {c : Call} (h : Fits plan s k c) (hholder : t.holder = s.holder)
    (hgone : s.worker.isGone = true → t.worker.isGone = true) :
    Fits plan t k c := by
  cases c with
  | joining => exact ⟨h.1, hholder.trans h.2⟩
  | marking => exact ⟨h.1, hholder.trans h.2.1, hgone h.2.2⟩
  | unlocking => exact ⟨h.1, hholder.trans h.2.1, hgone h.2.2⟩
  | returned => exact fun hjoins => hgone (h hjoins)
  | _ => exact h

/-- A call that does not join the thread leaves it to those who do. -/
theorem Orderly.joined_others (h : Orderly plan s) {k : Nat} (hk : s.calls k ≠ .joining) (c : Call)
    (hjoined : s.joined = true) :
    s.worker.isGone = true ∨ c = .joining ∨ ∃ j, j ≠ k ∧ s.calls j = .joining := by
  rcases h.joined hjoined with hgone | ⟨j, hj⟩
  · exact .inl hgone
  · refine .inr (.inr ⟨j, fun hjk => hk ?_, hj⟩)
    rw [← hjk]
    exact hj

theorem Fits.of_free {j : Nat} {c : Call} (h : Fits plan s j c) (hfree : s.holder = none)
    (k : Nat) :
    Fits plan { s with holder := some k, joined := true } j c := by
  cases c with
  | joining => cases hfree.symm.trans h.2
  | marking => cases hfree.symm.trans h.2.1
  | unlocking => cases hfree.symm.trans h.2.1
  | _ => exact h

theorem Fits.of_held {j k : Nat} {c : Call} (h : Fits plan s j c) (hheld : s.holder = some k)
    (hjk : j ≠ k) :
    Fits plan { s with holder := none } j c := by
  have hne (hj : s.holder = some j) : False := hjk (Option.some.inj (hj.symm.trans hheld))
  cases c with
  | joining => exact (hne h.2).elim
  | marking => exact (hne h.2.1).elim
  | unlocking => exact (hne h.2.1).elim
  | _ => exact h

/-- What has to be known before a call comes to a place. -/
theorem orderly_place {k : Nat} {c : Call} (hphase : Phase s)
    (hothers : ∀ j, j ≠ k → Fits plan s j (s.calls j)) (hown : Fits plan s k c)
    (hjoined : s.joined = true →
      s.worker.isGone = true ∨ c = .joining ∨ ∃ j, j ≠ k ∧ s.calls j = .joining) :
    Orderly plan (s.place k c) := by
  refine ⟨⟨hphase.told, hphase.shut, hphase.disposed⟩, fun j => ?_, fun hj => ?_⟩
  · by_cases hjk : j = k
    · rw [hjk, calls_place]
      exact hown
    · rw [calls_place_of_ne s hjk]
      exact hothers j hjk
  · rcases hjoined hj with hgone | hc | ⟨j, hjk, hplace⟩
    · exact .inl hgone
    · exact .inr ⟨k, (calls_place s k c).trans hc⟩
    · exact .inr ⟨j, (calls_place_of_ne s hjk c).trans hplace⟩

theorem orderly_goOn (h : Orderly plan s) {k : Nat} (hk : s.calls k ≠ .joining) :
    Orderly plan (s.goOn plan k) := by
  refine orderly_place h.toPhase (fun j _ => h.calls j) ?_ (h.joined_others hk _)
  by_cases hjoins : plan.joins k = true
  · rw [if_pos hjoins]
    exact hjoins
  · rw [if_neg hjoins]
    exact fun hj => absurd hj hjoins

variable [DecidableEq ι]

theorem Works.phase {w : Worker ι α} (hw : s.worker = w) (hmove : Works plan s w t) (h : Phase s) :
    Phase t := by
  obtain ⟨htold, hshut, hdisposed⟩ := h
  rw [hw] at htold hshut hdisposed
  cases hmove with
  | wait last _ =>
    constructor
    · intro ht
      have hfalse : (Worker.taking last : Worker ι α).told = true := hw ▸ ht
      cases hfalse
    · intro he
      exact hshut (hw ▸ he)
    · show s.state = .disposed ↔ s.worker.ended = true
      rw [hw]
      exact hdisposed
  | drain => exact ⟨nofun, fun _ => hshut rfl, hdisposed⟩
  | empty hnone =>
    refine ⟨fun _ => ?_, fun _ => hshut rfl, hdisposed⟩
    show none ∈ (s.line.move plan.config.queue .consumer).answers
    rw [Queue.Race.answers_move_consumer, hnone]
    simp [Queue.Consumer.answer]
  | resolve last =>
    refine ⟨nofun, fun he => ?_, hdisposed⟩
    cases last with
    | false => cases he
    | true => exact hshut rfl
  | keep hinactive => exact ⟨nofun, fun _ => hinactive, hdisposed⟩
  | mark => exact ⟨nofun, nofun, nofun, nofun⟩
  | close => exact ⟨nofun, fun _ => hshut rfl, hdisposed⟩
  | shut => exact ⟨nofun, fun _ => hshut rfl, hdisposed⟩
  | store => exact ⟨fun _ => htold rfl, nofun, fun _ => rfl, fun _ => rfl⟩
  | vanish => exact ⟨fun _ => htold rfl, fun _ => hshut rfl, hdisposed⟩
  | rest =>
    exact ⟨fun _ => htold rfl, fun _ => hshut rfl, fun _ => hw ▸ rfl, fun _ => hdisposed.mpr rfl⟩
  | _ => exact ⟨nofun, nofun, hdisposed⟩

/-- The worker touches neither calls nor lock, and does not come back. -/
theorem Works.keeps {w : Worker ι α} (hw : s.worker = w) (hmove : Works plan s w t) :
    t.calls = s.calls ∧ t.holder = s.holder ∧ t.joined = s.joined ∧
      (s.worker.isGone = true → t.worker.isGone = true) := by
  rw [hw]
  cases hmove with
  | rest => exact ⟨rfl, rfl, rfl, fun _ => hw ▸ rfl⟩
  | _ => exact ⟨rfl, rfl, rfl, nofun⟩

theorem orderly_work (h : Orderly plan s) : Orderly plan (s.work plan) := by
  have hmove := work_works plan s
  obtain ⟨hcalls, hholder, hjoined, hgone⟩ := hmove.keeps rfl
  refine ⟨hmove.phase rfl h.toPhase, fun k => ?_, fun hj => ?_⟩
  · rw [hcalls]
    exact (h.calls k).frame hholder hgone
  · rw [hjoined] at hj
    rw [hcalls]
    exact (h.joined hj).imp_left hgone

/-- A step of the queue that is not the consumer's. -/
theorem orderly_queueMove (h : Orderly plan s) {agent : Queue.Agent ι} (hne : agent ≠ .consumer) :
    Orderly plan (s.queueMove plan agent) := by
  refine ⟨⟨fun ht => ?_, h.shut, h.disposed⟩, h.calls, h.joined⟩
  show none ∈ (s.line.move plan.config.queue agent).answers
  rw [Queue.Race.answers_move_of_ne _ _ hne]
  exact h.told ht

theorem orderly_call (h : Orderly plan s) (k : Nat) : Orderly plan (s.call plan k) := by
  have hmove := call_calls plan s k
  have hown := h.calls k
  generalize s.call plan k = t at hmove ⊢
  generalize hplace : s.calls k = c at hmove hown
  cases hmove with
  | win hactive =>
    refine orderly_place ⟨h.told, nofun, nofun, fun hended => ?_⟩ (fun j _ => h.calls j) trivial
      (h.joined_others (by simp [hplace]) _)
    rw [h.disposed.mpr hended] at hactive
    cases hactive
  | lose => exact orderly_goOn h (by simp [hplace])
  | close => exact orderly_queueMove h nofun
  | shut =>
    have hclosing : s.calls k ≠ .joining := by simp [hplace]
    have hmoved : Orderly plan (s.queueMove plan (.closer (k + 1))) := orderly_queueMove h nofun
    exact orderly_goOn hmoved hclosing
  | wait => exact h
  | lock hfree =>
    refine orderly_place ⟨h.told, h.shut, h.disposed⟩ (fun j _ => (h.calls j).of_free hfree k)
      ⟨hown, rfl⟩ ?_
    intro _
    exact .inr (.inl rfl)
  | lockLate hfree hjoined =>
    have hgone : s.worker.isGone = true := by
      rcases h.joined hjoined with hgone | ⟨j, hj⟩
      · exact hgone
      · -- nobody can be joining, since who does has the lock
        have hfits := h.calls j
        rw [hj] at hfits
        cases hfree.symm.trans hfits.2
    refine orderly_place ⟨h.told, h.shut, h.disposed⟩ (fun j _ => (h.calls j).of_free hfree k)
      ⟨hown, rfl, hgone⟩ ?_
    intro _
    exact .inl hgone
  | join c hc hgone =>
    refine orderly_place h.toPhase (fun j _ => h.calls j) ?_ (fun _ => .inl hgone)
    rcases hc with rfl | rfl <;> exact ⟨hown.1, hown.2, hgone⟩
  | mark =>
    obtain ⟨hjoins, hheld, hgone⟩ := hown
    refine orderly_place ⟨h.told, nofun, fun _ => ?_, fun _ => rfl⟩ (fun j _ => h.calls j)
      ⟨hjoins, hheld, hgone⟩ (fun _ => .inl hgone)
    show s.worker.ended = true
    rw [Worker.eq_gone_of_isGone hgone]
    rfl
  | unlock =>
    obtain ⟨hjoins, hheld, hgone⟩ := hown
    exact orderly_place ⟨h.told, h.shut, h.disposed⟩
      (fun j hjk => (h.calls j).of_held hheld hjk) (fun _ => hgone) (fun _ => .inl hgone)
  | rest => exact h

theorem orderly_step (s : Race ι α) (agent : Agent ι) (h : Orderly plan s) :
    Orderly plan (s.step plan agent) := by
  cases agent with
  | submitter a => exact orderly_queueMove h nofun
  | signal n => exact ⟨⟨h.told, h.shut, h.disposed⟩, h.calls, h.joined⟩
  | caller k => exact orderly_call h k
  | worker => exact orderly_work h
  | stranger => exact orderly_queueMove h nofun

theorem orderly_run (schedule : List (Agent ι)) :
    Orderly plan (run plan ({} : Race ι α) schedule) :=
  run_preserves orderly_step orderly_start schedule

/-! ## The state never goes back -/

theorem rank_step (h : Orderly plan s) (agent : Agent ι) :
    s.state.rank ≤ (s.step plan agent).state.rank := by
  have hmost : s.state.rank ≤ State.disposed.rank := by
    cases s.state <;> simp [State.rank]
  cases agent with
  | worker =>
    have hmove := work_works plan s
    have hdisposed := h.disposed
    show s.state.rank ≤ (s.work plan).state.rank
    generalize s.work plan = t at hmove ⊢
    generalize s.worker = w at hmove hdisposed
    cases hmove with
    | mark =>
      show s.state.rank ≤ State.disposing.rank
      cases hstate : s.state with
      | disposed => cases hdisposed.mp hstate
      | _ => simp [State.rank]
    | store => exact hmost
    | _ => exact Nat.le_refl _
  | caller k =>
    have hmove := call_calls plan s k
    show s.state.rank ≤ (s.call plan k).state.rank
    generalize s.call plan k = t at hmove ⊢
    generalize s.calls k = c at hmove
    cases hmove with
    | win hactive =>
      rw [hactive]
      exact Nat.zero_le _
    | mark => exact hmost
    | _ => exact Nat.le_refl _
  | _ => exact Nat.le_refl _

theorem rank_run (h : Orderly plan s) (later : List (Agent ι)) :
    s.state.rank ≤ (s.run plan later).state.rank := by
  have hboth : Orderly plan (s.run plan later) ∧ s.state.rank ≤ (s.run plan later).state.rank := by
    refine run_preserves (P := fun t => Orderly plan t ∧ s.state.rank ≤ t.state.rank)
      (fun t agent ht => ?_) ⟨h, Nat.le_refl _⟩ later
    exact ⟨orderly_step t agent ht.1, Nat.le_trans ht.2 (rank_step ht.1 agent)⟩
  exact hboth.2

end Race

end Fiber

end Skein
