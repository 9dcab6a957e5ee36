import Mathlib.Data.List.Nodup
import Skein.Proofs.Fiber.Steps

/-!
# The story of the items

The worker deals with one item after the other, and with each in one of four
ways.  So the story that it leaves is made of episodes, one for each item that it
has been through, and of the opening of one more: `told_run`.  An item is late if
the worker found the fiber inactive or had left its loop, and from then on all
items are late.

The items of the episodes are the items that the queue has delivered, in order,
and so no item has two episodes: `Told.mem_events` says that whatever happened to
the item of an episode happened there.
-/

namespace Skein

namespace Fiber

variable {ι α : Type}

/-- The ways in which the worker can deal with an item: it executes it, or finds
its signal fired, or finds the fiber in another state than active, or takes it
when it is leaving. -/
inductive Course
  | executed
  | signalled
  | skipped (state : State)
  | drained

namespace Course

def lead (a : ι) : Course → List (Event ι α)
  | executed => [.took a, .read a .active, .looked a false, .began a, .ended a]
  | signalled => [.took a, .read a .active, .looked a true]
  | skipped state => [.took a, .read a state]
  | drained => [.took a]

def outcome (plan : Plan ι α) (a : ι) : Course → Resolution α
  | executed => plan.outcome a
  | signalled => cancelled .signalled
  | skipped _ | drained => cancelled .fiberDisposed

def late : Course → Bool
  | executed | signalled => false
  | skipped _ | drained => true

def events (plan : Plan ι α) (a : ι) (c : Course) : List (Event ι α) :=
  c.lead a ++ [.resolved a (c.outcome plan a)]

end Course

namespace Event

def item : Event ι α → ι
  | took a | read a _ | looked a _ | began a | ended a | resolved a _ => a

end Event

namespace Course

variable (plan : Plan ι α) (a : ι) (c : Course)

theorem item_of_mem_lead : ∀ e ∈ (c.lead a : List (Event ι α)), e.item = a := by
  cases c <;> simp [lead, Event.item]

theorem item_of_mem_events : ∀ e ∈ c.events plan a, e.item = a := by
  intro e he
  rcases List.mem_append.mp he with he | he
  · exact c.item_of_mem_lead a e he
  · rw [List.mem_singleton.mp he]
    rfl

theorem took_lead : (c.lead a : List (Event ι α)).filterMap Event.took? = [a] := by
  cases c <;> rfl

theorem began_lead : ((c.lead a : List (Event ι α)).filterMap Event.began?).Sublist [a] := by
  cases c with
  | executed => exact List.Sublist.refl _
  | _ => exact List.nil_sublist _

theorem resolved_lead : (c.lead a : List (Event ι α)).filterMap Event.resolved? = [] := by
  cases c <;> rfl

end Course

namespace Worker

def item : Worker ι α → List ι
  | taken a | admitted a | cleared a | running a | resolving _ a _ => [a]
  | _ => []

end Worker

def tale (plan : Plan ι α) (episodes : List (ι × Course)) : List (Event ι α) :=
  episodes.flatMap fun e => e.2.events plan e.1

/-- How far the worker has come with the item that it has taken, by its place.
After a late item there is none that is not. -/
inductive Underway (plan : Plan ι α) (state : State) (late : List (ι × Course)) :
    Worker ι α → List (Event ι α) → Prop
  | taken (a : ι) : Underway plan state late (.taken a) [.took a]
  | admitted (a : ι) (h : late = []) :
      Underway plan state late (.admitted a) [.took a, .read a .active]
  | cleared (a : ι) (h : late = []) :
      Underway plan state late (.cleared a) [.took a, .read a .active, .looked a false]
  | running (a : ι) (h : late = []) :
      Underway plan state late (.running a) [.took a, .read a .active, .looked a false, .began a]
  | resolving (last : Bool) (a : ι) (c : Course) (hprompt : c.late = false → late = [])
      (hshut : c.late = true → state ≠ .active) :
      Underway plan state late (.resolving last a (c.outcome plan a)) (c.lead a)
  | idle (w : Worker ι α) (h : w.item = []) : Underway plan state late w []

section Projections

variable {plan : Plan ι α}

theorem took_tale (episodes : List (ι × Course)) :
    (tale plan episodes).filterMap Event.took? = episodes.map Prod.fst := by
  induction episodes with
  | nil => rfl
  | cons e rest ih =>
    have hone : (e.2.events plan e.1).filterMap Event.took? = [e.1] := by
      rw [Course.events, List.filterMap_append, Course.took_lead]
      rfl
    rw [tale, List.flatMap_cons, List.filterMap_append, hone, ← tale, ih]
    rfl

theorem resolved_tale (episodes : List (ι × Course)) :
    (tale plan episodes).filterMap Event.resolved? =
      episodes.map fun e => (e.1, e.2.outcome plan e.1) := by
  induction episodes with
  | nil => rfl
  | cons e rest ih =>
    have hone : (e.2.events plan e.1).filterMap Event.resolved? =
        [(e.1, e.2.outcome plan e.1)] := by
      rw [Course.events, List.filterMap_append, Course.resolved_lead]
      rfl
    rw [tale, List.flatMap_cons, List.filterMap_append, hone, ← tale, ih]
    rfl

theorem began_tale (episodes : List (ι × Course)) :
    ((tale plan episodes).filterMap Event.began?).Sublist (episodes.map Prod.fst) := by
  induction episodes with
  | nil => exact List.Sublist.refl _
  | cons e rest ih =>
    have hone : ((e.2.events plan e.1).filterMap Event.began?).Sublist [e.1] := by
      rw [Course.events, List.filterMap_append]
      exact List.append_nil _ ▸ e.2.began_lead e.1
    rw [tale, List.flatMap_cons, List.filterMap_append, ← tale]
    exact hone.append ih

variable {state : State} {late : List (ι × Course)} {w : Worker ι α} {opening : List (Event ι α)}

theorem Underway.took (h : Underway plan state late w opening) :
    opening.filterMap Event.took? = w.item := by
  cases h with
  | resolving last a c => exact c.took_lead a
  | idle _ hitem =>
    rw [hitem]
    rfl
  | _ => rfl

theorem Underway.began (h : Underway plan state late w opening) :
    (opening.filterMap Event.began?).Sublist w.item := by
  cases h with
  | resolving last a c => exact c.began_lead a
  | idle => exact List.nil_sublist _
  | running => exact List.Sublist.refl _
  | _ => exact List.nil_sublist _

theorem Underway.resolved (h : Underway plan state late w opening) :
    opening.filterMap Event.resolved? = [] := by
  cases h with
  | resolving last a c => exact c.resolved_lead a
  | _ => rfl

theorem Underway.item (h : Underway plan state late w opening) :
    ∀ e ∈ opening, w.item = [e.item] := by
  cases h with
  | resolving last a c =>
    intro e he
    rw [c.item_of_mem_lead a e he]
    rfl
  | _ => simp [Worker.item, Event.item]

/-- No item is begun after a late one. -/
theorem Underway.late_eq_nil (h : Underway plan state late w opening) {a : ι}
    (hbegan : .began a ∈ opening) : late = [] := by
  cases h with
  | running _ hlate => exact hlate
  | resolving _ _ c hprompt =>
    cases c with
    | executed => exact hprompt rfl
    | _ => simp [Course.lead] at hbegan
  | _ => simp at hbegan

end Projections

namespace Race

/-- The story consists of the episodes of prompt items, those of late items, and
an opening. -/
structure Told (plan : Plan ι α) (s : Race ι α) (prompt late : List (ι × Course))
    (opening : List (Event ι α)) : Prop where
  story : s.story = tale plan (prompt ++ late) ++ opening
  underway : Underway plan s.state late s.worker opening
  all_prompt : ∀ e ∈ prompt, e.2.late = false
  all_late : ∀ e ∈ late, e.2.late = true
  inactive : late ≠ [] → s.state ≠ .active

variable {plan : Plan ι α} {s t : Race ι α} {prompt late : List (ι × Course)}
  {opening : List (Event ι α)}

theorem told_start : Told plan ({} : Race ι α) [] [] [] :=
  ⟨rfl, .idle _ rfl, nofun, nofun, fun h => absurd rfl h⟩

theorem Told.mono (h : Told plan s prompt late opening) (hstory : t.story = s.story)
    (hworker : t.worker = s.worker) (hstate : s.state ≠ .active → t.state ≠ .active) :
    Told plan t prompt late opening := by
  have hinactive : late ≠ [] → t.state ≠ .active := fun hlate => hstate (h.inactive hlate)
  refine ⟨hstory.trans h.story, ?_, h.all_prompt, h.all_late, hinactive⟩
  have hunderway := h.underway
  rw [hworker]
  generalize s.worker = w at hunderway
  cases hunderway with
  | taken a => exact .taken a
  | admitted a hlate => exact .admitted a hlate
  | cleared a hlate => exact .cleared a hlate
  | running a hlate => exact .running a hlate
  | resolving last a c hprompt hshut =>
    exact .resolving last a c hprompt fun hc => hstate (hshut hc)
  | idle w hitem => exact .idle w hitem

/-- The worker goes on with an item, or takes one. -/
theorem Told.goOn (h : Told plan s prompt late opening) {e : Event ι α}
    (hstory : t.story = s.story ++ [e]) (hstate : t.state = s.state)
    (hunderway : Underway plan s.state late t.worker (opening ++ [e])) :
    Told plan t prompt late (opening ++ [e]) := by
  refine ⟨?_, ?_, h.all_prompt, h.all_late, ?_⟩
  · rw [hstory, h.story, List.append_assoc]
  · rw [hstate]
    exact hunderway
  · rw [hstate]
    exact h.inactive

/-- The worker has nothing in hand, before and after. -/
theorem Told.stay (h : Told plan s prompt late opening) (hstory : t.story = s.story)
    (hstate : s.state ≠ .active → t.state ≠ .active) (hs : s.worker.item = [])
    (ht : t.worker.item = []) :
    Told plan t prompt late [] := by
  have hopening : opening = [] := by
    have hunderway := h.underway
    generalize s.worker = w at hunderway hs
    cases hunderway with
    | idle => rfl
    | _ => cases hs
  subst hopening
  have hinactive : late ≠ [] → t.state ≠ .active := fun hlate => hstate (h.inactive hlate)
  exact ⟨hstory.trans h.story, .idle _ ht, h.all_prompt, h.all_late, hinactive⟩

/-- The item that is resolved is the last episode. -/
theorem Told.resolve {last : Bool} {a : ι} {r : Resolution α}
    (h : Told plan s prompt late opening) (hw : s.worker = .resolving last a r) :
    ∃ prompt' late', Told plan
      { s with worker := .taking last, story := s.story ++ [.resolved a r] } prompt' late' [] := by
  have hunderway := h.underway
  have hstory := h.story
  rw [hw] at hunderway
  cases hunderway with
  | idle _ hitem => cases hitem
  | resolving _ _ c hprompt hshut =>
    have hnew (episodes : List (ι × Course)) :
        tale plan episodes ++ c.lead a ++ [.resolved a (c.outcome plan a)] =
          tale plan (episodes ++ [(a, c)]) := by
      simp [tale, Course.events]
    cases hlate : c.late with
    | false =>
      have hempty := hprompt hlate
      subst hempty
      refine ⟨prompt ++ [(a, c)], [], ?_, .idle _ rfl, ?_, nofun, fun hne => absurd rfl hne⟩
      · show s.story ++ [.resolved a (c.outcome plan a)] = _
        rw [hstory, hnew, List.append_nil, List.append_nil, List.append_nil]
      · intro e he
        rcases List.mem_append.mp he with he | he
        · exact h.all_prompt e he
        · rw [List.mem_singleton.mp he]
          exact hlate
    | true =>
      refine ⟨prompt, late ++ [(a, c)], ?_, .idle _ rfl, h.all_prompt, ?_, fun _ => hshut hlate⟩
      · show s.story ++ [.resolved a (c.outcome plan a)] = _
        rw [hstory, hnew, List.append_assoc, List.append_nil]
      · intro e he
        rcases List.mem_append.mp he with he | he
        · exact h.all_late e he
        · rw [List.mem_singleton.mp he]
          exact hlate

variable [DecidableEq ι]

theorem told_work (hphase : Phase s) (h : Told plan s prompt late opening) :
    ∃ prompt' late' opening', Told plan (s.work plan) prompt' late' opening' := by
  have hmove := work_works plan s
  have hshut := hphase.shut
  have hunderway := h.underway
  generalize s.work plan = t at hmove ⊢
  generalize hw : s.worker = w at hmove hshut hunderway
  cases hmove with
  | start | startBadly | leave | empty | decide | keep | close | shut | vanish =>
    exact ⟨prompt, late, [], h.stay rfl id (by rw [hw]; rfl) rfl⟩
  | wait | rest => exact ⟨prompt, late, opening, h.mono rfl rfl id⟩
  | mark | store => exact ⟨prompt, late, [], h.stay rfl (fun _ => nofun) (by rw [hw]; rfl) rfl⟩
  | take a =>
    cases hunderway
    exact ⟨prompt, late, _, h.goOn rfl rfl (.taken a)⟩
  | drain a =>
    cases hunderway
    -- who takes for the last time has stored before that the fiber is not active
    refine ⟨prompt, late, _, h.goOn rfl rfl (.resolving true a .drained nofun fun _ => ?_)⟩
    exact hshut rfl
  | pass a hactive =>
    cases hunderway with
    | idle _ hitem => cases hitem
    | taken =>
      -- an item was resolved late only if the fiber was not active then, and it is now
      have hlate : late = [] := by
        by_contra hne
        exact h.inactive hne hactive
      have hread : [Event.took a] ++ [Event.read a s.state] =
          ([.took a, .read a .active] : List (Event ι α)) := by rw [hactive]; rfl
      refine ⟨prompt, late, _, h.goOn rfl rfl ?_⟩
      rw [hread]
      exact .admitted a hlate
  | skip a hinactive =>
    cases hunderway with
    | idle _ hitem => cases hitem
    | taken =>
      refine ⟨prompt, late, _, h.goOn rfl rfl (.resolving false a (.skipped s.state) nofun ?_)⟩
      intro _
      exact hinactive
  | clear a =>
    cases hunderway with
    | idle _ hitem => cases hitem
    | admitted _ hlate => exact ⟨prompt, late, _, h.goOn rfl rfl (.cleared a hlate)⟩
  | cancel a =>
    cases hunderway with
    | idle _ hitem => cases hitem
    | admitted _ hlate =>
      exact ⟨prompt, late, _, h.goOn rfl rfl (.resolving false a .signalled (fun _ => hlate) nofun)⟩
  | begin a =>
    cases hunderway with
    | idle _ hitem => cases hitem
    | cleared _ hlate => exact ⟨prompt, late, _, h.goOn rfl rfl (.running a hlate)⟩
  | finish a =>
    cases hunderway with
    | idle _ hitem => cases hitem
    | running _ hlate =>
      exact ⟨prompt, late, _, h.goOn rfl rfl (.resolving false a .executed (fun _ => hlate) nofun)⟩
  | resolve last a r =>
    obtain ⟨prompt', late', hdone⟩ := h.resolve hw
    exact ⟨prompt', late', [], hdone⟩

variable (plan)

theorem told_run (schedule : List (Agent ι)) :
    ∃ prompt late opening, Told plan (run plan ({} : Race ι α) schedule) prompt late opening := by
  have hboth : Orderly plan (run plan ({} : Race ι α) schedule) ∧
      ∃ prompt late opening,
        Told plan (run plan ({} : Race ι α) schedule) prompt late opening := by
    refine run_preserves
      (P := fun s => Orderly plan s ∧ ∃ prompt late opening, Told plan s prompt late opening)
      (fun s agent hs => ?_) ⟨orderly_start, [], [], [], told_start⟩ schedule
    obtain ⟨horderly, prompt, late, opening, htold⟩ := hs
    refine ⟨orderly_step s agent horderly, ?_⟩
    by_cases hagent : agent = .worker
    · rw [hagent]
      exact told_work horderly.toPhase htold
    · obtain ⟨hworker, hstory⟩ := worker_step plan s hagent
      refine ⟨prompt, late, opening, htold.mono hstory hworker ?_⟩
      exact State.ne_active_of_rank_le (rank_step horderly agent)
  exact hboth.2

/-! ## Whose episode it is -/

/-- The items that the worker has taken are those that the queue has delivered. -/
def Ledger (s : Race ι α) : Prop :=
  s.line.answers.filterMap id = s.story.filterMap Event.took?

variable {plan} in
theorem ledger_work (h : Ledger s) : Ledger (s.work plan) := by
  have hmove := work_works plan s
  have hconsumer := Queue.Race.answers_move_consumer plan.config.queue s.line
  generalize s.work plan = t at hmove ⊢
  generalize s.worker = w at hmove
  -- what the step adds to the story, and what the call that it makes adds to the answers
  have hadds (events : List (Event ι α)) (answers : List (Option ι))
      (hstory : t.story = s.story ++ events) (hanswers : t.line.answers = s.line.answers ++ answers)
      (hsame : answers.filterMap id = events.filterMap Event.took?) : Ledger t := by
    rw [Ledger, hstory, hanswers, List.filterMap_append, List.filterMap_append, hsame, h]
  have hnothing : s.story = s.story ++ [] := (List.append_nil _).symm
  cases hmove with
  | wait last hnone =>
    refine hadds [] _ hnothing hconsumer ?_
    rw [Queue.Consumer.answer_of_ne hnone]
    rfl
  | take a hsome | drain a hsome => exact hadds _ _ rfl hconsumer (by rw [hsome]; rfl)
  | leave hnone | empty hnone => exact hadds [] _ hnothing hconsumer (by rw [hnone]; rfl)
  | close | shut =>
    have hanswers : (s.line.move plan.config.queue (.closer 0)).answers = s.line.answers :=
      Queue.Race.answers_move_of_ne _ _ nofun
    exact hadds [] [] hnothing (hanswers.trans (List.append_nil _).symm) rfl
  | pass | skip | clear | cancel | begin | finish | resolve =>
    exact hadds _ [] rfl (List.append_nil _).symm rfl
  | _ => exact h

theorem ledger_run (schedule : List (Agent ι)) : Ledger (run plan ({} : Race ι α) schedule) := by
  have hstart : Ledger ({} : Race ι α) := rfl
  refine run_preserves (fun s agent h => ?_) hstart schedule
  by_cases hagent : agent = .worker
  · rw [hagent]
    exact ledger_work h
  · rw [Ledger, answers_step hagent, (worker_step plan s hagent).2]
    exact h

structure Known (plan : Plan ι α) (s : Race ι α) (prompt late : List (ι × Course))
    (opening : List (Event ι α)) : Prop
    extends Told plan s prompt late opening, Orderly plan s where
  kept : Queue.Race.Kept s.line
  ledger : Ledger s

theorem known_run (schedule : List (Agent ι)) :
    ∃ prompt late opening, Known plan (run plan ({} : Race ι α) schedule) prompt late opening := by
  obtain ⟨prompt, late, opening, htold⟩ := told_run plan schedule
  exact ⟨prompt, late, opening, htold, orderly_run schedule, kept_run schedule,
    ledger_run plan schedule⟩

namespace Known

variable {plan}

theorem delivered (h : Known plan s prompt late opening) :
    s.line.answers.filterMap id = (prompt ++ late).map Prod.fst ++ s.worker.item := by
  rw [h.ledger, h.story, List.filterMap_append, took_tale, h.underway.took]

/-- The items that the queue has accepted: those of the episodes come first, then
the one in hand, then those that are still in the queue. -/
theorem pushed (h : Known plan s prompt late opening) :
    s.line.pushed = (prompt ++ late).map Prod.fst ++
      (s.worker.item ++ (s.line.consumer.inHand ++ s.line.queue.items)) := by
  rw [h.kept.order, Queue.Race.delivered, h.delivered]
  simp only [List.append_assoc]

theorem nodup (h : Known plan s prompt late opening) :
    ((prompt ++ late).map Prod.fst ++ s.worker.item).Nodup := by
  have hall := h.kept.nodup
  rw [h.pushed, ← List.append_assoc] at hall
  exact (List.nodup_append.mp hall).1

theorem begun (h : Known plan s prompt late opening) :
    s.begun.Sublist ((prompt ++ late).map Prod.fst ++ s.worker.item) := by
  rw [Race.begun, h.story, List.filterMap_append]
  exact (began_tale _).append h.underway.began

theorem resolutions (h : Known plan s prompt late opening) :
    s.resolutions = ((prompt ++ late).map fun e => (e.1, e.2.outcome plan e.1)) ++
      s.line.rejected.map fun a => (a, cancelled .fiberDisposed) := by
  rw [Race.resolutions, h.story, List.filterMap_append, resolved_tale, h.underway.resolved,
    List.append_nil]

theorem mem_story (h : Known plan s prompt late opening) {e : Event ι α} :
    e ∈ s.story ↔ (∃ x ∈ prompt ++ late, e ∈ x.2.events plan x.1) ∨ e ∈ opening := by
  rw [h.story, List.mem_append, tale, List.mem_flatMap]

/-- What happened to the item of an episode happened there. -/
theorem mem_events (h : Known plan s prompt late opening) {a : ι} {c : Course}
    (hc : (a, c) ∈ prompt ++ late) {e : Event ι α} (he : e ∈ s.story) (hitem : e.item = a) :
    e ∈ c.events plan a := by
  obtain ⟨hepisodes, _, hapart⟩ := List.nodup_append.mp h.nodup
  rcases h.mem_story.mp he with ⟨x, hx, hmem⟩ | hopening
  · have hxa : x.1 = a := (x.2.item_of_mem_events plan x.1 e hmem).symm.trans hitem
    have hsame : x = (a, c) := List.inj_on_of_nodup_map hepisodes hx hc hxa
    rw [hsame] at hmem
    exact hmem
  · have hhand := h.underway.item e hopening
    rw [hitem] at hhand
    have hmem : a ∈ s.worker.item := by
      rw [hhand]
      exact List.mem_singleton_self a
    exact absurd rfl (hapart a (List.mem_map_of_mem hc) a hmem)

theorem events_sublist (h : Known plan s prompt late opening) {a : ι} {c : Course}
    (hc : (a, c) ∈ prompt ++ late) : (c.events plan a).Sublist s.story := by
  have hmem : c.events plan a ∈ (prompt ++ late).map fun e => e.2.events plan e.1 :=
    List.mem_map_of_mem hc
  rw [h.story, tale, List.flatMap_def]
  exact (List.sublist_flatten_of_mem hmem).trans (List.sublist_append_left _ _)

/-- Nothing happens to an item that was not accepted. -/
theorem item_pushed (h : Known plan s prompt late opening) {e : Event ι α} (he : e ∈ s.story) :
    e.item ∈ s.line.pushed := by
  rw [h.pushed]
  rcases h.mem_story.mp he with ⟨x, hx, hmem⟩ | hopening
  · rw [x.2.item_of_mem_events plan x.1 e hmem]
    exact List.mem_append_left _ (List.mem_map_of_mem hx)
  · refine List.mem_append_right _ (List.mem_append_left _ ?_)
    rw [h.underway.item e hopening]
    exact List.mem_singleton_self _

end Known

end Race

end Fiber

end Skein
