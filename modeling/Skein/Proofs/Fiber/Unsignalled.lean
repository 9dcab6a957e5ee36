import Skein.Proofs.Fiber.Sequence

/-!
# A fiber whose items have no signals

Items can be passed over in two ways, by a signal and by the end of the fiber.
Without signals there is one, and it concerns only items that come later than all
that are executed: what is executed is a prefix of what the queue has accepted,
`Known.begun_prefix`, and as long as the fiber is active nothing is cancelled,
`executed_of_active`.
-/

namespace Skein

namespace Queue

variable {ι : Type}

namespace Offer

def barred : Offer → Bool
  | refused | waking false | calling false | unparking false | rejecting | returned false => true
  | _ => false

theorem of_step_barred {g : Gated} {a : ι} {q : Blocking ι} {place : Offer}
    (h : (place.step g a q).2.barred = true) : place.barred = true ∨ q.gate.closed = true := by
  cases place with
  | ahead => cases h
  | announced =>
    rw [step] at h
    cases hclosed : q.gate.closed with
    | true => exact .inr rfl
    | false =>
      rw [hclosed] at h
      cases h
  | admitted => cases h
  | stored => cases g <;> cases h
  | refused => exact .inl rfl
  | waking accepted =>
    cases accepted with
    | false => exact .inl rfl
    | true =>
      rw [step] at h
      cases hparked : q.parked <;> rw [hparked] at h <;> cases h
  | calling accepted =>
    cases accepted with
    | false => exact .inl rfl
    | true =>
      rw [step] at h
      cases hregistered : q.registered <;> rw [hregistered] at h <;> cases h
  | unparking accepted => cases accepted with
    | false => exact .inl rfl
    | true => cases h
  | rejecting => exact .inl rfl
  | returned accepted => exact .inl h

theorem of_stepLocked_barred {a : ι} {q : Blocking ι} {place : Offer}
    (h : (place.stepLocked a q).2.barred = true) :
    place.barred = true ∨ q.gate.closed = true := by
  cases place with
  | ahead =>
    rw [stepLocked] at h
    cases hclosed : q.gate.closed with
    | true => exact .inr rfl
    | false =>
      rw [hclosed] at h
      cases h
  | waking accepted => cases accepted with
    | false => exact .inl rfl
    | true => cases h
  | rejecting => exact .inl rfl
  | _ => exact .inl h

theorem barred_of_turnedAway {place : Offer} (h : place.turnedAway = true) :
    place.barred = true := by
  cases place with
  | returned accepted => cases accepted <;> first | rfl | cases h
  | _ => cases h

end Offer

namespace Race

variable [DecidableEq ι]

/-- Only a closed queue refuses. -/
def Barred (s : Race ι) : Prop :=
  ∀ a, (s.offers a).barred = true → s.queue.gate.closed = true

theorem closed_move {strategy : Strategy} {s : Race ι} (agent : Agent ι)
    (h : s.queue.gate.closed = true) : (s.move strategy agent).queue.gate.closed = true := by
  cases strategy with
  | spinning => exact closed_step .spinning agent h
  | standard => exact closed_stepLocked agent h
  | blocking => exact closed_step .blocking agent h

/-- Only a call that closes the queue sets the flag. -/
theorem closed_move_of_ne (strategy : Strategy) (s : Race ι) (agent : Agent ι)
    (h : ∀ k, agent ≠ .closer k) :
    (s.move strategy agent).queue.gate.closed = s.queue.gate.closed := by
  cases agent with
  | closer k => exact absurd rfl (h k)
  | stranger => cases strategy <;> rfl
  | producer a =>
    cases strategy with
    | standard => exact congrArg Gate.closed (Offer.gate_stepLocked a s.queue (s.offers a))
    | _ => exact Offer.closed_step _ a s.queue (s.offers a)
  | consumer =>
    cases strategy with
    | standard => exact congrArg Gate.closed (Consumer.gate_stepLocked s.queue s.consumer)
    | _ => exact congrArg Gate.closed (Consumer.gate_step _ s.queue s.consumer)

theorem barred_move {strategy : Strategy} {s : Race ι} (agent : Agent ι) (h : Barred s) :
    Barred (s.move strategy agent) := by
  intro b hb
  apply closed_move agent
  by_cases hagent : agent = .producer b
  · subst hagent
    have hback : (s.offers b).barred = true ∨ s.queue.gate.closed = true := by
      cases strategy with
      | standard =>
        rw [show (s.move .standard (.producer b)).offers b = ((s.offers b).stepLocked b s.queue).2
          from Function.update_self b _ _] at hb
        exact Offer.of_stepLocked_barred hb
      | spinning =>
        rw [show (s.move .spinning (.producer b)).offers b =
          ((s.offers b).step .spinning b s.queue).2 from offers_producer _ s b] at hb
        exact Offer.of_step_barred hb
      | blocking =>
        rw [show (s.move .blocking (.producer b)).offers b =
          ((s.offers b).step .blocking b s.queue).2 from offers_producer _ s b] at hb
        exact Offer.of_step_barred hb
    exact hback.elim (h b) id
  · have hsame : (s.move strategy agent).offers b = s.offers b := by
      cases agent with
      | producer a =>
        have hba : b ≠ a := fun hba => hagent (by rw [hba])
        cases strategy <;> exact Function.update_of_ne hba _ _
      | _ => cases strategy <;> rfl
    rw [hsame] at hb
    exact h b hb

theorem barred_play (strategy : Strategy) (moves : List (Agent ι)) :
    Barred (play strategy ({} : Race ι) moves) := by
  suffices hplay : ∀ s : Race ι, Barred s → Barred (s.play strategy moves) from hplay {} nofun
  induction moves with
  | nil => exact fun s hs => hs
  | cons agent rest ih => exact fun s hs => ih (s.move strategy agent) (barred_move agent hs)

end Race

end Queue

namespace Fiber

namespace Race

variable {ι α : Type} [DecidableEq ι] {plan : Plan ι α} {s t : Race ι α}

/-! ## The payloads and the steps -/

/-- A step needs to know no payload but the one that is being executed. -/
theorem step_congr (plan : Plan ι α) (operation : ι → Operation α) (s : Race ι α)
    (agent : Agent ι)
    (h : ∀ a, s.worker = .running a → plan.outcome a = { plan with operation }.outcome a) :
    s.step { plan with operation } agent = s.step plan agent := by
  cases agent with
  | worker =>
    show s.work { plan with operation } = s.work plan
    cases hworker : s.worker with
    | running a => simp only [work, hworker, h a hworker]
    | _ => simp only [work, hworker, queueMove]
  | _ => rfl

theorem ended_work (s : Race ι α) : (s.work plan).ended = s.ended ++ s.worker.executing := by
  have hmove := work_works plan s
  have hquiet (e : Event ι α) (h : Event.ended? e = none) :
      (s.story ++ [e]).filterMap Event.ended? = s.ended ++ [] := by
    rw [List.filterMap_append, List.filterMap_cons_none h]
    rfl
  have hsame : s.ended = s.ended ++ [] := (List.append_nil _).symm
  generalize s.work plan = t at hmove ⊢
  generalize s.worker = w at hmove ⊢
  cases hmove with
  | take | drain | pass | skip | clear | cancel | begin | resolve => exact hquiet _ rfl
  | finish a => exact List.filterMap_append
  | _ => exact hsame

theorem ended_step_of_ne (s : Race ι α) {agent : Agent ι} (h : agent ≠ .worker) :
    (s.step plan agent).ended = s.ended := by
  rw [ended, ended, (worker_step plan s h).2]

variable (plan) in
/-- What has begun has ended, but for the item that is being executed. -/
theorem ended_run (schedule : List (Agent ι)) :
    (run plan {} schedule).begun =
      (run plan {} schedule).ended ++ (run plan {} schedule).worker.executing := by
  have hapart : Apart (run plan {} schedule) := apart_run schedule
  generalize run plan {} schedule = s at hapart ⊢
  have hbounds : ∀ story : List (Event ι α),
      (story.filter Event.bounds).filterMap Event.ended? = story.filterMap Event.ended? := by
    intro story
    rw [List.filterMap_filter]
    refine List.filterMap_congr fun e _ => ?_
    cases e <;> rfl
  have hended := congrArg (List.filterMap Event.ended?) hapart
  rw [List.filterMap_append, hbounds, List.filterMap_map, List.filterMap_flatMap] at hended
  have hleft : (s.worker.executing.filterMap (Event.ended? ∘ .ended (α := α))) =
      s.worker.executing := List.filterMap_some
  have hright : (s.begun.flatMap fun a =>
      ([.began a, .ended a] : List (Event ι α)).filterMap Event.ended?) = s.begun :=
    List.flatMap_singleton' s.begun
  rw [hleft, hright] at hended
  exact hended.symm

omit [DecidableEq ι] in
theorem mem_ended : a ∈ s.ended ↔ .ended a ∈ s.story := by
  rw [ended, List.mem_filterMap]
  constructor
  · rintro ⟨e, he, hended⟩
    cases e with
    | ended b =>
      cases hended
      exact he
    | _ => cases hended
  · intro he
    exact ⟨_, he, rfl⟩

namespace Known

variable {prompt late : List (ι × Course)} {opening : List (Event ι α)} {a : ι} {c : Course}

theorem ended_iff (h : Known plan s prompt late opening) (hc : (a, c) ∈ prompt ++ late) :
    a ∈ s.ended ↔ c = .executed := by
  rw [mem_ended]
  constructor
  · intro hended
    have hmem := h.mem_events hc hended rfl
    cases c with
    | executed => rfl
    | _ => simp [Course.events, Course.lead] at hmem
  · intro hexecuted
    apply (h.events_sublist hc).subset
    rw [hexecuted]
    simp [Course.events, Course.lead]

/-- What has been executed is resolved, or the worker is about to resolve it. -/
theorem resolved_of_ended (h : Known plan s prompt late opening) (ha : a ∈ s.ended) :
    (a, plan.outcome a) ∈ s.resolutions ∨
      ∃ last, s.worker = .resolving last a (plan.outcome a) := by
  rcases h.mem_story.mp (mem_ended.mp ha) with ⟨x, hx, hmem⟩ | hopening
  · obtain rfl : a = x.1 := x.2.item_of_mem_events plan x.1 _ hmem
    have hexecuted : x.2 = .executed := (h.ended_iff hx).mp ha
    left
    rw [h.resolutions, List.mem_append, List.mem_map]
    refine .inl ⟨x, hx, ?_⟩
    rw [hexecuted]
    rfl
  · have hunderway := h.underway
    generalize s.worker = w at hunderway
    cases hunderway with
    | resolving last b c =>
      cases c with
      | executed =>
        obtain rfl : a = b := Course.item_of_mem_lead b .executed _ hopening
        exact .inr ⟨last, rfl⟩
      | _ => simp [Course.lead] at hopening
    | _ => simp at hopening

end Known

/-! ## No item is found signalled -/

theorem unsignalled_run (hsignal : ∀ a, plan.signal a = none) (schedule : List (Agent ι)) (a : ι) :
    .looked a true ∉ (run plan ({} : Race ι α) schedule).story := by
  have hstart : .looked a true ∉ ({} : Race ι α).story := List.not_mem_nil
  refine run_preserves (P := fun s => .looked a true ∉ s.story)
    (fun s agent h => ?_) hstart schedule
  by_cases hagent : agent = .worker
  · rw [hagent]
    show .looked a true ∉ (s.work plan).story
    have hmove := work_works plan s
    generalize s.work plan = t at hmove ⊢
    generalize s.worker = w at hmove
    cases hmove with
    | cancel b hfired =>
      rw [hsignal b] at hfired
      cases hfired
    | take | drain | pass | skip | clear | begin | finish | resolve =>
      simpa only [List.mem_append, List.mem_singleton, reduceCtorEq, or_false,
        Event.looked.injEq, and_false, Bool.true_eq_false, queueMove] using h
    | _ => exact h
  · rw [(worker_step plan s hagent).2]
    exact h

namespace Known

variable {prompt late : List (ι × Course)} {opening : List (Event ι α)} {a : ι} {c : Course}

theorem ne_signalled (h : Known plan s prompt late opening)
    (hsignal : ∀ a, .looked a true ∉ s.story) (hc : (a, c) ∈ prompt ++ late) :
    c ≠ .signalled := by
  rintro rfl
  exact hsignal a ((h.events_sublist hc).subset (by simp [Course.events, Course.lead]))

theorem executed_of_prompt (h : Known plan s prompt late opening)
    (hsignal : ∀ a, .looked a true ∉ s.story) (hc : (a, c) ∈ prompt) : c = .executed := by
  have hprompt := h.all_prompt _ hc
  cases c with
  | executed => rfl
  | signalled => exact absurd rfl (h.ne_signalled hsignal (List.mem_append_left late hc))
  | _ => cases hprompt

/-- What was not executed was refused or abandoned, because the fiber is disposed. -/
theorem outcome_of_not_ended (h : Known plan s prompt late opening)
    (hsignal : ∀ a, .looked a true ∉ s.story) {r : Resolution α} (hr : (a, r) ∈ s.resolutions)
    (hended : a ∉ s.ended) : r = cancelled .fiberDisposed := by
  rcases h.mem_resolutions hr with ⟨c, hc, rfl⟩ | ⟨-, rfl⟩
  · rw [h.ended_iff hc] at hended
    cases c with
    | executed => exact absurd rfl hended
    | signalled => exact absurd rfl (h.ne_signalled hsignal hc)
    | _ => rfl
  · rfl

/-- A worker whose fiber is disposed executes nothing any more. -/
theorem executing_at_end (h : Known plan s prompt late opening) (hstate : s.state = .disposed) :
    s.worker.executing = [] := by
  rcases Worker.eq_of_ended (h.disposed.mp hstate) with hw | hw <;> rw [hw] <;> rfl

theorem begun_tale_prompt (h : Known plan s prompt late opening)
    (hsignal : ∀ a, .looked a true ∉ s.story) :
    (tale plan prompt).filterMap Event.began? = prompt.map Prod.fst := by
  have hall : ∀ e ∈ prompt, e.2 = .executed := fun e he => h.executed_of_prompt hsignal he
  clear h
  induction prompt with
  | nil => rfl
  | cons e rest ih =>
    have hrest := ih fun d hd => hall d (List.mem_cons_of_mem _ hd)
    have hone : (e.2.events plan e.1).filterMap Event.began? = [e.1] := by
      rw [hall e List.mem_cons_self]
      rfl
    rw [tale, List.flatMap_cons, List.filterMap_append, hone, ← tale, hrest]
    rfl

theorem begun_tale_late (h : Known plan s prompt late opening) :
    (tale plan late).filterMap Event.began? = [] := by
  rw [List.filterMap_eq_nil_iff]
  intro e he
  obtain ⟨x, hx, hmem⟩ := List.mem_flatMap.mp he
  have hlate := h.all_late x hx
  generalize x.2 = d at hmem hlate
  cases d with
  | executed | signalled => cases hlate
  | _ =>
    simp only [Course.events, Course.lead, List.mem_append, List.mem_cons, List.not_mem_nil,
      or_false] at hmem
    rcases hmem with (rfl | rfl) | rfl <;> rfl

/-- Without signals, what is executed is a prefix of what was accepted. -/
theorem begun_prefix (h : Known plan s prompt late opening)
    (hsignal : ∀ a, .looked a true ∉ s.story) : s.begun <+: s.line.pushed := by
  have hbegun : s.begun = prompt.map Prod.fst ++ opening.filterMap Event.began? := by
    rw [Race.begun, h.story, tale, List.flatMap_append, List.filterMap_append,
      List.filterMap_append, ← tale, ← tale, h.begun_tale_prompt hsignal, h.begun_tale_late,
      List.append_nil]
  rw [hbegun, h.pushed, List.map_append]
  by_cases hlate : late = []
  · -- the item in hand is next
    obtain ⟨more, hmore⟩ : opening.filterMap Event.began? <+: s.worker.item := by
      have hunderway := h.underway
      generalize s.worker = w at hunderway
      cases hunderway with
      | running a => exact List.prefix_refl _
      | resolving last a c => cases c <;> first | exact List.prefix_refl _ | exact List.nil_prefix
      | _ => exact List.nil_prefix
    rw [hlate, ← hmore]
    refine ⟨more ++ (s.line.consumer.inHand ++ s.line.queue.items), ?_⟩
    simp only [List.map_nil, List.append_nil, List.append_assoc]
  · have hnone : opening.filterMap Event.began? = [] := by
      rw [List.filterMap_eq_nil_iff]
      intro e he
      cases e with
      | began a => exact absurd (h.underway.late_eq_nil he) hlate
      | _ => rfl
    rw [hnone, List.append_nil, List.append_assoc]
    exact List.prefix_append _ _

end Known

/-! ## Nothing is cancelled before the end -/

/-- The queue is not closed before the fiber has left the active state. -/
structure Open (s : Race ι α) : Prop where
  closed : s.line.queue.gate.closed = true → s.state ≠ .active
  calls : ∀ k, s.calls k = .closing → s.state ≠ .active

theorem open_work (hphase : Phase s) (h : Open s) : Open (s.work plan) := by
  have hmove := work_works plan s
  have hshut := hphase.shut
  have hconsumer := Queue.Race.closed_move_of_ne plan.config.queue s.line .consumer nofun
  generalize s.work plan = t at hmove ⊢
  generalize s.worker = w at hmove hshut
  cases hmove with
  | wait | take | drain | leave | empty => exact ⟨fun hc => h.closed (hconsumer ▸ hc), h.calls⟩
  | close | shut => exact ⟨fun _ => hshut rfl, h.calls⟩
  | mark | store => exact ⟨fun _ => nofun, fun _ _ => nofun⟩
  | _ => exact ⟨h.closed, h.calls⟩

omit [DecidableEq ι] in
theorem open_place (h : Open s) {k : Nat} {c : Call} (hc : c = .closing → s.state ≠ .active) :
    Open (s.place k c) := by
  refine ⟨h.closed, fun j hj => ?_⟩
  by_cases hjk : j = k
  · rw [hjk, calls_place] at hj
    exact hc hj
  · rw [calls_place_of_ne s hjk] at hj
    exact h.calls j hj

omit [DecidableEq ι] in
theorem open_goOn (h : Open s) (k : Nat) : Open (s.goOn plan k) := by
  refine open_place h fun hc => ?_
  cases hjoins : plan.joins k <;> rw [hjoins] at hc <;> cases hc

theorem open_call (h : Open s) (k : Nat) : Open (s.call plan k) := by
  have hmove := call_calls plan s k
  generalize s.call plan k = t at hmove ⊢
  generalize hplace : s.calls k = c at hmove
  cases hmove with
  | win =>
    have hinactive : Open { s with state := .disposing } := ⟨fun _ => nofun, fun _ _ => nofun⟩
    exact open_place hinactive fun _ => nofun
  | lose => exact open_goOn h k
  | close => exact ⟨fun _ => h.calls k hplace, h.calls⟩
  | shut =>
    have hmoved : Open (s.queueMove plan (.closer (k + 1))) :=
      ⟨fun _ => h.calls k hplace, h.calls⟩
    exact open_goOn hmoved k
  | wait | rest => exact h
  | lock | lockLate =>
    have hlocked : Open { s with holder := some k, joined := true } := ⟨h.closed, h.calls⟩
    exact open_place hlocked nofun
  | join c hc => exact open_place h (by rcases hc with rfl | rfl <;> exact nofun)
  | mark =>
    have hdisposed : Open { s with state := .disposed } := ⟨fun _ => nofun, fun _ _ => nofun⟩
    exact open_place hdisposed nofun
  | unlock =>
    have hfree : Open { s with holder := none } := ⟨h.closed, h.calls⟩
    exact open_place hfree nofun

theorem open_run (schedule : List (Agent ι)) : Open (run plan ({} : Race ι α) schedule) := by
  have hboth : Orderly plan (run plan ({} : Race ι α) schedule) ∧
      Open (run plan ({} : Race ι α) schedule) := by
    refine run_preserves (P := fun s => Orderly plan s ∧ Open s) (fun s agent hs => ?_)
      ⟨orderly_start, nofun, nofun⟩ schedule
    obtain ⟨horderly, h⟩ := hs
    refine ⟨orderly_step s agent horderly, ?_⟩
    cases agent with
    | worker => exact open_work horderly.toPhase h
    | caller k => exact open_call h k
    | signal n => exact ⟨h.closed, h.calls⟩
    | submitter a =>
      have hsame := Queue.Race.closed_move_of_ne plan.config.queue s.line (.producer a) nofun
      exact ⟨fun hc => h.closed (hsame ▸ hc), h.calls⟩
    | stranger =>
      have hsame := Queue.Race.closed_move_of_ne plan.config.queue s.line .stranger nofun
      exact ⟨fun hc => h.closed (hsame ▸ hc), h.calls⟩
  exact hboth.2

theorem rejected_of_active (schedule : List (Agent ι))
    (hactive : (run plan ({} : Race ι α) schedule).state = .active) :
    (run plan ({} : Race ι α) schedule).line.rejected = [] := by
  obtain ⟨moves, hmoves⟩ := line_run plan ({} : Race ι α) schedule
  have hopen : Open (run plan {} schedule) := open_run schedule
  have hkept : Queue.Race.Kept (run plan {} schedule).line := kept_run schedule
  have hbarred := Queue.Race.barred_play plan.config.queue moves
  rw [← show _ = _ from hmoves] at hbarred
  generalize run plan ({} : Race ι α) schedule = s at hactive hopen hkept hbarred ⊢
  rw [List.eq_nil_iff_forall_not_mem]
  intro a ha
  have hcount := List.count_pos_iff.mpr ha
  rw [hkept.rejected a] at hcount
  have hturned : (s.line.offers a).turnedAway = true := by
    cases hplace : (s.line.offers a).turnedAway with
    | true => rfl
    | false =>
      rw [hplace] at hcount
      cases hcount
  exact hopen.closed (hbarred a (Queue.Offer.barred_of_turnedAway hturned)) hactive

/-- While the fiber is active, what is resolved has been executed. -/
theorem executed_of_active (hsignal : ∀ a, plan.signal a = none) (schedule : List (Agent ι))
    (hactive : (run plan ({} : Race ι α) schedule).state = .active) {a : ι} {r : Resolution α}
    (hr : (a, r) ∈ (run plan ({} : Race ι α) schedule).resolutions) :
    a ∈ (run plan ({} : Race ι α) schedule).begun := by
  obtain ⟨prompt, late, opening, h⟩ := known_run plan schedule
  have hquiet := unsignalled_run hsignal schedule
  have hrejected := rejected_of_active schedule hactive
  generalize run plan ({} : Race ι α) schedule = s at hactive hr h hquiet hrejected ⊢
  have hlate : late = [] := by
    by_contra hne
    exact h.inactive hne hactive
  rw [h.resolutions, hrejected, hlate, List.append_nil, List.map_nil, List.append_nil] at hr
  obtain ⟨e, he, heq⟩ := List.mem_map.mp hr
  obtain ⟨rfl, -⟩ := Prod.mk.inj heq
  rw [h.begun_iff (List.mem_append_left late he)]
  exact h.executed_of_prompt hquiet he

end Race

end Fiber

end Skein
