import Skein.Proofs.Fiber.Unsignalled
import Skein.Proofs.Queue.Progress

/-!
# An active fiber gets through its items

Once the calls that submit items to an active fiber have come to rest, so many
steps of the worker resolve all items that were accepted: `served_run`.  The
worker's way from one item to the next is bounded by where it stands, and `toGo`
adds up these ways.
-/

namespace Skein

namespace Fiber

variable {ι α : Type}

/-- How many steps the worker can make until it has resolved one more item, if
there is one, from above. -/
def Worker.way (consumer : Queue.Consumer ι) : Worker ι α → Nat
  | starting => 20
  | taking _ => 10 + consumer.way
  | taken _ => 5
  | admitted _ => 4
  | cleared _ => 3
  | running _ => 2
  | resolving .. => 1
  | _ => 0

namespace Race

variable {s t : Race ι α}

def unresolved (s : Race ι α) : Nat :=
  s.line.pushed.length - (s.story.filterMap Event.resolved?).length

def toGo (s : Race ι α) : Nat :=
  30 * s.unresolved + s.worker.way s.line.consumer

theorem toGo_lt_of_way (hpushed : t.line.pushed = s.line.pushed)
    (hstory : t.story.filterMap Event.resolved? = s.story.filterMap Event.resolved?)
    (hway : t.worker.way t.line.consumer < s.worker.way s.line.consumer) : t.toGo < s.toGo := by
  rw [toGo, toGo, unresolved, unresolved, hpushed, hstory]
  exact Nat.add_lt_add_left hway _

theorem toGo_resolve {last : Bool} {a : ι} {r : Resolution α}
    (hw : s.worker = .resolving last a r) (hsome : s.unresolved ≠ 0) :
    toGo { s with worker := .taking last, story := s.story ++ [.resolved a r] } < s.toGo := by
  have hway := s.line.consumer.way_le
  have hone : (s.story ++ [Event.resolved a r]).filterMap Event.resolved? =
      s.story.filterMap Event.resolved? ++ [(a, r)] := List.filterMap_append
  rw [unresolved] at hsome
  rw [toGo, toGo, unresolved, unresolved, hw]
  show 30 * (s.line.pushed.length - ((s.story ++ [Event.resolved a r]).filterMap _).length) +
    (10 + s.line.consumer.way) < _ + 1
  rw [hone, List.length_append, List.length_singleton]
  omega

/-- What happened to an item before it is resolved does not count. -/
theorem resolved_append (s : Race ι α) {e : Event ι α} (he : Event.resolved? e = none) :
    (s.story ++ [e]).filterMap Event.resolved? = s.story.filterMap Event.resolved? := by
  rw [List.filterMap_append, List.filterMap_cons_none he]
  exact List.append_nil _

variable [DecidableEq ι] {plan : Plan ι α}

/-! ## The worker leaves only when it is told to -/

/-- Unless the hook panics, the worker leaves its loop because the queue has said
that there will be no more. -/
def Stays (s : Race ι α) : Prop :=
  s.worker = .leaving ∨ s.worker = .marking → none ∈ s.line.answers

theorem stays_run (hhook : plan.hookPanics = false) (schedule : List (Agent ι)) :
    Stays (run plan ({} : Race ι α) schedule) := by
  have hstart : Stays ({} : Race ι α) := by rintro (h | h) <;> cases h
  refine run_preserves (P := Stays) (fun s agent h => ?_) hstart schedule
  by_cases hagent : agent = .worker
  · rw [hagent]
    show Stays (s.work plan)
    by_cases hstarting : s.worker = .starting
    · have hwork : s.work plan = { s with worker := .taking false } := by
        simp [work, hstarting, hhook]
      rw [hwork]
      rintro (h | h) <;> cases h
    have hmove := work_works plan s
    generalize s.work plan = t at hmove ⊢
    generalize hw : s.worker = w at hmove
    rw [Stays, hw] at h
    cases hmove with
    | startBadly => exact absurd hw hstarting
    | leave hnone =>
      intro _
      show none ∈ (s.line.move plan.config.queue .consumer).answers
      rw [Queue.Race.answers_move_consumer, hnone]
      exact List.mem_append_right _ (List.mem_singleton_self _)
    | decide => exact fun _ => h (.inl rfl)
    | wait | rest => rintro (h | h) <;> cases hw.symm.trans h
    | _ => rintro (h | h) <;> cases h
  · rw [Stays, (worker_step plan s hagent).1, answers_step hagent]
    exact h

/-- The worker of an active fiber is in its loop. -/
theorem inLoop_run (hhook : plan.hookPanics = false) (schedule : List (Agent ι))
    (hactive : (run plan ({} : Race ι α) schedule).state = .active) :
    (run plan ({} : Race ι α) schedule).worker.exits = false ∧
      (run plan ({} : Race ι α) schedule).worker ≠ .leaving ∧
      (run plan ({} : Race ι α) schedule).worker ≠ .marking := by
  obtain ⟨prompt, late, opening, h⟩ := known_run plan schedule
  have hstays := stays_run hhook schedule
  have hopen : Open (run plan ({} : Race ι α) schedule) := open_run schedule
  -- a queue that has said that there will be no more is closed
  have hnever (hnone : none ∈ (run plan ({} : Race ι α) schedule).line.answers) : False :=
    hopen.closed (h.kept.ended (.inr hnone)).closed hactive
  refine ⟨?_, fun hw => hnever (hstays (.inl hw)), fun hw => hnever (hstays (.inr hw))⟩
  exact Bool.eq_false_iff.mpr fun hexits => h.shut hexits hactive

/-! ## One step -/

/-- The calls that submit items have come to rest. -/
def Quiet (s : Race ι α) : Prop :=
  ∀ a, (s.line.offers a).Rests

variable (plan) in
theorem work_frame (s : Race ι α) : (s.work plan).line.pushed = s.line.pushed ∧
    (s.work plan).line.offers = s.line.offers := by
  have hmove (agent : Queue.Agent ι) (h : ∀ a, agent ≠ .producer a) :
      (s.line.move plan.config.queue agent).pushed = s.line.pushed ∧
        (s.line.move plan.config.queue agent).offers = s.line.offers := by
    cases agent with
    | producer a => exact absurd rfl (h a)
    | _ => cases plan.config.queue <;> exact ⟨rfl, rfl⟩
  have hworks := work_works plan s
  generalize s.work plan = t at hworks ⊢
  generalize s.worker = w at hworks
  cases hworks with
  | wait | take | drain | leave | empty => exact hmove .consumer nofun
  | close | shut => exact hmove (.closer 0) nofun
  | _ => exact ⟨rfl, rfl⟩

/-- The items that are not resolved: one that the worker has, one that the
consumer has, and those in the queue. -/
theorem Known.unresolved {prompt late : List (ι × Course)} {opening : List (Event ι α)}
    (h : Known plan s prompt late opening) :
    s.unresolved = (s.worker.item ++ (s.line.consumer.inHand ++ s.line.queue.items)).length := by
  have hresolved : (s.story.filterMap Event.resolved?).length = (prompt ++ late).length := by
    rw [h.story, List.filterMap_append, resolved_tale, h.underway.resolved, List.append_nil,
      List.length_map]
  rw [Race.unresolved, hresolved, h.pushed, List.length_append, List.length_map]
  exact Nat.add_sub_cancel_left _ _

/-- A consumer that looks for an item that is there either returns with it or comes nearer
to it. -/
theorem way_taking {schedule : List (Agent ι)} (hs : s = run plan {} schedule) (hquiet : s.Quiet)
    (hsome : s.unresolved ≠ 0) (hitem : s.worker.item = []) :
    (∃ a, (s.line.move plan.config.queue .consumer).consumer = .returned (some a)) ∨
      (s.line.move plan.config.queue .consumer).consumer.way < s.line.consumer.way := by
  obtain ⟨prompt, late, opening, h⟩ := known_run plan schedule
  obtain ⟨moves, hmoves⟩ := line_run plan ({} : Race ι α) schedule
  have hawake := Queue.Race.awake_play plan.config.queue moves
  rw [← show _ = _ from hmoves] at hawake
  rw [← hs] at h hawake
  refine Queue.Race.way_move h.kept hawake hquiet fun hnone => hsome ?_
  rw [h.unresolved, hitem, hnone]
  rfl

/-- Every step of the worker brings it nearer to the end of its items, and none
ends the active state. -/
theorem toGo_work (hhook : plan.hookPanics = false) {schedule : List (Agent ι)}
    (hs : s = run plan {} schedule) (hactive : s.state = .active) (hquiet : s.Quiet)
    (hsome : s.unresolved ≠ 0) :
    (s.work plan).toGo < s.toGo ∧ (s.work plan).state = .active := by
  have hloop := inLoop_run hhook schedule
  rw [← hs] at hloop
  obtain ⟨hexits, hleaving, hmarking⟩ := hloop hactive
  have hway := s.line.consumer.way_le
  have hmove := work_works plan s
  have hpushed := (work_frame plan s).1
  generalize hwork : s.work plan = t at hmove hpushed ⊢
  generalize hw : s.worker = w at hmove
  rw [hw] at hexits hleaving hmarking
  cases hmove with
  | start =>
    refine ⟨toGo_lt_of_way rfl rfl ?_, hactive⟩
    rw [hw]
    show 10 + s.line.consumer.way < 20
    omega
  | startBadly => simp [work, hw, hhook] at hwork
  | wait last hwait =>
    refine ⟨toGo_lt_of_way hpushed rfl ?_, hactive⟩
    show s.worker.way _ < s.worker.way _
    rw [hw]
    rcases way_taking hs hquiet hsome (by rw [hw]; rfl) with ⟨a, ha⟩ | hless
    · exact absurd ha (hwait _)
    · exact Nat.add_lt_add_left hless 10
  | take a =>
    refine ⟨toGo_lt_of_way hpushed (resolved_append s rfl) ?_, hactive⟩
    rw [hw]
    show 5 < 10 + s.line.consumer.way
    omega
  | leave hnone =>
    rcases way_taking hs hquiet hsome (by rw [hw]; rfl) with ⟨a, ha⟩ | hless
    · cases ha.symm.trans hnone
    · rw [hnone] at hless
      exact absurd hless (Nat.not_lt.mpr hway)
  | skip a hinactive => exact absurd hactive hinactive
  | resolve last a r => exact ⟨toGo_resolve hw hsome, hactive⟩
  | decide | keep => exact absurd rfl hleaving
  | mark => exact absurd rfl hmarking
  | drain | empty | close | shut | store | vanish | rest => cases hexits
  | pass | clear | begin | finish =>
    refine ⟨toGo_lt_of_way hpushed (resolved_append s rfl) ?_, hactive⟩
    rw [hw]
    exact Nat.lt_succ_self _
  | cancel =>
    refine ⟨toGo_lt_of_way hpushed (resolved_append s rfl) ?_, hactive⟩
    rw [hw]
    show 1 < 4
    decide

/-! ## All items -/

/-- The worker of an active fiber resolves every item that was accepted, once
those who submit items let it be. -/
theorem served_run (hhook : plan.hookPanics = false) (schedule : List (Agent ι))
    (hactive : (run plan {} schedule).state = .active) (hquiet : (run plan {} schedule).Quiet) :
    ∃ n, let t := (run plan {} schedule).run plan (List.replicate n .worker)
      t.state = .active ∧ t.line.pushed = (run plan {} schedule).line.pushed ∧
        ∀ a ∈ t.line.pushed, ∃ r, (a, r) ∈ t.resolutions := by
  generalize hs : run plan {} schedule = s at hactive hquiet ⊢
  generalize hbound : s.toGo = bound
  -- by induction on how far the worker has to go at most
  induction bound using Nat.strongRecOn generalizing schedule s with
  | ind bound ih =>
    by_cases hsome : s.unresolved = 0
    · refine ⟨0, hactive, rfl, fun a ha => ?_⟩
      obtain ⟨prompt, late, opening, h⟩ := known_run plan schedule
      rw [hs] at h
      have hnone : s.worker.item ++ (s.line.consumer.inHand ++ s.line.queue.items) = [] :=
        List.eq_nil_of_length_eq_zero (h.unresolved ▸ hsome)
      have hmem : a ∈ s.line.pushed := ha
      rw [h.pushed, hnone, List.append_nil] at hmem
      obtain ⟨e, he, rfl⟩ := List.mem_map.mp hmem
      refine ⟨e.2.outcome plan e.1, ?_⟩
      show _ ∈ s.resolutions
      rw [h.resolutions]
      exact List.mem_append_left _ (List.mem_map_of_mem he)
    · obtain ⟨hless, hlater⟩ := toGo_work hhook hs.symm hactive hquiet hsome
      obtain ⟨hpushed, hoffers⟩ := work_frame plan s
      have hrun : run plan {} (schedule ++ [.worker]) = s.work plan := by
        rw [run_append, hs]
        rfl
      obtain ⟨n, hstate, hsame, hall⟩ := ih _ (hbound ▸ hless) (schedule ++ [.worker]) _ hrun hlater
        (fun a => by rw [hoffers]; exact hquiet a) rfl
      exact ⟨n + 1, hstate, hsame.trans hpushed, hall⟩

end Race

end Fiber

end Skein
