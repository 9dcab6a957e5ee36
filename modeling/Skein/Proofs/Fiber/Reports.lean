import Skein.Fiber.Watch
import Skein.Proofs.Fiber.Settlement
import Skein.Session.WorkItems

/-!
# Failures of fired items

A fired item that fails is reported if its completion is dropped before the worker
hands the failure over.  If the worker comes first, the completion takes the
failure and is dropped with it, and there is no warning: `run_reports` says that
the order of these two steps decides, and `run_reports_lost` runs through a
schedule in which the worker comes first.

The notes about one item are followed through its whole life, `Fate`.  That the
resolution is handed over only once comes from the race: `resolutions_step` says
that whatever is handed over is one more resolution of the race, and there no item
has two.
-/

namespace Skein

namespace Fiber

variable {ι α : Type}

/-! ## What the race hands over -/

namespace Race

/-- A step that adds to the story adds the resolutions that it tells of. -/
theorem resolutions_of_story {s t : Race ι α} (events : List (Event ι α))
    {handed : List (ι × Resolution α)} (hstory : t.story = s.story ++ events)
    (hrejected : t.line.rejected = s.line.rejected)
    (hsame : events.filterMap Event.resolved? = handed) :
    t.resolutions.Perm (s.resolutions ++ handed) := by
  rw [resolutions, resolutions, hstory, hrejected, List.filterMap_append, hsame,
    List.append_assoc, List.append_assoc]
  exact List.perm_append_comm.append_left _

variable [DecidableEq ι] (plan : Plan ι α)

theorem resolutions_work (s : Race ι α) :
    (s.work plan).resolutions.Perm (s.resolutions ++ s.worker.handsOver.toList) := by
  have hmove := work_works plan s
  have hconsumer : (s.line.move plan.config.queue .consumer).rejected = s.line.rejected :=
    Queue.Race.rejected_move_of_ne _ _ nofun
  have hcloser : (s.line.move plan.config.queue (.closer 0)).rejected = s.line.rejected :=
    Queue.Race.rejected_move_of_ne _ _ nofun
  have hnothing : s.story = s.story ++ [] := (List.append_nil _).symm
  generalize s.work plan = t at hmove ⊢
  generalize hw : s.worker = w at hmove ⊢
  cases hmove with
  | wait | leave | empty => exact resolutions_of_story [] hnothing hconsumer rfl
  | take | drain => exact resolutions_of_story _ rfl hconsumer rfl
  | close | shut => exact resolutions_of_story [] hnothing hcloser rfl
  | pass | skip | clear | cancel | begin | finish | resolve =>
    exact resolutions_of_story _ rfl rfl rfl
  | _ => exact resolutions_of_story [] hnothing rfl rfl

/-- What a step hands over is one more resolution. -/
theorem resolutions_step (s : Race ι α) (agent : Agent ι) :
    (s.step plan agent).resolutions.Perm (s.resolutions ++ (s.handsOver agent).toList) := by
  have hnothing : s.story = s.story ++ [] := (List.append_nil _).symm
  have hstranger : (s.line.move plan.config.queue .stranger).rejected = s.line.rejected :=
    Queue.Race.rejected_move_of_ne _ _ nofun
  cases agent with
  | worker => exact resolutions_work plan s
  | signal n => exact resolutions_of_story [] hnothing rfl rfl
  | stranger => exact resolutions_of_story [] hnothing hstranger rfl
  | caller k =>
    have hmove := call_calls plan s k
    have hcloser : (s.line.move plan.config.queue (.closer (k + 1))).rejected = s.line.rejected :=
      Queue.Race.rejected_move_of_ne _ _ nofun
    show (s.call plan k).resolutions.Perm (s.resolutions ++ [])
    generalize s.call plan k = t at hmove ⊢
    generalize s.calls k = c at hmove
    cases hmove with
    | close | shut => exact resolutions_of_story [] hnothing hcloser rfl
    | _ => exact resolutions_of_story [] hnothing rfl rfl
  | submitter a =>
    have hrejects : ((s.line.offers a).rejects a).map (fun b => (b, cancelled .fiberDisposed)) =
        (refusal (α := α) a (s.line.offers a)).toList := by
      cases s.line.offers a <;> rfl
    show (s.story.filterMap Event.resolved? ++
      (s.line.move plan.config.queue (.producer a)).rejected.map _).Perm _
    rw [Queue.Race.rejected_move_producer, List.map_append, ← List.append_assoc, hrejects]
    exact List.Perm.refl _

variable {plan}

/-- No item is handed over that was resolved before. -/
theorem fresh_of_handsOver (schedule : List (Agent ι)) {agent : Agent ι} {a : ι}
    {r : Resolution α} (h : (run plan {} schedule).handsOver agent = some (a, r)) :
    ∀ r', (a, r') ∉ (run plan {} schedule).resolutions := by
  intro r' hr'
  obtain ⟨prompt, late, opening, hknown⟩ := known_run plan (schedule ++ [agent])
  have honce := hknown.resolved_once
  have hperm := (resolutions_step plan (run plan {} schedule) agent).map Prod.fst
  rw [run_append, run_cons, run_nil] at honce
  rw [h] at hperm
  have hnodup := hperm.nodup_iff.mp honce
  rw [List.map_append] at hnodup
  exact (List.nodup_append.mp hnodup).2.2 a (List.mem_map_of_mem hr') a (List.mem_singleton_self a)
    rfl

end Race

/-! ## The life of a completion -/

/-- What can have become of the completion of an item: the completion itself, the
resolution of the item, and the notes about it. -/
inductive Life (a : ι) :
    Option (Completion α) → Option (Resolution α) → List (Note ι) → Prop
  | waiting : Life a (some .pending) none []
  | dropped : Life a none none [.dropped a]
  | received (r : Resolution α) : Life a (some (.resolved r)) (some r) [.handed a]
  | lost (r : Resolution α) : Life a none (some r) [.handed a, .dropped a]
  | missed (r : Resolution α) :
      Life a none (some r)
        (.dropped a :: .handed a :: (WorkItem.unobservedReport r).map (.logged a))

namespace Life

variable {a : ι} {handle : Option (Completion α)} {resolution : Option (Resolution α)}
  {notes : List (Note ι)}

theorem handOver (h : Life a handle none notes) (r : Resolution α) :
    Life a (WorkItem.handOver handle r).1 (some r)
      (notes ++ .handed a :: (WorkItem.handOver handle r).2.map (.logged a)) := by
  cases h with
  | waiting => exact .received r
  | dropped => exact .missed r

theorem drop {completion : Completion α} (h : Life a (some completion) resolution notes) :
    Life a none resolution (notes ++ [.dropped a]) := by
  cases h with
  | waiting => exact .dropped
  | received r => exact .lost r

end Life

section Concerns

variable [DecidableEq ι]

/-- Is it a note about the item, and no report below a warning? -/
def Note.concerns (a : ι) : Note ι → Bool
  | .dropped b | .handed b => b = a
  | .logged b entry => b = a ∧ entry.level = .warn

theorem concerns_reports (plan : Plan ι α) (s : Race ι α) (agent : Agent ι) (a : ι) :
    (s.reports plan agent).filter (Note.concerns a) = [] := by
  rw [List.filter_eq_nil_iff]
  intro note hnote
  cases agent with
  | worker =>
    have hreport : note ∈ s.worker.reports plan := hnote
    cases hw : s.worker with
    | running b =>
      rw [hw] at hreport
      obtain ⟨entry, hentry, rfl⟩ := List.mem_map.mp hreport
      simp [Note.concerns, WorkItem.level_executionReport _ entry hentry]
    | _ =>
      rw [hw] at hreport
      cases hreport
  | _ => cases hnote

/-- The notes about a handing over concern the item that is handed over. -/
theorem concerns_handOver (a b : ι) (handle : Option (Completion α)) (r : Resolution α) :
    (Note.handed b :: (WorkItem.handOver handle r).2.map (Note.logged b)).filter
        (Note.concerns a) =
      if b = a then .handed b :: (WorkItem.handOver handle r).2.map (.logged b) else [] := by
  have hwarn : ∀ entry ∈ (WorkItem.handOver handle r).2, entry.level = .warn := by
    cases handle with
    | none => exact WorkItem.level_unobservedReport r
    | some completion => nofun
  split
  next hba =>
    rw [List.filter_eq_self]
    intro note hnote
    rcases List.mem_cons.mp hnote with rfl | hlogged
    · simp [Note.concerns, hba]
    · obtain ⟨entry, hentry, rfl⟩ := List.mem_map.mp hlogged
      simp [Note.concerns, hba, hwarn entry hentry]
  next hba =>
    rw [List.filter_eq_nil_iff]
    intro note hnote
    rcases List.mem_cons.mp hnote with rfl | hlogged
    · simp [Note.concerns, hba]
    · obtain ⟨entry, hentry, rfl⟩ := List.mem_map.mp hlogged
      simp [Note.concerns, hba]

end Concerns

namespace Watch

variable [DecidableEq ι] {plan : Plan ι α} {s : Watch ι α}

/-- What has become of the completion of `a`, of the notes only those that concern
it. -/
def Lives (s : Watch ι α) (a : ι) (resolution : Option (Resolution α)) : Prop :=
  Life a (s.handles a) resolution (s.notes.filter (Note.concerns a))

section Lives

variable {a b : ι} {resolution : Option (Resolution α)}

variable (plan) in
theorem Lives.goOn (h : s.Lives a resolution) (agent : Agent ι) :
    (s.goOn plan agent).Lives a resolution := by
  show Life a (s.handles a) resolution
    ((s.notes ++ s.race.reports plan agent).filter (Note.concerns a))
  rw [List.filter_append, concerns_reports, List.append_nil]
  exact h

theorem Lives.drop (h : s.Lives a resolution) (b : ι) : (s.drop b).Lives a resolution := by
  unfold Watch.drop
  split
  next accepted completion hreturned hheld =>
    show Life a (Function.update s.handles b none a) resolution
      ((s.notes ++ [Note.dropped b]).filter (Note.concerns a))
    rw [List.filter_append]
    by_cases hab : a = b
    · subst hab
      have hown : [Note.dropped a].filter (Note.concerns a) = [.dropped a] := by
        simp [Note.concerns]
      rw [Lives, hheld] at h
      rw [Function.update_self, hown]
      exact h.drop
    · have hother : [Note.dropped b].filter (Note.concerns a) = [] := by
        simp [Note.concerns, Ne.symm hab]
      rw [Function.update_of_ne hab, hother, List.append_nil]
      exact h
  next => exact h

theorem Lives.handOver (h : s.Lives a none) (r : Resolution α) :
    (s.handOver a r).Lives a (some r) := by
  show Life a (Function.update s.handles a (WorkItem.handOver (s.handles a) r).1 a) (some r)
    ((s.notes ++ Note.handed a ::
      (WorkItem.handOver (s.handles a) r).2.map (Note.logged a)).filter (Note.concerns a))
  rw [Function.update_self, List.filter_append, concerns_handOver, if_pos rfl]
  exact Life.handOver h r

theorem Lives.handOver_of_ne (h : s.Lives a resolution) (hab : a ≠ b) (r : Resolution α) :
    (s.handOver b r).Lives a resolution := by
  show Life a (Function.update s.handles b (WorkItem.handOver (s.handles b) r).1 a) resolution
    ((s.notes ++ Note.handed b ::
      (WorkItem.handOver (s.handles b) r).2.map (Note.logged b)).filter (Note.concerns a))
  rw [Function.update_of_ne hab, List.filter_append, concerns_handOver, if_neg hab.symm,
    List.append_nil]
  exact h

end Lives

def Tracked (s : Watch ι α) : Prop :=
  ∀ a, ∃ resolution : Option (Resolution α),
    (∀ r, resolution = some r ↔ (a, r) ∈ s.race.resolutions) ∧ s.Lives a resolution

theorem tracked_start : Tracked ({} : Watch ι α) := by
  intro a
  refine ⟨none, ?_, .waiting⟩
  intro r
  constructor <;> nofun

theorem race_drop (s : Watch ι α) (a : ι) : (s.drop a).race = s.race := by
  unfold drop
  split <;> rfl

/-- The fiber goes on as if nobody watched. -/
theorem race_step (s : Watch ι α) (agent : Agent ι) :
    (s.step plan (.fiber agent)).race = s.race.step plan agent := by
  cases h : s.race.handsOver agent <;> simp only [step, h] <;> rfl

theorem tracked_drop (h : Tracked s) (b : ι) : Tracked (s.drop b) := by
  intro a
  obtain ⟨resolution, hresolved, hlives⟩ := h a
  rw [race_drop]
  exact ⟨resolution, hresolved, hlives.drop b⟩

theorem tracked_fiber (h : Tracked s) {agent : Agent ι}
    (hfresh : ∀ a r, s.race.handsOver agent = some (a, r) →
      ∀ r', (a, r') ∉ s.race.resolutions) :
    Tracked (s.step plan (.fiber agent)) := by
  intro a
  obtain ⟨resolution, hresolved, hlives⟩ := h a
  have hperm := Race.resolutions_step plan s.race agent
  have hgone := hlives.goOn plan agent
  rw [race_step]
  cases hh : s.race.handsOver agent with
  | none =>
    have hstep : s.step plan (.fiber agent) = s.goOn plan agent := by
      simp only [step, hh]
    rw [hh] at hperm
    refine ⟨resolution, ?_, hstep ▸ hgone⟩
    intro r
    rw [hresolved r, hperm.mem_iff]
    simp
  | some handed =>
    obtain ⟨b, r⟩ := handed
    have hstep : s.step plan (.fiber agent) = (s.goOn plan agent).handOver b r := by
      simp only [step, hh]
    rw [hh] at hperm
    have hmem (r' : Resolution α) : (a, r') ∈ (s.race.step plan agent).resolutions ↔
        (a, r') ∈ s.race.resolutions ∨ a = b ∧ r' = r := by
      rw [hperm.mem_iff]
      simp
    rw [hstep]
    by_cases hab : a = b
    · subst hab
      have hnew := hfresh a r hh
      obtain rfl : resolution = none := by
        cases resolution with
        | none => rfl
        | some r' => exact absurd ((hresolved r').mp rfl) (hnew r')
      refine ⟨some r, ?_, hgone.handOver r⟩
      intro r'
      rw [hmem r']
      constructor
      · intro hr
        exact .inr ⟨rfl, (Option.some.inj hr).symm⟩
      · rintro (hbefore | ⟨-, rfl⟩)
        · exact absurd hbefore (hnew r')
        · rfl
    · refine ⟨resolution, ?_, hgone.handOver_of_ne hab r⟩
      intro r'
      rw [hresolved r', hmem r']
      simp [hab]

theorem tracked_run (plan : Plan ι α) (schedule : List (Watcher ι)) :
    (∃ moves, (run plan {} schedule).race = Race.run plan {} moves) ∧
      Tracked (run plan {} schedule) := by
  refine run_preserves
    (P := fun s => (∃ moves, s.race = Race.run plan {} moves) ∧ Tracked s) ?_
    ⟨⟨[], rfl⟩, tracked_start⟩ schedule
  rintro s w ⟨⟨moves, hmoves⟩, htracked⟩
  cases w with
  | holder a => exact ⟨⟨moves, (race_drop s a).trans hmoves⟩, tracked_drop htracked a⟩
  | fiber agent =>
    refine ⟨⟨moves ++ [agent], ?_⟩, tracked_fiber htracked fun a r h => ?_⟩
    · rw [race_step, hmoves, Race.run_append]
      rfl
    · rw [hmoves] at h ⊢
      exact Race.fresh_of_handsOver moves h

/-! ## The warnings -/

/-- The completion was dropped before the resolution was handed over. -/
def DroppedFirst (s : Watch ι α) (a : ι) : Prop :=
  [.dropped a, .handed a].Sublist s.notes

instance (s : Watch ι α) (a : ι) : Decidable (s.DroppedFirst a) :=
  inferInstanceAs (Decidable (List.Sublist _ _))

/-- All warnings about an item are notes that concern it. -/
theorem warnings_eq (s : Watch ι α) (a : ι) :
    s.warnings a = (s.notes.filter (Note.concerns a)).filterMap fun
      | .logged _ entry => some entry
      | _ => none := by
  rw [warnings, List.filterMap_filter]
  apply List.filterMap_congr
  intro note _
  cases note with
  | logged b entry => simp [Note.concerns]
  | _ => simp

/-- An item that was executed and failed, and whose completion has been dropped,
was warned of once if the completion was dropped before the worker handed the
failure over.  Otherwise the completion took the failure before it was dropped,
and there is no warning. -/
theorem run_reports (plan : Plan ι α) (schedule : List (Watcher ι)) {a : ι} {e : DispatchError}
    (hfailed : ((plan.operation a).payload 0).ending.resolution = .error e)
    (hkept : e.isCancelled = false) (hbegun : a ∈ (run plan {} schedule).race.begun)
    (hsettled : a ∈ (run plan {} schedule).race.resolutions.map Prod.fst)
    (hdropped : (run plan {} schedule).handles a = none) :
    ((run plan {} schedule).DroppedFirst a →
      (run plan {} schedule).warnings a = [WorkItem.unobservedEntry e]) ∧
    (¬ (run plan {} schedule).DroppedFirst a →
      (run plan {} schedule).warnings a = [] ∧
        [.handed a, .dropped a].Sublist (run plan {} schedule).notes) := by
  obtain ⟨⟨moves, hmoves⟩, htracked⟩ := tracked_run plan schedule
  generalize run plan {} schedule = s at hbegun hsettled hdropped hmoves htracked ⊢
  obtain ⟨prompt, late, opening, hknown⟩ := Race.known_run plan moves
  rw [← hmoves] at hknown
  obtain ⟨r, hr⟩ : ∃ r, (a, r) ∈ s.race.resolutions := by simpa using hsettled
  obtain rfl : r = .error e := by
    rcases hknown.mem_resolutions hr with ⟨c, hc, rfl⟩ | ⟨hpushed, -⟩
    · rw [(hknown.begun_iff hc).mp hbegun, ← hfailed, ← Plan.outcome_eq]
      rfl
    · exact absurd hbegun (hknown.not_begun hpushed)
  obtain ⟨resolution, hresolved, hlives⟩ := htracked a
  have hresolution : resolution = some (.error e) := (hresolved _).mpr hr
  rw [Lives, hresolution, hdropped] at hlives
  have hwarnings := s.warnings_eq a
  have hnotes : (s.notes.filter (Note.concerns a)).Sublist s.notes := List.filter_sublist
  have hfirst (h : s.DroppedFirst a) :
      [.dropped a, .handed a].Sublist (s.notes.filter (Note.concerns a)) := by
    have hown := List.Sublist.filter (Note.concerns a) h
    simpa [Note.concerns] using hown
  generalize s.notes.filter (Note.concerns a) = notes at hlives hwarnings hnotes hfirst
  cases hlives with
  | lost =>
    constructor
    · intro h
      -- either note occurs once, so there is only one order
      cases hfirst h with
      | cons _ hrest =>
        cases hrest with
        | cons_cons _ hnone => cases hnone
        | cons _ hnone => cases hnone
    · intro _
      exact ⟨hwarnings, hnotes⟩
  | missed =>
    have hreport := WorkItem.unobservedReport_error (α := α) hkept
    constructor
    · intro _
      rw [hwarnings, hreport]
      rfl
    · intro hnot
      have hordered : s.DroppedFirst a :=
        (List.sublist_append_left [Note.dropped a, Note.handed a] _).trans hnotes
      exact absurd hordered hnot

/-- The completion is dropped while the worker is at the item. -/
theorem run_reports_inTime :
    let f : Failure := .plain "down"
    let e : DispatchError := .operation f
    let plan : Plan Unit Unit :=
      { operation := fun _ => { payload := fun _ => { ending := .failure f } } }
    let submit : List (Watcher Unit) := List.replicate 2 (.fiber (.submitter ()))
    let schedule := submit ++ List.replicate 6 (.fiber .worker) ++ .holder () ::
      List.replicate 2 (.fiber .worker)
    ((plan.operation ()).payload 0).ending.resolution = .error e ∧ e.isCancelled = false ∧
      () ∈ (run plan {} schedule).race.begun ∧
      () ∈ (run plan {} schedule).race.resolutions.map Prod.fst ∧
      ((run plan {} schedule).handles ()).isNone ∧ (run plan {} schedule).DroppedFirst () ∧
      (run plan {} schedule).warnings () = [WorkItem.unobservedEntry e] := by
  intro f e plan submit schedule
  have hfailed : ((plan.operation ()).payload 0).ending.resolution = .error e := rfl
  have hbegun : () ∈ (run plan {} schedule).race.begun := by decide
  have hresolved : () ∈ (run plan {} schedule).race.resolutions.map Prod.fst := by decide
  have hdropped : ((run plan {} schedule).handles ()).isNone := by decide
  have hfirst : (run plan {} schedule).DroppedFirst () := by decide
  have hwarned :=
    (run_reports plan schedule hfailed rfl hbegun hresolved
      (Option.isNone_iff_eq_none.mp hdropped)).1
  exact ⟨hfailed, rfl, hbegun, hresolved, hdropped, hfirst, hwarned hfirst⟩

/-- The worker is done with the item before the completion is dropped, and nobody is
warned.  A session that executes the item and then drops the handle reports no
more. -/
theorem run_reports_lost :
    let f : Failure := .plain "down"
    let e : DispatchError := .operation f
    let plan : Plan Unit Unit :=
      { operation := fun _ => { payload := fun _ => { ending := .failure f } } }
    let submit : List (Watcher Unit) := List.replicate 2 (.fiber (.submitter ()))
    let s := run plan {} (submit ++ List.replicate 8 (.fiber .worker) ++ [.holder ()])
    let session : Session.WorkItems.State Unit :=
      (Session.WorkItems.State.run {}
        [("a", .new { ending := .failure f } none), ("a", .execute), ("a", .dropHandle)]).2
    ((plan.operation ()).payload 0).ending.resolution = .error e ∧ e.isCancelled = false ∧
      () ∈ s.race.begun ∧ () ∈ s.race.resolutions.map Prod.fst ∧ (s.handles ()).isNone ∧
      s.warnings () = [] ∧ session.log = [WorkItem.failedEntry e] := by
  intro f e plan submit s session
  have hbegun : () ∈ s.race.begun := by decide
  have hresolved : () ∈ s.race.resolutions.map Prod.fst := by decide
  have hdropped : (s.handles ()).isNone := by decide
  have hunwarned : s.warnings () = [] := by decide
  have hreported : session.log = [WorkItem.failedEntry e] := by decide
  exact ⟨rfl, rfl, hbegun, hresolved, hdropped, hunwarned, hreported⟩

end Watch

end Fiber

end Skein
