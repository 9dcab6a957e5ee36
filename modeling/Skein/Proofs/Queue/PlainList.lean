import Mathlib.Data.List.Perm.Basic
import Skein.Queue.Calls

/-!
# Queues are lists with a closed flag

The strategies keep their items behind a gate or a lock and do different things
at every call.  None of that shows: whatever calls are made, a queue of each
strategy gives the answers of a plain list with a closed flag, and rejects what
that would reject.  `run_refines` says so, and says what those answers are.

Between two calls nobody is announced at the gate.  So `Any.view`, the items and
the flag, is all that a call can tell of a queue.
-/

namespace Skein

namespace Queue

variable {ι : Type}

theorem popAll_eq (items : List ι) : popAll items = items := by
  induction items with
  | nil => rfl
  | cons a rest ih => rw [popAll, ih]

theorem Gate.isSealed_eq {g : Gate} (h : g.inFlight = 0) : g.isSealed = g.closed := by
  rw [isSealed, h]
  exact Bool.and_true _

/-! ## What can be seen of a queue -/

namespace Any

def view (q : Any ι) : Queue ι :=
  { items := q.items, closed := q.isClosed }

/-- Nobody is announced at the gate. -/
def Calm : Any ι → Prop
  | spinning q => q.gate.inFlight = 0
  | standard _ => True
  | blocking q => q.gate.inFlight = 0

theorem view_build (strategy : Strategy) : (strategy.build ι).view = {} := by
  cases strategy <;> rfl

theorem calm_build (strategy : Strategy) : (strategy.build ι).Calm := by
  cases strategy <;> trivial

theorem drop_view (q : Any ι) : q.drop = q.view.items := by
  cases q with
  | spinning q => exact popAll_eq q.items
  | standard q => rfl
  | blocking q => exact popAll_eq q.items

theorem rejects_view (a : ι) (q : Any ι) :
    q.rejects a = if q.view.closed then [a] else [] := by
  cases q with
  | spinning q =>
    cases hclosed : q.gate.closed <;>
      simp [rejects, Spinning.rejects, Gate.enter, Gate.announce, view, isClosed, hclosed]
  | standard q => rfl
  | blocking q =>
    cases hclosed : q.gate.closed <;>
      simp [rejects, Blocking.rejects, Gate.enter, Gate.announce, view, isClosed, hclosed]

variable {q : Any ι}

theorem enqueue_view (h : q.Calm) (a : ι) :
    (q.enqueue a).1 = (q.view.enqueue a).1 ∧ (q.enqueue a).2.view = (q.view.enqueue a).2 ∧
      (q.enqueue a).2.Calm := by
  cases q with
  | spinning q =>
    rw [Calm] at h
    cases hclosed : q.gate.closed <;>
      simp [enqueue, Spinning.enqueue, Gate.enter, Gate.announce, Gate.release, view, items,
        isClosed, Queue.enqueue, Calm, h, hclosed]
  | standard q =>
    cases hclosed : q.closed <;>
      simp [enqueue, Standard.enqueue, view, items, isClosed, Queue.enqueue, Calm, hclosed]
  | blocking q =>
    rw [Calm] at h
    cases hclosed : q.gate.closed <;>
      simp [enqueue, Blocking.enqueue, Gate.enter, Gate.announce, Gate.release, view, items,
        isClosed, Queue.enqueue, Calm, h, hclosed]

theorem close_view (h : q.Calm) : q.close.view = q.view.close ∧ q.close.Calm := by
  cases q with
  | spinning q => exact ⟨rfl, h⟩
  | standard q => exact ⟨rfl, trivial⟩
  | blocking q =>
    have hgate : q.close.gate = q.gate.close ∧ q.close.items = q.items := by
      rw [Blocking.close]
      split <;> exact ⟨rfl, rfl⟩
    constructor
    · simp [close, view, items, isClosed, hgate, Gate.close, Queue.close]
    · show q.close.gate.inFlight = 0
      rw [hgate.1]
      exact h

/-- A dequeue that need not wait. -/
theorem dequeue_view (h : q.Calm) (hready : q.view.items ≠ [] ∨ q.view.closed = true) :
    q.dequeue.1 = q.view.dequeue.1 ∧ q.dequeue.2.view = q.view.dequeue.2 ∧ q.dequeue.2.Calm := by
  cases q with
  | spinning q =>
    rw [Calm] at h
    cases hitems : q.items <;>
      simp [dequeue, Spinning.dequeue, Gate.isSealed_eq h, view, items, isClosed, Queue.dequeue,
        Calm, h, hitems]
  | standard q =>
    cases hitems : q.items <;>
      simp [dequeue, Standard.dequeue, view, items, isClosed, Queue.dequeue, Calm, hitems]
  | blocking q =>
    rw [Calm] at h
    cases hitems : q.items with
    | cons a rest =>
      simp [dequeue, Blocking.dequeue, Blocking.look, view, items, isClosed, Queue.dequeue, Calm, h,
        hitems]
    | nil =>
      -- an open and empty queue would have parked
      have hclosed : q.gate.closed = true := by simpa [view, items, isClosed, hitems] using hready
      simp [dequeue, Blocking.dequeue, Blocking.look, Gate.isSealed_eq h, view, items, isClosed,
        Queue.dequeue, Calm, h, hitems, hclosed]

theorem ready_iff (q : Any ι) :
    methods.ready q = true ↔ q.view.items ≠ [] ∨ q.view.closed = true := by
  simp [Methods.ready, methods, view, List.length_pos_iff]

theorem ready_view (q : Any ι) : plain.ready q.view = methods.ready q :=
  rfl

theorem make_view (h : q.Calm) (c : Call ι) :
    (methods.make q c).1 = (plain.make q.view c).1 ∧
      (methods.make q c).2.view = (plain.make q.view c).2 ∧ (methods.make q c).2.Calm := by
  cases c with
  | enqueue a =>
    obtain ⟨haccepted, hview, hcalm⟩ := enqueue_view h a
    refine ⟨?_, hview, hcalm⟩
    show ({ answer := if (q.enqueue a).1 then _ else _, rejected := q.rejects a, .. } : Report ι) =
      _
    rw [haccepted, rejects_view]
    rfl
  | dequeue =>
    rw [Methods.make, Methods.make, ready_view]
    cases hready : methods.ready q with
    | false => exact ⟨rfl, rfl, h⟩
    | true =>
      obtain ⟨htaken, hview, hcalm⟩ := dequeue_view h ((ready_iff q).mp hready)
      refine ⟨?_, hview, hcalm⟩
      show ({ answer := .taken q.dequeue.1, .. } : Report ι) = _
      rw [htaken]
      rfl
  | close =>
    obtain ⟨hview, hcalm⟩ := close_view h
    exact ⟨rfl, hview, hcalm⟩
  | len => exact ⟨rfl, rfl, h⟩
  | isClosed => exact ⟨rfl, rfl, h⟩

theorem run_view (h : q.Calm) (calls : List (Call ι)) :
    (methods.run q calls).1 = (plain.run q.view calls).1 ∧
      (methods.run q calls).2.view = (plain.run q.view calls).2 ∧ (methods.run q calls).2.Calm := by
  induction calls generalizing q with
  | nil => exact ⟨rfl, rfl, h⟩
  | cons c rest ih =>
    obtain ⟨hreport, hview, hcalm⟩ := make_view h c
    obtain ⟨hreports, hfinal, hcalm'⟩ := ih hcalm
    rw [hview] at hreports hfinal
    rw [Methods.run_cons, Methods.run_cons, hreport, hreports]
    exact ⟨rfl, hfinal, hcalm'⟩

end Any

/-! ## Calls on a plain list -/

section Plain

/-- On a plain list a dequeue that would wait changes nothing either. -/
theorem make_dequeue (q : Queue ι) :
    plain.make q .dequeue = ({ call := .dequeue, answer := .taken q.dequeue.1 }, q.dequeue.2) := by
  rw [Methods.make]
  cases hready : plain.ready q with
  | true => rfl
  | false =>
    obtain ⟨hitems, hclosed⟩ : q.items = [] ∧ q.closed = false := by
      simpa [Methods.ready, plain, Nat.pos_iff_ne_zero] using hready
    simp [dequeue, hitems, hclosed]

theorem make_enqueue (q : Queue ι) (a : ι) :
    plain.make q (.enqueue a) =
      if q.closed then ({ call := .enqueue a, answer := .queueClosed, rejected := [a] }, q)
      else ({ call := .enqueue a, answer := .accepted }, { q with items := q.items ++ [a] }) := by
  cases hclosed : q.closed <;> simp [Methods.make, plain, enqueue, hclosed]

variable (q : Queue ι) (c : Call ι)

theorem order_make :
    q.items ++ (plain.make q c).1.accepted?.toList =
      (plain.make q c).1.taken?.toList ++ (plain.make q c).2.items := by
  cases c with
  | enqueue a =>
    rw [make_enqueue]
    cases q.closed <;> simp [Report.accepted?, Report.taken?]
  | dequeue =>
    obtain ⟨items, closed⟩ := q
    rw [make_dequeue]
    cases items with
    | nil => cases closed <;> rfl
    | cons a rest => exact List.append_nil _
  | _ => exact List.append_nil _

theorem closed_make : (plain.make q c).2.closed = true ↔ q.closed = true ∨ c = .close := by
  cases c with
  | enqueue a =>
    rw [make_enqueue]
    cases hclosed : q.closed <;> simp [hclosed]
  | dequeue =>
    obtain ⟨items, closed⟩ := q
    rw [make_dequeue]
    cases items <;> simp [dequeue]
  | _ => simp [Methods.make, plain]

theorem offered_make :
    c.offered?.toList =
      (plain.make q c).1.accepted?.toList ++ (plain.make q c).1.rejected := by
  cases c with
  | enqueue a =>
    rw [make_enqueue]
    cases q.closed <;> rfl
  | dequeue =>
    rw [make_dequeue]
    rfl
  | _ => rfl

/-- What is known of a plain list after some calls, and of the reports of these
calls. -/
theorem plain_run (calls : List (Call ι)) :
    (q.items ++ (plain.run q calls).1.filterMap Report.accepted? =
      (plain.run q calls).1.filterMap Report.taken? ++ (plain.run q calls).2.items) ∧
    ((plain.run q calls).2.closed = true ↔ q.closed = true ∨ .close ∈ calls) ∧
    (calls.filterMap Call.offered?).Perm
      ((plain.run q calls).1.filterMap Report.accepted? ++
        (plain.run q calls).1.flatMap Report.rejected) := by
  induction calls generalizing q with
  | nil => simp [Methods.run]
  | cons c rest ih =>
    obtain ⟨horder, hclosed, hoffered⟩ := ih (plain.make q c).2
    have hcons {α β : Type} (f : α → Option β) (a : α) (l : List α) :
        (a :: l).filterMap f = (f a).toList ++ l.filterMap f := by
      cases h : f a <;> simp [h]
    rw [Methods.run_cons, hcons, hcons, hcons]
    refine ⟨?_, ?_, ?_⟩
    · rw [← List.append_assoc, order_make, List.append_assoc, horder, List.append_assoc]
    · rw [hclosed, closed_make, List.mem_cons, or_assoc, @eq_comm _ c]
    · rw [offered_make q c, List.flatMap_cons, List.append_assoc, List.append_assoc]
      refine List.Perm.append_left _ ?_
      -- the items that this call rejects come after those that are accepted later
      refine (List.Perm.append_left _ hoffered).trans ?_
      rw [← List.append_assoc, ← List.append_assoc]
      exact List.Perm.append_right _ List.perm_append_comm

end Plain

/-! ## The law -/

namespace Strategy

variable (strategy : Strategy) (calls : List (Call ι))

def reports : List (Report ι) :=
  (Any.methods.run (strategy.build ι) calls).1

def after : Any ι :=
  (Any.methods.run (strategy.build ι) calls).2

def next (c : Call ι) : Report ι :=
  (Any.methods.make (strategy.after calls) c).1

theorem reports_append (later : List (Call ι)) :
    strategy.reports (calls ++ later) =
      strategy.reports calls ++ (Any.methods.run (strategy.after calls) later).1 := by
  rw [reports, Methods.run_append]
  rfl

theorem after_append (later : List (Call ι)) :
    strategy.after (calls ++ later) = (Any.methods.run (strategy.after calls) later).2 := by
  rw [after, Methods.run_append]
  rfl

theorem reports_eq : strategy.reports calls = (plain.run {} calls).1 := by
  rw [← Any.view_build strategy]
  exact (Any.run_view (Any.calm_build strategy) calls).1

theorem view_after : (strategy.after calls).view = (plain.run {} calls).2 := by
  rw [← Any.view_build strategy]
  exact (Any.run_view (Any.calm_build strategy) calls).2.1

theorem calm_after : (strategy.after calls).Calm :=
  (Any.run_view (Any.calm_build strategy) calls).2.2

theorem closed_after : (strategy.after calls).view.closed = true ↔ .close ∈ calls := by
  rw [view_after, (plain_run {} calls).2.1]
  simp

theorem next_eq (c : Call ι) :
    strategy.next calls c = (plain.make (strategy.after calls).view c).1 :=
  (Any.make_view (strategy.calm_after calls) c).1

end Strategy

/-- A queue of the strategy, after the calls, is the list of the items that were
accepted and not taken, with a flag that says whether one of the calls was a
close. -/
structure AsList (strategy : Strategy) (calls : List (Call ι)) : Prop where
  same_reports : strategy.reports calls = (plain.run {} calls).1
  in_order : (strategy.reports calls).filterMap Report.accepted? =
    (strategy.reports calls).filterMap Report.taken? ++ (strategy.after calls).items
  /-- Every item that was offered has been taken, or has been rejected by the call
  that offered it, or is rejected at the end. -/
  conserved : (calls.filterMap Call.offered?).Perm
    ((strategy.reports calls).filterMap Report.taken? ++ (strategy.after calls).drop ++
      (strategy.reports calls).flatMap Report.rejected)
  admitted : .close ∉ calls → ∀ a, strategy.next calls (.enqueue a) =
    { call := .enqueue a, answer := .accepted, rejected := [] }
  refused : .close ∈ calls → ∀ a,
    strategy.next calls (.enqueue a) =
      { call := .enqueue a, answer := .queueClosed, rejected := [a] } ∧
    (strategy.after (calls ++ [.enqueue a])).items = (strategy.after calls).items
  /-- Another close makes no difference to any later call, nor to the end. -/
  closed_again : .close ∈ calls → ∀ later, ∃ more,
    strategy.reports (calls ++ later) = strategy.reports calls ++ more ∧
    strategy.reports (calls ++ .close :: later) =
      strategy.reports calls ++ { call := .close, answer := .closed } :: more ∧
    (strategy.after (calls ++ .close :: later)).drop = (strategy.after (calls ++ later)).drop
  dequeue_item : ∀ a, (strategy.next calls .dequeue).answer = .taken (.item a) ↔
    (strategy.after calls).items.head? = some a
  dequeue_finished : (strategy.next calls .dequeue).answer = .taken .finished ↔
    .close ∈ calls ∧ (strategy.after calls).items = []
  len : (strategy.next calls .len).answer = .length (strategy.after calls).items.length
  isClosed : ∃ b, (strategy.next calls .isClosed).answer = .flag b ∧ (b = true ↔ .close ∈ calls)
  dropped : (strategy.after calls).drop = (strategy.after calls).items

/-- Whatever calls are made, a queue of any strategy gives the answers of a plain
list. -/
theorem run_refines (strategy : Strategy) (calls : List (Call ι)) : AsList strategy calls := by
  have hview := strategy.view_after calls
  have hcalm := strategy.calm_after calls
  have hclosed := strategy.closed_after calls
  have hreports := strategy.reports_eq calls
  obtain ⟨horder, -, hoffered⟩ := plain_run {} calls
  rw [← hreports, ← hview, List.nil_append] at horder
  rw [← hreports, horder] at hoffered
  constructor
  case same_reports => exact hreports
  case in_order => exact horder
  case conserved =>
    rw [Any.drop_view]
    exact hoffered
  case admitted =>
    intro hopen a
    rw [Strategy.next_eq, make_enqueue, if_neg (mt hclosed.mp hopen)]
  case refused =>
    intro hshut a
    constructor
    · rw [Strategy.next_eq, make_enqueue, if_pos (hclosed.mpr hshut)]
    · show (strategy.after _).view.items = (strategy.after calls).view.items
      rw [Strategy.after_append, (Any.run_view hcalm [.enqueue a]).2.1]
      show (plain.make (strategy.after calls).view (.enqueue a)).2.items = _
      rw [make_enqueue, if_pos (hclosed.mpr hshut)]
  case closed_again =>
    intro hshut later
    -- the queue looks the same before and after the call
    have hsame : (strategy.after calls).close.view = (strategy.after calls).view := by
      rw [(Any.close_view hcalm).1, Queue.close, ← hclosed.mpr hshut]
    have hrun := Any.run_view hcalm later
    have hrun' := Any.run_view (Any.close_view hcalm).2 later
    rw [hsame] at hrun'
    refine ⟨(plain.run (strategy.after calls).view later).1, ?_, ?_, ?_⟩
    · rw [Strategy.reports_append, hrun.1]
    · rw [Strategy.reports_append, Methods.run_cons, ← hrun'.1]
      rfl
    · rw [Strategy.after_append, Strategy.after_append, Methods.run_cons, Any.drop_view,
        Any.drop_view, hrun.2.1, ← hrun'.2.1]
      rfl
  case dequeue_item =>
    intro a
    rw [Strategy.next_eq, make_dequeue, dequeue]
    show _ ↔ (strategy.after calls).view.items.head? = some a
    cases (strategy.after calls).view.items with
    | nil => cases (strategy.after calls).view.closed <;> simp
    | cons b rest => simp
  case dequeue_finished =>
    rw [Strategy.next_eq, make_dequeue, dequeue, ← hclosed]
    show _ ↔ _ ∧ (strategy.after calls).view.items = []
    cases (strategy.after calls).view.items with
    | nil => cases (strategy.after calls).view.closed <;> simp
    | cons b rest => simp
  case len => rw [Strategy.next_eq]; rfl
  case isClosed => exact ⟨_, by rw [Strategy.next_eq]; rfl, hclosed⟩
  case dropped => exact Any.drop_view _

end Queue

end Skein
