import Mathlib.Algebra.BigOperators.Intervals
import Skein.Proofs.Run.Succession

/-!
# When a job is invoked

Without a signal and on an exact clock, the moments of a run are fixed by what the
invocations take and by what the policy waits: invocation number `j` begins when the `j`
invocations before it and the delays after them have passed, and the run ends with its
last invocation.  `enqueue_timed` says this of one policy, and of a layer in a stack that
it counts from zero again in each submission that it receives.

The counter of attempts has 32 bits.  A sequence of more than `2 ^ 32` delays is therefore
not used up, and a clock that is not exact ends a sleep when it keeps it no longer.
-/

namespace Skein
namespace Run

open Retry Timeline

variable {α β : Type}

/-! ## Delays -/

/-- How long a policy lets pass after attempt number `l`, if it retries it. -/
def gap (p : Policy) (l : Nat) : Millis :=
  p.wait.delay (counter l)

/-- The delay in a sequence is found by the number of the attempt, as far as the sequence
goes and the counter reaches. -/
theorem delay_sequence (ds : List Millis) (l : Nat) :
    (Wait.sequence ds).delay (counter l) =
      ds.getD (min l (min ds.length UInt32.size - 1)) 0 := by
  have hsame : min (counter l).toNat (ds.length - 1) =
      min l (min ds.length UInt32.size - 1) := by
    rw [toNat_counter, UInt32.size]
    omega
  rw [Wait.delay, hsame]

/-- The delays of a sequence are used up one after the other; what is waited after that
is the last of them, again and again. -/
theorem sum_getD_min (ds : List Millis) {m : Nat} (hle : m ≤ ds.length) (k : Nat) :
    ∑ l ∈ Finset.range k, ds.getD (min l (m - 1)) 0 =
      (ds.take (min k m)).sum + (k - min k m) * ds.getD (m - 1) 0 := by
  induction k with
  | zero => simp
  | succ k ih =>
    rw [Finset.sum_range_succ, ih]
    rcases Nat.lt_or_ge k m with hearly | hlate
    · have hbound : k < ds.length := Nat.lt_of_lt_of_le hearly hle
      have hhere : ds.getD k 0 = ds[k] := by simp [hbound]
      rw [Nat.min_eq_left (Nat.le_of_lt hearly), Nat.min_eq_left hearly,
        Nat.min_eq_left (Nat.le_sub_one_of_lt hearly), Nat.sub_self, Nat.sub_self, Nat.zero_mul,
        Nat.add_zero, Nat.add_zero, hhere, ← List.take_concat_get' ds k hbound, List.sum_append,
        List.sum_singleton]
    · have hmore : k + 1 - m = k - m + 1 := by omega
      rw [Nat.min_eq_right hlate, Nat.min_eq_right (Nat.le_succ_of_le hlate),
        Nat.min_eq_right (Nat.le_trans (Nat.sub_le m 1) hlate), hmore, Nat.succ_mul, Nat.add_assoc]

theorem sum_gap_sequence {p : Policy} {ds : List Millis} (hwait : p.wait = .sequence ds)
    (k : Nat) :
    let m := min ds.length UInt32.size
    ∑ l ∈ Finset.range k, gap p l =
      (ds.take (min k m)).sum + (k - min k m) * ds.getD (m - 1) 0 := by
  intro m
  rw [← sum_getD_min ds (Nat.min_le_left _ _)]
  apply Finset.sum_congr rfl
  intro l _
  rw [gap, hwait, delay_sequence]

theorem sum_zeros_concat (n : Nat) : (List.replicate n 0 ++ [1]).sum = 1 := by
  simp

/-- The last of so many delays is out of the counter's reach. -/
theorem sum_gap_zeros {p : Policy} {n : Nat} (hsize : n = UInt32.size)
    (hwait : p.wait = .sequence (List.replicate n 0 ++ [1])) :
    ∑ l ∈ Finset.range (List.replicate n 0 ++ [1]).length, gap p l = 0 := by
  have hlength : (List.replicate n 0 ++ [1]).length = n + 1 := by simp
  have hpositive : 0 < n := by
    rw [hsize, UInt32.size]
    exact Nat.succ_pos _
  have hlast : (List.replicate n 0 ++ [1]).getD (n - 1) 0 = 0 := by simp [hpositive]
  rw [sum_gap_sequence hwait, hlength, ← hsize, Nat.min_eq_right (Nat.le_succ n), hlast,
    Nat.min_eq_right (Nat.le_succ n)]
  simp

/-! ## The clock -/

theorem now_announceRetry (p : Policy) (depth : Nat) (n : UInt32) (e : DispatchError)
    (t : Timeline) : (announceRetry p depth n e t).now = t.now := by
  unfold announceRetry
  cases p.wait.argument? n <;> rfl

theorem now_backoff_deaf (t : Timeline) (d : Millis) :
    (t.backoff false d).2.now = t.now + t.lasting d := by
  show (if d = 0 then t else t.sleep d).now = t.now + t.lasting d
  split
  · next hnone => rw [hnone, lasting_zero, Nat.add_zero]
  · exact now_sleep t d

theorem now_pauseAfter_deaf (p : Policy) (depth : Nat) (n : UInt32) (e : DispatchError)
    (t : Timeline) :
    (pauseAfter p false depth n e t).2.now = t.now + t.lasting (p.wait.delay n) := by
  rw [pauseAfter, now_backoff_deaf, now_announceRetry,
    lasting_congr (longest_announceRetry p depth n e t)]

section Layer

variable {p : Policy} {job : Job α} {depth : Nat} {inner : Dispatcher α} {allowance : Nat}
  {t : Timeline}

/-- The next attempt begins when the delay after the last one is over. -/
theorem Follows.now (hunsignalled : job.listening = false) {a b : UInt32 × Timeline}
    (h : Follows p job depth inner a b) :
    b.2.now = (inner a.2).2.now + (inner a.2).2.lasting (p.wait.delay a.1) := by
  obtain ⟨e, u, ⟨r, hanswer, -⟩, hpause, -⟩ := h
  rw [hunsignalled] at hpause
  have hlater := now_pauseAfter_deaf p depth a.1 e u
  rw [hpause] at hlater
  rw [hlater, hanswer]

/-- What a pause leaves alone, the next attempt finds as this one has left it. -/
theorem Follows.keeps {m : Timeline → β} (hgauge : Gauge m) {a b : UInt32 × Timeline}
    (h : Follows p job depth inner a b) : m b.2 = m (inner a.2).2 := by
  obtain ⟨e, u, ⟨r, hanswer, -⟩, hpause, -⟩ := h
  have hkept := hgauge.pause p job.listening depth a.1 e u
  rw [hpause] at hkept
  rw [hkept, hanswer]

/-- All attempts go by the clock by which the run does. -/
theorem starts_longest (hclock : ∀ s, (inner s).2.longest = s.longest) {i : Nat}
    {a : UInt32 × Timeline} (h : (starts p job depth inner allowance 0 t)[i]? = some a) :
    a.2.longest = t.longest := by
  refine (starts_induct (P := fun _ a => a.2.longest = t.longest) rfl ?_ h).2
  intro i a b hfollows _ hsame
  rw [hfollows.keeps gauge_longest, hclock, hsame]

end Layer

/-! ## A policy over the inline dispatcher -/

def took (job : Job α) (t : Timeline) (j : Nat) : Millis :=
  (job.operation.invocation (t.calls + j)).duration

def startOf (p : Policy) (job : Job α) (t : Timeline) (j : Nat) : Millis :=
  t.now + ∑ l ∈ Finset.range j, (took job t l + gap p l)

theorem startOf_succ (p : Policy) (job : Job α) (t : Timeline) (j : Nat) :
    startOf p job t (j + 1) = startOf p job t j + took job t j + gap p j := by
  rw [startOf, Finset.sum_range_succ, startOf]
  simp only [Nat.add_assoc]

/-- A job that takes no time begins when the gaps are over. -/
theorem startOf_idle {p : Policy} {job : Job α} {t : Timeline} (hidle : ∀ l, took job t l = 0)
    (j : Nat) : startOf p job t j = t.now + ∑ l ∈ Finset.range j, gap p l := by
  simp [startOf, hidle]

/-- The dispatcher invokes the payload once, on the spot. -/
structure Invokes (job : Job α) (inner : Dispatcher α) : Prop where
  now : ∀ s, (inner s).2.now = s.now + s.lasting (job.operation.invocation s.calls).duration
  longest : ∀ s, (inner s).2.longest = s.longest
  calls : ∀ s, (inner s).2.calls = s.calls + 1
  invocations : ∀ s, (inner s).2.read Event.invocation? = s.read Event.invocation? ++ [s.now]
  questions : ∀ s, (inner s).2.read Event.question? = s.read Event.question? ++ []

theorem invokes_inline {job : Job α} (hunsignalled : job.listening = false)
    (allowance depth : Nat) : Invokes job (submit .inline job allowance depth []) := by
  have hinvoked (s : Timeline) : (submit .inline job allowance depth [] s).2 =
      (job.invoke true (s.record (.given depth))).2 :=
    runInline_unsignalled (signalled_deaf hunsignalled _)
  constructor
  · intro s
    obtain ⟨u, -, hinvocation, hnow⟩ := invoke_elapsed job true (s.record (.given depth))
    rw [hinvoked, hinvocation]
    exact hnow
  · exact longest_submit .inline job allowance [] depth
  · intro s
    rw [hinvoked, calls_invoke]
    rfl
  · exact read_inline (fun _ => rfl) (fun _ => rfl) hunsignalled allowance depth
  · exact read_inline (fun _ => rfl) (fun _ => rfl) hunsignalled allowance depth

/-- An invocation that does not panic is answered. -/
theorem inline_answers {job : Job α} (hunsignalled : job.listening = false)
    (hcalm : ∀ n panic, (job.operation.payload n).ending ≠ .panic panic)
    (allowance depth : Nat) (s : Timeline) :
    ∃ r, (submit .inline job allowance depth [] s).1 = .resolved r := by
  have hquiet := signalled_deaf hunsignalled
  obtain ⟨u, -, hinvoked, -⟩ := invoke_elapsed job true (s.record (.given depth))
  have hended := hcalm (s.record (.given depth)).calls
  rw [← ending_invocation] at hended
  show ∃ r, (job.runInline (s.record (.given depth))).1 = .resolved r
  rw [Job.runInline, hquiet, hinvoked]
  cases hending : (job.operation.invocation (s.record (.given depth)).calls).ending with
  | value a => exact ⟨_, rfl⟩
  | failure f => exact ⟨_, rfl⟩
  | panic panic => exact absurd hending (hended panic)

section Single

variable {p : Policy} {job : Job α} {depth allowance : Nat} {inner : Dispatcher α}
  {t : Timeline} (hunsignalled : job.listening = false) (hexact : t.longest = none)
  (hinvokes : Invokes job inner)
include hunsignalled hexact hinvokes

/-- Attempt number `i` is invocation number `i`, and begins in its time. -/
theorem starts_timed {i : Nat} {a : UInt32 × Timeline}
    (h : (starts p job depth inner allowance 0 t)[i]? = some a) :
    a.2.calls = t.calls + i ∧ a.2.now = startOf p job t i := by
  have htimed : a.2.longest = none ∧ a.2.calls = t.calls + i ∧ a.2.now = startOf p job t i := by
    refine (starts_induct (P := fun i a => a.2.longest = none ∧ a.2.calls = t.calls + i ∧
      a.2.now = startOf p job t i) ⟨hexact, rfl, rfl⟩ ?_ h).2
    rintro i a b hfollows hnumber ⟨hkept, hcalls, hnow⟩
    have hkept' : (inner a.2).2.longest = none := (hinvokes.longest a.2).trans hkept
    refine ⟨?_, ?_, ?_⟩
    · rw [hfollows.keeps gauge_longest, hkept']
    · rw [hfollows.keeps gauge_calls, hinvokes.calls, hcalls, Nat.add_assoc]
    · rw [hfollows.now hunsignalled, lasting_of_exact hkept', hinvokes.now, lasting_of_exact hkept,
        hcalls, hnumber, hnow, startOf_succ]
      rfl
  exact htimed.2

theorem invocations_single (p : Policy) (depth allowance : Nat) :
    (attempts p job depth inner allowance 0 t).2.invocations =
      t.invocations ++ (List.range (starts p job depth inner allowance 0 t).length).map
        (startOf p job t) := by
  have hsilent (a : UInt32 × Timeline) :
      (remarks p job depth inner a).filterMap Event.invocation? = [] :=
    filterMap_remarks (fun _ => rfl) (fun _ => rfl) a
  rw [invocations_eq_read, attempts_read (fun _ => rfl) hinvokes.invocations, invocations_eq_read]
  simp only [hsilent, List.append_nil]
  rw [← List.map_eq_flatMap]
  -- Both lists have an entry for each attempt.
  refine congrArg (_ ++ ·) (List.ext_getElem (by simp) ?_)
  intro i hi _
  rw [List.length_map] at hi
  rw [List.getElem_map, List.getElem_map, List.getElem_range]
  exact (starts_timed hunsignalled hexact hinvokes (List.getElem?_eq_getElem hi)).2

/-- A run ends with its last invocation. -/
theorem now_single {final : Resolution α}
    (h : (attempts p job depth inner allowance 0 t).1 = .resolved final) {retries : Nat}
    (hattempted : (starts p job depth inner allowance 0 t).length = retries + 1) :
    (attempts p job depth inner allowance 0 t).2.now =
      startOf p job t retries + took job t retries := by
  obtain ⟨a, hlast, r, u, hanswer, -, hlog⟩ :=
    (attempts_succession p job depth inner allowance 0 t).resolved hunsignalled h
  rw [List.getLast?_eq_getElem?, hattempted] at hlast
  obtain ⟨hcalls, hnow⟩ := starts_timed hunsignalled hexact hinvokes hlast
  have hkept := starts_longest hinvokes.longest hlast
  have hended := hinvokes.now a.2
  rw [hanswer, hnow, hcalls, lasting_of_exact (hkept.trans hexact)] at hended
  rw [hlog, now_log, hended]
  rfl

end Single

theorem asks_function {p : Policy} {f : UInt32 → Millis} (hwait : p.wait = .function f)
    (depth l : Nat) : asks p depth l = [.asked depth (counter (l + 1))] := by
  rw [asks, hwait, ← countOn_counter]
  rfl

theorem asks_nil {p : Policy} (hwait : ∀ f, p.wait ≠ .function f) (depth l : Nat) :
    asks p depth l = [] := by
  unfold asks
  cases hgiven : p.wait with
  | function f => exact absurd hgiven (hwait f)
  | _ => rfl

/-- What comes of a run of one policy over the inline dispatcher, with so many retries
and so many invocations. -/
structure Timed (p : Policy) (job : Job α) (allowance : Nat) (t : Timeline)
    (retries invoked : Nat) (run : Answer α × Timeline) : Prop where
  invocations : run.2.invocations = t.invocations ++ (List.range invoked).map (startOf p job t)
  /-- Nothing is waited after the last invocation.  A run that does not end has made all
  the attempts that it may make. -/
  ends : (∃ r, run.1 = .resolved r) ∧ invoked = retries + 1 ∧
      run.2.now = startOf p job t retries + took job t retries ∨
    run.1 = .unfinished ∧ invoked = retries ∧ retries = allowance
  asked : ∀ f, p.wait = .function f →
    run.2.questions = t.questions ++ (List.range retries).map fun l => (0, counter (l + 1))
  unasked : (∀ f, p.wait ≠ .function f) → run.2.questions = t.questions

/-- That the submission is noted takes no time. -/
theorem Timed.received {p : Policy} {job : Job α} {allowance depth : Nat} {t : Timeline}
    {retries invoked : Nat} {run : Answer α × Timeline}
    (htimed : Timed p job allowance (t.record (.given depth)) retries invoked run) :
    Timed p job allowance t retries invoked run := by
  have hinvocations : (t.record (.given depth)).invocations = t.invocations := by
    rw [invocations_eq_read, read_record]
    exact List.append_nil _
  have hquestions : (t.record (.given depth)).questions = t.questions := by
    rw [questions_eq_read, read_record]
    exact List.append_nil _
  refine ⟨?_, htimed.ends, ?_, ?_⟩
  · rw [← hinvocations]
    exact htimed.invocations
  · rw [← hquestions]
    exact htimed.asked
  · rw [← hquestions]
    exact htimed.unasked

theorem attempts_timed {job : Job α} (hunsignalled : job.listening = false)
    {inner : Dispatcher α} (hinvokes : Invokes job inner)
    (hanswers : ∀ s, ∃ r, (inner s).1 = .resolved r) (p : Policy) (allowance : Nat)
    {t : Timeline} (hexact : t.longest = none) :
    ∃ retries invoked,
      Timed p job allowance t retries invoked (attempts p job 0 inner allowance 0 t) := by
  have hsuccession := attempts_succession p job 0 inner allowance 0 t
  obtain ⟨retries, hasked, hresolved, hunfinished⟩ :=
    hsuccession.asked (f := Event.question?) (fun _ => rfl) hunsignalled (k := 0) rfl
  have hquestions : (attempts p job 0 inner allowance 0 t).2.questions =
      t.questions ++
        (List.range retries).flatMap fun l => (asks p 0 l).filterMap Event.question? := by
    rw [List.range_eq_range', ← hasked, questions_eq_read,
      attempts_read (fun _ => rfl) hinvokes.questions, questions_eq_read]
    rfl
  refine ⟨retries, _, invocations_single hunsignalled hexact hinvokes p 0 allowance, ?_, ?_, ?_⟩
  · rcases hsuccession.unfinished hunsignalled hanswers with ⟨final, h⟩ | ⟨h, hspent⟩
    · have hattempted := hresolved ⟨final, h⟩
      exact .inl ⟨⟨final, h⟩, hattempted, now_single hunsignalled hexact hinvokes h hattempted⟩
    · have hattempted := hunfinished hanswers h
      exact .inr ⟨h, hattempted, hattempted.symm.trans hspent⟩
  · intro f hwait
    rw [hquestions]
    simp only [asks_function hwait]
    rw [List.map_eq_flatMap]
    rfl
  · intro hwait
    rw [hquestions]
    simp [asks_nil hwait]

/-- A job that fails every time, under a policy that never gives up, is invoked as often as
the run may attempt it. -/
theorem getElem?_invocations_endless {job : Job α} (hunsignalled : job.listening = false)
    {e : DispatchError} {allowance : Nat}
    (hfails : ∀ s, (submit .inline job allowance 1 [] s).1 = .resolved (.error e)) {p : Policy}
    (hunlimited : p.limit = none) (hkept : e.isCancelled = false)
    (haccepted : p.matcher.accepts e.failure = true) {k : Nat} (h : k < allowance) :
    (enqueue [p] .inline job allowance { longest := none }).2.invocations[k]? =
      some (startOf p job { longest := none } k) := by
  have hgoesOn : ∀ j, j < allowance → ¬ Ends p (fun _ => (.error e : Resolution α)) j := by
    rintro j - (hsettled | ⟨most, hlimited, -⟩)
    · simp [Settles, hkept, haccepted] at hsettled
    · simp [hunlimited] at hlimited
  have hunfinished : (enqueue [p] .inline job allowance { longest := none }).1 = .unfinished :=
    congrArg Prod.fst (attempts_reach hunsignalled (fun _ _ => hfails _) allowance hgoesOn 0)
  have hinvokes := invokes_inline hunsignalled allowance 1
  obtain ⟨retries, invoked, htimed⟩ :=
    attempts_timed hunsignalled hinvokes (fun s => ⟨_, hfails s⟩) p
    allowance (t := ({ longest := none } : Timeline).record (.given 0)) rfl
  rcases htimed.ends with ⟨⟨r, hresolved⟩, -⟩ | ⟨-, hinvocations, hspent⟩
  · cases hunfinished.symm.trans hresolved
  · have hbegan : (enqueue [p] .inline job allowance { longest := none }).2.invocations =
        [] ++ (List.range invoked).map (startOf p job { longest := none }) :=
      htimed.received.invocations
    rw [hbegan]
    simp [h, hinvocations, hspent]

/-! ## Layers of a stack -/

/-- What the story notes of the layer at the depth: the submissions that it receives, and
the questions that it asks. -/
def Event.at? (d : Nat) : Event → Option Event
  | .given depth => if depth = d then some (.given depth) else none
  | .asked depth n => if depth = d then some (.asked depth n) else none
  | _ => none

/-- A submission to a layer, and the questions of that many retries. -/
def round (d k : Nat) : List Event :=
  .given d :: (List.range k).map fun l => .asked d (counter (l + 1))

section Stack

variable {job : Job α} (hunsignalled : job.listening = false) (allowance : Nat)
include hunsignalled

/-- A layer notes nothing about those above it. -/
theorem read_submit_above {d depth : Nat} (habove : d < depth) (layers : List Policy)
    (t : Timeline) :
    (submit .inline job allowance depth layers t).2.read (Event.at? d) =
      t.read (Event.at? d) ++ [] := by
  have hother {k : Nat} (h : d < k) : Event.at? d (.given k) = none := if_neg (by omega)
  induction layers generalizing depth t with
  | nil =>
    rw [read_inline (fun _ => rfl) (fun _ => rfl) hunsignalled, hother habove]
    rfl
  | cons p layers ih =>
    have hsilent (a : UInt32 × Timeline) :
        (remarks p job depth (submit .inline job allowance (depth + 1) layers) a).filterMap
          (Event.at? d) = [] :=
      filterMap_remarks (fun _ => rfl) (fun _ => if_neg (by omega)) a
    rw [submit, attempts_read (fun _ => rfl) fun s => ih (Nat.lt_succ_of_lt habove) s,
      read_record, hother habove]
    simp [hsilent]

/-- A layer that is submitted to notes that, and then asks its questions in one round. -/
theorem read_submit_round {q : Policy} {f : UInt32 → Millis} (hwait : q.wait = .function f)
    (lower : List Policy) (depth : Nat) (t : Timeline) :
    ∃ k, (submit .inline job allowance depth (q :: lower) t).2.read (Event.at? depth) =
      t.read (Event.at? depth) ++ round depth k := by
  have hreceived : Event.at? depth (.given depth) = some (.given depth) := if_pos rfl
  have hanswered (n : UInt32) : Event.at? depth (.asked depth n) = some (.asked depth n) :=
    if_pos rfl
  obtain ⟨k, hasked, -⟩ :=
    (attempts_succession q job depth (submit .inline job allowance (depth + 1) lower)
      allowance 0 (t.record (.given depth))).asked (f := Event.at? depth) (fun _ => rfl)
      hunsignalled (k := 0) rfl
  have honce : (List.range' 0 k).flatMap (fun l => (asks q depth l).filterMap (Event.at? depth)) =
      (List.range k).map fun l => .asked depth (counter (l + 1)) := by
    simp only [asks_function hwait, List.filterMap_cons, hanswered, List.filterMap_nil]
    rw [← List.range_eq_range', ← List.map_eq_flatMap]
  refine ⟨k, ?_⟩
  have hbelow := read_submit_above hunsignalled allowance (Nat.lt_succ_self depth) lower
  rw [submit, attempts_read (fun _ => rfl) hbelow, read_record, hreceived]
  simp only [List.nil_append]
  rw [hasked, honce, List.append_assoc]
  rfl

/-- It does so for each submission that it receives. -/
theorem read_submit_rounds {q : Policy} {f : UInt32 → Millis} (hwait : q.wait = .function f)
    (lower upper : List Policy) (depth : Nat) (t : Timeline) :
    ∃ ks : List Nat,
      (submit .inline job allowance depth (upper ++ q :: lower) t).2.read
          (Event.at? (depth + upper.length)) =
        t.read (Event.at? (depth + upper.length)) ++ ks.flatMap (round (depth + upper.length)) := by
  induction upper generalizing depth t with
  | nil =>
    obtain ⟨k, hk⟩ := read_submit_round hunsignalled allowance hwait lower depth t
    refine ⟨[k], ?_⟩
    rw [List.flatMap_singleton]
    exact hk
  | cons p upper ih =>
    have hdeeper : depth + (p :: upper).length = depth + 1 + upper.length := by
      rw [List.length_cons]
      omega
    rw [hdeeper]
    choose rounds hbelow using ih (depth + 1)
    have hother : Event.at? (depth + 1 + upper.length) (.given depth) = none := if_neg (by omega)
    have hsilent (a : UInt32 × Timeline) :
        (remarks p job depth (submit .inline job allowance (depth + 1) (upper ++ q :: lower))
          a).filterMap (Event.at? (depth + 1 + upper.length)) = [] :=
      filterMap_remarks (fun _ => rfl) (fun _ => if_neg (by omega)) a
    refine ⟨(starts p job depth (submit .inline job allowance (depth + 1) (upper ++ q :: lower))
      allowance 0 (t.record (.given depth))).flatMap fun a => rounds a.2, ?_⟩
    rw [List.cons_append, submit, attempts_read (fun _ => rfl) hbelow, read_record, hother,
      List.flatMap_assoc]
    simp [hsilent]

/-- The attempts that a layer makes of a submission which it receives at the moment are
counted from the start, and so are the gaps between them. -/
structure Afresh (q : Policy) (inner : Dispatcher α) (moment : Millis)
    (runs : List (UInt32 × Timeline)) (run : Answer α × Timeline) : Prop where
  number : ∀ i a, runs[i]? = some a → a.1 = counter i
  first : ∀ a, runs[0]? = some a → a.2.now = moment
  next : ∀ i a b, runs[i]? = some a → runs[i + 1]? = some b →
    b.2.now = (inner a.2).2.now + gap q i
  last : (∃ r, run.1 = .resolved r) → ∃ a ∈ runs.getLast?, run.2.now = (inner a.2).2.now

theorem attempts_afresh (q : Policy) (depth : Nat) {inner : Dispatcher α}
    (hclock : ∀ u, (inner u).2.longest = u.longest) {s : Timeline} (hexact : s.longest = none) :
    Afresh q inner s.now (starts q job depth inner allowance 0 s)
      (attempts q job depth inner allowance 0 s) := by
  have hsuccession := attempts_succession q job depth inner allowance 0 s
  refine ⟨fun i a => starts_number, ?_, ?_, ?_⟩
  · intro a ha
    rw [← List.head?_eq_getElem?] at ha
    rw [hsuccession.first a ha]
  · intro i a b ha hb
    obtain ⟨hi, rfl⟩ := List.getElem?_eq_some_iff.mp ha
    obtain ⟨hnext, rfl⟩ := List.getElem?_eq_some_iff.mp hb
    have hfollows := List.isChain_iff_getElem.mp hsuccession.chain i hnext
    have hkept : (inner (starts q job depth inner allowance 0 s)[i].2).2.longest = none := by
      rw [hclock, starts_longest hclock ha, hexact]
    rw [hfollows.now hunsignalled, lasting_of_exact hkept, starts_number ha]
    rfl
  · rintro ⟨final, h⟩
    obtain ⟨a, hlast, r, u, hanswer, -, hlog⟩ := hsuccession.resolved hunsignalled h
    exact ⟨a, hlast, by rw [hlog, now_log, hanswer]⟩

end Stack

/-! ## The times of a run -/

/-- A run on an exact clock without a signal, whose invocations do not panic.

Under one policy, invocation number `j` begins when the invocations before it and the gaps
after them are over, and the run ends with its last invocation, whatever ends it.  The
gaps of a sequence are its delays and then the last of them, of which the counter reaches
the first `2 ^ 32`.  A wait function is asked once for each retry, about `1`, `2` and so on
as far as the counter goes.

In a stack, each submission that a layer receives has its attempts, gaps and questions
counted from the start, and ends with the last of these attempts. -/
theorem enqueue_timed {job : Job α} (hunsignalled : job.listening = false)
    (hcalm : ∀ n panic, (job.operation.payload n).ending ≠ .panic panic) (allowance : Nat)
    {t : Timeline} (hexact : t.longest = none) :
    (∀ p : Policy,
      (∃ retries invoked,
        Timed p job allowance t retries invoked (enqueue [p] .inline job allowance t)) ∧
      (∀ f, p.wait = .function f → ∀ l, gap p l = f (counter (l + 1))) ∧
      ∀ ds, p.wait = .sequence ds → ∀ k,
        let m := min ds.length UInt32.size
        ∑ l ∈ Finset.range k, gap p l =
          (ds.take (min k m)).sum + (k - min k m) * ds.getD (m - 1) 0) ∧
    ∀ layers upper q lower, layers = upper ++ q :: lower →
      (∀ s, s.longest = none →
        Afresh q (submit .inline job allowance (upper.length + 1) lower) s.now
        (starts q job upper.length (submit .inline job allowance (upper.length + 1) lower)
          allowance 0 (s.record (.given upper.length)))
        (submit .inline job allowance upper.length (q :: lower) s)) ∧
      ∀ f, q.wait = .function f → ∃ ks : List Nat,
        (enqueue layers .inline job allowance t).2.read (Event.at? upper.length) =
          t.read (Event.at? upper.length) ++ ks.flatMap (round upper.length) := by
  constructor
  · intro p
    refine ⟨?_, ?_, fun ds hwait => sum_gap_sequence hwait⟩
    · have hinvokes := invokes_inline hunsignalled allowance 1
      have hanswers := inline_answers hunsignalled hcalm allowance 1
      obtain ⟨retries, invoked, htimed⟩ :=
        attempts_timed hunsignalled hinvokes hanswers p allowance (t := t.record (.given 0)) hexact
      exact ⟨retries, invoked, htimed.received⟩
    · intro f hwait l
      rw [gap, hwait, ← countOn_counter]
      rfl
  · rintro layers upper q lower rfl
    refine ⟨fun s hexact' => ?_, fun f hwait => ?_⟩
    · exact attempts_afresh hunsignalled allowance q upper.length
        (longest_submit .inline job allowance lower (upper.length + 1))
        (s := s.record (.given upper.length)) hexact'
    · have hrounds := read_submit_rounds hunsignalled allowance hwait lower upper 0 t
      rwa [Nat.zero_add] at hrounds

/-- Three retries after growing delays, of a job that takes five milliseconds. -/
theorem enqueue_timed_growing :
    let p : Policy := { matcher := .all, wait := .function fun n => 10 * n.toNat, limit := some 3 }
    let job : Job Unit := { operation := { async := true, payload := fun _ =>
      { ending := .failure (.plain "down"), sleeps := some 5 } } }
    let t : Timeline := { longest := none }
    let run := enqueue [p] .inline job 9 t
    job.listening = false ∧ (∀ n panic, (job.operation.payload n).ending ≠ .panic panic) ∧
      t.longest = none ∧ (∃ retries invoked, Timed p job 9 t retries invoked run) ∧
      (∀ l, gap p l = 10 * (counter (l + 1)).toNat) ∧
      run.2.invocations = [0, 15, 40, 75] ∧ run.2.now = 80 ∧
      run.2.questions = [(0, 1), (0, 2), (0, 3)] := by
  intro p job t run
  have hcalm : ∀ n panic, (job.operation.payload n).ending ≠ .panic panic := fun _ _ => nofun
  obtain ⟨htimed, hfunction, -⟩ := (enqueue_timed rfl hcalm 9 (t := t) rfl).1 p
  exact ⟨rfl, hcalm, rfl, htimed, hfunction _ rfl, by decide, by decide, by decide⟩

/-- Of a sequence with one delay more than the counter reaches, the last delay is never
waited: the invocation that should begin a millisecond after the others begins with them.
And a clock that is not exact ends a sleep that is too long for it. -/
theorem not_enqueue_timed_beyond :
    let down : Job Unit :=
      { operation := { payload := fun _ => { ending := .failure (.plain "down") } } }
    let ds : List Millis := List.replicate UInt32.size 0 ++ [1]
    let p : Policy := { matcher := .all, wait := .sequence ds, limit := none }
    let k := ds.length
    let run := enqueue [p] .inline down (k + 1) { longest := none }
    let once : Policy := { matcher := .all, wait := .fixed (thirtyYears + 1), limit := some 1 }
    (ds.take (min k ds.length)).sum + (k - min k ds.length) * ds.getD (ds.length - 1) 0 = 1 ∧
      run.2.invocations[k]? = some 0 ∧
      (enqueue [once] .inline down 2 {}).2.invocations = [0, thirtyYears] := by
  intro down ds p k run once
  refine ⟨?_, ?_, by decide⟩
  · rw [Nat.min_self, List.take_length, Nat.sub_self, Nat.zero_mul, Nat.add_zero]
    exact sum_zeros_concat _
  · have hfails (s : Timeline) : (submit .inline down (k + 1) 1 [] s).1 =
        .resolved (.error (.operation (.plain "down"))) := rfl
    have hbegan : run.2.invocations[k]? = some (startOf p down { longest := none } k) :=
      getElem?_invocations_endless rfl hfails rfl rfl rfl (Nat.lt_succ_self k)
    rw [hbegan, startOf_idle (fun _ => rfl), sum_gap_zeros rfl rfl]

end Run
end Skein
