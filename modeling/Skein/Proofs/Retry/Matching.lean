import Skein.Proofs.Failure.Sources
import Skein.Retry.Policy

/-!
# What a matcher accepts

A matcher starts from a base rule and grows by kinds, first by itself and then as a
part of a builder, between calls that set the wait.  `assemble_union` says that only the
set of the added kinds matters: the matcher accepts what the base rule accepts, and
whatever is of an added kind somewhere along its sources.  The wait goes its own way.

A matcher for a kind with a condition puts the condition to the first failure of the
kind.  `accepts_kindWhere` compares this with asking for any failure of the kind that
meets the condition: the two differ where the first one fails the condition and one
further on meets it.
-/

namespace Skein
namespace Retry

open Failure

/-! ## The union of the rules -/

inductive Start
  | all
  | nothing
  | kind (kind : Kind)
  | rule (rule : Failure → Bool)

namespace Start

def matcher : Start → Matcher
  | all => .all
  | nothing => .none
  | kind k => .ofKind k
  | rule r => .predicate r

def Accepts : Start → Failure → Prop
  | all, _ => True
  | nothing, _ => False
  | kind k, f => f.Bears k
  | rule r, f => r f = true

theorem accepts_matcher (start : Start) (f : Failure) :
    start.matcher.accepts f = true ↔ start.Accepts f := by
  cases start with
  | all => simp [matcher, Accepts]
  | nothing => simp [matcher, Accepts]
  | kind k => simp [matcher, Accepts, Matcher.ofKind, isSome_find?]
  | rule r => simp [matcher, Accepts]

end Start

/-- Each added kind is a rule of its own. -/
theorem Matcher.accepts_kinds (m : Matcher) (kinds : List Kind) (f : Failure) :
    (kinds.foldl Matcher.orKind m).accepts f = true ↔
      m.accepts f = true ∨ ∃ kind ∈ kinds, f.Bears kind := by
  induction kinds generalizing m with
  | nil => simp
  | cons kind kinds ih =>
    rw [List.foldl_cons, ih, Matcher.accepts_orKind, Bool.or_eq_true, isSome_find?, or_assoc,
      List.exists_mem_cons_iff]

inductive Call
  | and (kind : Kind)
  | withWait (d : Millis)
  | withSequence (ds : List Millis)
  | withFunction (f : UInt32 → Millis)
  | withStrategy (wait : Wait)

namespace Call

def apply (b : Builder) : Call → Builder
  | and kind => b.and kind
  | withWait d => b.withWait d
  | withSequence ds => b.withSequence ds
  | withFunction f => b.withFunction f
  | withStrategy wait => b.withStrategy wait

def kind? : Call → Option Kind
  | and kind => some kind
  | _ => none

def wait? : Call → Option Wait
  | and _ => none
  | withWait d => some (.fixed d)
  | withSequence ds => some (.sequence ds)
  | withFunction f => some (.function f)
  | withStrategy wait => some wait

end Call

namespace Builder

theorem matcher_calls (b : Builder) (calls : List Call) :
    (calls.foldl Call.apply b).matcher =
      (calls.filterMap Call.kind?).foldl Matcher.orKind b.matcher := by
  induction calls generalizing b with
  | nil => rfl
  | cons call calls ih =>
    rw [List.foldl_cons, ih]
    cases call <;> rfl

theorem wait_calls (b : Builder) (calls : List Call) :
    (calls.foldl Call.apply b).wait = (calls.filterMap Call.wait?).getLast?.getD b.wait := by
  induction calls generalizing b with
  | nil => rfl
  | cons call calls ih =>
    have hset (wait : Wait) (h : call.wait? = some wait) (h' : (call.apply b).wait = wait) :
        ((call :: calls).foldl Call.apply b).wait =
          ((call :: calls).filterMap Call.wait?).getLast?.getD b.wait := by
      rw [List.foldl_cons, ih, h', List.filterMap_cons_some h, List.getLast?_cons]
      rfl
    cases call with
    | and kind => exact ih (b.and kind)
    | withWait d => exact hset _ rfl rfl
    | withSequence ds => exact hset _ rfl rfl
    | withFunction f => exact hset _ rfl rfl
    | withStrategy wait => exact hset _ rfl rfl

def finish (b : Builder) : Option UInt32 → Policy
  | none => b.forever
  | some n => b.withMaxRetries n

theorem matcher_finish (b : Builder) (limit : Option UInt32) :
    (b.finish limit).matcher = b.matcher := by
  cases limit <;> rfl

theorem wait_finish (b : Builder) (limit : Option UInt32) : (b.finish limit).wait = b.wait := by
  cases limit <;> rfl

end Builder

/-- A policy put together from a base rule, kinds that the matcher is given by itself,
calls on the builder, and a limit. -/
def assemble (start : Start) (kinds : List Kind) (calls : List Call) (limit : Option UInt32) :
    Policy :=
  Builder.finish
    (calls.foldl Call.apply { matcher := kinds.foldl Matcher.orKind start.matcher }) limit

def added (kinds : List Kind) (calls : List Call) : List Kind :=
  kinds ++ calls.filterMap Call.kind?

theorem matcher_assemble (start : Start) (kinds : List Kind) (calls : List Call)
    (limit : Option UInt32) :
    (assemble start kinds calls limit).matcher =
      (added kinds calls).foldl Matcher.orKind start.matcher := by
  rw [assemble, Builder.matcher_finish, Builder.matcher_calls, added, List.foldl_append]

theorem accepts_assemble (start : Start) (kinds : List Kind) (calls : List Call)
    (limit : Option UInt32) (f : Failure) :
    (assemble start kinds calls limit).matcher.accepts f = true ↔
      start.Accepts f ∨ ∃ kind ∈ added kinds calls, f.Bears kind := by
  rw [matcher_assemble, Matcher.accepts_kinds, start.accepts_matcher]

/-- However a policy is put together, its matcher accepts what the base rule accepts
and what is of an added kind somewhere along its sources.  So two policies whose added
kinds are the same accept the same, in whatever order the kinds were added and however
often; and with more kinds no failure is rejected that was accepted.  The calls that
set the wait are not seen by the matcher, and the wait is what the last of them has set,
whatever the matcher. -/
theorem assemble_union (start : Start) (kinds : List Kind) (calls : List Call)
    (limit : Option UInt32) :
    let p := assemble start kinds calls limit
    (∀ f, p.matcher.accepts f = true ↔
      start.Accepts f ∨ ∃ kind ∈ added kinds calls, f.Bears kind) ∧
    (∀ kinds' calls' limit', (∀ kind, kind ∈ added kinds' calls' ↔ kind ∈ added kinds calls) →
      ∀ f, (assemble start kinds' calls' limit').matcher.accepts f = p.matcher.accepts f) ∧
    (∀ kinds' calls' limit', added kinds calls ⊆ added kinds' calls' → ∀ f,
      p.matcher.accepts f = true →
        (assemble start kinds' calls' limit').matcher.accepts f = true) ∧
    p.matcher = (added kinds calls).foldl Matcher.orKind start.matcher ∧
    p.wait = (calls.filterMap Call.wait?).getLast?.getD .none := by
  intro p
  have haccepts := accepts_assemble start kinds calls limit
  refine ⟨haccepts, ?_, ?_, matcher_assemble start kinds calls limit, ?_⟩
  · intro kinds' calls' limit' hsame f
    apply Bool.eq_iff_iff.mpr
    rw [haccepts, accepts_assemble]
    simp only [hsame]
  · intro kinds' calls' limit' hmore f haccepted
    rw [accepts_assemble]
    rcases (haccepts f).mp haccepted with hbase | ⟨kind, hmember, hbears⟩
    · exact .inl hbase
    · exact .inr ⟨kind, hmore hmember, hbears⟩
  · exact (Builder.wait_finish _ limit).trans (Builder.wait_calls _ calls)

/-- Two kinds, one of them added twice, between three calls that set the wait; and a
timeout that two other failures wrap. -/
theorem assemble_union_interleaved :
    let timeout : Kind := .reported "timeout"
    let refused : Kind := .reported "refused"
    let short : Start := .rule fun f => f.text.length < 5
    let calls : List Call :=
      [.and refused, .withWait 250, .and timeout, .withSequence [100, 300], .and refused]
    let p := assemble short [timeout] calls (some 3)
    let q := assemble short [] [.and timeout, .and refused] none
    let f : Failure := .exhausted 2 (.caused (.wrap "transport") (.reported (.timeout 5)))
    (∀ kind, kind ∈ added [] [.and timeout, .and refused] ↔ kind ∈ added [timeout] calls) ∧
      p.matcher.accepts f = true ∧ q.matcher.accepts f = true ∧
      p.matcher.accepts (.reported .fatal) = q.matcher.accepts (.reported .fatal) ∧
      p.wait = .sequence [100, 300] := by
  intro timeout refused short calls p q f
  obtain ⟨haccepts, hsame, hmore, -, hwait⟩ := assemble_union short [timeout] calls (some 3)
  have hkinds : ∀ kind, kind ∈ added [] [.and timeout, .and refused] ↔
      kind ∈ added [timeout] calls := by
    intro kind
    simp only [added, calls, List.filterMap_cons, Call.kind?, List.filterMap_nil, List.nil_append,
      List.cons_append, List.mem_cons, List.not_mem_nil, or_false]
    tauto
  have haccepted : p.matcher.accepts f = true :=
    (haccepts f).mpr (.inr ⟨timeout, List.mem_cons_self, 2, .reported (.timeout 5),
      .source rfl (.source rfl (.self _)), rfl⟩)
  exact ⟨hkinds, haccepted, hmore [] _ none (fun kind h => (hkinds kind).mpr h) f haccepted,
    (hsame [] _ none hkinds _).symm, hwait⟩

/-! ## Conditions on a kind -/

/-- The failure is, or has somewhere along its sources, one of the kind that meets the
condition. -/
def Meets (f : Failure) (kind : Kind) (condition : Failure → Bool) : Prop :=
  ∃ n g, Leads f n g ∧ g.kind = kind ∧ condition g = true

theorem Matcher.accepts_kindWhere_first (kind : Kind) (condition : Failure → Bool) (f : Failure) :
    (Matcher.kindWhere kind condition).accepts f = true ↔
      ∃ n g, First f kind n g ∧ condition g = true := by
  rw [Matcher.kindWhere, Matcher.accepts_predicate, Option.any_eq_true]
  constructor
  · rintro ⟨g, hfound, hmeets⟩
    obtain ⟨n, hfirst⟩ := find?_eq_some.mp hfound
    exact ⟨n, g, hfirst, hmeets⟩
  · rintro ⟨n, g, hfirst, hmeets⟩
    exact ⟨g, find?_eq_some.mpr ⟨n, hfirst⟩, hmeets⟩

/-- Where there is a failure of the kind, there is a first one. -/
theorem Meets.first {f : Failure} {kind : Kind} {condition : Failure → Bool}
    (hmeets : Meets f kind condition) : ∃ n g, First f kind n g := by
  obtain ⟨n, g, hleads, hsame, -⟩ := hmeets
  obtain ⟨h, hfound⟩ := Option.isSome_iff_exists.mp (isSome_find?.mpr ⟨n, g, hleads, hsame⟩)
  obtain ⟨m, hfirst⟩ := find?_eq_some.mp hfound
  exact ⟨m, h, hfirst⟩

/-- A matcher for a kind with a condition accepts a failure if the first one of the kind
along its sources meets the condition.  So what it accepts does have one of the kind
that meets the condition.  The converse fails exactly where the first one does not meet
it and another one does; it holds wherever the condition says the same of all that are
of the kind, as when there is only one. -/
theorem Matcher.accepts_kindWhere (kind : Kind) (condition : Failure → Bool) (f : Failure) :
    let m := Matcher.kindWhere kind condition
    (m.accepts f = true ↔ ∃ n g, First f kind n g ∧ condition g = true) ∧
    (m.accepts f = true → Meets f kind condition) ∧
    ((m.accepts f = true ↔ Meets f kind condition) ↔
      ¬ ((∃ n g, First f kind n g ∧ condition g = false) ∧ Meets f kind condition)) ∧
    ((∀ n g k h, Leads f n g → g.kind = kind → Leads f k h → h.kind = kind →
        condition g = condition h) →
      (m.accepts f = true ↔ Meets f kind condition)) := by
  intro m
  have haccepts := Matcher.accepts_kindWhere_first kind condition f
  have hsound : m.accepts f = true → Meets f kind condition := by
    intro haccepted
    obtain ⟨n, g, ⟨hleads, hsame, -⟩, hmeets⟩ := haccepts.mp haccepted
    exact ⟨n, g, hleads, hsame, hmeets⟩
  -- Some failure of the kind meets the condition, and the first one does if nothing prevents it.
  have hcomplete (hagreed : ∀ n g, First f kind n g → Meets f kind condition → condition g = true) :
      m.accepts f = true ↔ Meets f kind condition := by
    refine ⟨hsound, fun hmeets => ?_⟩
    obtain ⟨n, g, hfirst⟩ := hmeets.first
    exact haccepts.mpr ⟨n, g, hfirst, hagreed n g hfirst hmeets⟩
  refine ⟨haccepts, hsound, ?_, ?_⟩
  · constructor
    · rintro hagree ⟨⟨n, g, hfirst, hfails⟩, hmeets⟩
      obtain ⟨k, h, hfirst', hholds⟩ := haccepts.mp (hagree.mpr hmeets)
      rw [hfirst.unique hfirst', hholds] at hfails
      cases hfails
    · intro hnever
      refine hcomplete fun n g hfirst hmeets => ?_
      by_contra hfails
      exact hnever ⟨⟨n, g, hfirst, Bool.eq_false_iff.mpr hfails⟩, hmeets⟩
  · intro halike
    refine hcomplete fun n g ⟨hleads, hsame, _⟩ ⟨k, h, hleads', hsame', hholds⟩ => ?_
    rw [halike n g k h hleads hsame hleads' hsame', hholds]

/-- A server's answer that one failure wraps: it is the only one, and the condition is
put to it. -/
theorem Matcher.accepts_kindWhere_wrapped :
    let http : Kind := .reported "http"
    let server (f : Failure) : Bool := 500 ≤ f.number
    let f : Failure := .caused (.wrap "transport") (.reported (.http 503))
    (∀ n g k h, Leads f n g → g.kind = http → Leads f k h → h.kind = http →
        server g = server h) ∧
      ((Matcher.kindWhere http server).accepts f = true ↔ Meets f http server) ∧
      Meets f http server := by
  intro http server f
  have honly : ∀ n g, Leads f n g → g.kind = http → g = .reported (.http 503) := by
    intro n g hleads hsame
    have hmember := List.mem_of_getElem? ((getElem?_chain f n g).mpr hleads)
    simp only [f, chain, List.mem_cons, List.not_mem_nil, or_false] at hmember
    rcases hmember with rfl | rfl
    · exact absurd hsame (by decide)
    · rfl
  have halike : ∀ n g k h, Leads f n g → g.kind = http → Leads f k h → h.kind = http →
      server g = server h := by
    intro n g k h hleads hsame hleads' hsame'
    rw [honly n g hleads hsame, honly k h hleads' hsame']
  have hlaw := (Matcher.accepts_kindWhere http server f).2.2.2 halike
  exact ⟨halike, hlaw, 1, .reported (.http 503), .source rfl (.self _), rfl, rfl⟩

/-- A refusal wraps a server's failure.  One of the two meets the condition, but it is
not the first. -/
theorem Matcher.not_accepts_kindWhere_second :
    let http : Kind := .reported "http"
    let server (f : Failure) : Bool := 500 ≤ f.number
    let f : Failure := .caused (.http 400) (.reported (.http 503))
    ¬ ((Matcher.kindWhere http server).accepts f = true ↔ Meets f http server) := by
  intro http server f hagree
  have hmeets : Meets f http server :=
    ⟨1, .reported (.http 503), .source rfl (.self _), rfl, rfl⟩
  have hrejected : (Matcher.kindWhere http server).accepts f = false := by decide
  rw [hagree.mpr hmeets] at hrejected
  cases hrejected

end Retry
end Skein
