import Skein.Failure.Kind

/-!
# What a failure contains

A failure is made of others: an application's error of its source, a dispatch
error of the failure behind it, a configuration error of the refusal of the text,
and the failure to build a fiber of the configuration error.  `Wraps` says so
constructor by constructor, and `Contains f n g` says that `g` lies `n` levels
deep in `f`.

The chain of a failure goes by what the failure shows of itself, and a search by
kind goes along the chain.  `find?_contained` says how far the two agree: the search
finds the outermost failure of the kind, at any depth, but it never comes to the
configuration error that the failure to build a fiber stands for.
-/

namespace Skein
namespace Failure

/-- What a failure is directly made of. -/
inductive Wraps : Failure → Failure → Prop
  | source (report : Report) (source : Failure) : Wraps (.caused report source) source
  | cause (cause : Failure) : Wraps (.operation cause) cause
  | last (attempts : UInt32) (last : Failure) : Wraps (.exhausted attempts last) last
  | refusal (refusal : Json.Refusal) : Wraps (.config (.parse refusal)) (.malformed refusal)
  | config (error : ConfigError) : Wraps (.fiberConfig error) (.config error)

/-- So many levels deep in the failure lies the other one. -/
inductive Contains : Failure → Nat → Failure → Prop
  | self (f : Failure) : Contains f 0 f
  | inside {f g h : Failure} {n : Nat} (hwraps : Wraps f g) (hdeeper : Contains g n h) :
      Contains f (n + 1) h

/-- The failure contains `g`, which is of the kind, and nothing of the kind further
out. -/
def Outermost (kind : Kind) (f g : Failure) : Prop :=
  ∃ n, Contains f n g ∧ g.kind = kind ∧ ∀ m < n, ∀ h, Contains f m h → h.kind ≠ kind

variable {kind : Kind} {f g h : Failure}

theorem Wraps.unique (hwraps : Wraps f g) (hwraps' : Wraps f h) : h = g := by
  cases hwraps <;> cases hwraps' <;> rfl

theorem Contains.deeper {n : Nat} (hcontains : Contains f n g) (hwraps : Wraps g h) :
    Contains f (n + 1) h := by
  induction hcontains with
  | self f => exact .inside hwraps (.self h)
  | inside hfirst _ ih => exact .inside hfirst (ih hwraps)

/-! ## The outermost failure of a kind -/

theorem outermost_self (hsame : f.kind = kind) : Outermost kind f g ↔ g = f := by
  constructor
  · rintro ⟨n, hcontains, -, hfirst⟩
    cases hcontains with
    | self => rfl
    | inside => exact absurd hsame (hfirst 0 (Nat.succ_pos _) f (.self f))
  · rintro rfl
    exact ⟨0, .self g, hsame, fun m hm => absurd hm (Nat.not_lt_zero m)⟩

/-- A failure of another kind leaves it to what it wraps. -/
theorem outermost_inside (hother : f.kind ≠ kind) (hwraps : Wraps f h) :
    Outermost kind f g ↔ Outermost kind h g := by
  constructor
  · rintro ⟨n, hcontains, hsame, hfirst⟩
    cases hcontains with
    | self => exact absurd hsame hother
    | inside hwraps' hdeeper =>
      obtain rfl := hwraps.unique hwraps'
      exact ⟨_, hdeeper, hsame, fun m hm k hk =>
        hfirst (m + 1) (Nat.succ_lt_succ hm) k (.inside hwraps hk)⟩
  · rintro ⟨n, hcontains, hsame, hfirst⟩
    refine ⟨n + 1, .inside hwraps hcontains, hsame, ?_⟩
    intro m hm k hk
    cases hk with
    | self => exact hother
    | inside hwraps' hdeeper =>
      obtain rfl := hwraps.unique hwraps'
      exact hfirst _ (Nat.lt_of_succ_lt_succ hm) k hdeeper

theorem not_outermost (hother : f.kind ≠ kind) (hinnermost : ∀ h, ¬ Wraps f h) :
    ¬ Outermost kind f g := by
  rintro ⟨n, hcontains, hsame, -⟩
  cases hcontains with
  | self => exact hother hsame
  | inside hwraps => exact hinnermost _ hwraps

/-- Whatever of the kind a failure contains, one of them is the outermost. -/
theorem outermost_of_contains {n : Nat} (hcontains : Contains f n g) (hsame : g.kind = kind) :
    ∃ h, Outermost kind f h := by
  induction hcontains with
  | self f => exact ⟨f, (outermost_self hsame).mpr rfl⟩
  | @inside f g _ n hwraps hdeeper ih =>
    by_cases hhere : f.kind = kind
    · exact ⟨f, (outermost_self hhere).mpr rfl⟩
    · obtain ⟨h, hfound⟩ := ih hsame
      exact ⟨h, (outermost_inside hhere hwraps).mpr hfound⟩

/-! ## The search -/

theorem find?_of_kind (hsame : f.kind = kind) : f.find? kind = some f :=
  hsame ▸ find?_self

/-- A failure of another kind is passed, and the search goes on with what the
failure shows as its source. -/
theorem find?_of_ne (f : Failure) (hother : f.kind ≠ kind) :
    f.find? kind = f.source?.bind (·.find? kind) := by
  obtain ⟨rest, hchain⟩ := List.head?_eq_some_iff.mp f.head_chain
  have htail := f.tail_chain
  rw [hchain, List.tail_cons] at htail
  rw [find?, hchain, List.find?_cons, decide_eq_false hother, htail]
  cases f.source? <;> rfl

/-- The search sees what the failure contains, if a search for configuration errors
has no failure to build a fiber to pass. -/
def Open (kind : Kind) (f : Failure) : Prop :=
  kind = .config → ∀ n e, ¬ Contains f n (.fiberConfig e)

theorem Open.inside (hshown : Open kind f) (hwraps : Wraps f h) : Open kind h :=
  fun hsought _ e hcontains => hshown hsought _ e (.inside hwraps hcontains)

/-- The search comes to exactly the outermost failure of the kind. -/
def Finds (kind : Kind) (f : Failure) : Prop :=
  ∀ g, f.find? kind = some g ↔ Outermost kind f g

theorem finds_inside (hwraps : Wraps f h) (hpassed : f.kind ≠ kind → f.find? kind = h.find? kind)
    (hdeeper : Finds kind h) : Finds kind f := by
  intro g
  by_cases hsame : f.kind = kind
  · rw [find?_of_kind hsame, outermost_self hsame, Option.some.injEq, eq_comm]
  · rw [hpassed hsame, outermost_inside hsame hwraps]
    exact hdeeper g

theorem finds_innermost (halone : f.source? = none) (hinnermost : ∀ h, ¬ Wraps f h) :
    Finds kind f := by
  intro g
  by_cases hsame : f.kind = kind
  · rw [find?_of_kind hsame, outermost_self hsame, Option.some.injEq, eq_comm]
  · rw [find?_of_ne f hsame, halone]
    exact iff_of_false nofun (not_outermost hsame hinnermost)

theorem finds_config (e : ConfigError) : Finds kind (.config e) := by
  cases e with
  | parse refusal =>
    exact finds_inside (.refusal refusal) (find?_of_ne _) (finds_innermost rfl nofun)
  | invalid why => exact finds_innermost rfl nofun

theorem finds_of_open (hshown : Open kind f) : Finds kind f := by
  induction f with
  | caused report source ih =>
    exact finds_inside (.source report source) (find?_of_ne _) (ih (hshown.inside (.source _ _)))
  | operation cause ih =>
    exact finds_inside (.cause cause) (find?_of_ne _) (ih (hshown.inside (.cause _)))
  | exhausted attempts last ih =>
    exact finds_inside (.last attempts last) (find?_of_ne _) (ih (hshown.inside (.last _ _)))
  | config e => exact finds_config e
  | fiberConfig e =>
    have hsought : Kind.config ≠ kind := fun hsame => hshown hsame.symm 0 e (.self _)
    -- The failure shows the source of the configuration error as its own, so the search
    -- leaves that error out; it is of another kind.
    refine finds_inside (.config e) ?_ (finds_config e)
    intro hother
    rw [find?_of_ne _ hother, find?_of_ne (.config e) hsought]
    rfl
  | _ => exact finds_innermost rfl nofun

theorem not_contains_of_config {n : Nat} {e e' : ConfigError} :
    ¬ Contains (.config e) n (.fiberConfig e') := by
  intro hcontains
  cases hcontains with
  | inside hwraps hdeeper =>
    cases hwraps with
    | refusal refusal =>
      cases hdeeper with
      | inside hwraps' => cases hwraps'

/-- A failure to build a fiber hides its configuration error from whatever it is
wrapped in. -/
theorem find?_hidden {n : Nat} {e : ConfigError} (hcontains : Contains f n (.fiberConfig e)) :
    f.find? .config = none := by
  generalize hhidden : Failure.fiberConfig e = h at hcontains
  induction hcontains with
  | self f =>
    subst hhidden
    cases e <;> rfl
  | inside hwraps hdeeper ih =>
    have hrest := ih hhidden
    subst hhidden
    cases hwraps with
    | source report =>
      refine (find?_of_ne (.caused report _) ?_).trans hrest
      nofun
    | cause =>
      refine (find?_of_ne (.operation _) ?_).trans hrest
      nofun
    | last attempts =>
      refine (find?_of_ne (.exhausted attempts _) ?_).trans hrest
      nofun
    | refusal =>
      cases hdeeper with
      | inside hwraps' => cases hwraps'
    | config => exact absurd hdeeper not_contains_of_config

/-! ## How far a search sees -/

/-- A search finds the outermost failure of the kind among all that a failure
contains, and finds one whenever there is one.  This holds of every kind but that of
configuration errors, and of that kind wherever no failure to build a fiber is
contained.  Such a failure contains a configuration error, and the search for one
comes back empty. -/
theorem find?_contained (kind : Kind) (f : Failure) :
    ((kind = .config → ∀ n e, ¬ Contains f n (.fiberConfig e)) →
      (∀ g, f.find? kind = some g ↔ Outermost kind f g) ∧
      ((∃ g, f.find? kind = some g) ↔ ∃ n g, Contains f n g ∧ g.kind = kind)) ∧
    ∀ n e, Contains f n (.fiberConfig e) →
      Contains f (n + 1) (.config e) ∧ f.find? .config = none := by
  constructor
  · intro hshown
    have hfinds := finds_of_open hshown
    refine ⟨hfinds, ?_, ?_⟩
    · rintro ⟨g, hfound⟩
      obtain ⟨n, hcontains, hsame, -⟩ := (hfinds g).mp hfound
      exact ⟨n, g, hcontains, hsame⟩
    · rintro ⟨n, g, hcontains, hsame⟩
      obtain ⟨h, houtermost⟩ := outermost_of_contains hcontains hsame
      exact ⟨h, (hfinds h).mpr houtermost⟩
  · intro n e hcontains
    exact ⟨hcontains.deeper (.config e), find?_hidden hcontains⟩

/-- A job whose fiber could not be built, because its settings could not be read,
under two policies that gave it up. -/
theorem find?_contained_refusedText :
    let refusal : Json.Refusal := { fault := .endInValue, position := { line := 1, column := 0 } }
    let cause : Failure := .fiberConfig (.parse refusal)
    let f : Failure := .exhausted 2 (.exhausted 3 cause)
    f.find? .malformed = some (.malformed refusal) ∧ Outermost .malformed f (.malformed refusal) ∧
      f.find? .dispatch = some f ∧ Outermost .dispatch f f ∧ Contains f 2 cause ∧
      Contains f 3 (.config (.parse refusal)) ∧ f.find? .config = none := by
  intro refusal cause f
  have hmalformed : f.find? .malformed = some (.malformed refusal) := by decide
  have hdispatch : f.find? .dispatch = some f := by decide
  have hcontains : Contains f 2 cause := .inside (.last _ _) (.inside (.last _ _) (.self cause))
  have hfinds (kind : Kind) (hother : kind ≠ .config) (g : Failure) :
      f.find? kind = some g ↔ Outermost kind f g :=
    ((find?_contained kind f).1 fun hsame => absurd hsame hother).1 g
  obtain ⟨hdeeper, hhidden⟩ := (find?_contained .config f).2 2 _ hcontains
  exact ⟨hmalformed, (hfinds .malformed nofun _).mp hmalformed, hdispatch,
    (hfinds .dispatch nofun _).mp hdispatch, hcontains, hdeeper, hhidden⟩

/-- A failure to build a fiber wraps the configuration error that it was made from,
but it is not found to be of that kind. -/
theorem not_find?_wrapped :
    let f : Failure := .fiberConfig (.invalid "stack_size must be greater than zero")
    ¬ ((∃ g, f.find? .config = some g) ↔ ∃ n g, Contains f n g ∧ g.kind = .config) := by
  intro f hagrees
  have hcontains : Contains f 1 (.config (.invalid "stack_size must be greater than zero")) :=
    .inside (.config _) (.self _)
  obtain ⟨g, hfound⟩ := hagrees.mpr ⟨1, _, hcontains, rfl⟩
  cases hfound

end Failure
end Skein
