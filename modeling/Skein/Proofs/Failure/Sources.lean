import Mathlib.Data.List.Basic
import Skein.Failure.Kind

/-!
# Going along the sources of a failure

A failure shows at most one other as its source, and that one may show another.
`Leads f n g` says that `g` is reached from `f` in `n` such steps; the chain of a
failure lists what is reached, place by place (`getElem?_chain`).  So a search by kind
comes to the first failure of the kind on the way, and to one whenever there is one.
-/

namespace Skein
namespace Failure

/-- So many steps from source to source lead from the failure to the other one. -/
inductive Leads : Failure → Nat → Failure → Prop
  | self (f : Failure) : Leads f 0 f
  | source {f g h : Failure} {n : Nat} (hshown : f.source? = some g) (hfurther : Leads g n h) :
      Leads f (n + 1) h

/-- The failure is, or has somewhere along its sources, one of the kind. -/
def Bears (f : Failure) (kind : Kind) : Prop :=
  ∃ n g, Leads f n g ∧ g.kind = kind

def First (f : Failure) (kind : Kind) (n : Nat) (g : Failure) : Prop :=
  Leads f n g ∧ g.kind = kind ∧ ∀ m < n, ∀ h, Leads f m h → h.kind ≠ kind

variable {kind : Kind} {f g h : Failure} {n : Nat}

theorem leads_zero : Leads f 0 g ↔ f = g := by
  constructor
  · intro hleads
    cases hleads
    rfl
  · rintro rfl
    exact .self f

theorem leads_succ : Leads f (n + 1) h ↔ ∃ g, f.source? = some g ∧ Leads g n h := by
  constructor
  · intro hleads
    cases hleads with
    | source hshown hfurther => exact ⟨_, hshown, hfurther⟩
  · rintro ⟨g, hshown, hfurther⟩
    exact .source hshown hfurther

theorem chain_eq (f : Failure) : f.chain = f :: (f.source?.map chain).getD [] := by
  rw [← f.tail_chain]
  exact List.eq_cons_of_mem_head? f.head_chain

/-- The chain has the failures at their places. -/
theorem getElem?_chain (f : Failure) (n : Nat) (g : Failure) :
    f.chain[n]? = some g ↔ Leads f n g := by
  induction n generalizing f with
  | zero => rw [f.chain_eq, List.getElem?_cons_zero, Option.some.injEq, leads_zero]
  | succ n ih =>
    rw [f.chain_eq, List.getElem?_cons_succ, leads_succ]
    cases f.source? with
    | none => simp
    | some h => simp [ih h]

theorem leads_of_mem_chain (hmember : g ∈ f.chain) : ∃ n, Leads f n g := by
  obtain ⟨n, hhere⟩ := List.mem_iff_getElem?.mp hmember
  exact ⟨n, (getElem?_chain f n g).mp hhere⟩

/-- At each place there is one failure at most. -/
theorem Leads.unique (hleads : Leads f n g) (hleads' : Leads f n h) : g = h := by
  rw [← getElem?_chain] at hleads hleads'
  exact Option.some.inj (hleads.symm.trans hleads')

theorem First.unique {m : Nat} (hfirst : First f kind n g) (hfirst' : First f kind m h) :
    g = h := by
  obtain ⟨hleads, hsame, hbefore⟩ := hfirst
  obtain ⟨hleads', hsame', hbefore'⟩ := hfirst'
  rcases Nat.lt_trichotomy n m with hearlier | rfl | hlater
  · exact absurd hsame (hbefore' n hearlier g hleads)
  · exact hleads.unique hleads'
  · exact absurd hsame' (hbefore m hlater h hleads')

/-- A search comes to the first failure of the kind. -/
theorem find?_eq_some : f.find? kind = some g ↔ ∃ n, First f kind n g := by
  rw [find?, List.find?_eq_some_iff_getElem]
  constructor
  · rintro ⟨hsame, n, hhere, hfound, hbefore⟩
    refine ⟨n, (getElem?_chain f n g).mp (List.getElem?_eq_some_iff.mpr ⟨hhere, hfound⟩),
      of_decide_eq_true hsame, ?_⟩
    intro m hearlier h hleads
    obtain ⟨_, hfound'⟩ := List.getElem?_eq_some_iff.mp ((getElem?_chain f m h).mpr hleads)
    simpa [hfound'] using hbefore m hearlier
  · rintro ⟨n, hleads, hsame, hbefore⟩
    obtain ⟨hhere, hfound⟩ := List.getElem?_eq_some_iff.mp ((getElem?_chain f n g).mpr hleads)
    refine ⟨decide_eq_true hsame, n, hhere, hfound, ?_⟩
    intro m hearlier
    have hother := hbefore m hearlier _
      ((getElem?_chain f m _).mp (List.getElem?_eq_getElem (Nat.lt_trans hearlier hhere)))
    simpa using hother

/-- A search finds something exactly where there is something to find. -/
theorem isSome_find? : (f.find? kind).isSome = true ↔ f.Bears kind := by
  rw [find?, List.find?_isSome]
  constructor
  · rintro ⟨g, hmember, hsame⟩
    obtain ⟨n, hleads⟩ := leads_of_mem_chain hmember
    exact ⟨n, g, hleads, of_decide_eq_true hsame⟩
  · rintro ⟨n, g, hleads, hsame⟩
    exact ⟨g, List.mem_of_getElem? ((getElem?_chain f n g).mpr hleads), decide_eq_true hsame⟩

end Failure
end Skein
