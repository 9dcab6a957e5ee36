import Skein.Millis

/-!
# How long to wait before a retry

A wait gives the delay after the failure of each attempt, counted from zero.
-/

namespace Skein

namespace Retry

/-- One more, unless the counter is at its end. -/
def countOn (n : UInt32) : UInt32 :=
  if n = 4294967295 then n else n + 1

inductive Wait
  | none
  /-- The same delay before every retry. -/
  | fixed (d : Millis)
  /-- One delay for each retry; the last one repeats. -/
  | sequence (ds : List Millis)
  /-- A function of the number of the attempt that failed, counted from one. -/
  | function (f : UInt32 → Millis)

namespace Wait

def argument? (w : Wait) (n : UInt32) : Option UInt32 :=
  match w with
  | function _ => some (countOn n)
  | _ => Option.none

def delay (w : Wait) (n : UInt32) : Millis :=
  match w with
  | none => 0
  | fixed d => d
  | sequence ds => ds.getD (min n.toNat (ds.length - 1)) 0
  | function f => f (countOn n)

def longest : Millis := UInt64.size - 1

def linear (slope start : Millis) : Wait :=
  function fun n => min (slope * n.toNat + start) longest

def doubling (first most : Millis) : Wait :=
  function fun n =>
    if 64 < n.toNat then most else min (min (first * Nat.pow 2 (n.toNat - 1)) longest) most

def cyclic (period step : Millis) : Wait :=
  function fun n => min (n.toNat % period * step) longest

def describe : Wait → String
  | none => "None"
  | fixed d => s!"Fixed({Millis.text d})"
  | sequence ds => "Sequence([" ++ String.intercalate ", " (ds.map Millis.text) ++ "])"
  | function _ => "Function(..)"

end Wait

theorem toNat_countOn (n : UInt32) : (countOn n).toNat = min (n.toNat + 1) 4294967295 := by
  unfold countOn
  have h := n.toNat_lt
  split
  · next hn => subst hn; decide
  · next hn =>
    have hne : n.toNat ≠ 4294967295 := fun heq => hn (UInt32.toNat_inj.1 heq)
    rw [UInt32.toNat_add]
    have hone : (1 : UInt32).toNat = 1 := rfl
    omega

end Retry

end Skein
