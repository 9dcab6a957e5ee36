import Skein.Failure.Kind

/-!
# Which failures are retried

A matcher is a union of rules: it accepts a failure as soon as one rule does.  A
rule may look at the whole failure, or ask for a kind anywhere along its chain.
-/

namespace Skein

namespace Retry

structure Matcher where
  rules : List (Failure → Bool) := []

namespace Matcher

def accepts (m : Matcher) (f : Failure) : Bool :=
  m.rules.any (· f)

def none : Matcher :=
  { rules := [] }

def predicate (rule : Failure → Bool) : Matcher :=
  { rules := [rule] }

def all : Matcher :=
  predicate fun _ => true

def orKind (m : Matcher) (kind : Kind) : Matcher :=
  { rules := m.rules ++ [fun f => (f.find? kind).isSome] }

def ofKind (kind : Kind) : Matcher :=
  none.orKind kind

def kindWhere (kind : Kind) (condition : Failure → Bool) : Matcher :=
  predicate fun f => (f.find? kind).any condition

def describe (m : Matcher) : String :=
  s!"ErrorMatcher \x7b rules: {m.rules.length} \x7d"

@[simp] theorem accepts_none (f : Failure) : none.accepts f = false := rfl

@[simp] theorem accepts_all (f : Failure) : all.accepts f = true := rfl

@[simp] theorem accepts_predicate (rule : Failure → Bool) (f : Failure) :
    (predicate rule).accepts f = rule f := by
  simp [accepts, predicate]

@[simp] theorem accepts_orKind (m : Matcher) (kind : Kind) (f : Failure) :
    (m.orKind kind).accepts f = (m.accepts f || (f.find? kind).isSome) := by
  simp [accepts, orKind]

end Matcher

end Retry

end Skein
