import Mathlib.Algebra.Order.BigOperators.Group.Finset
import Mathlib.Data.Fintype.BigOperators
import DartSync.Foundation.Potential
import DartSync.Foundation.Transition

/-!
# Programs on a shared store

Programs that work on one store, each at places of its own, take their steps in
any order.  At its own places, and in its own state, each of them is then where
it can be when it runs alone.
-/

namespace DartSync
namespace Foundation

open scoped BigOperators

universe u v

variable {κ A V L α : Type u}

/-- A program changes a store and a state of its own. -/
abbrev Program (A V L α : Type u) :=
  (A -> V) × L -> α -> Option ((A -> V) × L)

structure WorksOn (owned : A -> Prop) (program : Program A V L α) :
    Prop where
  keeps : forall {m m' l l' a}, program (m, l) a = some (m', l') ->
    forall i, ¬ owned i -> m' i = m i
  agrees : forall {m m' l l' a n}, program (m, l) a = some (m', l') ->
    (forall i, owned i -> n i = m i) ->
      exists n', program (n, l) a = some (n', l') ∧
        forall i, owned i -> n' i = m' i

def sideBySide [DecidableEq κ] (program : κ -> Program A V L α)
    (s : (A -> V) × (κ -> L)) (a : κ × α) : Option ((A -> V) × (κ -> L)) :=
  (program a.1 (s.1, s.2 a.1) a.2).map fun t =>
    (t.1, Function.update s.2 a.1 t.2)

/-- Among the others the program is where it is when it runs alone. -/
structure Alike (owned : κ -> A -> Prop) (s : (A -> V) × (κ -> L)) (k : κ)
    (t : (A -> V) × L) : Prop where
  state : t.2 = s.2 k
  store : forall i, owned k i -> s.1 i = t.1 i

section SideBySide

variable [DecidableEq κ] {program : κ -> Program A V L α}
  {owned : κ -> A -> Prop} {s s' : (A -> V) × (κ -> L)} {k : κ} {a : α}
  {t t' : (A -> V) × L}

theorem sideBySide_eq_some
    (h : sideBySide program s (k, a) = some s') :
    exists t, program k (s.1, s.2 k) a = some t ∧
      s' = (t.1, Function.update s.2 k t.2) := by
  rcases Option.map_eq_some_iff.mp h with ⟨t, ht, hs'⟩
  exact ⟨t, ht, hs'.symm⟩

theorem Alike.own (hworks : WorksOn (owned k) (program k))
    (h : Alike owned s k t) (hstep : sideBySide program s (k, a) = some s') :
    exists t', program k t a = some t' ∧ Alike owned s' k t' := by
  rcases sideBySide_eq_some hstep with ⟨r, hr, rfl⟩
  rcases hworks.agrees hr fun i hi => (h.store i hi).symm with
    ⟨n', hn', hsame⟩
  refine ⟨(n', r.2), ?_, ?_, ?_⟩
  · rw [← hn', ← h.state]
  · dsimp only
    rw [Function.update_self]
  · intro i hi
    exact (hsame i hi).symm

theorem Alike.other {j : κ} (hworks : WorksOn (owned j) (program j))
    (hapart : forall i, owned k i -> ¬ owned j i) (hne : k ≠ j)
    (h : Alike owned s k t) (hstep : sideBySide program s (j, a) = some s') :
    Alike owned s' k t := by
  rcases sideBySide_eq_some hstep with ⟨r, hr, rfl⟩
  constructor
  · dsimp only
    rw [Function.update_of_ne hne]
    exact h.state
  · intro i hi
    rw [← h.store i hi]
    exact hworks.keeps hr i (hapart i hi)

theorem exists_alike (hworks : forall k, WorksOn (owned k) (program k))
    (hapart : forall j k i, owned j i -> owned k i -> j = k) {m : A -> V}
    {l : κ -> L}
    (h : Reachable (sideBySide program) unguarded (m, l) s) (k : κ) :
    exists t, Reachable (program k) unguarded (m, l k) t ∧
      Alike owned s k t := by
  apply h.simulation (R := fun s t => Alike owned s k t)
  · exact ⟨rfl, fun _ _ => rfl⟩
  · intro s a s' t hsame _ hstep
    cases Classical.em (k = a.1) with
    | inl hown =>
        right
        subst hown
        rcases hsame.own (hworks a.1) hstep with ⟨t', ht', hsame'⟩
        exact ⟨a.2, t', trivial, ht', hsame'⟩
    | inr hother =>
        left
        exact hsame.other (hworks a.1)
          (fun i hi hj => hother (hapart k a.1 i hi hj)) hother hstep

theorem sideBySide_keeps (hworks : forall k, WorksOn (owned k) (program k))
    {m : A -> V} {l : κ -> L}
    (h : Reachable (sideBySide program) unguarded (m, l) s) {i : A}
    (hi : forall k, ¬ owned k i) : s.1 i = m i := by
  apply h.invariant (P := fun s => s.1 i = m i)
  · rfl
  · intro s a s' hs _ hstep
    rcases sideBySide_eq_some hstep with ⟨r, hr, rfl⟩
    rw [← hs]
    exact (hworks a.1).keeps hr i (hi a.1)

theorem Alike.stuck (hworks : WorksOn (owned k) (program k))
    (h : Alike owned s k t)
    (hstuck : forall a, sideBySide program s a = none) (a : α) :
    program k t a = none := by
  cases hstep : program k t a with
  | none => rfl
  | some t' =>
      rcases hworks.agrees (m := t.1) (l := t.2) hstep h.store with
        ⟨n', hn', _⟩
      have hnone := hstuck (k, a)
      unfold sideBySide at hnone
      dsimp only at hnone
      rw [← h.state, hn'] at hnone
      cases hnone

theorem sum_lt_of_sideBySide [Fintype κ] {M : Type v} [AddCommMonoid M]
    [PartialOrder M] [IsOrderedCancelAddMonoid M] (potential : κ -> L -> M)
    (hstep : sideBySide program s (k, a) = some s')
    (hless : potential k (s'.2 k) < potential k (s.2 k)) :
    ∑ j, potential j (s'.2 j) < ∑ j, potential j (s.2 j) := by
  rcases sideBySide_eq_some hstep with ⟨r, _, rfl⟩
  apply sum_lt_of_one k hless
  intro j hj
  exact congrArg (potential j) (Function.update_of_ne hj _ _)

end SideBySide

end Foundation
end DartSync
