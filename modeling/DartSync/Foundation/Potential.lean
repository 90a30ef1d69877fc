import Mathlib.Algebra.BigOperators.Group.List.Basic
import Mathlib.Algebra.GroupWithZero.Nat
import Mathlib.Algebra.Order.BigOperators.Group.Finset
import Mathlib.Algebra.Order.Monoid.Prod
import Mathlib.Data.Fintype.BigOperators
import Mathlib.Data.Prod.Lex
import Mathlib.Order.WellFounded
import DartSync.Foundation.Transition

/-!
# Potentials of systems of many parts

A system works on until it is stuck.  It gets stuck in every run if each step
makes a potential smaller; the potential of a system of many parts is the sum of
theirs, in layers, of which an upper one outweighs all below it.
-/

namespace DartSync
namespace Foundation

open scoped BigOperators

universe u v

/-!
## Layers
-/

/-- Three layers, the uppermost first. -/
abbrev Layers : Type := Nat ×ₗ Nat ×ₗ Nat

def layers (a b c : Nat) : Layers :=
  toLex (a, toLex (b, c))

section Layers

variable {a b c a' b' c' : Nat}

theorem layers_lt_of_first (h : a' < a) : layers a' b' c' < layers a b c :=
  Prod.Lex.toLex_lt_toLex.mpr (Or.inl h)

theorem layers_lt_of_second (ha : a' ≤ a) (h : b' < b) :
    layers a' b' c' < layers a b c := by
  cases Nat.lt_or_eq_of_le ha with
  | inl hlt => exact layers_lt_of_first hlt
  | inr heq =>
      exact Prod.Lex.toLex_lt_toLex.mpr
        (Or.inr ⟨heq, Prod.Lex.toLex_lt_toLex.mpr (Or.inl h)⟩)

theorem layers_lt_of_third (ha : a' ≤ a) (hb : b' ≤ b) (h : c' < c) :
    layers a' b' c' < layers a b c := by
  cases Nat.lt_or_eq_of_le hb with
  | inl hlt => exact layers_lt_of_second ha hlt
  | inr heq =>
      cases Nat.lt_or_eq_of_le ha with
      | inl hlt => exact layers_lt_of_first hlt
      | inr hsame =>
          exact Prod.Lex.toLex_lt_toLex.mpr
            (Or.inr ⟨hsame, Prod.Lex.toLex_lt_toLex.mpr (Or.inr ⟨heq, h⟩)⟩)

end Layers

/-!
## Sums
-/

theorem sum_lt_of_one {κ : Type u} [Fintype κ] {M : Type v} [AddCommMonoid M]
    [PartialOrder M] [IsOrderedCancelAddMonoid M] {f g : κ -> M} (i : κ)
    (hless : f i < g i) (hsame : forall j, j ≠ i -> f j = g j) :
    ∑ j, f j < ∑ j, g j := by
  apply Finset.sum_lt_sum
  · intro j _
    cases Classical.em (j = i) with
    | inl hj =>
        rw [hj]
        exact le_of_lt hless
    | inr hj => exact le_of_eq (hsame j hj)
  · exact ⟨i, Finset.mem_univ i, hless⟩

section ListSums

variable {α : Type u} {l : List α} {i : Nat} {d d' : α}

theorem sum_map_set (g : α -> Nat) (h : l[i]? = some d) :
    ((l.set i d').map g).sum + g d = (l.map g).sum + g d' := by
  induction l generalizing i with
  | nil => cases h
  | cons a rest ih =>
      cases i with
      | zero =>
          rw [List.getElem?_cons_zero, Option.some_inj] at h
          rw [List.set_cons_zero, List.map_cons, List.map_cons, List.sum_cons,
            List.sum_cons, h]
          omega
      | succ i =>
          rw [List.getElem?_cons_succ] at h
          have hrest := ih h
          rw [List.set_cons_succ, List.map_cons, List.map_cons, List.sum_cons,
            List.sum_cons]
          omega

theorem sum_map_eraseIdx (g : α -> Nat) (h : l[i]? = some d) :
    ((l.eraseIdx i).map g).sum + g d = (l.map g).sum := by
  induction l generalizing i with
  | nil => cases h
  | cons a rest ih =>
      cases i with
      | zero =>
          rw [List.getElem?_cons_zero, Option.some_inj] at h
          rw [List.eraseIdx_cons_zero, List.map_cons, List.sum_cons, h]
          omega
      | succ i =>
          rw [List.getElem?_cons_succ] at h
          have hrest := ih h
          rw [List.eraseIdx_cons_succ, List.map_cons, List.map_cons,
            List.sum_cons, List.sum_cons]
          omega

theorem sum_map_concat (g : α -> Nat) (l : List α) (a : α) :
    ((l ++ [a]).map g).sum = (l.map g).sum + g a := by
  rw [List.map_append, List.sum_append, List.map_singleton,
    List.sum_singleton]

end ListSums

/-!
## Runs that end
-/

section Runs

variable {σ : Type u} {τ : Type v} [Preorder τ] [WellFoundedLT τ]
  {steps : σ -> σ -> Prop}

theorem no_endless_run (potential : σ -> τ)
    (hless : forall s s', steps s s' -> potential s' < potential s) :
    ¬ exists run : Nat -> σ, forall n, steps (run n) (run (n + 1)) := by
  intro hrun
  rcases hrun with ⟨run, hsteps⟩
  rcases @WellFounded.not_rel_apply_succ _ (fun x y : τ => x < y) _
    (fun n => potential (run n)) with ⟨n, hn⟩
  exact hn (hless _ _ (hsteps n))

theorem no_endless_run_from {α : Type v} {step : σ -> α -> Option σ} {start : σ}
    (potential : σ -> τ)
    (hless : forall s a s', Reachable step unguarded start s ->
      step s a = some s' -> potential s' < potential s) :
    ¬ exists run : Nat -> σ, run 0 = start ∧
      forall n, exists a, step (run n) a = some (run (n + 1)) := by
  intro h
  rcases h with ⟨run, hstart, hsteps⟩
  have hreach : forall n, Reachable step unguarded start (run n) := by
    intro n
    induction n with
    | zero =>
        rw [hstart]
        exact Reachable.start
    | succ n ih =>
        rcases hsteps n with ⟨a, ha⟩
        exact Reachable.step ih trivial ha
  apply @no_endless_run _ _ _ _ (fun s s' =>
    Reachable step unguarded start s ∧ exists a, step s a = some s') potential
  · intro s s' h
    rcases h with ⟨hs, a, ha⟩
    exact hless s a s' hs ha
  · exact ⟨run, fun n => ⟨hreach n, hsteps n⟩⟩

theorem exists_stuck (potential : σ -> τ)
    (hless : forall s s', steps s s' -> potential s' < potential s) (s : σ) :
    exists s', Relation.ReflTransGen steps s s' ∧
      forall s'', ¬ steps s' s'' := by
  induction hp : potential s using WellFoundedLT.induction generalizing s with
  | ind x ih =>
      cases Classical.em (exists s1, steps s s1) with
      | inl hstep =>
          rcases hstep with ⟨s1, hs1⟩
          rcases ih (potential s1) (hp ▸ hless s s1 hs1) s1 rfl with
            ⟨s', hrun, hstuck⟩
          exact ⟨s', Relation.ReflTransGen.head hs1 hrun, hstuck⟩
      | inr hnone =>
          exact ⟨s, Relation.ReflTransGen.refl, fun s'' h =>
            hnone ⟨s'', h⟩⟩

end Runs

end Foundation
end DartSync
