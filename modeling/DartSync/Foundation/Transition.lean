import Mathlib.Data.List.Basic
import Mathlib.Tactic.Tauto

/-!
# Guarded transition systems

A system is an executable step function: `step s a` is the state after the
action `a`, or `none` where `a` is not enabled.  Runs are folded over lists of
actions, so a concrete run can be computed, and the reachable states come with
an induction rule.

A guard restricts the runs to those whose every step meets a condition on the
state before the step.  The unrestricted system is the one whose guard always
holds.
-/

namespace DartSync
namespace Foundation

universe u v w

variable {σ : Type u} {α : Type v}

/-- Play a list of actions; `none` as soon as one of them is not enabled. -/
def runFrom (step : σ -> α -> Option σ) : σ -> List α -> Option σ
  | s, [] => some s
  | s, a :: rest =>
      match step s a with
      | none => none
      | some s' => runFrom step s' rest

theorem runFrom_cons_eq_some_iff {step : σ -> α -> Option σ} {s s' : σ}
    {a : α} {rest : List α} :
    runFrom step s (a :: rest) = some s' <->
      exists t, step s a = some t ∧ runFrom step t rest = some s' := by
  rw [runFrom]
  cases step s a with
  | none => simp
  | some t => simp

theorem runFrom_append_eq_some_iff {step : σ -> α -> Option σ} {s s' : σ}
    {before after : List α} :
    runFrom step s (before ++ after) = some s' <->
      exists t, runFrom step s before = some t ∧
        runFrom step t after = some s' := by
  induction before generalizing s with
  | nil => simp [runFrom]
  | cons a rest ih =>
      rw [List.cons_append, runFrom, runFrom]
      cases step s a with
      | none => simp
      | some t => exact ih

inductive Reachable (step : σ -> α -> Option σ) (guard : σ -> α -> Prop)
    (start : σ) : σ -> Prop where
  | start : Reachable step guard start start
  | step {s s' : σ} {a : α} :
      Reachable step guard start s -> guard s a -> step s a = some s' ->
        Reachable step guard start s'

def unguarded : σ -> α -> Prop :=
  fun _ _ => True

namespace Reachable

variable {step : σ -> α -> Option σ} {guard : σ -> α -> Prop}
  {start : σ}

/-- A property of the start that every guarded step preserves holds in every
reachable state. -/
theorem invariant {P : σ -> Prop} (hstart : P start)
    (hstep : forall s a s', P s -> guard s a -> step s a = some s' -> P s')
    {s : σ} (h : Reachable step guard start s) : P s := by
  induction h with
  | start => exact hstart
  | step _ hguard hs ih => exact hstep _ _ _ ih hguard hs

theorem of_runFrom {s : σ} (h : Reachable step unguarded start s) :
    forall {actions : List α} {s' : σ},
      runFrom step s actions = some s' ->
        Reachable step unguarded start s' := by
  intro actions
  induction actions generalizing s with
  | nil =>
      intro s' hrun
      cases hrun
      exact h
  | cons a rest ih =>
      intro s' hrun
      unfold runFrom at hrun
      cases hs : step s a with
      | none =>
          rw [hs] at hrun
          cases hrun
      | some s1 =>
          rw [hs] at hrun
          exact ih (Reachable.step h trivial hs) hrun

/-- If every step of a system is matched by one step of another system or by
none, its reachable states are related to reachable states of the other. -/
theorem simulation {τ : Type u} {β : Type v} {step' : τ -> β -> Option τ}
    {guard' : τ -> β -> Prop} {start' : τ} {R : σ -> τ -> Prop}
    (hstart : R start start')
    (hstep : forall s a s' t, R s t -> guard s a -> step s a = some s' ->
      R s' t ∨ exists b t', guard' t b ∧ step' t b = some t' ∧ R s' t')
    {s : σ} (h : Reachable step guard start s) :
    exists t, Reachable step' guard' start' t ∧ R s t := by
  induction h with
  | start => exact ⟨start', Reachable.start, hstart⟩
  | step _ hguard hs ih =>
      rcases ih with ⟨t, ht, hR⟩
      cases hstep _ _ _ t hR hguard hs with
      | inl hR' => exact ⟨t, ht, hR'⟩
      | inr hmatched =>
          rcases hmatched with ⟨b, t', hguard', hs', hR'⟩
          exact ⟨t', Reachable.step ht hguard' hs', hR'⟩

end Reachable

theorem reachable_of_runFrom {step : σ -> α -> Option σ} {start s : σ}
    {actions : List α} (h : runFrom step start actions = some s) :
    Reachable step unguarded start s :=
  Reachable.start.of_runFrom h

theorem runFrom_simulation {τ : Type w} {step : σ -> α -> Option σ}
    {step' : τ -> α -> Option τ} {R : σ -> τ -> Prop} {s s' : σ} {t : τ}
    {actions : List α}
    (hstep : forall s a s' t, R s t -> step s a = some s' ->
      exists t', step' t a = some t' ∧ R s' t')
    (hR : R s t) (hrun : runFrom step s actions = some s') :
    exists t', runFrom step' t actions = some t' ∧ R s' t' := by
  induction actions generalizing s t with
  | nil =>
      cases hrun
      exact ⟨t, rfl, hR⟩
  | cons a rest ih =>
      rcases runFrom_cons_eq_some_iff.mp hrun with ⟨s1, hs1, hrun⟩
      rcases hstep s a s1 t hR hs1 with ⟨t1, ht1, hR1⟩
      rcases ih hR1 hrun with ⟨t', hrun', hR'⟩
      exact ⟨t', runFrom_cons_eq_some_iff.mpr ⟨t1, ht1, hrun'⟩, hR'⟩

theorem exists_reachable_of_check (step : σ -> α -> Option σ) (start : σ)
    (actions : List α) (P : σ -> Prop) [DecidablePred P]
    (h : (runFrom step start actions).any (fun s => decide (P s)) = true) :
    exists s, Reachable step unguarded start s ∧ P s := by
  cases hrun : runFrom step start actions with
  | none =>
      rw [hrun] at h
      cases h
  | some s =>
      rw [hrun] at h
      exact ⟨s, reachable_of_runFrom hrun, of_decide_eq_true h⟩

/-!
## What holds along a run
-/

def Throughout (step : σ -> α -> Option σ) (P : σ -> Prop) :
    σ -> List α -> Prop
  | s, [] => P s
  | s, a :: rest =>
      P s ∧ forall t, step s a = some t -> Throughout step P t rest

/-!
## The last step that matters
-/

def Avoids (step : σ -> α -> Option σ) (resets : σ -> α -> Prop) :
    σ -> List α -> Prop
  | _, [] => True
  | s, a :: rest =>
      ¬ resets s a ∧ forall t, step s a = some t -> Avoids step resets t rest

/-- Some step of the run is one of `sets`, and none after it is one of
`resets`. -/
def SetLast (step : σ -> α -> Option σ) (sets resets : σ -> α -> Prop)
    (s : σ) (actions : List α) : Prop :=
  exists before a after t u, actions = before ++ a :: after ∧
    runFrom step s before = some t ∧ sets t a ∧ step t a = some u ∧
    Avoids step resets u after

section LastStep

variable {step : σ -> α -> Option σ} {sets resets : σ -> α -> Prop}
  {s t s' : σ} {a : α} {rest actions : List α}

theorem avoids_cons_iff (h : step s a = some t) :
    Avoids step resets s (a :: rest) <->
      ¬ resets s a ∧ Avoids step resets t rest := by
  rw [Avoids, h]
  constructor
  · intro havoids
    exact ⟨havoids.left, havoids.right t rfl⟩
  · intro havoids
    refine ⟨havoids.left, ?_⟩
    intro u hu
    cases hu
    exact havoids.right

theorem reachable_of_avoids (hrun : runFrom step s actions = some s')
    (havoids : Avoids step resets s actions) {start : σ}
    (h : Reachable step (fun s a => ¬ resets s a) start s) :
    Reachable step (fun s a => ¬ resets s a) start s' := by
  induction actions generalizing s with
  | nil =>
      cases hrun
      exact h
  | cons a rest ih =>
      rcases runFrom_cons_eq_some_iff.mp hrun with ⟨t, ht, hrun⟩
      rw [avoids_cons_iff ht] at havoids
      exact ih hrun havoids.right (Reachable.step h havoids.left ht)

theorem exists_of_not_avoids (hrun : runFrom step s actions = some s')
    (h : ¬ Avoids step resets s actions) :
    exists before a after t u, actions = before ++ a :: after ∧
      runFrom step s before = some t ∧ resets t a ∧ step t a = some u ∧
      runFrom step u after = some s' := by
  induction actions generalizing s with
  | nil => exact absurd trivial h
  | cons a rest ih =>
      rcases runFrom_cons_eq_some_iff.mp hrun with ⟨t, ht, hrun⟩
      cases Classical.em (resets s a) with
      | inl hreset => exact ⟨[], a, rest, s, t, rfl, rfl, hreset, ht, hrun⟩
      | inr hkeep =>
          rw [avoids_cons_iff ht, not_and] at h
          rcases ih hrun (h hkeep) with
            ⟨before, b, after, u, v, rfl, hbefore, hreset, hstep, hafter⟩
          refine ⟨a :: before, b, after, u, v, rfl, ?_, hreset, hstep, hafter⟩
          exact runFrom_cons_eq_some_iff.mpr ⟨t, ht, hbefore⟩

/-- If the steps that spoil a run lead to bad states, and bad states stay bad,
then a run ends in a good state or in a bad one, as it has no such step or
some.  The invariant `I` holds in both cases. -/
theorem good_or_bad {I G B : σ -> Prop}
    (hstep : forall s a s', I s -> step s a = some s' -> I s')
    (hkeep : forall s a s', I s -> G s -> ¬ resets s a ->
      step s a = some s' -> G s')
    (hspoil : forall s a s', I s -> resets s a -> step s a = some s' -> B s')
    (hstay : forall s a s', I s -> B s -> step s a = some s' -> B s')
    (hI : I s) (hgood : G s) (hrun : runFrom step s actions = some s') :
    I s' ∧ ((Avoids step resets s actions ∧ G s') ∨
      (¬ Avoids step resets s actions ∧ B s')) := by
  refine ⟨(reachable_of_runFrom hrun).invariant hI ?_, ?_⟩
  · intro t a u ht _ hu
    exact hstep t a u ht hu
  cases Classical.em (Avoids step resets s actions) with
  | inl havoids =>
      have hboth := (reachable_of_avoids hrun havoids Reachable.start).invariant
        (P := fun t => I t ∧ G t) ⟨hI, hgood⟩ (by
          intro t a u ht hguard hu
          exact ⟨hstep t a u ht.left hu, hkeep t a u ht.left ht.right hguard hu⟩)
      exact Or.inl ⟨havoids, hboth.right⟩
  | inr hspoiled =>
      rcases exists_of_not_avoids hrun hspoiled with
        ⟨before, a, after, t, u, _, hbefore, hreset, hu, hafter⟩
      have ht : I t := by
        apply (reachable_of_runFrom hbefore).invariant hI
        intro t a u ht _ hu
        exact hstep t a u ht hu
      have hboth := (reachable_of_runFrom hafter).invariant
        (P := fun t => I t ∧ B t)
        ⟨hstep t a u ht hu, hspoil t a u ht hreset hu⟩ (by
          intro t a u ht _ hu
          exact ⟨hstep t a u ht.left hu, hstay t a u ht.left ht.right hu⟩)
      exact Or.inr ⟨hspoiled, hboth.right⟩

theorem setLast_cons_iff (h : step s a = some t) :
    SetLast step sets resets s (a :: rest) <->
      (sets s a ∧ Avoids step resets t rest) ∨
        SetLast step sets resets t rest := by
  constructor
  · intro hlast
    rcases hlast with ⟨before, b, after, u, v, heq, hrun, hsets, hstep, havoids⟩
    cases before with
    | nil =>
        cases hrun
        cases heq
        rw [h] at hstep
        cases hstep
        exact Or.inl ⟨hsets, havoids⟩
    | cons c before =>
        rw [List.cons_append, List.cons.injEq] at heq
        rcases heq with ⟨rfl, rfl⟩
        rcases runFrom_cons_eq_some_iff.mp hrun with ⟨w, hw, hrun⟩
        rw [h] at hw
        cases hw
        exact Or.inr ⟨before, b, after, u, v, rfl, hrun, hsets, hstep, havoids⟩
  · intro hlast
    rcases hlast with ⟨hsets, havoids⟩ |
      ⟨before, b, after, u, v, rfl, hrun, hsets, hstep, havoids⟩
    · exact ⟨[], a, rest, s, t, rfl, rfl, hsets, h, havoids⟩
    · refine ⟨a :: before, b, after, u, v, rfl, ?_, hsets, hstep, havoids⟩
      exact runFrom_cons_eq_some_iff.mpr ⟨t, h, hrun⟩

/-- If the steps that spoil `P` are known, then `P` holds throughout a run that
starts with it exactly when the run has no such step. -/
theorem throughout_iff_avoids {I P : σ -> Prop}
    (hstep : forall s a s', I s -> P s -> step s a = some s' ->
      I s' ∧ (P s' <-> ¬ resets s a))
    (hI : I s) (hP : P s) (hrun : runFrom step s actions = some s') :
    Throughout step P s actions <-> Avoids step resets s actions := by
  induction actions generalizing s with
  | nil => exact iff_of_true hP trivial
  | cons a rest ih =>
      rcases runFrom_cons_eq_some_iff.mp hrun with ⟨t, ht, hrun⟩
      rcases hstep s a t hI hP ht with ⟨hIt, hPt⟩
      rw [avoids_cons_iff ht, Throughout]
      constructor
      · intro h
        have hrest := h.right t ht
        have hPrest : P t := by
          cases rest with
          | nil => exact hrest
          | cons b rest => exact hrest.left
        exact ⟨hPt.mp hPrest, (ih hIt hPrest hrun).mp hrest⟩
      · intro h
        refine ⟨hP, ?_⟩
        intro u hu
        rw [ht] at hu
        cases hu
        exact (ih hIt (hPt.mpr h.left) hrun).mpr h.right

theorem throughout_iff_avoids_of_keeps {G P : σ -> Prop}
    (hgood : forall s, G s -> P s)
    (hkeep : forall s a s', G s -> ¬ resets s a -> step s a = some s' -> G s')
    (hspoil : forall s a s', G s -> resets s a -> step s a = some s' -> ¬ P s')
    (hG : G s) (hrun : runFrom step s actions = some s') :
    Throughout step P s actions <-> Avoids step resets s actions := by
  refine throughout_iff_avoids (I := fun t => P t -> G t) ?_ (fun _ => hG)
    (hgood s hG) hrun
  intro t a u ht hP hstep
  cases Classical.em (resets t a) with
  | inl hreset =>
      have hbad := hspoil t a u (ht hP) hreset hstep
      exact ⟨fun hu => absurd hu hbad,
        iff_of_false hbad fun hguard => hguard hreset⟩
  | inr hguard =>
      have hu := hkeep t a u (ht hP) hguard hstep
      exact ⟨fun _ => hu, iff_of_true (hgood u hu) hguard⟩

/-- If every step keeps the invariant `I` and sets or resets `P` as described,
then `P` holds after a run that starts without it exactly when the last step
that matters sets it. -/
theorem holds_iff_setLast {I P : σ -> Prop}
    (hstep : forall s a s', I s -> step s a = some s' ->
      I s' ∧ (P s' <-> sets s a ∨ (P s ∧ ¬ resets s a)))
    (hI : I s) (hrun : runFrom step s actions = some s') (hP : ¬ P s) :
    P s' <-> SetLast step sets resets s actions := by
  have hgeneral : P s' <-> SetLast step sets resets s actions ∨
      (P s ∧ Avoids step resets s actions) := by
    clear hP
    induction actions generalizing s with
    | nil =>
        cases hrun
        constructor
        · intro h
          exact Or.inr ⟨h, trivial⟩
        · intro h
          rcases h with ⟨before, a, after, t, u, heq, _⟩ | h
          · cases before <;> cases heq
          · exact h.left
    | cons a rest ih =>
        rcases runFrom_cons_eq_some_iff.mp hrun with ⟨t, ht, hrun⟩
        rcases hstep s a t hI ht with ⟨hIt, hPt⟩
        rw [ih hIt hrun, setLast_cons_iff ht, avoids_cons_iff ht, hPt]
        tauto
  rw [hgeneral]
  constructor
  · intro h
    rcases h with h | h
    · exact h
    · exact absurd h.left hP
  · exact Or.inl

end LastStep

/-!
## Systems of several processes

The state keeps the processes in a list, and a step replaces or adds one.
-/

section Processes

variable {π : Type w} {l : List π} {i j : Nat} {v w : π}

theorem getElem?_set_cases (h : (l.set j w)[i]? = some v) :
    (i = j ∧ v = w) ∨ (i ≠ j ∧ l[i]? = some v) := by
  cases Classical.em (i = j) with
  | inl heq =>
      subst heq
      rw [List.getElem?_set_self'] at h
      rcases Option.map_eq_some_iff.mp h with ⟨_, _, rfl⟩
      exact Or.inl ⟨rfl, rfl⟩
  | inr hne =>
      rw [List.getElem?_set_ne (Ne.symm hne)] at h
      exact Or.inr ⟨hne, h⟩

theorem getElem?_concat_cases (h : (l ++ [w])[i]? = some v) :
    (i = l.length ∧ v = w) ∨ l[i]? = some v := by
  rcases Nat.lt_trichotomy i l.length with hlt | rfl | hgt
  · rw [List.getElem?_append_left hlt] at h
    exact Or.inr h
  · rw [List.getElem?_concat_length] at h
    exact Or.inl ⟨rfl, (Option.some.inj h).symm⟩
  · rw [List.getElem?_eq_none (by simp; omega)] at h
    cases h

end Processes

end Foundation
end DartSync
