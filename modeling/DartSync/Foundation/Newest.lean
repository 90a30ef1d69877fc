import Mathlib.Data.List.Induction
import Mathlib.Order.Lattice

/-!
# The newest element

A list read from the left, keeping the element with the largest key; between
elements with one key the earlier stays.
-/

namespace DartSync
namespace Foundation

universe u v

variable {α : Type u} {κ : Type v} [LinearOrder κ] {key : α -> κ}

def keepNewest (key : α -> κ) : Option α -> α -> Option α
  | none, a => some a
  | some kept, a => if key kept < key a then some a else some kept

def newest (key : α -> κ) (l : List α) : Option α :=
  l.foldl (keepNewest key) none

variable {l l' : List α} {a b : α}

@[simp] theorem newest_nil : newest key ([] : List α) = none := rfl

theorem newest_concat :
    newest key (l ++ [a]) = keepNewest key (newest key l) a := by
  unfold newest
  rw [List.foldl_append]
  rfl

theorem newest_eq_none_iff : newest key l = none <-> l = [] := by
  induction l using List.reverseRecOn with
  | nil => simp
  | append_singleton l a ih =>
      rw [newest_concat]
      constructor
      · intro h
        cases hkept : newest key l with
        | none =>
            rw [hkept] at h
            cases h
        | some kept =>
            rw [hkept, keepNewest] at h
            split at h <;> cases h
      · intro h
        exact absurd h (by simp)

theorem mem_and_le_of_newest (h : newest key l = some a) :
    a ∈ l ∧ forall x, x ∈ l -> key x ≤ key a := by
  induction l using List.reverseRecOn generalizing a with
  | nil => cases h
  | append_singleton l b ih =>
      rw [newest_concat] at h
      cases hkept : newest key l with
      | none =>
          rw [hkept] at h
          cases h
          rw [newest_eq_none_iff] at hkept
          simp [hkept]
      | some kept =>
          rcases ih hkept with ⟨hmem, hle⟩
          rw [hkept, keepNewest] at h
          split at h
          · next hlt =>
              cases h
              refine ⟨by simp, ?_⟩
              intro x hx
              rcases List.mem_append.mp hx with hx | hx
              · exact le_trans (hle x hx) (le_of_lt hlt)
              · rw [List.mem_singleton.mp hx]
          · next hge =>
              cases h
              refine ⟨List.mem_append_left _ hmem, ?_⟩
              intro x hx
              rcases List.mem_append.mp hx with hx | hx
              · exact hle x hx
              · rw [List.mem_singleton.mp hx]
                exact not_lt.mp hge

theorem mem_of_newest (h : newest key l = some a) : a ∈ l :=
  (mem_and_le_of_newest h).left

theorem le_of_newest (h : newest key l = some a) {x : α} (hx : x ∈ l) :
    key x ≤ key a :=
  (mem_and_le_of_newest h).right x hx

/-!
## Several lists
-/

theorem newest_append_of_le (h : newest key l = some a)
    (hle : forall x, x ∈ l' -> key x ≤ key a) :
    newest key (l ++ l') = some a := by
  induction l' using List.reverseRecOn with
  | nil =>
      rw [List.append_nil]
      exact h
  | append_singleton l' b ih =>
      have hbefore := ih fun x hx => hle x (List.mem_append_left _ hx)
      rw [← List.append_assoc, newest_concat, hbefore, keepNewest, if_neg]
      exact not_lt.mpr (hle b (by simp))

theorem newest_append_of_lt (h : newest key l' = some a)
    (hlt : forall x, x ∈ l -> key x < key a) :
    newest key (l ++ l') = some a := by
  induction l' using List.reverseRecOn generalizing a with
  | nil => cases h
  | append_singleton l' b ih =>
      rw [newest_concat] at h
      rw [← List.append_assoc, newest_concat]
      cases hkept : newest key l' with
      | none =>
          rw [hkept] at h
          cases h
          rw [newest_eq_none_iff.mp hkept, List.append_nil]
          cases hfirst : newest key l with
          | none => rfl
          | some c => exact if_pos (hlt c (mem_of_newest hfirst))
      | some kept =>
          rw [hkept, keepNewest] at h
          split at h
          · next hnewer =>
              cases h
              cases hboth : newest key (l ++ l') with
              | none => rfl
              | some c =>
                  apply if_pos
                  rcases List.mem_append.mp (mem_of_newest hboth) with hc | hc
                  · exact hlt c hc
                  · exact lt_of_le_of_lt (le_of_newest hkept hc) hnewer
          · next hkeep =>
              cases h
              rw [ih hkept hlt]
              exact if_neg hkeep

theorem newest_append_cases (h : newest key (l ++ l') = some a) :
    newest key l = some a ∨
      (newest key l' = some a ∧ forall x, x ∈ l -> key x < key a) := by
  cases hl : newest key l with
  | none =>
      rw [newest_eq_none_iff] at hl
      subst hl
      refine Or.inr ⟨h, ?_⟩
      intro x hx
      cases hx
  | some c =>
      cases hl' : newest key l' with
      | none =>
          rw [newest_eq_none_iff] at hl'
          rw [hl', List.append_nil, hl] at h
          exact Or.inl h
      | some d =>
          cases lt_or_ge (key c) (key d) with
          | inl hlt =>
              have hfirst : forall x, x ∈ l -> key x < key d := fun x hx =>
                lt_of_le_of_lt (le_of_newest hl hx) hlt
              rw [newest_append_of_lt hl' hfirst] at h
              cases h
              exact Or.inr ⟨rfl, hfirst⟩
          | inr hge =>
              rw [newest_append_of_le hl fun x hx =>
                le_trans (le_of_newest hl' hx) hge] at h
              exact Or.inl h

theorem exists_newest_of_flatten {lists : List (List α)}
    (h : newest key lists.flatten = some a) :
    exists l, l ∈ lists ∧ newest key l = some a := by
  induction lists with
  | nil => cases h
  | cons l rest ih =>
      rw [List.flatten_cons] at h
      rcases newest_append_cases h with h | ⟨h, _⟩
      · exact ⟨l, List.mem_cons_self, h⟩
      · rcases ih h with ⟨l', hl', hnewest⟩
        exact ⟨l', List.mem_cons_of_mem l hl', hnewest⟩

end Foundation
end DartSync
