import Mathlib.Data.List.Basic

/-!
# Interleavings of two sequences

What a shared channel carries when two writers send their items one by one.
-/

namespace DartSync
namespace Foundation

universe u

variable {α : Type u}

/-- The items of both sequences, each in its own order. -/
inductive Shuffle : List α -> List α -> List α -> Prop where
  | nil : Shuffle [] [] []
  | left {a : α} {xs ys zs : List α} :
      Shuffle xs ys zs -> Shuffle (a :: xs) ys (a :: zs)
  | right {b : α} {xs ys zs : List α} :
      Shuffle xs ys zs -> Shuffle xs (b :: ys) (b :: zs)

namespace Shuffle

theorem symm {xs ys zs : List α} (h : Shuffle xs ys zs) :
    Shuffle ys xs zs := by
  induction h with
  | nil => exact Shuffle.nil
  | left _ ih => exact Shuffle.right ih
  | right _ ih => exact Shuffle.left ih

theorem length_eq {xs ys zs : List α} (h : Shuffle xs ys zs) :
    zs.length = xs.length + ys.length := by
  induction h with
  | nil => rfl
  | left _ ih =>
      rw [List.length_cons, List.length_cons, ih, Nat.add_right_comm]
  | right _ ih =>
      rw [List.length_cons, List.length_cons, ih, Nat.add_assoc]

theorem mem {xs ys zs : List α} (h : Shuffle xs ys zs) {z : α}
    (hz : z ∈ zs) : z ∈ xs ∨ z ∈ ys := by
  induction h with
  | nil => cases hz
  | left _ ih =>
      cases hz with
      | head => exact Or.inl (List.mem_cons_self)
      | tail _ hz =>
          cases ih hz with
          | inl hx => exact Or.inl (List.mem_cons_of_mem _ hx)
          | inr hy => exact Or.inr hy
  | right _ ih =>
      cases hz with
      | head => exact Or.inr (List.mem_cons_self)
      | tail _ hz =>
          cases ih hz with
          | inl hx => exact Or.inl hx
          | inr hy => exact Or.inr (List.mem_cons_of_mem _ hy)

theorem eq_of_nil {ys zs : List α} (h : Shuffle [] ys zs) : zs = ys := by
  induction ys generalizing zs with
  | nil => cases h; rfl
  | cons b ys ih =>
      cases h with
      | right h => rw [ih h]

theorem drop_length {xs ys zs : List α} {b : α}
    (h : Shuffle xs (b :: ys) zs) :
    zs = xs ++ b :: ys ∨
      forall z, z ∈ zs.drop xs.length -> z ∈ xs ∨ z ∈ ys := by
  induction xs generalizing zs with
  | nil => exact Or.inl h.eq_of_nil
  | cons a xs ih =>
      cases h with
      | left h =>
          cases ih h with
          | inl hwhole => exact Or.inl (by rw [hwhole]; rfl)
          | inr hrest =>
              right
              intro z hz
              cases hrest z hz with
              | inl hx => exact Or.inl (List.mem_cons_of_mem a hx)
              | inr hy => exact Or.inr hy
      | right h =>
          right
          intro z hz
          exact h.mem (List.mem_of_mem_drop hz)

theorem split_of_singleton {xs zs : List α} {b : α}
    (h : Shuffle xs [b] zs) :
    exists front back, xs = front ++ back ∧ zs = front ++ b :: back := by
  induction xs generalizing zs with
  | nil => exact ⟨[], [], rfl, h.eq_of_nil⟩
  | cons a xs ih =>
      cases h with
      | left h =>
          rcases ih h with ⟨front, back, hxs, hzs⟩
          exact ⟨a :: front, back, by rw [hxs]; rfl, by rw [hzs]; rfl⟩
      | right h => exact ⟨[], a :: xs, rfl, by rw [h.symm.eq_of_nil]; rfl⟩

end Shuffle

end Foundation
end DartSync
