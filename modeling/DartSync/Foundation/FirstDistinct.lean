import Mathlib.Data.List.Induction
import Mathlib.Data.List.Nodup

/-!
# First distinct elements

A list read from the left, keeping each value at its first appearance, and the
same with a bound on how many values are kept.  Both are computed one element
at a time, by an insertion that appends a new value while there is room.
-/

namespace DartSync
namespace Foundation

universe u

variable {α : Type u} [DecidableEq α]

def insertCapped (cap : Nat) (a : α) (l : List α) : List α :=
  if a ∉ l ∧ l.length < cap then l ++ [a] else l

def firstDistinct (cap : Nat) (l : List α) : List α :=
  l.eraseDups.take cap

theorem eraseDups_concat (l : List α) (a : α) :
    (l ++ [a]).eraseDups =
      if a ∈ l then l.eraseDups else l.eraseDups ++ [a] := by
  rw [List.eraseDups_append]
  by_cases h : a ∈ l
  · rw [if_pos h]
    simp [List.removeAll, h]
  · rw [if_neg h]
    have hremove : [a].removeAll l = [a] := by
      simp [List.removeAll, h]
    rw [hremove]
    rfl

theorem nodup_eraseDups (l : List α) : l.eraseDups.Nodup := by
  induction l using List.reverseRecOn with
  | nil => simp
  | append_singleton l a ih =>
      rw [eraseDups_concat]
      split
      · exact ih
      · next h =>
          rw [List.nodup_append]
          refine ⟨ih, List.nodup_singleton a, ?_⟩
          intro x hx y hy hxy
          rw [List.mem_singleton] at hy
          rw [hxy, hy] at hx
          exact h (List.mem_eraseDups.mp hx)

theorem firstDistinct_concat (cap : Nat) (l : List α) (a : α) :
    firstDistinct cap (l ++ [a]) =
      insertCapped cap a (firstDistinct cap l) := by
  unfold firstDistinct insertCapped
  rw [eraseDups_concat]
  by_cases hlen : l.eraseDups.length < cap
  · -- the bound is not reached, so nothing was cut off before
    have htake : l.eraseDups.take cap = l.eraseDups :=
      List.take_of_length_le (Nat.le_of_lt hlen)
    rw [htake]
    by_cases h : a ∈ l
    · rw [if_pos h, if_neg fun hnew =>
        hnew.left (List.mem_eraseDups.mpr h), htake]
    · rw [if_neg h, if_pos ⟨fun hmem => h (List.mem_eraseDups.mp hmem), hlen⟩]
      apply List.take_of_length_le
      rw [List.length_append]
      exact hlen
  · have hcap : cap ≤ l.eraseDups.length := Nat.le_of_not_lt hlen
    have hfull : ¬ (a ∉ l.eraseDups.take cap ∧
        (l.eraseDups.take cap).length < cap) := by
      rw [List.length_take, Nat.min_eq_left hcap]
      exact fun hnew => Nat.lt_irrefl cap hnew.right
    rw [if_neg hfull]
    split
    · rfl
    · exact List.take_append_of_le_length hcap

theorem insertCapped_nodup {cap : Nat} {a : α} {l : List α} (h : l.Nodup) :
    (insertCapped cap a l).Nodup := by
  unfold insertCapped
  split
  · next hnew =>
      rw [List.nodup_append]
      refine ⟨h, List.nodup_singleton a, ?_⟩
      intro x hx y hy hxy
      rw [List.mem_singleton] at hy
      rw [hxy, hy] at hx
      exact hnew.left hx
  · exact h

theorem eraseDups_of_nodup {l : List α} (h : l.Nodup) : l.eraseDups = l := by
  induction l using List.reverseRecOn with
  | nil => rfl
  | append_singleton l a ih =>
      rw [List.nodup_append] at h
      rw [eraseDups_concat, ih h.left, if_neg]
      intro ha
      exact h.right.right a ha a (List.mem_singleton_self a) rfl

theorem firstDistinct_of_nodup {cap : Nat} {l : List α} (h : l.Nodup)
    (hcap : l.length ≤ cap) : firstDistinct cap l = l := by
  unfold firstDistinct
  rw [eraseDups_of_nodup h, List.take_of_length_le hcap]

theorem mem_firstDistinct_iff {cap : Nat} {l : List α}
    (h : l.eraseDups.length ≤ cap) {a : α} :
    a ∈ firstDistinct cap l <-> a ∈ l := by
  unfold firstDistinct
  rw [List.take_of_length_le h, List.mem_eraseDups]

theorem length_eraseDups_perm {l l' : List α} (h : l.Perm l') :
    l.eraseDups.length = l'.eraseDups.length := by
  apply List.Perm.length_eq
  rw [List.perm_ext_iff_of_nodup (nodup_eraseDups l) (nodup_eraseDups l')]
  intro a
  rw [List.mem_eraseDups, List.mem_eraseDups]
  exact h.mem_iff

end Foundation
end DartSync
