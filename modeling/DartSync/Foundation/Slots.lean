import Mathlib.Data.List.Nodup

/-!
# Slot arrays

A fixed-size array whose entries fill a prefix and whose remaining slots carry
a blank value, as C code keeps a short list in an array of strings.  Scans stop
at the first blank or at the end of the array.
-/

namespace DartSync
namespace Foundation

universe u

variable {α : Type u} {n : Nat}

def slotAt (blank : α) (slots : Vector α n) (index : Nat) : α :=
  slots.toList.getD index blank

def occupied [DecidableEq α] (blank : α) (slots : Vector α n) : List α :=
  slots.toList.takeWhile (fun a => a ≠ blank)

def scanEnd [DecidableEq α] (blank : α) (slots : Vector α n) (start : Nat) : Nat :=
  start + ((slots.toList.drop start).takeWhile (fun a => a ≠ blank)).length

def blankSlots (blank : α) (n : Nat) : Vector α n :=
  Vector.replicate n blank

/-- The slots hold the entries `l` as a prefix without gaps, and blanks
otherwise. -/
structure Dense (blank : α) (slots : Vector α n) (l : List α) : Prop where
  toList_eq : slots.toList = l ++ List.replicate (n - l.length) blank
  notMem_blank : blank ∉ l

theorem takeWhile_append_replicate_blank [DecidableEq α] {blank : α} {l : List α}
    (h : blank ∉ l) (k : Nat) :
    (l ++ List.replicate k blank).takeWhile (fun a => a ≠ blank) = l := by
  induction l with
  | nil => cases k <;> simp [List.replicate_succ]
  | cons a rest ih =>
      rw [List.mem_cons, not_or] at h
      simpa [Ne.symm h.left] using ih h.right

namespace Dense

variable {blank a : α} {slots : Vector α n} {l pre mid : List α}

theorem length_le (h : Dense blank slots l) : l.length ≤ n := by
  have hlen := congrArg List.length h.toList_eq
  rw [Vector.length_toList, List.length_append, List.length_replicate] at hlen
  omega

theorem occupied_eq [DecidableEq α] (h : Dense blank slots l) :
    occupied blank slots = l := by
  unfold occupied
  rw [h.toList_eq]
  exact takeWhile_append_replicate_blank h.notMem_blank _

theorem scanEnd_eq [DecidableEq α] (h : Dense blank slots l)
    {start : Nat} (hstart : start ≤ l.length) : scanEnd blank slots start = l.length := by
  unfold scanEnd
  rw [h.toList_eq, List.drop_append_of_le_length hstart,
    takeWhile_append_replicate_blank (fun hmem =>
      h.notMem_blank (List.mem_of_mem_drop hmem)),
    List.length_drop]
  omega

theorem slotAt_append (h : Dense blank slots (pre ++ a :: mid)) :
    slotAt blank slots pre.length = a := by
  unfold slotAt
  rw [h.toList_eq]
  simp [List.getD]

theorem slotAt_of_length_le (h : Dense blank slots l) {index : Nat}
    (hindex : l.length ≤ index) : slotAt blank slots index = blank := by
  unfold slotAt
  rw [h.toList_eq, List.getD_eq_getElem?_getD,
    List.getElem?_append_right hindex, List.getElem?_replicate]
  split <;> rfl

theorem ofBlank (blank : α) (n : Nat) :
    Dense blank (blankSlots blank n) ([] : List α) where
  toList_eq := by simp [blankSlots]
  notMem_blank := List.not_mem_nil

theorem push (h : Dense blank slots l) (ha : a ≠ blank) (hlen : l.length < n) :
    Dense blank (slots.setIfInBounds l.length a) (l ++ [a]) where
  toList_eq := by
    have hk : n - l.length = (n - (l ++ [a]).length) + 1 := by
      rw [List.length_append, List.length_singleton]
      omega
    rw [Vector.toList_setIfInBounds, h.toList_eq, hk, List.replicate_succ,
      List.set_append_right _ _ (Nat.le_refl _)]
    simp
  notMem_blank := by
    simp [h.notMem_blank, Ne.symm ha]

theorem single (ha : a ≠ blank) (hn : 0 < n) :
    Dense blank ((blankSlots blank n).setIfInBounds 0 a) [a] :=
  (ofBlank blank n).push ha hn

theorem pop (h : Dense blank slots (l ++ [a])) :
    Dense blank (slots.setIfInBounds l.length blank) l where
  toList_eq := by
    have hlen := h.length_le
    rw [List.length_append, List.length_singleton] at hlen
    have hk : n - l.length = (n - (l ++ [a]).length) + 1 := by
      rw [List.length_append, List.length_singleton]
      omega
    rw [Vector.toList_setIfInBounds, h.toList_eq, hk, List.append_assoc,
      List.set_append_right _ _ (Nat.le_refl _), List.replicate_succ]
    simp
  notMem_blank := fun hmem =>
    h.notMem_blank (List.mem_append_left _ hmem)

theorem set_blank (h : Dense blank slots l) {index : Nat}
    (hindex : l.length ≤ index) :
    Dense blank (slots.setIfInBounds index blank) l where
  toList_eq := by
    rw [Vector.toList_setIfInBounds, h.toList_eq,
      List.set_append_right _ _ hindex, List.set_replicate_self]
  notMem_blank := h.notMem_blank

theorem overwrite {b : α} (h : Dense blank slots (pre ++ a :: mid))
    (hb : b ≠ blank) :
    Dense blank (slots.setIfInBounds pre.length b) (pre ++ b :: mid) where
  toList_eq := by
    rw [Vector.toList_setIfInBounds, h.toList_eq, List.append_assoc,
      List.set_append_right _ _ (Nat.le_refl _)]
    simp
  notMem_blank := by
    have hmem := h.notMem_blank
    simp only [List.mem_append, List.mem_cons, not_or] at hmem ⊢
    exact ⟨hmem.left, Ne.symm hb, hmem.right.right⟩

end Dense

end Foundation
end DartSync
