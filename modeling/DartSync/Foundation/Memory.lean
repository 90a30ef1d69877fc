import Mathlib.Data.List.TakeWhile

/-!
# Bytes in memory, as the string functions see them

The functions of `string.h` work on bytes up to a zero byte, wherever the block
that they are given ends.  A list stands for the bytes from an address on.
-/

namespace DartSync
namespace Foundation

/-- The string at the front of the bytes: what `strlen` counts. -/
def cstr (bytes : List UInt8) : List UInt8 :=
  bytes.takeWhile (· ≠ 0)

/-- A block of `n` bytes with a string at its front and zeros after it. -/
def pad (s : List UInt8) (n : Nat) : List UInt8 :=
  s ++ List.replicate (n - s.length) 0

/-- The `n` bytes that `strncpy` writes. -/
def strncpy (src : List UInt8) (n : Nat) : List UInt8 :=
  pad (cstr (src.take n)) n

/-- Copy bytes into a block at an offset; `none` if they leave the block. -/
def memmove (block : List UInt8) (offset : Nat) (bytes : List UInt8) :
    Option (List UInt8) :=
  if offset + bytes.length ≤ block.length then
    some (block.take offset ++ bytes ++ block.drop (offset + bytes.length))
  else none

def overwritten (s stale : List UInt8) : List UInt8 :=
  s ++ stale.drop s.length

/-- Only zeros after a zero. -/
def Padded (bytes : List UInt8) : Prop :=
  forall front back, bytes = front ++ 0 :: back -> forall x, x ∈ back -> x = 0

/-!
## Strings
-/

section Strings

variable {xs ys : List UInt8}

theorem zero_not_mem_cstr (xs : List UInt8) : (0 : UInt8) ∉ cstr xs := by
  intro h
  have hne := List.mem_takeWhile_imp h
  simp at hne

theorem length_cstr_le (xs : List UInt8) : (cstr xs).length ≤ xs.length :=
  (List.takeWhile_prefix _).length_le

theorem cstr_of_no_zero (h : (0 : UInt8) ∉ xs) : cstr xs = xs := by
  apply List.takeWhile_eq_self_iff.mpr
  intro x hx
  apply decide_eq_true
  intro hzero
  rw [hzero] at hx
  exact h hx

theorem cstr_append_of_no_zero (h : (0 : UInt8) ∉ xs) :
    cstr (xs ++ ys) = xs ++ cstr ys := by
  apply List.takeWhile_append_of_pos
  intro x hx
  apply decide_eq_true
  intro hzero
  rw [hzero] at hx
  exact h hx

theorem exists_of_zero_mem (h : (0 : UInt8) ∈ xs) :
    exists back, xs = cstr xs ++ 0 :: back := by
  induction xs with
  | nil => cases h
  | cons x rest ih =>
      cases Classical.em (x = 0) with
      | inl hzero =>
          refine ⟨rest, ?_⟩
          rw [hzero]
          rfl
      | inr hne =>
          have hrest : (0 : UInt8) ∈ rest := by
            cases h with
            | head => exact absurd rfl hne
            | tail _ h => exact h
          rcases ih hrest with ⟨back, hback⟩
          refine ⟨back, ?_⟩
          have hcstr : cstr (x :: rest) = x :: cstr rest :=
            List.takeWhile_cons_of_pos (decide_eq_true hne)
          rw [hcstr, List.cons_append, ← hback]

theorem cstr_append_zero {s : List UInt8} (h : (0 : UInt8) ∉ s)
    (back : List UInt8) : cstr (s ++ 0 :: back) = s := by
  rw [cstr_append_of_no_zero h]
  exact List.append_nil s

theorem cstr_append_of_zero (h : (0 : UInt8) ∈ xs) :
    cstr (xs ++ ys) = cstr xs := by
  rcases exists_of_zero_mem h with ⟨back, hback⟩
  have hsplit : xs ++ ys = cstr xs ++ 0 :: (back ++ ys) := by
    rw [← List.cons_append, ← List.append_assoc, ← hback]
  rw [hsplit, cstr_append_zero (zero_not_mem_cstr xs)]

theorem length_cstr_lt (h : (0 : UInt8) ∈ xs) :
    (cstr xs).length < xs.length := by
  rcases exists_of_zero_mem h with ⟨back, hback⟩
  have hlength := congrArg List.length hback
  rw [List.length_append, List.length_cons] at hlength
  omega

end Strings

/-!
## Padded blocks
-/

section Pad

variable {s t : List UInt8} {n : Nat}

theorem length_pad (h : s.length ≤ n) : (pad s n).length = n := by
  rw [pad, List.length_append, List.length_replicate]
  omega

@[simp] theorem pad_length (s : List UInt8) : pad s s.length = s := by
  simp [pad]

theorem length_strncpy (src : List UInt8) (n : Nat) :
    (strncpy src n).length = n := by
  apply length_pad
  exact Nat.le_trans (length_cstr_le _) (List.length_take_le n src)

theorem zero_mem_pad (h : s.length < n) : (0 : UInt8) ∈ pad s n := by
  apply List.mem_append_right
  apply List.mem_replicate.mpr
  exact ⟨by omega, rfl⟩

theorem cstr_pad (h : (0 : UInt8) ∉ s) : cstr (pad s n) = s := by
  unfold pad
  rw [cstr_append_of_no_zero h]
  cases n - s.length with
  | zero => exact List.append_nil s
  | succ k => exact List.append_nil s

theorem take_pad (h : s.length ≤ n) {k : Nat} (hk : k ≤ n) :
    (pad s n).take k = pad (s.take k) k := by
  unfold pad
  rw [List.take_append, List.take_replicate, List.length_take]
  congr 2
  omega

theorem drop_pad (k : Nat) : (pad s n).drop k = pad (s.drop k) (n - k) := by
  unfold pad
  rw [List.drop_append, List.drop_replicate, List.length_drop]
  congr 2
  omega

theorem length_overwritten (s stale : List UInt8) :
    (overwritten s stale).length = s.length + (stale.length - s.length) := by
  rw [overwritten, List.length_append, List.length_drop]

theorem zero_not_mem_overwritten (h : (0 : UInt8) ∉ s)
    (ht : (0 : UInt8) ∉ t) : (0 : UInt8) ∉ overwritten s t := by
  intro hzero
  cases List.mem_append.mp hzero with
  | inl hmem => exact h hmem
  | inr hmem => exact ht (List.mem_of_mem_drop hmem)

theorem append_drop_pad :
    s ++ (pad t n).drop s.length = pad (overwritten s t) n := by
  rw [drop_pad]
  unfold pad overwritten
  rw [List.append_assoc, List.length_append]
  congr 3
  omega

theorem padded_pad (h : (0 : UInt8) ∉ s) : Padded (pad s n) := by
  intro front back hsplit x hx
  unfold pad at hsplit
  rcases List.append_eq_append_iff.mp hsplit with
    ⟨between, _, hzeros⟩ | ⟨between, hs, hzeros⟩
  · apply List.eq_of_mem_replicate
    rw [hzeros]
    exact List.mem_append_right _ (List.mem_cons_of_mem _ hx)
  · cases between with
    | nil =>
        apply List.eq_of_mem_replicate
        rw [← List.nil_append (List.replicate _ _), ← hzeros]
        exact List.mem_cons_of_mem _ hx
    | cons y between =>
        rw [List.cons_append, List.cons.injEq] at hzeros
        rw [hs, ← hzeros.left] at h
        exact absurd (List.mem_append_right _ List.mem_cons_self) h

theorem padded_iff {xs : List UInt8} :
    Padded xs <-> xs = pad (cstr xs) xs.length := by
  constructor
  · intro h
    cases Classical.em ((0 : UInt8) ∈ xs) with
    | inl hzero =>
        rcases exists_of_zero_mem hzero with ⟨back, hback⟩
        have hzeros : back = List.replicate back.length 0 :=
          List.eq_replicate_iff.mpr ⟨rfl, h (cstr xs) back hback⟩
        have hlength := congrArg List.length hback
        rw [List.length_append, List.length_cons] at hlength
        have hrest : xs.length - (cstr xs).length = back.length + 1 := by
          omega
        rw [pad, hrest, List.replicate_succ, ← hzeros]
        exact hback
    | inr hno =>
        rw [cstr_of_no_zero hno, pad, Nat.sub_self, List.replicate_zero,
          List.append_nil]
  · intro h
    rw [h]
    exact padded_pad (zero_not_mem_cstr xs)

theorem padded_of_no_zero {xs : List UInt8} (h : (0 : UInt8) ∉ xs) :
    Padded xs := by
  intro front back hsplit
  rw [hsplit] at h
  exact absurd (List.mem_append_right _ List.mem_cons_self) h

theorem pad_eq_iff {xs : List UInt8} (h : (0 : UInt8) ∉ s) :
    pad s xs.length = xs <-> Padded xs ∧ s = cstr xs := by
  constructor
  · intro heq
    have hcstr : cstr (pad s xs.length) = s := cstr_pad h
    rw [heq] at hcstr
    refine ⟨?_, hcstr.symm⟩
    rw [padded_iff, hcstr]
    exact heq.symm
  · intro hboth
    rw [hboth.right]
    exact (padded_iff.mp hboth.left).symm

theorem pad_take_eq_iff {xs : List UInt8} (k : Nat) :
    pad (xs.take k) xs.length = xs <-> forall x, x ∈ xs.drop k -> x = 0 := by
  have hlength : xs.length - (xs.take k).length = (xs.drop k).length := by
    rw [List.length_take, List.length_drop]
    omega
  unfold pad
  rw [hlength]
  constructor
  · intro h x hx
    have hsplit := h.trans (List.take_append_drop k xs).symm
    rw [← List.append_cancel_left hsplit] at hx
    exact List.eq_of_mem_replicate hx
  · intro h
    rw [← List.eq_replicate_iff.mpr ⟨rfl, h⟩, List.take_append_drop]

theorem eq_zero_of_shifted {xs back : List UInt8} {r j : Nat} (hr : 0 < r)
    (h : xs = pad ((List.replicate r 0 ++ (xs ++ back)).take j) xs.length) :
    forall x, x ∈ xs -> x = 0 := by
  have hindex : forall (m : Nat) (x : UInt8), xs[m]? = some x -> x = 0 := by
    intro m
    induction m using Nat.strongRecOn with
    | ind m ih =>
        intro x hx
        have hm : m < xs.length := (List.getElem?_eq_some_iff.mp hx).choose
        rw [h, pad, List.getElem?_append] at hx
        split at hx
        · next hshort =>
            rw [List.length_take] at hshort
            rw [List.getElem?_take_of_lt (by omega), List.getElem?_append,
              List.length_replicate] at hx
            split at hx
            · exact (List.mem_replicate.mp (List.mem_of_getElem? hx)).right
            · rw [List.getElem?_append_left (by omega)] at hx
              exact ih (m - r) (by omega) x hx
        · exact (List.mem_replicate.mp (List.mem_of_getElem? hx)).right
  intro x hx
  rcases List.mem_iff_getElem?.mp hx with ⟨m, hm⟩
  exact hindex m x hm

theorem memmove_append (front back bytes : List UInt8) :
    memmove (front ++ back) front.length bytes =
      if bytes.length ≤ back.length then
        some (front ++ (bytes ++ back.drop bytes.length))
      else none := by
  unfold memmove
  rw [List.length_append, List.take_left, List.append_assoc,
    ← List.drop_drop, List.drop_left]
  split
  · next hfits => rw [if_pos (by omega)]
  · next hlarge => rw [if_neg (by omega)]

end Pad

end Foundation
end DartSync
