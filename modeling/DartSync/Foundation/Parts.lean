import Mathlib.Data.List.Basic

/-!
# Lists in numbered parts

A list put together from parts that are numbered from zero, such as a file from
the pieces it was cut into.
-/

namespace DartSync
namespace Foundation

universe u

variable {α : Type u}

def join (n : Nat) (parts : Nat -> List α) : List α :=
  (List.range n).flatMap parts

variable {parts parts' : Nat -> List α}

@[simp] theorem join_zero : join 0 parts = [] := rfl

theorem join_succ (n : Nat) :
    join (n + 1) parts = join n parts ++ parts n := by
  simp [join, List.range_succ]

theorem join_congr {n : Nat} (h : forall i, i < n -> parts i = parts' i) :
    join n parts = join n parts' := by
  unfold join
  apply List.flatMap_congr
  intro i hi
  exact h i (List.mem_range.mp hi)

theorem length_join_le {n bound : Nat}
    (h : forall i, i < n -> (parts i).length ≤ bound) :
    (join n parts).length ≤ n * bound := by
  induction n with
  | zero => simp
  | succ n ih =>
      have hrest := ih fun i hi => h i (Nat.lt_succ_of_lt hi)
      have hlast := h n (Nat.lt_succ_self n)
      rw [join_succ, List.length_append, Nat.succ_mul]
      omega

theorem length_join_le_join {n : Nat}
    (h : forall i, i < n -> (parts i).length ≤ (parts' i).length) :
    (join n parts).length ≤ (join n parts').length := by
  induction n with
  | zero => simp
  | succ n ih =>
      have hrest := ih fun i hi => h i (Nat.lt_succ_of_lt hi)
      have hlast := h n (Nat.lt_succ_self n)
      rw [join_succ, join_succ, List.length_append, List.length_append]
      omega

theorem eq_of_join_eq {n : Nat}
    (h : forall i, i < n -> (parts i).length ≤ (parts' i).length)
    (hjoin : join n parts = join n parts') {i : Nat} (hi : i < n) :
    parts i = parts' i := by
  induction n with
  | zero => cases hi
  | succ n ih =>
      have hbefore := fun j hj => h j (Nat.lt_succ_of_lt hj)
      have hrest := length_join_le_join hbefore
      have hlast := h n (Nat.lt_succ_self n)
      rw [join_succ, join_succ] at hjoin
      have hlength := congrArg List.length hjoin
      rw [List.length_append, List.length_append] at hlength
      rcases List.append_inj hjoin (by omega) with ⟨hbegin, hend⟩
      rcases Nat.lt_succ_iff_lt_or_eq.mp hi with hlt | heq
      · exact ih hbefore hbegin hlt
      · rw [heq]
        exact hend

theorem join_windows (l : List α) (width n : Nat) :
    join n (fun i => (l.drop (i * width)).take width) =
      l.take (n * width) := by
  induction n with
  | zero => simp
  | succ n ih => rw [join_succ, ih, Nat.succ_mul, ← List.take_add]

/-!
## Windows of a range
-/

/-- Windows, given by offset and size, that lead from `a` to `b`: none is empty,
and each begins where the one before it ends. -/
def Tiles : Int -> Int -> List (Int × Int) -> Prop
  | a, b, [] => a = b
  | a, b, w :: rest => w.1 = a ∧ 0 < w.2 ∧ Tiles (a + w.2) b rest

section Windows

variable {a b c : Int} {windows windows' : List (Int × Int)}

theorem Tiles.append (h : Tiles a b windows) (h' : Tiles b c windows') :
    Tiles a c (windows ++ windows') := by
  induction windows generalizing a with
  | nil =>
      change a = b at h
      rw [h]
      exact h'
  | cons w rest ih => exact ⟨h.left, h.right.left, ih h.right.right⟩

theorem Tiles.bounds (h : Tiles a b windows) {w : Int × Int}
    (hw : w ∈ windows) : a ≤ w.1 ∧ 0 < w.2 ∧ w.1 + w.2 ≤ b := by
  have hle : forall {a b : Int} {windows : List (Int × Int)},
      Tiles a b windows -> a ≤ b := by
    intro a b windows h
    induction windows generalizing a with
    | nil => exact Int.le_of_eq h
    | cons w rest ih =>
        have hrest := ih h.right.right
        have hpos := h.right.left
        omega
  induction windows generalizing a with
  | nil => cases hw
  | cons w' rest ih =>
      rcases h with ⟨hoffset, hpos, hrest⟩
      rcases List.mem_cons.mp hw with rfl | hw
      · have hend := hle hrest
        omega
      · have hbounds := ih hrest hw
        omega

theorem Tiles.disjoint (h : Tiles a b windows) :
    windows.Pairwise fun w w' => w.1 + w.2 ≤ w'.1 := by
  induction windows generalizing a with
  | nil => exact List.Pairwise.nil
  | cons w rest ih =>
      rcases h with ⟨hoffset, _, hrest⟩
      refine List.Pairwise.cons ?_ (ih hrest)
      intro w' hw'
      rw [hoffset]
      exact (hrest.bounds hw').left

theorem Tiles.covers (h : Tiles a b windows) (k : Int) :
    (exists w, w ∈ windows ∧ w.1 ≤ k ∧ k < w.1 + w.2) <->
      a ≤ k ∧ k < b := by
  constructor
  · intro hcovered
    rcases hcovered with ⟨w, hw, hk⟩
    have hbounds := h.bounds hw
    omega
  · intro hk
    induction windows generalizing a with
    | nil =>
        change a = b at h
        omega
    | cons w rest ih =>
        rcases h with ⟨hoffset, _, hrest⟩
        cases Int.lt_or_le k (a + w.2) with
        | inl hfirst =>
            exact ⟨w, List.mem_cons_self, by omega, by omega⟩
        | inr hlater =>
            rcases ih hrest ⟨hlater, hk.right⟩ with ⟨w', hw', hk'⟩
            exact ⟨w', List.mem_cons_of_mem w hw', hk'⟩

theorem tiles_range (n : Nat) {width : Nat} (h : 0 < width) :
    Tiles 0 (n * width : Nat) ((List.range n).map fun i =>
      (((i * width : Nat) : Int), (width : Int))) := by
  induction n with
  | zero =>
      change (0 : Int) = ((0 * width : Nat) : Int)
      rw [Nat.zero_mul]
      rfl
  | succ n ih =>
      rw [List.range_succ, List.map_append]
      apply ih.append
      refine ⟨rfl, Int.natCast_pos.mpr h, ?_⟩
      change ((n * width : Nat) : Int) + width = _
      rw [Nat.succ_mul, Int.natCast_add]

end Windows

end Foundation
end DartSync
