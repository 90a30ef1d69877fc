import Mathlib.Data.List.Perm.Subperm
import DartSync.Foundation.Keyed

/-!
# Linked lists on a heap

A heap is a table of the allocated addresses and what they hold.  A segment is
a chain of cells from one pointer to another; the null pointer is `none`.  The
last section has the three edits of a singly linked list: a cell changed in
place, a cell appended, a cell unlinked and freed.
-/

namespace DartSync
namespace Foundation

universe u

/-!
## The heap
-/

abbrev Heap (β : Type u) := List (Nat × β)

namespace Heap

variable {β : Type u} {heap : Heap β} {a a' : Nat} {b : β}

def read (heap : Heap β) (a : Nat) : Option β :=
  (lookup Prod.fst a heap).map Prod.snd

def write (heap : Heap β) (a : Nat) (b : β) : Heap β :=
  modifyFirst Prod.fst a (fun _ => (a, b)) heap

def alloc (heap : Heap β) (a : Nat) (b : β) : Heap β :=
  (a, b) :: heap

def free (heap : Heap β) (a : Nat) : Heap β :=
  heap.filter (fun x => x.1 ≠ a)

theorem read_write_self (h : heap.read a ≠ none) :
    (heap.write a b).read a = some b := by
  unfold read at h
  unfold read write
  rw [@lookup_modifyFirst_self _ _ _ Prod.fst a _ _ fun _ _ => rfl]
  cases hlookup : lookup Prod.fst a heap with
  | none =>
      rw [hlookup] at h
      exact absurd rfl h
  | some x => rfl

theorem read_write_of_ne (h : a' ≠ a) :
    (heap.write a b).read a' = heap.read a' := by
  unfold read write
  rw [@lookup_modifyFirst_of_ne _ _ _ Prod.fst a a' _ _ (fun _ _ => rfl) h]

@[simp] theorem read_alloc_self : (heap.alloc a b).read a = some b := by
  unfold read alloc
  rw [lookup_cons, if_pos rfl]
  rfl

theorem read_alloc_of_ne (h : a' ≠ a) :
    (heap.alloc a b).read a' = heap.read a' := by
  unfold read alloc
  rw [lookup_cons, if_neg (Ne.symm h)]

theorem read_free_of_ne (h : a' ≠ a) :
    (heap.free a).read a' = heap.read a' := by
  unfold read free
  congr 1
  induction heap with
  | nil => rfl
  | cons x rest ih =>
      rw [List.filter_cons, lookup_cons]
      split
      · rw [lookup_cons, ih]
      · next hx =>
          have hfreed : x.1 = a := by simpa using hx
          rw [ih, hfreed, if_neg (Ne.symm h)]

@[simp] theorem read_free_self : (heap.free a).read a = none := by
  unfold read free
  rw [Option.map_eq_none_iff, lookup_eq_none_iff]
  simp

theorem mem_addresses_of_read (h : heap.read a ≠ none) :
    a ∈ heap.map Prod.fst := by
  by_contra hnot
  apply h
  unfold read
  rw [lookup_eq_none_iff.mpr hnot]
  rfl

end Heap

/-!
## Segments
-/

structure Cell (α : Type u) where
  value : α
  next : Option Nat

variable {α : Type u}

/-- The cells at the given places, with the given values, lead from `p` to
`q`. -/
def Segment (heap : Heap (Cell α)) (q : Option Nat) :
    Option Nat -> List (Nat × α) -> Prop
  | p, [] => p = q
  | p, (a, v) :: rest =>
      p = some a ∧ exists next,
        heap.read a = some { value := v, next := next } ∧
          Segment heap q next rest

section Segments

variable {heap heap' : Heap (Cell α)} {p q : Option Nat}
  {l l' pre post : List (Nat × α)} {a b : Nat} {v w : α}

theorem segment_append :
    Segment heap q p (l ++ l') <->
      exists m, Segment heap m p l ∧ Segment heap q m l' := by
  induction l generalizing p with
  | nil => simp [Segment]
  | cons x rest ih =>
      rw [List.cons_append, Segment]
      constructor
      · intro h
        rcases h with ⟨hp, next, hread, hrest⟩
        rcases ih.mp hrest with ⟨m, hbefore, hafter⟩
        exact ⟨m, ⟨hp, next, hread, hbefore⟩, hafter⟩
      · intro h
        rcases h with ⟨m, ⟨hp, next, hread, hbefore⟩, hafter⟩
        exact ⟨hp, next, hread, ih.mpr ⟨m, hbefore, hafter⟩⟩

theorem Segment.frame (h : Segment heap q p l)
    (hsame : forall a, a ∈ l.map Prod.fst -> heap'.read a = heap.read a) :
    Segment heap' q p l := by
  induction l generalizing p with
  | nil => exact h
  | cons x rest ih =>
      rcases h with ⟨hp, next, hread, hrest⟩
      refine ⟨hp, next, ?_, ih hrest fun a ha => hsame a ?_⟩
      · rw [hsame x.1 List.mem_cons_self]
        exact hread
      · exact List.mem_cons_of_mem _ ha

theorem Segment.read_ne_none (h : Segment heap q p l)
    (ha : a ∈ l.map Prod.fst) : heap.read a ≠ none := by
  induction l generalizing p with
  | nil => cases ha
  | cons x rest ih =>
      rcases h with ⟨_, next, hread, hrest⟩
      rw [List.map_cons, List.mem_cons] at ha
      rcases ha with rfl | ha
      · rw [hread]
        simp
      · exact ih hrest ha

theorem Segment.head_eq (h : Segment heap none p l) :
    p = (l.map Prod.fst).head? := by
  cases l with
  | nil => exact h
  | cons x rest => exact h.left

theorem Segment.read_cell
    (h : Segment heap none p (pre ++ (a, v) :: post)) :
    heap.read a = some
      { value := v, next := (post.map Prod.fst).head? } := by
  rcases segment_append.mp h with ⟨m, _, _, next, hread, hrest⟩
  rw [hread, hrest.head_eq]

theorem Segment.unique (h : Segment heap none p l)
    (h' : Segment heap none p l') : l = l' := by
  induction l generalizing p l' with
  | nil =>
      change p = none at h
      subst h
      cases l' with
      | nil => rfl
      | cons x rest => cases h'.left
  | cons x rest ih =>
      rcases h with ⟨rfl, next, hread, hrest⟩
      cases l' with
      | nil => cases h'
      | cons y rest' =>
          rcases h' with ⟨hy, next', hread', hrest'⟩
          have haddress : x.1 = y.1 := Option.some.inj hy
          rw [← haddress, hread, Option.some.injEq, Cell.mk.injEq] at hread'
          rcases hread' with ⟨hvalue, rfl⟩
          rw [ih hrest hrest', Prod.ext haddress hvalue]

theorem Segment.length_le (h : Segment heap q p l)
    (hnodup : (l.map Prod.fst).Nodup) : l.length ≤ heap.length := by
  have hsub : l.map Prod.fst ⊆ heap.map Prod.fst := fun a ha =>
    Heap.mem_addresses_of_read (h.read_ne_none ha)
  have hle := (List.Nodup.subperm hnodup hsub).length_le
  rw [List.length_map, List.length_map] at hle
  exact hle

/-!
## Edits
-/

theorem nodup_split (h : ((pre ++ (a, v) :: post).map Prod.fst).Nodup) :
    a ∉ pre.map Prod.fst ∧ a ∉ post.map Prod.fst := by
  rw [List.map_append, List.map_cons, List.nodup_append,
    List.nodup_cons] at h
  refine ⟨?_, h.right.left.left⟩
  intro ha
  exact h.right.right a ha a List.mem_cons_self rfl

theorem Segment.write_value (h : Segment heap q p (pre ++ (a, v) :: post))
    (hnodup : ((pre ++ (a, v) :: post).map Prod.fst).Nodup) (w : α) :
    exists next, heap.read a = some { value := v, next := next } ∧
      Segment (heap.write a { value := w, next := next }) q p
        (pre ++ (a, w) :: post) := by
  rcases nodup_split hnodup with ⟨hpre, hpost⟩
  rcases segment_append.mp h with ⟨m, hbefore, hm, next, hread, hafter⟩
  refine ⟨next, hread, segment_append.mpr ⟨m, ?_, hm, next, ?_, ?_⟩⟩
  · apply hbefore.frame
    intro a' ha'
    exact Heap.read_write_of_ne fun heq => hpre (heq ▸ ha')
  · apply Heap.read_write_self
    rw [hread]
    simp
  · apply hafter.frame
    intro a' ha'
    exact Heap.read_write_of_ne fun heq => hpost (heq ▸ ha')

theorem Segment.concat (h : Segment heap none p (pre ++ [(a, v)]))
    (hnodup : ((pre ++ [(a, v)]).map Prod.fst).Nodup)
    (hfresh : heap.read b = none) (w : α) :
    heap.read a = some { value := v, next := none } ∧
      Segment ((heap.write a { value := v, next := some b }).alloc b
        { value := w, next := none }) none p (pre ++ [(a, v), (b, w)]) := by
  have hb : forall a', a' ∈ (pre ++ [(a, v)]).map Prod.fst -> a' ≠ b := by
    intro a' ha' heq
    exact h.read_ne_none ha' (heq ▸ hfresh)
  have hab : a ≠ b := hb a (by simp)
  have hpre := (nodup_split hnodup).left
  rcases segment_append.mp h with ⟨m, hbefore, hm, next, hread, hnext⟩
  change next = none at hnext
  subst hnext
  refine ⟨hread, segment_append.mpr ⟨m, ?_, hm, some b, ?_, rfl, none, ?_,
    rfl⟩⟩
  · apply hbefore.frame
    intro a' ha'
    rw [Heap.read_alloc_of_ne (hb a' ?_), Heap.read_write_of_ne]
    · exact fun heq => hpre (heq ▸ ha')
    · rw [List.map_append]
      exact List.mem_append_left _ ha'
  · rw [Heap.read_alloc_of_ne hab]
    apply Heap.read_write_self
    rw [hread]
    simp
  · exact Heap.read_alloc_self

theorem Segment.unlink (h : Segment heap q p (pre ++ (a, v) :: (b, w) :: post))
    (hnodup : ((pre ++ (a, v) :: (b, w) :: post).map Prod.fst).Nodup) :
    exists next, heap.read a = some { value := v, next := some b } ∧
      heap.read b = some { value := w, next := next } ∧
      Segment ((heap.write a { value := v, next := next }).free b) q p
        (pre ++ (a, v) :: post) := by
  have hsplit : pre ++ (a, v) :: (b, w) :: post =
      (pre ++ [(a, v)]) ++ (b, w) :: post := by simp
  rcases nodup_split hnodup with ⟨hapre, hapost⟩
  rcases nodup_split (hsplit ▸ hnodup) with ⟨hbpre, hbpost⟩
  rcases segment_append.mp h with
    ⟨m, hbefore, hm, link, hreada, hlink, next, hreadb, hafter⟩
  subst hlink
  have hkeep : forall a', a' ≠ a -> a' ≠ b ->
      ((heap.write a { value := v, next := next }).free b).read a' =
        heap.read a' := by
    intro a' ha hb
    rw [Heap.read_free_of_ne hb, Heap.read_write_of_ne ha]
  refine ⟨next, hreada, hreadb, segment_append.mpr ⟨m, ?_, hm, next, ?_, ?_⟩⟩
  · apply hbefore.frame
    intro a' ha'
    apply hkeep a'
    · exact fun heq => hapre (heq ▸ ha')
    · intro heq
      apply hbpre
      rw [List.map_append]
      exact List.mem_append_left _ (heq ▸ ha')
  · rw [Heap.read_free_of_ne]
    · apply Heap.read_write_self
      rw [hreada]
      simp
    · intro heq
      apply hbpre
      rw [← heq]
      simp
  · apply hafter.frame
    intro a' ha'
    apply hkeep a'
    · intro heq
      exact hapost (List.mem_cons_of_mem _ (heq ▸ ha'))
    · exact fun heq => hbpost (heq ▸ ha')

end Segments

end Foundation
end DartSync
