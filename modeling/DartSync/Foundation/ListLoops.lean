import Mathlib.Logic.Equiv.Basic
import Mathlib.Logic.Function.Basic
import DartSync.Foundation.LinkedList

/-!
# Loops over a linked list

The loops that programs run over singly linked lists, with the number of turns
that they may take: a loop is `none` where it reads a freed cell, and where it
takes more turns than allowed.  Each has one lemma that says what it returns on
a segment and what it does to the heap; the rest of the heap stays as it is.
-/

namespace DartSync
namespace Foundation

universe u

variable {α : Type u}

namespace Heap

def fresh {β : Type u} (heap : Heap β) : Nat :=
  (heap.map Prod.fst).foldr max 0 + 1

theorem read_fresh {β : Type u} (heap : Heap β) :
    heap.read heap.fresh = none := by
  have hlt : forall a, a ∈ heap.map Prod.fst -> a < heap.fresh := by
    intro a ha
    unfold fresh
    generalize heap.map Prod.fst = places at ha
    induction places with
    | nil => cases ha
    | cons b rest ih =>
        rw [List.foldr_cons]
        cases List.mem_cons.mp ha with
        | inl hfirst =>
            rw [hfirst]
            exact Nat.lt_succ_of_le (Nat.le_max_left b _)
        | inr hrest =>
            have hle := Nat.le_max_right b (rest.foldr max 0)
            have hless := ih hrest
            omega
  cases hread : heap.read heap.fresh with
  | none => rfl
  | some b =>
      have hne : heap.read heap.fresh ≠ none := by
        rw [hread]
        exact Option.some_ne_none b
      exact absurd (hlt _ (mem_addresses_of_read hne)) (Nat.lt_irrefl _)

end Heap

/-!
## The loops
-/

def seek (passes : α -> Bool) (heap : Heap (Cell α)) :
    Nat -> Nat -> Option (Nat × Bool)
  | 0, _ => none
  | turns + 1, temp =>
      match heap.read temp with
      | none => none
      | some cell =>
          if passes cell.value = true then some (temp, true)
          else
            match cell.next with
            | none => some (temp, false)
            | some next => seek passes heap turns next

/-- From a pointer on, the first cell that passes, or else `NULL`, with the
cell before it. -/
def find (passes : α -> Bool) (heap : Heap (Cell α)) :
    Nat -> Option Nat -> Option Nat -> Option (Option Nat × Option Nat)
  | _, prev, none => some (prev, none)
  | 0, _, some _ => none
  | turns + 1, prev, some node =>
      match heap.read node with
      | none => none
      | some cell =>
          if passes cell.value = true then some (prev, some node)
          else find passes heap turns (some node) cell.next

def contents (heap : Heap (Cell α)) : Nat -> Option Nat -> Option (List α)
  | _, none => some []
  | 0, some _ => none
  | turns + 1, some temp =>
      match heap.read temp with
      | none => none
      | some cell =>
          (contents heap turns cell.next).map fun rest => cell.value :: rest

def changeAll (change : α -> α) :
    Nat -> Option Nat -> Heap (Cell α) -> Option (Heap (Cell α))
  | _, none, heap => some heap
  | 0, some _, _ => none
  | turns + 1, some temp, heap =>
      match heap.read temp with
      | none => none
      | some cell =>
          changeAll change turns cell.next
            (heap.write temp { cell with value := change cell.value })

/-- Free every cell. -/
def freeAll : Nat -> Option Nat -> Heap (Cell α) -> Option (Heap (Cell α))
  | _, none, heap => some heap
  | 0, some _, _ => none
  | turns + 1, some temp, heap =>
      match heap.read temp with
      | none => none
      | some cell => freeAll turns cell.next (heap.free temp)

/-!
## What they do on a segment
-/

section Specs

variable {heap : Heap (Cell α)} {p : Option Nat}
  {l pre post : List (Nat × α)} {a : Nat} {v : α} {passes : α -> Bool}
  {turns : Nat}

theorem seek_skip (h : Segment heap none p (pre ++ (a, v) :: post))
    (hpre : forall x, x ∈ pre -> passes x.2 = false)
    (hturns : pre.length < turns) {b : Nat} (hp : p = some b) :
    exists left, seek passes heap turns b = seek passes heap (left + 1) a ∧
      exists next, heap.read a = some { value := v, next := next } ∧
        Segment heap none next post := by
  induction pre generalizing p turns b with
  | nil =>
      cases turns with
      | zero => cases hturns
      | succ turns =>
          rcases h with ⟨ha, hread⟩
          rw [hp, Option.some_inj] at ha
          rw [ha]
          exact ⟨turns, rfl, hread⟩
  | cons x rest ih =>
      cases turns with
      | zero => cases hturns
      | succ turns =>
          rcases h with ⟨hx, next, hread, hrest⟩
          rw [hp, Option.some_inj] at hx
          rw [List.forall_mem_cons] at hpre
          rw [hx, seek, hread]
          dsimp only
          rw [if_neg (by rw [hpre.left]; exact Bool.false_ne_true)]
          cases hnext : next with
          | none =>
              rw [hnext] at hrest
              cases rest with
              | nil => cases hrest.left
              | cons y later => cases hrest.left
          | some c =>
              exact ih hrest hpre.right (Nat.lt_of_succ_lt_succ hturns) hnext

theorem seek_of_first (h : Segment heap none p (pre ++ (a, v) :: post))
    (hpre : forall x, x ∈ pre -> passes x.2 = false)
    (hv : passes v = true) (hturns : pre.length < turns) {b : Nat}
    (hp : p = some b) : seek passes heap turns b = some (a, true) := by
  rcases seek_skip h hpre hturns hp with ⟨left, hseek, next, hread, _⟩
  rw [hseek, seek, hread]
  dsimp only
  rw [if_pos hv]

theorem seek_of_none (h : Segment heap none p (pre ++ [(a, v)]))
    (hpre : forall x, x ∈ pre -> passes x.2 = false)
    (hv : passes v = false) (hturns : pre.length < turns) {b : Nat}
    (hp : p = some b) : seek passes heap turns b = some (a, false) := by
  rcases seek_skip h hpre hturns hp with ⟨left, hseek, next, hread, hnext⟩
  change next = none at hnext
  rw [hseek, seek, hread]
  dsimp only
  rw [if_neg (by rw [hv]; exact Bool.false_ne_true), hnext]

theorem first_or_none (passes : α -> Bool) (l : List (Nat × α)) :
    (exists pre a v post, l = pre ++ (a, v) :: post ∧
      (forall x, x ∈ pre -> passes x.2 = false) ∧ passes v = true) ∨
    forall x, x ∈ l -> passes x.2 = false := by
  induction l with
  | nil =>
      right
      intro x hx
      cases hx
  | cons y rest ih =>
      cases hy : passes y.2 with
      | true =>
          left
          refine ⟨[], y.1, y.2, rest, rfl, ?_, hy⟩
          intro x hx
          cases hx
      | false =>
          cases ih with
          | inl hfirst =>
              rcases hfirst with ⟨pre, a, v, post, hrest, hpre, hv⟩
              left
              refine ⟨y :: pre, a, v, post, ?_, ?_, hv⟩
              · rw [hrest, List.cons_append]
              · exact List.forall_mem_cons.mpr ⟨hy, hpre⟩
          | inr hnone => exact Or.inr (List.forall_mem_cons.mpr ⟨hy, hnone⟩)

def lastPlace (prev : Option Nat) (l : List (Nat × α)) : Option Nat :=
  (l.getLast?.map Prod.fst).or prev

theorem lastPlace_cons (prev : Option Nat) (x : Nat × α)
    (l : List (Nat × α)) : lastPlace prev (x :: l) = lastPlace (some x.1) l := by
  unfold lastPlace
  cases l with
  | nil => rfl
  | cons y rest => rw [List.getLast?_cons_cons, List.getLast?_cons]; rfl

theorem find_of_first (h : Segment heap none p (pre ++ (a, v) :: post))
    (hpre : forall x, x ∈ pre -> passes x.2 = false)
    (hv : passes v = true) (hturns : pre.length < turns)
    (prev : Option Nat) :
    find passes heap turns prev p = some (lastPlace prev pre, some a) := by
  induction pre generalizing p turns prev with
  | nil =>
      cases turns with
      | zero => cases hturns
      | succ turns =>
          rcases h with ⟨ha, next, hread, _⟩
          rw [ha, find, hread]
          dsimp only
          rw [if_pos hv]
          rfl
  | cons x rest ih =>
      cases turns with
      | zero => cases hturns
      | succ turns =>
          rcases h with ⟨hx, next, hread, hrest⟩
          rw [List.forall_mem_cons] at hpre
          rw [hx, find, hread]
          dsimp only
          rw [if_neg (by rw [hpre.left]; exact Bool.false_ne_true),
            ih hrest hpre.right (Nat.lt_of_succ_lt_succ hturns),
            lastPlace_cons]

theorem find_of_none (h : Segment heap none p l)
    (hl : forall x, x ∈ l -> passes x.2 = false) (hturns : l.length ≤ turns)
    (prev : Option Nat) :
    find passes heap turns prev p = some (lastPlace prev l, none) := by
  induction l generalizing p turns prev with
  | nil =>
      change p = none at h
      rw [h]
      cases turns <;> rfl
  | cons x rest ih =>
      cases turns with
      | zero => cases hturns
      | succ turns =>
          rcases h with ⟨hx, next, hread, hrest⟩
          rw [List.forall_mem_cons] at hl
          rw [hx, find, hread]
          dsimp only
          rw [if_neg (by rw [hl.left]; exact Bool.false_ne_true),
            ih hrest hl.right (Nat.le_of_succ_le_succ hturns), lastPlace_cons]

theorem contents_of_segment (h : Segment heap none p l)
    (hturns : l.length ≤ turns) :
    contents heap turns p = some (l.map Prod.snd) := by
  induction l generalizing p turns with
  | nil =>
      change p = none at h
      rw [h]
      cases turns <;> rfl
  | cons x rest ih =>
      cases turns with
      | zero => cases hturns
      | succ turns =>
          rcases h with ⟨hx, next, hread, hrest⟩
          rw [hx, contents, hread]
          dsimp only
          rw [ih hrest (Nat.le_of_succ_le_succ hturns)]
          rfl

theorem changeAll_of_segment (change : α -> α) (h : Segment heap none p l)
    (hnodup : (l.map Prod.fst).Nodup) (hturns : l.length ≤ turns) :
    exists heap', changeAll change turns p heap = some heap' ∧
      Segment heap' none p (l.map fun x => (x.1, change x.2)) ∧
      forall a, a ∉ l.map Prod.fst -> heap'.read a = heap.read a := by
  induction l generalizing p turns heap with
  | nil =>
      change p = none at h
      rw [h]
      refine ⟨heap, ?_, rfl, fun _ _ => rfl⟩
      cases turns <;> rfl
  | cons x rest ih =>
      cases turns with
      | zero => cases hturns
      | succ turns =>
          rcases h with ⟨hx, next, hread, hrest⟩
          rw [List.map_cons, List.nodup_cons] at hnodup
          have hallocated : heap.read x.1 ≠ none := by
            rw [hread]
            exact Option.some_ne_none _
          have hkept : Segment (heap.write x.1
              { value := change x.2, next := next }) none next rest := by
            apply hrest.frame
            intro a ha
            apply Heap.read_write_of_ne
            intro heq
            rw [heq] at ha
            exact hnodup.left ha
          rcases ih hkept hnodup.right (Nat.le_of_succ_le_succ hturns) with
            ⟨heap', hchanged, hsegment, hframe⟩
          refine ⟨heap', ?_, ?_, ?_⟩
          · rw [hx, changeAll, hread]
            exact hchanged
          · refine ⟨hx, next, ?_, hsegment⟩
            rw [hframe _ hnodup.left, Heap.read_write_self hallocated]
          · intro a ha
            rw [List.map_cons, List.mem_cons, not_or] at ha
            rw [hframe a ha.right, Heap.read_write_of_ne ha.left]

theorem freeAll_of_segment (h : Segment heap none p l)
    (hnodup : (l.map Prod.fst).Nodup) (hturns : l.length ≤ turns) :
    exists heap', freeAll turns p heap = some heap' ∧
      (forall a, a ∈ l.map Prod.fst -> heap'.read a = none) ∧
      forall a, a ∉ l.map Prod.fst -> heap'.read a = heap.read a := by
  induction l generalizing p turns heap with
  | nil =>
      change p = none at h
      rw [h]
      refine ⟨heap, ?_, ?_, fun _ _ => rfl⟩
      · cases turns <;> rfl
      · intro a ha
        cases ha
  | cons x rest ih =>
      cases turns with
      | zero => cases hturns
      | succ turns =>
          rcases h with ⟨hx, next, hread, hrest⟩
          rw [List.map_cons, List.nodup_cons] at hnodup
          have hkept : Segment (heap.free x.1) none next rest := by
            apply hrest.frame
            intro a ha
            apply Heap.read_free_of_ne
            intro heq
            rw [heq] at ha
            exact hnodup.left ha
          rcases ih hkept hnodup.right (Nat.le_of_succ_le_succ hturns) with
            ⟨heap', hfreed, hgone, hframe⟩
          refine ⟨heap', ?_, ?_, ?_⟩
          · rw [hx, freeAll, hread]
            exact hfreed
          · intro a ha
            cases List.mem_cons.mp ha with
            | inl hfirst =>
                rw [hfirst, hframe _ hnodup.left, Heap.read_free_self]
            | inr hlater => exact hgone a hlater
          · intro a ha
            rw [List.map_cons, List.mem_cons, not_or] at ha
            rw [hframe a ha.right, Heap.read_free_of_ne ha.left]

end Specs

/-!
## Several lists on one heap
-/

section Extend

variable {heap : Heap (Cell α)} {p q q' : Option Nat}
  {pre : List (Nat × α)} {a b : Nat} {v w : α}

theorem Segment.extend (h : Segment heap q p (pre ++ [(a, v)]))
    (hnodup : ((pre ++ [(a, v)]).map Prod.fst).Nodup)
    (hfresh : heap.read b = none) :
    heap.read a = some { value := v, next := q } ∧
      Segment ((heap.write a { value := v, next := some b }).alloc b
        { value := w, next := q' }) q' p (pre ++ [(a, v), (b, w)]) := by
  have hb : forall a', a' ∈ (pre ++ [(a, v)]).map Prod.fst -> a' ≠ b := by
    intro a' ha' heq
    exact h.read_ne_none ha' (heq ▸ hfresh)
  have ha : a ∈ (pre ++ [(a, v)]).map Prod.fst := by
    rw [List.map_append]
    exact List.mem_append_right _ List.mem_cons_self
  have hpre := (nodup_split hnodup).left
  rcases segment_append.mp h with ⟨m, hbefore, hm, next, hread, hnext⟩
  change next = q at hnext
  cases hnext
  refine ⟨hread, segment_append.mpr ⟨m, ?_, hm, some b, ?_, rfl, q', ?_,
    rfl⟩⟩
  · apply hbefore.frame
    intro a' ha'
    rw [Heap.read_alloc_of_ne (hb a' ?_), Heap.read_write_of_ne]
    · exact fun heq => hpre (heq ▸ ha')
    · rw [List.map_append]
      exact List.mem_append_left _ ha'
  · rw [Heap.read_alloc_of_ne (hb a ha)]
    apply Heap.read_write_self
    rw [hread]
    exact Option.some_ne_none _
  · exact Heap.read_alloc_self

end Extend

variable {κ : Type}

/-- The lists at the given places, from `head i` to `tail i`, share no cell, and
nothing else is allocated. -/
structure Inventory (heap : Heap (Cell α)) (head tail : κ -> Option Nat)
    (cells : κ -> List (Nat × α)) : Prop where
  segment : forall i, Segment heap (tail i) (head i) (cells i)
  nodup : forall i, ((cells i).map Prod.fst).Nodup
  disjoint : forall i j, i ≠ j -> forall a, a ∈ (cells i).map Prod.fst ->
    a ∉ (cells j).map Prod.fst
  exact : forall a, heap.read a ≠ none -> exists i, a ∈ (cells i).map Prod.fst

theorem inventory_empty (κ : Type) :
    Inventory ([] : Heap (Cell α)) (fun _ : κ => none) (fun _ => none)
      fun _ => [] where
  segment := fun _ => rfl
  nodup := fun _ => List.nodup_nil
  disjoint := by
    intro i j _ a ha
    cases ha
  exact := by
    intro a ha
    exact absurd rfl ha

/-- The frame rule: an operation on one list leaves the others as they are, if
it takes only free cells, frees what it drops and touches nothing else. -/
theorem Inventory.replace [DecidableEq κ] {heap heap' : Heap (Cell α)}
    {head tail : κ -> Option Nat} {cells : κ -> List (Nat × α)} {i : κ}
    {head' tail' : Option Nat} {l : List (Nat × α)}
    (h : Inventory heap head tail cells)
    (hsegment : Segment heap' tail' head' l)
    (hnodup : (l.map Prod.fst).Nodup)
    (hplaces : forall a, a ∈ l.map Prod.fst ->
      a ∈ (cells i).map Prod.fst ∨ heap.read a = none)
    (hdropped : forall a, a ∈ (cells i).map Prod.fst -> a ∉ l.map Prod.fst ->
      heap'.read a = none)
    (hframe : forall a, a ∉ (cells i).map Prod.fst -> a ∉ l.map Prod.fst ->
      heap'.read a = heap.read a) :
    Inventory heap' (Function.update head i head')
      (Function.update tail i tail') (Function.update cells i l) := by
  have hapart : forall j, j ≠ i -> forall a, a ∈ (cells j).map Prod.fst ->
      a ∉ (cells i).map Prod.fst ∧ a ∉ l.map Prod.fst := by
    intro j hj a ha
    have hother := h.disjoint j i hj a ha
    refine ⟨hother, ?_⟩
    intro hl
    cases hplaces a hl with
    | inl hold => exact hother hold
    | inr hfree => exact (h.segment j).read_ne_none ha hfree
  refine ⟨?_, ?_, ?_, ?_⟩
  · intro j
    cases Classical.em (j = i) with
    | inl hj =>
        rw [hj, Function.update_self, Function.update_self,
          Function.update_self]
        exact hsegment
    | inr hj =>
        rw [Function.update_of_ne hj, Function.update_of_ne hj,
          Function.update_of_ne hj]
        apply (h.segment j).frame
        intro a ha
        exact hframe a (hapart j hj a ha).left (hapart j hj a ha).right
  · intro j
    cases Classical.em (j = i) with
    | inl hj =>
        rw [hj, Function.update_self]
        exact hnodup
    | inr hj =>
        rw [Function.update_of_ne hj]
        exact h.nodup j
  · intro j k hjk a ha
    cases Classical.em (j = i) with
    | inl hj =>
        have hk : k ≠ i := fun hk => hjk (hj.trans hk.symm)
        rw [hj, Function.update_self] at ha
        rw [Function.update_of_ne hk]
        intro hother
        exact (hapart k hk a hother).right ha
    | inr hj =>
        rw [Function.update_of_ne hj] at ha
        cases Classical.em (k = i) with
        | inl hk =>
            rw [hk, Function.update_self]
            exact (hapart j hj a ha).right
        | inr hk =>
            rw [Function.update_of_ne hk]
            exact h.disjoint j k hjk a ha
  · intro a ha
    cases Classical.em (a ∈ l.map Prod.fst) with
    | inl hl =>
        refine ⟨i, ?_⟩
        rw [Function.update_self]
        exact hl
    | inr hl =>
        have hold : a ∉ (cells i).map Prod.fst :=
          fun hold => ha (hdropped a hold hl)
        rw [hframe a hold hl] at ha
        rcases h.exact a ha with ⟨j, hj⟩
        have hne : j ≠ i := by
          intro heq
          rw [heq] at hj
          exact hold hj
        refine ⟨j, ?_⟩
        rw [Function.update_of_ne hne]
        exact hj

section Operations

variable [DecidableEq κ] {heap : Heap (Cell α)} {head tail : κ -> Option Nat}
  {cells : κ -> List (Nat × α)} {i : κ} {pre post : List (Nat × α)}
  {a b : Nat} {v w : α}

theorem Inventory.start (h : Inventory heap head tail cells)
    (hempty : cells i = []) (hfresh : heap.read a = none) (v : α)
    (q : Option Nat) :
    Inventory (heap.alloc a { value := v, next := q })
      (Function.update head i (some a)) (Function.update tail i q)
      (Function.update cells i [(a, v)]) := by
  apply h.replace
  · exact ⟨rfl, q, Heap.read_alloc_self, rfl⟩
  · exact List.nodup_singleton a
  · intro a' ha'
    cases List.mem_singleton.mp ha'
    exact Or.inr hfresh
  · intro a' ha'
    rw [hempty] at ha'
    cases ha'
  · intro a' _ ha'
    apply Heap.read_alloc_of_ne
    intro heq
    exact ha' (List.mem_singleton.mpr heq)

theorem Inventory.extend (h : Inventory heap head tail cells)
    (hl : cells i = pre ++ [(a, v)]) (hfresh : heap.read b = none) (w : α)
    (q : Option Nat) :
    heap.read a = some { value := v, next := tail i } ∧
      Inventory ((heap.write a { value := v, next := some b }).alloc b
          { value := w, next := q }) head (Function.update tail i q)
        (Function.update cells i (pre ++ [(a, v), (b, w)])) := by
  have hsegment := h.segment i
  have hnodup := h.nodup i
  rw [hl] at hsegment hnodup
  rcases hsegment.extend hnodup hfresh with ⟨hread, hextended⟩
  have hnew : forall a', a' ∈ (pre ++ [(a, v), (b, w)]).map Prod.fst <->
      a' ∈ (pre ++ [(a, v)]).map Prod.fst ∨ a' = b := by
    intro a'
    simp only [List.map_append, List.mem_append, List.map_cons, List.map_nil,
      List.mem_cons, List.not_mem_nil, or_false]
    exact or_assoc.symm
  have hb : b ∉ (pre ++ [(a, v)]).map Prod.fst := fun hb =>
    hsegment.read_ne_none hb hfresh
  have hreplaced := h.replace (i := i) hextended ?_ ?_ ?_ ?_
  · rw [Function.update_eq_self] at hreplaced
    exact ⟨hread, hreplaced⟩
  · rw [show pre ++ [(a, v), (b, w)] = (pre ++ [(a, v)]) ++ [(b, w)] by simp,
      List.map_append]
    exact nodup_concat hnodup hb
  · intro a' ha'
    rw [hl]
    cases (hnew a').mp ha' with
    | inl hold => exact Or.inl hold
    | inr hfirst =>
        rw [hfirst]
        exact Or.inr hfresh
  · intro a' hold hdropped
    rw [hl] at hold
    exact absurd ((hnew a').mpr (Or.inl hold)) hdropped
  · intro a' _ ha'
    rw [hnew, not_or] at ha'
    have hne : a' ≠ a := by
      intro heq
      apply ha'.left
      rw [heq, List.map_append]
      exact List.mem_append_right _ List.mem_cons_self
    rw [Heap.read_alloc_of_ne ha'.right, Heap.read_write_of_ne hne]

theorem Inventory.change (h : Inventory heap head tail cells)
    (hl : cells i = pre ++ (a, v) :: post) (w : α) :
    exists next, heap.read a = some { value := v, next := next } ∧
      Inventory (heap.write a { value := w, next := next }) head tail
        (Function.update cells i (pre ++ (a, w) :: post)) := by
  have hsegment := h.segment i
  have hnodup := h.nodup i
  rw [hl] at hsegment hnodup
  rcases hsegment.write_value hnodup w with ⟨next, hread, hwritten⟩
  have hsame : (pre ++ (a, w) :: post).map Prod.fst =
      (pre ++ (a, v) :: post).map Prod.fst := by
    rw [List.map_append, List.map_append, List.map_cons, List.map_cons]
  refine ⟨next, hread, ?_⟩
  have hreplaced := h.replace (i := i) hwritten ?_ ?_ ?_ ?_
  · rw [Function.update_eq_self, Function.update_eq_self] at hreplaced
    exact hreplaced
  · rw [hsame]
    exact hnodup
  · intro a' ha'
    rw [hsame] at ha'
    rw [hl]
    exact Or.inl ha'
  · intro a' hold hdropped
    rw [hl, ← hsame] at hold
    exact absurd hold hdropped
  · intro a' _ ha'
    apply Heap.read_write_of_ne
    intro heq
    apply ha'
    rw [heq, List.map_append]
    exact List.mem_append_right _ List.mem_cons_self

theorem Inventory.of_option {κ : Type} {heap : Heap (Cell α)}
    {head tail : Option κ -> Option Nat} {cells : Option κ -> List (Nat × α)}
    (h : Inventory heap head tail cells) (hnone : cells none = []) :
    Inventory heap (fun i => head (some i)) (fun i => tail (some i))
      fun i => cells (some i) where
  segment := fun i => h.segment (some i)
  nodup := fun i => h.nodup (some i)
  disjoint := by
    intro i j hij
    exact h.disjoint (some i) (some j) fun heq => hij (Option.some_inj.mp heq)
  exact := by
    intro a ha
    rcases h.exact a ha with ⟨place, hmem⟩
    cases place with
    | none =>
        rw [hnone] at hmem
        cases hmem
    | some i => exact ⟨i, hmem⟩

omit [DecidableEq κ] in
theorem Inventory.length_le (h : Inventory heap head tail cells) (i : κ) :
    (cells i).length ≤ heap.length :=
  (h.segment i).length_le (h.nodup i)

omit [DecidableEq κ] in
theorem Inventory.find_cases (h : Inventory heap head tail cells)
    (hend : tail i = none) (passes : α -> Bool) :
    (exists pre a v post, cells i = pre ++ (a, v) :: post ∧
      (forall x, x ∈ pre -> passes x.2 = false) ∧ passes v = true ∧
      find passes heap heap.length none (head i) =
        some (lastPlace none pre, some a)) ∨
    ((forall x, x ∈ cells i -> passes x.2 = false) ∧
      find passes heap heap.length none (head i) =
        some (lastPlace none (cells i), none)) := by
  have hsegment := h.segment i
  have hturns := h.length_le i
  rw [hend] at hsegment
  cases first_or_none passes (cells i) with
  | inl hfirst =>
      rcases hfirst with ⟨pre, a, v, post, hsplit, hpre, hv⟩
      rw [hsplit] at hsegment hturns
      rw [List.length_append, List.length_cons] at hturns
      exact Or.inl ⟨pre, a, v, post, hsplit, hpre, hv,
        find_of_first hsegment hpre hv (by omega) none⟩
  | inr hnone =>
      exact Or.inr ⟨hnone, find_of_none hsegment hnone hturns none⟩

theorem Inventory.changeAll (h : Inventory heap head tail cells)
    (hend : tail i = none) (change : α -> α) :
    exists heap', Foundation.changeAll change heap.length (head i) heap =
        some heap' ∧
      Inventory heap' head tail (Function.update cells i
        ((cells i).map fun x => (x.1, change x.2))) := by
  have hsegment := h.segment i
  rw [hend] at hsegment
  rcases changeAll_of_segment change hsegment (h.nodup i) (h.length_le i) with
    ⟨heap', hchanged, hsegment', hframe⟩
  have hsame : ((cells i).map fun x => (x.1, change x.2)).map Prod.fst =
      (cells i).map Prod.fst := by
    rw [List.map_map]
    rfl
  rw [← hend] at hsegment'
  refine ⟨heap', hchanged, ?_⟩
  have hreplaced := h.replace (i := i) hsegment' ?_ ?_ ?_ ?_
  · rw [Function.update_eq_self, Function.update_eq_self] at hreplaced
    exact hreplaced
  · rw [hsame]
    exact h.nodup i
  · intro a ha
    rw [hsame] at ha
    exact Or.inl ha
  · intro a hold hdropped
    rw [hsame] at hdropped
    exact absurd hold hdropped
  · intro a ha _
    exact hframe a ha

theorem Inventory.freeAll (h : Inventory heap head tail cells)
    (hend : tail i = none) :
    exists heap', Foundation.freeAll heap.length (head i) heap =
        some heap' ∧
      Inventory heap' (Function.update head i none)
        (Function.update tail i none) (Function.update cells i []) := by
  have hsegment := h.segment i
  rw [hend] at hsegment
  rcases freeAll_of_segment hsegment (h.nodup i) (h.length_le i) with
    ⟨heap', hfreed, hgone, hframe⟩
  refine ⟨heap', hfreed, ?_⟩
  apply h.replace
  · exact rfl
  · exact List.nodup_nil
  · intro a ha
    cases ha
  · intro a ha _
    exact hgone a ha
  · intro a ha _
    exact hframe a ha

theorem Inventory.dropFirst (h : Inventory heap head tail cells)
    (hl : cells i = (a, v) :: post) :
    exists next, heap.read a = some { value := v, next := next } ∧
      Inventory (heap.free a) (Function.update head i next) tail
        (Function.update cells i post) := by
  have hsegment := h.segment i
  have hnodup := h.nodup i
  rw [hl] at hsegment hnodup
  rw [List.map_cons, List.nodup_cons] at hnodup
  rcases hsegment with ⟨_, next, hread, hpost⟩
  have hkept : Segment (heap.free a) (tail i) next post := by
    apply hpost.frame
    intro a' ha'
    apply Heap.read_free_of_ne
    intro heq
    rw [heq] at ha'
    exact hnodup.left ha'
  refine ⟨next, hread, ?_⟩
  have hreplaced := h.replace (i := i) hkept hnodup.right ?_ ?_ ?_
  · rw [Function.update_eq_self i tail] at hreplaced
    exact hreplaced
  · intro a' ha'
    rw [hl]
    exact Or.inl (List.mem_cons_of_mem _ ha')
  · intro a' hold hdropped
    rw [hl] at hold
    cases List.mem_cons.mp hold with
    | inl hfirst =>
        rw [hfirst]
        exact Heap.read_free_self
    | inr hlater => exact absurd hlater hdropped
  · intro a' hold _
    rw [hl] at hold
    apply Heap.read_free_of_ne
    intro heq
    apply hold
    rw [heq]
    exact List.mem_cons_self

omit [DecidableEq κ] in
theorem Inventory.permute (h : Inventory heap head tail cells)
    (e : Equiv.Perm κ) :
    Inventory heap (head ∘ e) (tail ∘ e) (cells ∘ e) where
  segment := fun j => h.segment (e j)
  nodup := fun j => h.nodup (e j)
  disjoint := fun j k hjk =>
    h.disjoint (e j) (e k) fun heq => hjk (e.injective heq)
  exact := by
    intro a' ha'
    rcases h.exact a' ha' with ⟨j, hj⟩
    refine ⟨e.symm j, ?_⟩
    dsimp only [Function.comp]
    rw [e.apply_symm_apply]
    exact hj

end Operations

end Foundation
end DartSync
