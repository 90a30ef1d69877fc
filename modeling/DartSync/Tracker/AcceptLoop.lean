import Mathlib.Data.List.Perm.Subperm
import DartSync.Foundation.Keyed
import DartSync.Foundation.Transition

/-!
# The accept loop

`main` of `tracker/tracker.c` stores every accepted descriptor in one local
variable and hands its address to every `handshake` thread, which reads the
descriptor through it when it starts to run.
-/

namespace DartSync
namespace Tracker

open Foundation

structure AcceptLoop where
  /-- The local variable of `main`. -/
  connection : Int32
  /-- `main` is between `accept` and `pthread_create`. -/
  creating : Bool
  accepted : List Int32
  /-- What each `handshake` thread has read, if it has started to run. -/
  handlers : List (Option Int32)
deriving DecidableEq

inductive AcceptAction where
  | accept (fd : Int32)
  | create
  /-- `int connection = *(int *)arg;` in the thread with this index. -/
  | read (index : Nat)
deriving DecidableEq

namespace AcceptLoop

/-- `connection` is not initialised. -/
def start (connection : Int32) : AcceptLoop where
  connection := connection
  creating := false
  accepted := []
  handlers := []

/-- No connection is closed here, so `accept` returns new descriptors. -/
def step (s : AcceptLoop) : AcceptAction -> Option AcceptLoop
  | AcceptAction.accept fd =>
      if s.creating ∨ fd ∈ s.accepted then none
      else
        some { s with
          connection := fd
          creating := true
          accepted := s.accepted ++ [fd] }
  | AcceptAction.create =>
      if s.creating then
        some { s with creating := false, handlers := s.handlers ++ [none] }
      else none
  | AcceptAction.read index =>
      if s.handlers[index]? = some none then
        some { s with handlers := s.handlers.set index (some s.connection) }
      else none

def Complete (s : AcceptLoop) : Prop :=
  s.creating = false ∧ none ∉ s.handlers

/-- The threads have distinct descriptors, and each accepted one has one
thread. -/
structure Served (s : AcceptLoop) : Prop where
  distinct : (s.handlers.filterMap id).Nodup
  served : forall fd, fd ∈ s.accepted -> s.handlers.count (some fd) = 1

/-- A connection is accepted before every thread has read its descriptor. -/
def Overwrites (s : AcceptLoop) (a : AcceptAction) : Prop :=
  (exists fd, a = AcceptAction.accept fd) ∧ none ∈ s.handlers

/-!
## What a thread can read
-/

def AcceptedFrom (accepted : List Int32) (i : Nat) (fd : Int32) : Prop :=
  exists j, i ≤ j ∧ accepted[j]? = some fd

theorem AcceptedFrom.append {accepted : List Int32} {i : Nat} {fd : Int32}
    (h : AcceptedFrom accepted i fd) (later : List Int32) :
    AcceptedFrom (accepted ++ later) i fd := by
  rcases h with ⟨j, hij, hj⟩
  refine ⟨j, hij, ?_⟩
  rw [List.getElem?_append_left (List.getElem?_eq_some_iff.mp hj).1]
  exact hj

theorem AcceptedFrom.mem_drop {accepted : List Int32} {i : Nat} {fd : Int32}
    (h : AcceptedFrom accepted i fd) : fd ∈ accepted.drop i := by
  rcases h with ⟨j, hij, hj⟩
  apply List.mem_of_getElem? (i := j - i)
  rw [List.getElem?_drop, Nat.add_sub_cancel' hij]
  exact hj

structure Ordered (s : AcceptLoop) : Prop where
  length : s.accepted.length =
    if s.creating then s.handlers.length + 1 else s.handlers.length
  last : s.accepted ≠ [] ->
    s.accepted[s.accepted.length - 1]? = some s.connection
  distinct : s.accepted.Nodup
  later : forall i fd, s.handlers[i]? = some (some fd) ->
    AcceptedFrom s.accepted i fd

theorem ordered_start (connection : Int32) : Ordered (start connection) where
  length := rfl
  last := fun h => absurd rfl h
  distinct := List.nodup_nil
  later := by
    intro i fd h
    cases h

section Step

variable {s s' : AcceptLoop} {a : AcceptAction}

theorem step_accept {fd : Int32}
    (hstep : s.step (AcceptAction.accept fd) = some s') :
    s.creating = false ∧ fd ∉ s.accepted ∧
      s' = { s with
        connection := fd
        creating := true
        accepted := s.accepted ++ [fd] } := by
  dsimp only [step] at hstep
  split at hstep
  · cases hstep
  · next hfree =>
      rw [not_or, Bool.not_eq_true] at hfree
      exact ⟨hfree.left, hfree.right, (Option.some.inj hstep).symm⟩

theorem step_create (hstep : s.step AcceptAction.create = some s') :
    s.creating = true ∧
      s' = { s with creating := false, handlers := s.handlers ++ [none] } := by
  dsimp only [step] at hstep
  split at hstep
  · next hcreating => exact ⟨hcreating, (Option.some.inj hstep).symm⟩
  · cases hstep

theorem step_read {index : Nat}
    (hstep : s.step (AcceptAction.read index) = some s') :
    s.handlers[index]? = some none ∧
      s' = { s with
        handlers := s.handlers.set index (some s.connection) } := by
  dsimp only [step] at hstep
  split at hstep
  · next hunread => exact ⟨hunread, (Option.some.inj hstep).symm⟩
  · cases hstep

theorem Ordered.lt_accepted (h : Ordered s) {i : Nat} {v : Option Int32}
    (hv : s.handlers[i]? = some v) : i < s.accepted.length := by
  have hlt := (List.getElem?_eq_some_iff.mp hv).1
  have hlength := h.length
  split at hlength
  · omega
  · omega

theorem Ordered.connection (h : Ordered s) {i : Nat}
    (hi : i < s.accepted.length) :
    AcceptedFrom s.accepted i s.connection := by
  refine ⟨s.accepted.length - 1, by omega, h.last ?_⟩
  intro hnil
  rw [hnil] at hi
  cases hi

theorem Ordered.step (h : Ordered s) (hstep : s.step a = some s') :
    Ordered s' := by
  cases a with
  | accept fd =>
      rcases step_accept hstep with ⟨hidle, hnew, rfl⟩
      have hlength := h.length
      rw [hidle] at hlength
      constructor
      · rw [List.length_append, hlength]
        rfl
      · intro _
        rw [List.length_append, List.length_singleton, Nat.add_sub_cancel,
          List.getElem?_concat_length]
      · exact nodup_concat h.distinct hnew
      · intro i fd' hread
        exact (h.later i fd' hread).append [fd]
  | create =>
      rcases step_create hstep with ⟨hcreating, rfl⟩
      have hlength := h.length
      rw [hcreating] at hlength
      refine ⟨?_, h.last, h.distinct, ?_⟩
      · rw [List.length_append]
        exact hlength
      · intro i fd hread
        rcases getElem?_concat_cases hread with ⟨_, hnone⟩ | hread
        · cases hnone
        · exact h.later i fd hread
  | read index =>
      rcases step_read hstep with ⟨hunread, rfl⟩
      refine ⟨?_, h.last, h.distinct, ?_⟩
      · rw [List.length_set]
        exact h.length
      · intro i fd hread
        rcases getElem?_set_cases hread with ⟨rfl, hfd⟩ | ⟨_, hread⟩
        · cases hfd
          exact h.connection (h.lt_accepted hunread)
        · exact h.later i fd hread

/-!
## Threads that read their own descriptor
-/

def Own (s : AcceptLoop) : Prop :=
  forall i v, s.handlers[i]? = some v ->
    v = s.accepted[i]? ∨ (v = none ∧ i + 1 = s.accepted.length)

theorem own_start (connection : Int32) : Own (start connection) := by
  intro i v h
  cases h

theorem Own.step (h : Own s) (hordered : Ordered s)
    (hguard : ¬ Overwrites s a) (hstep : s.step a = some s') : Own s' := by
  cases a with
  | accept fd =>
      rcases step_accept hstep with ⟨_, _, rfl⟩
      intro i v hv
      rcases h i v hv with hread | ⟨rfl, _⟩
      · left
        rw [List.getElem?_append_left (hordered.lt_accepted hv)]
        exact hread
      · exact absurd ⟨⟨fd, rfl⟩, List.mem_of_getElem? hv⟩ hguard
  | create =>
      rcases step_create hstep with ⟨hcreating, rfl⟩
      intro i v hv
      rcases getElem?_concat_cases hv with ⟨rfl, rfl⟩ | hv
      · have hlength := hordered.length
        rw [hcreating] at hlength
        exact Or.inr ⟨rfl, hlength.symm⟩
      · exact h i v hv
  | read index =>
      rcases step_read hstep with ⟨hunread, rfl⟩
      intro i v hv
      rcases getElem?_set_cases hv with ⟨rfl, rfl⟩ | ⟨_, hv⟩
      · left
        rcases h i none hunread with hread | ⟨_, hi⟩
        · have hlt := hordered.lt_accepted hunread
          rw [List.getElem?_eq_getElem hlt] at hread
          cases hread
        · have hlast := hordered.last (by
            intro hnil
            rw [hnil] at hi
            cases hi)
          rw [← hi, Nat.add_sub_cancel] at hlast
          exact hlast.symm
      · exact h i v hv

theorem served_of_own (h : Own s) (hordered : Ordered s)
    (hcomplete : s.Complete) : Served s := by
  have hlength := hordered.length
  rw [hcomplete.left] at hlength
  have hhandlers : s.handlers = s.accepted.map some := by
    apply List.ext_getElem?
    intro i
    rw [List.getElem?_map]
    cases hv : s.handlers[i]? with
    | none =>
        rw [List.getElem?_eq_none_iff] at hv
        rw [List.getElem?_eq_none (by rw [hlength]; exact hv)]
        rfl
    | some v =>
        rcases h i v hv with hread | ⟨rfl, _⟩
        · have hlt := hordered.lt_accepted hv
          rw [List.getElem?_eq_getElem hlt] at hread ⊢
          rw [hread]
          rfl
        · exact absurd (List.mem_of_getElem? hv) hcomplete.right
  constructor
  · rw [hhandlers, List.filterMap_map]
    simpa using hordered.distinct
  · intro fd hfd
    rw [hhandlers]
    apply List.count_eq_one_of_mem
    · exact hordered.distinct.map fun _ _ h => Option.some.inj h
    · exact List.mem_map_of_mem hfd

/-!
## Threads that were overtaken
-/

/-- Some thread has read a later descriptor than its own, or is going to. -/
def Overtaken (s : AcceptLoop) : Prop :=
  exists k v, s.handlers[k]? = some v ∧ k + 1 < s.accepted.length ∧
    forall fd, v = some fd -> AcceptedFrom s.accepted (k + 1) fd

theorem overtaken_of_overwrites (hordered : Ordered s)
    (h : Overwrites s a) (hstep : s.step a = some s') : Overtaken s' := by
  rcases h with ⟨⟨fd, rfl⟩, hunread⟩
  rcases step_accept hstep with ⟨_, _, rfl⟩
  rcases List.mem_iff_getElem?.mp hunread with ⟨k, hk⟩
  refine ⟨k, none, hk, ?_, ?_⟩
  · have hlt := hordered.lt_accepted hk
    rw [List.length_append, List.length_singleton]
    exact Nat.succ_lt_succ hlt
  · intro fd' hfd'
    cases hfd'

theorem Overtaken.step (h : Overtaken s) (hordered : Ordered s)
    (hstep : s.step a = some s') : Overtaken s' := by
  rcases h with ⟨k, v, hk, hlt, hlater⟩
  cases a with
  | accept fd =>
      rcases step_accept hstep with ⟨_, _, rfl⟩
      refine ⟨k, v, hk, ?_, ?_⟩
      · rw [List.length_append]
        exact Nat.lt_add_right _ hlt
      · intro fd' hfd'
        exact (hlater fd' hfd').append [fd]
  | create =>
      rcases step_create hstep with ⟨_, rfl⟩
      refine ⟨k, v, ?_, hlt, hlater⟩
      rw [List.getElem?_append_left (List.getElem?_eq_some_iff.mp hk).1]
      exact hk
  | read index =>
      rcases step_read hstep with ⟨hunread, rfl⟩
      cases Classical.em (k = index) with
      | inl heq =>
          subst heq
          refine ⟨k, some s.connection, ?_, hlt, ?_⟩
          · exact List.getElem?_set_self (List.getElem?_eq_some_iff.mp hk).1
          · intro fd hfd
            cases hfd
            exact hordered.connection hlt
      | inr hne =>
          refine ⟨k, v, ?_, hlt, hlater⟩
          rw [List.getElem?_set_ne (Ne.symm hne)]
          exact hk

theorem not_served_of_overtaken (h : Overtaken s) (hordered : Ordered s)
    (hcomplete : s.Complete) : ¬ Served s := by
  intro hserved
  rcases h with ⟨k, v, hk, hlt, hlater⟩
  have hlength := hordered.length
  rw [hcomplete.left] at hlength
  have hsub : (s.handlers.drop k).filterMap id ⊆ s.accepted.drop (k + 1) := by
    intro fd hfd
    rcases List.mem_filterMap.mp hfd with ⟨w, hw, hread⟩
    rcases List.mem_iff_getElem?.mp hw with ⟨i, hi⟩
    rw [List.getElem?_drop] at hi
    cases i with
    | zero =>
        rw [Nat.add_zero, hk] at hi
        cases hi
        exact (hlater fd hread).mem_drop
    | succ i =>
        have hw' : w = some fd := hread
        rw [hw'] at hi
        rcases hordered.later _ fd hi with ⟨j, hj, hfd⟩
        exact AcceptedFrom.mem_drop ⟨j, by omega, hfd⟩
  have hnodup : ((s.handlers.drop k).filterMap id).Nodup :=
    hserved.distinct.sublist ((List.drop_sublist k _).filterMap id)
  have hle := (List.Nodup.subperm hnodup hsub).length_le
  have hall : ((s.handlers.drop k).filterMap id).length =
      (s.handlers.drop k).length := by
    rw [List.length_filterMap_eq_countP, List.countP_eq_length]
    intro w hw
    cases w with
    | none => exact absurd (List.mem_of_mem_drop hw) hcomplete.right
    | some fd => rfl
  rw [hall, List.length_drop, List.length_drop] at hle
  have hhandlers : s.accepted.length = s.handlers.length := hlength
  omega

end Step

/-- When all threads run, each connection has its own exactly if no connection
was accepted before the threads of the earlier ones had read theirs. -/
theorem served_iff_avoids_overwrites {connection : Int32}
    {actions : List AcceptAction} {s : AcceptLoop}
    (hrun : runFrom step (start connection) actions = some s)
    (hcomplete : s.Complete) :
    Served s <-> Avoids step Overwrites (start connection) actions := by
  have hresult := good_or_bad
    (fun _ _ _ hordered hstep => hordered.step hstep)
    (fun _ _ _ hordered hown hguard hstep => hown.step hordered hguard hstep)
    (fun _ _ _ hordered hspoil hstep =>
      overtaken_of_overwrites hordered hspoil hstep)
    (fun _ _ _ hordered hbad hstep => hbad.step hordered hstep)
    (ordered_start connection) (own_start connection) hrun
  rcases hresult with ⟨hordered, ⟨havoids, hown⟩ | ⟨hspoiled, hovertaken⟩⟩
  · exact iff_of_true (served_of_own hown hordered hcomplete) havoids
  · exact iff_of_false
      (not_served_of_overtaken hovertaken hordered hcomplete) hspoiled

def inTurn : List AcceptAction :=
  [AcceptAction.accept 4, AcceptAction.create, AcceptAction.read 0,
    AcceptAction.accept 5, AcceptAction.create, AcceptAction.read 1]

def servedInTurn : AcceptLoop where
  connection := 5
  creating := false
  accepted := [4, 5]
  handlers := [some 4, some 5]

theorem served_in_turn : Served servedInTurn :=
  (served_iff_avoids_overwrites (show runFrom step (start 0) inTurn =
    some servedInTurn by decide) ⟨by decide, by decide⟩).mpr (by
      simp [Avoids, Overwrites, inTurn, start, step])

/-- The second connection is accepted before the first thread has run. -/
theorem overtaken_not_served :
    exists s, runFrom step (start 0)
        [AcceptAction.accept 4, AcceptAction.create, AcceptAction.accept 5,
          AcceptAction.create, AcceptAction.read 0, AcceptAction.read 1] =
        some s ∧
      s.Complete ∧ s.handlers = [some 5, some 5] ∧ ¬ Served s := by
  refine ⟨{ servedInTurn with handlers := [some 5, some 5] }, by decide,
    ⟨by decide, by decide⟩, rfl, ?_⟩
  intro h
  exact absurd h.distinct (by decide)

end AcceptLoop
end Tracker
end DartSync
