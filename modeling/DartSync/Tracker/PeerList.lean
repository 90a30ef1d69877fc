import DartSync.Common.Constant
import DartSync.Foundation.LinkedList
import DartSync.Foundation.Transition

/-!
# The tracker's peer list

`add_peer`, `heard_peer` and the list part of `delete_peer` of
`tracker/tracker.c` over a heap, and the registry that the list stands for.  A
call is `none` where it follows a null pointer or one to a freed cell, or does
not end.
-/

namespace DartSync
namespace Tracker

open Foundation

/-- `tracker_peer_t` without its link.  The addresses are those of `inet_ntoa`:
with its 17 bytes the `memcpy` of `add_peer` also reaches the time stamp, which
is written next. -/
structure TrackerPeer where
  ip : CString IP_LEN
  last_time_stamp : UInt64
  sockfd : Int32
deriving DecidableEq

structure PeerList where
  heap : Heap (Cell TrackerPeer)
  peer_head : Option Nat

structure Reply where
  value : Int32
  closed : List Int32
deriving DecidableEq

namespace PeerList

/-- The loop of `add_peer` from `temp` on: the last element, or `none` where the
descriptor is found.  A loop that takes more turns than there are cells does
not end. -/
def addLoop (heap : Heap (Cell TrackerPeer)) (peer_sockfd : Int32) :
    Nat -> Nat -> Option (Option Nat)
  | 0, _ => none
  | turns + 1, temp =>
      match heap.read temp with
      | none => none
      | some cell =>
          match cell.next with
          | none => some (some temp)
          | some next =>
              if cell.value.sockfd = peer_sockfd then some none
              else addLoop heap peer_sockfd turns next

/-- `add_peer` at time `now`; `address` is what `calloc` returns. -/
def addPeer (s : PeerList) (peer_sockfd : Int32) (ip : CString IP_LEN)
    (now : UInt64) (address : Nat) : Option (PeerList × Reply) :=
  let added : TrackerPeer :=
    { ip := ip, last_time_stamp := now, sockfd := peer_sockfd }
  match s.peer_head with
  | none =>
      some ({ heap := s.heap.alloc address { value := added, next := none }
              peer_head := some address },
        { value := 1, closed := [] })
  | some head =>
      match addLoop s.heap peer_sockfd s.heap.length head with
      | none => none
      | some none => some (s, { value := -1, closed := [] })
      | some (some temp) =>
          (s.heap.read temp).map fun cell =>
            ({ s with
                heap := (s.heap.write temp
                    { cell with next := some address }).alloc address
                  { value := added, next := none } },
              { value := 1, closed := [] })

/-- The loop of `delete_peer` from `temp` on. -/
def deleteLoop (s : PeerList) (peer_sockfd : Int32) :
    Nat -> Nat -> Option (PeerList × Reply)
  | 0, _ => none
  | turns + 1, temp =>
      match s.heap.read temp with
      | none => none
      | some cell =>
          match cell.next with
          | none => some (s, { value := 1, closed := [] })
          | some next =>
              if s.peer_head = some temp ∧
                  cell.value.sockfd = peer_sockfd then
                some ({ s with heap := s.heap.free temp },
                  { value := 1, closed := [cell.value.sockfd] })
              else
                match s.heap.read next with
                | none => none
                | some node =>
                    if node.value.sockfd = peer_sockfd then
                      some ({ s with
                          heap := (s.heap.write temp
                            { cell with next := node.next }).free next },
                        { value := 1, closed := [node.value.sockfd] })
                    else deleteLoop s peer_sockfd turns next

/-- `delete_peer` behind its loop over the file table.  It dereferences
`peer_head` first. -/
def deletePeer (s : PeerList) (peer_sockfd : Int32) :
    Option (PeerList × Reply) :=
  match s.peer_head with
  | none => none
  | some head => deleteLoop s peer_sockfd s.heap.length head

def heardLoop (s : PeerList) (peer_sockfd : Int32) (now : UInt64) :
    Nat -> Option Nat -> Option (PeerList × Reply)
  | _, none => some (s, { value := -1, closed := [] })
  | 0, some _ => none
  | turns + 1, some temp =>
      match s.heap.read temp with
      | none => none
      | some cell =>
          if cell.value.sockfd = peer_sockfd then
            some ({ s with
                heap := s.heap.write temp { cell with
                  value := { cell.value with last_time_stamp := now } } },
              { value := 1, closed := [] })
          else heardLoop s peer_sockfd now turns cell.next

def heardPeer (s : PeerList) (peer_sockfd : Int32) (now : UInt64) :
    Option (PeerList × Reply) :=
  heardLoop s peer_sockfd now s.heap.length s.peer_head

/-- `peer_head` is `NULL` and nothing is allocated. -/
def empty : PeerList where
  heap := []
  peer_head := none

end PeerList

inductive PeerCall where
  | add (peer_sockfd : Int32) (ip : CString IP_LEN) (now : UInt64)
      (address : Nat)
  | heard (peer_sockfd : Int32) (now : UInt64)
  | delete (peer_sockfd : Int32)

def PeerList.call (s : PeerList) : PeerCall -> Option (PeerList × Reply)
  | PeerCall.add peer_sockfd ip now address =>
      s.addPeer peer_sockfd ip now address
  | PeerCall.heard peer_sockfd now => s.heardPeer peer_sockfd now
  | PeerCall.delete peer_sockfd => s.deletePeer peer_sockfd

/-!
## The registry
-/

/-- What the list is for: the peers added and not deleted since, in order of
addition. -/
abbrev Registry := List TrackerPeer

namespace Registry

def descriptors (l : Registry) : List Int32 :=
  l.map TrackerPeer.sockfd

def call (l : Registry) : PeerCall -> Registry × Reply
  | PeerCall.add fd ip now _ =>
      if fd ∈ l.descriptors then (l, { value := -1, closed := [] })
      else
        (l ++ [{ ip := ip, last_time_stamp := now, sockfd := fd }],
          { value := 1, closed := [] })
  | PeerCall.heard fd now =>
      if fd ∈ l.descriptors then
        (modifyFirst TrackerPeer.sockfd fd
            (fun peer => { peer with last_time_stamp := now }) l,
          { value := 1, closed := [] })
      else (l, { value := -1, closed := [] })
  | PeerCall.delete fd =>
      if fd ∈ l.descriptors then
        (l.filter (fun peer => peer.sockfd ≠ fd),
          { value := 1, closed := [fd] })
      else (l, { value := 1, closed := [] })

section Call

variable {l : Registry} {fd : Int32} {ip : CString IP_LEN} {now : UInt64}
  {address : Nat}

theorem call_add_of_mem (h : fd ∈ l.descriptors) :
    l.call (PeerCall.add fd ip now address) =
      (l, { value := -1, closed := [] }) := if_pos h

theorem call_add_of_notMem (h : fd ∉ l.descriptors) :
    l.call (PeerCall.add fd ip now address) =
      (l ++ [{ ip := ip, last_time_stamp := now, sockfd := fd }],
        { value := 1, closed := [] }) := if_neg h

theorem call_heard_of_mem (h : fd ∈ l.descriptors) :
    l.call (PeerCall.heard fd now) =
      (modifyFirst TrackerPeer.sockfd fd
          (fun peer => { peer with last_time_stamp := now }) l,
        { value := 1, closed := [] }) := if_pos h

theorem call_heard_of_notMem (h : fd ∉ l.descriptors) :
    l.call (PeerCall.heard fd now) = (l, { value := -1, closed := [] }) :=
  if_neg h

theorem call_delete_of_mem (h : fd ∈ l.descriptors) :
    l.call (PeerCall.delete fd) =
      (l.filter (fun peer => peer.sockfd ≠ fd),
        { value := 1, closed := [fd] }) := if_pos h

theorem call_delete_of_notMem (h : fd ∉ l.descriptors) :
    l.call (PeerCall.delete fd) = (l, { value := 1, closed := [] }) := if_neg h

theorem mem_descriptors_add {fd' : Int32} :
    fd ∈ (l.call (PeerCall.add fd' ip now address)).1.descriptors <->
      fd = fd' ∨ fd ∈ l.descriptors := by
  cases Classical.em (fd' ∈ l.descriptors) with
  | inl hmem =>
      rw [call_add_of_mem hmem]
      constructor
      · exact Or.inr
      · intro h
        rcases h with rfl | h
        · exact hmem
        · exact h
  | inr hnew =>
      rw [call_add_of_notMem hnew]
      dsimp only [descriptors]
      rw [List.map_append, List.mem_append, List.map_singleton,
        List.mem_singleton]
      exact or_comm

theorem descriptors_heard :
    (l.call (PeerCall.heard fd now)).1.descriptors = l.descriptors := by
  cases Classical.em (fd ∈ l.descriptors) with
  | inl hmem =>
      rw [call_heard_of_mem hmem]
      exact keys_modifyFirst fun _ hpeer => hpeer
  | inr hnew => rw [call_heard_of_notMem hnew]

theorem mem_descriptors_delete {fd' : Int32} :
    fd ∈ (l.call (PeerCall.delete fd')).1.descriptors <->
      fd ∈ l.descriptors ∧ fd ≠ fd' := by
  cases Classical.em (fd' ∈ l.descriptors) with
  | inl hmem =>
      rw [call_delete_of_mem hmem]
      simp only [descriptors, List.mem_map, List.mem_filter,
        decide_eq_true_eq]
      constructor
      · intro h
        rcases h with ⟨peer, ⟨hpeer, hne⟩, rfl⟩
        exact ⟨⟨peer, hpeer, rfl⟩, hne⟩
      · intro h
        rcases h with ⟨⟨peer, hpeer, rfl⟩, hne⟩
        exact ⟨peer, ⟨hpeer, hne⟩, rfl⟩
  | inr hnew =>
      rw [call_delete_of_notMem hnew]
      constructor
      · intro h
        exact ⟨h, fun heq => hnew (heq ▸ h)⟩
      · exact And.left

theorem mem_descriptors_call {c : PeerCall} :
    fd ∈ (l.call c).1.descriptors <->
      (exists ip now address, c = PeerCall.add fd ip now address) ∨
        (fd ∈ l.descriptors ∧ c ≠ PeerCall.delete fd) := by
  cases c with
  | add fd' ip now address =>
      rw [mem_descriptors_add]
      simp [eq_comm]
  | heard fd' now =>
      rw [descriptors_heard]
      simp
  | delete fd' =>
      rw [mem_descriptors_delete]
      simp [eq_comm]

theorem nodup_call (h : l.descriptors.Nodup) (c : PeerCall) :
    (l.call c).1.descriptors.Nodup := by
  cases c with
  | add fd ip now address =>
      cases Classical.em (fd ∈ l.descriptors) with
      | inl hmem =>
          rw [call_add_of_mem hmem]
          exact h
      | inr hnew =>
          rw [call_add_of_notMem hnew]
          dsimp only [descriptors]
          rw [List.map_append]
          exact nodup_concat h hnew
  | heard fd now =>
      rw [descriptors_heard]
      exact h
  | delete fd =>
      cases Classical.em (fd ∈ l.descriptors) with
      | inl hmem =>
          rw [call_delete_of_mem hmem]
          exact h.sublist (List.filter_sublist.map TrackerPeer.sockfd)
      | inr hnew =>
          rw [call_delete_of_notMem hnew]
          exact h

end Call

def step (l : Registry) (c : PeerCall) : Option Registry :=
  some (l.call c).1

theorem registered_iff {calls : List PeerCall} {l : Registry} {fd : Int32}
    (h : runFrom step [] calls = some l) :
    fd ∈ l.descriptors <->
      SetLast step
        (fun _ c => exists ip now address, c = PeerCall.add fd ip now address)
        (fun _ c => c = PeerCall.delete fd) [] calls := by
  refine holds_iff_setLast (I := fun _ : Registry => True)
    (P := fun l : Registry => fd ∈ l.descriptors) ?_ trivial h
    List.not_mem_nil
  intro l c l' _ hstep
  cases hstep
  exact ⟨trivial, mem_descriptors_call⟩

end Registry

/-!
## The loops over a segment
-/

abbrev Places := List (Nat × TrackerPeer)

def Places.descriptors (l : Places) : List Int32 :=
  Registry.descriptors (l.map Prod.snd)

theorem mem_descriptors_cons {fd : Int32} {x : Nat × TrackerPeer}
    {rest : Places} :
    fd ∈ Places.descriptors (x :: rest) <->
      fd = x.2.sockfd ∨ fd ∈ rest.descriptors :=
  List.mem_cons

section Loops

variable {s : PeerList} {heap : Heap (Cell TrackerPeer)}
  {p q next : Option Nat} {fd : Int32} {turns temp a b : Nat}
  {v w : TrackerPeer} {l pre post : Places}

theorem exists_head (h : Segment heap q p (pre ++ (a, v) :: post)) :
    exists temp, p = some temp := by
  cases pre with
  | nil => exact ⟨a, h.left⟩
  | cons x rest => exact ⟨x.1, h.left⟩

theorem exists_head_of_ne (h : Segment heap q p (pre ++ (a, v) :: post))
    (hpre : fd ∉ pre.descriptors) (hv : v.sockfd ≠ fd) :
    exists temp cell, p = some temp ∧ heap.read temp = some cell ∧
      cell.value.sockfd ≠ fd := by
  cases pre with
  | nil =>
      rcases h with ⟨hp, next, hread, _⟩
      exact ⟨a, _, hp, hread, hv⟩
  | cons x rest =>
      rcases h with ⟨hp, next, hread, _⟩
      rw [mem_descriptors_cons, not_or] at hpre
      exact ⟨x.1, _, hp, hread, Ne.symm hpre.left⟩

theorem exists_before_of_mem {x : Nat × TrackerPeer}
    (h : fd ∈ Places.descriptors (x :: l)) (hx : x.2.sockfd ≠ fd) :
    exists (pre : Places) (a : Nat) (v : TrackerPeer) (b : Nat)
      (w : TrackerPeer) (post : Places),
      x :: l = pre ++ (a, v) :: (b, w) :: post ∧ fd ∉ pre.descriptors ∧
        v.sockfd ≠ fd ∧ w.sockfd = fd := by
  unfold Places.descriptors Registry.descriptors at h
  rw [List.map_map] at h
  rcases exists_first_of_mem_keys h with
    ⟨before, ⟨b, w⟩, post, hsplit, hw, hno⟩
  rw [← List.map_map] at hno
  rcases List.eq_nil_or_concat' before with rfl | ⟨pre, ⟨a, v⟩, rfl⟩
  · cases hsplit
    exact absurd hw hx
  · rw [List.append_assoc] at hsplit
    rw [List.map_append, List.map_append, List.mem_append, not_or] at hno
    refine ⟨pre, a, v, b, w, post, hsplit, hno.left, ?_, hw⟩
    intro hv
    apply hno.right
    rw [← hv]
    exact List.mem_singleton_self v.sockfd

theorem addLoop_eq
    (h : Segment heap none (some temp) (pre ++ [(a, v)]))
    (hturns : pre.length < turns) :
    PeerList.addLoop heap fd turns temp =
      if fd ∈ pre.descriptors then some none else some (some a) := by
  induction pre generalizing temp turns with
  | nil =>
      rcases h with ⟨htemp, next, hread, hnext⟩
      cases htemp
      change next = none at hnext
      subst hnext
      cases turns with
      | zero => cases hturns
      | succ turns =>
          rw [PeerList.addLoop, hread]
          exact (if_neg List.not_mem_nil).symm
  | cons x rest ih =>
      rcases h with ⟨htemp, next, hread, hrest⟩
      cases htemp
      rcases exists_head hrest with ⟨temp, rfl⟩
      cases turns with
      | zero => cases hturns
      | succ turns =>
          rw [PeerList.addLoop, hread]
          dsimp only
          rw [ih hrest (Nat.lt_of_succ_lt_succ hturns)]
          cases Classical.em (x.2.sockfd = fd) with
          | inl heq =>
              rw [if_pos heq, if_pos]
              rw [mem_descriptors_cons]
              exact Or.inl heq.symm
          | inr hne =>
              rw [if_neg hne]
              simp only [mem_descriptors_cons, Ne.symm hne, false_or]

theorem heardLoop_of_notMem {now : UInt64} (h : Segment s.heap none p l)
    (hturns : l.length ≤ turns) (hfd : fd ∉ l.descriptors) :
    s.heardLoop fd now turns p =
      some (s, { value := -1, closed := [] }) := by
  induction l generalizing p turns with
  | nil =>
      change p = none at h
      rw [h]
      cases turns <;> rfl
  | cons x rest ih =>
      rcases h with ⟨rfl, next, hread, hrest⟩
      rw [mem_descriptors_cons, not_or] at hfd
      cases turns with
      | zero => cases hturns
      | succ turns =>
          rw [PeerList.heardLoop, hread]
          dsimp only
          rw [if_neg (Ne.symm hfd.left)]
          exact ih hrest (Nat.le_of_succ_le_succ hturns) hfd.right

theorem heardLoop_of_first {now : UInt64}
    (h : Segment s.heap none p (pre ++ (a, v) :: post))
    (hread : s.heap.read a = some { value := v, next := next })
    (hturns : pre.length < turns) (hpre : fd ∉ pre.descriptors)
    (hv : v.sockfd = fd) :
    s.heardLoop fd now turns p =
      some ({ s with
          heap := s.heap.write a
            { value := { v with last_time_stamp := now }, next := next } },
        { value := 1, closed := [] }) := by
  induction pre generalizing p turns with
  | nil =>
      rcases h with ⟨rfl, _⟩
      cases turns with
      | zero => cases hturns
      | succ turns =>
          rw [PeerList.heardLoop, hread]
          exact if_pos hv
  | cons x rest ih =>
      rcases h with ⟨rfl, link, hreadx, hrest⟩
      rw [mem_descriptors_cons, not_or] at hpre
      cases turns with
      | zero => cases hturns
      | succ turns =>
          rw [PeerList.heardLoop, hreadx]
          dsimp only
          rw [if_neg (Ne.symm hpre.left)]
          exact ih hrest (Nat.lt_of_succ_lt_succ hturns) hpre.right

theorem deleteLoop_of_notMem
    (h : Segment s.heap none (some temp) ((a, v) :: l))
    (hturns : l.length < turns) (hv : v.sockfd ≠ fd)
    (hfd : fd ∉ l.descriptors) :
    s.deleteLoop fd turns temp = some (s, { value := 1, closed := [] }) := by
  induction l generalizing temp a v turns with
  | nil =>
      rcases h with ⟨htemp, next, hread, hnext⟩
      cases htemp
      change next = none at hnext
      subst hnext
      cases turns with
      | zero => cases hturns
      | succ turns => rw [PeerList.deleteLoop, hread]
  | cons x rest ih =>
      rcases h with ⟨htemp, next, hread, hrest⟩
      cases htemp
      have hnext := hrest
      rcases hrest with ⟨rfl, link, hreadx, _⟩
      rw [mem_descriptors_cons, not_or] at hfd
      cases turns with
      | zero => cases hturns
      | succ turns =>
          rw [PeerList.deleteLoop, hread]
          dsimp only
          rw [if_neg fun hhead => hv hhead.right, hreadx]
          dsimp only
          rw [if_neg (Ne.symm hfd.left)]
          exact ih hnext (Nat.lt_of_succ_lt_succ hturns) (Ne.symm hfd.left)
            hfd.right

theorem deleteLoop_of_first
    (h : Segment s.heap none (some temp) (pre ++ (a, v) :: (b, w) :: post))
    (hreada : s.heap.read a = some { value := v, next := some b })
    (hreadb : s.heap.read b = some { value := w, next := next })
    (hturns : pre.length < turns) (hpre : fd ∉ pre.descriptors)
    (hv : v.sockfd ≠ fd) (hw : w.sockfd = fd) :
    s.deleteLoop fd turns temp =
      some ({ s with
          heap := (s.heap.write a { value := v, next := next }).free b },
        { value := 1, closed := [fd] }) := by
  induction pre generalizing temp turns with
  | nil =>
      rcases h with ⟨htemp, _⟩
      cases htemp
      cases turns with
      | zero => cases hturns
      | succ turns =>
          rw [PeerList.deleteLoop, hreada]
          dsimp only
          rw [if_neg fun hhead => hv hhead.right, hreadb]
          dsimp only
          rw [if_pos hw, hw]
  | cons x rest ih =>
      rcases h with ⟨htemp, link, hreadx, hrest⟩
      cases htemp
      rw [mem_descriptors_cons, not_or] at hpre
      rcases exists_head_of_ne hrest hpre.right hv with
        ⟨temp, cell, rfl, hreadtemp, hcell⟩
      cases turns with
      | zero => cases hturns
      | succ turns =>
          rw [PeerList.deleteLoop, hreadx]
          dsimp only
          rw [if_neg fun hhead => hpre.left hhead.right.symm, hreadtemp]
          dsimp only
          rw [if_neg hcell]
          exact ih hrest (Nat.lt_of_succ_lt_succ hturns) hpre.right

end Loops

/-!
## The list stands for the registry
-/

/-- The cells that lead from `peer_head` to `NULL` hold the registered peers. -/
def Represents (s : PeerList) (l : Registry) : Prop :=
  exists places : Places, Segment s.heap none s.peer_head places ∧
    (places.map Prod.fst).Nodup ∧ places.map Prod.snd = l

def Fresh (s : PeerList) : PeerCall -> Prop
  | PeerCall.add _ _ _ address => s.heap.read address = none
  | _ => True

/-- The calls that `add_peer` and `delete_peer` are right about: no peer is added
again while it is the last, and none is deleted while it is the first, or from
an empty list. -/
def Registry.Admits (l : Registry) : PeerCall -> Prop
  | PeerCall.add fd _ _ _ => forall peer, l.getLast? = some peer -> peer.sockfd ≠ fd
  | PeerCall.heard _ _ => True
  | PeerCall.delete fd => exists peer, l.head? = some peer ∧ peer.sockfd ≠ fd

section Refinement

variable {s : PeerList} {l : Registry} {fd : Int32}

theorem addPeer_refines {ip : CString IP_LEN} {now : UInt64} {address : Nat}
    (h : Represents s l) (hfresh : Fresh s (PeerCall.add fd ip now address))
    (hadmits : l.Admits (PeerCall.add fd ip now address)) :
    exists s', s.addPeer fd ip now address =
        some (s', (l.call (PeerCall.add fd ip now address)).2) ∧
      Represents s' (l.call (PeerCall.add fd ip now address)).1 := by
  rcases h with ⟨places, hsegment, hnodup, rfl⟩
  unfold PeerList.addPeer
  rcases List.eq_nil_or_concat' places with rfl | ⟨init, ⟨a, v⟩, rfl⟩
  · change s.peer_head = none at hsegment
    rw [hsegment]
    refine ⟨_, rfl, [(address, _)], ⟨rfl, none, ?_, rfl⟩,
      List.nodup_singleton address, rfl⟩
    exact Heap.read_alloc_self
  · rcases exists_head hsegment with ⟨head, hhead⟩
    have hlength := hsegment.length_le hnodup
    rw [List.length_append, List.length_singleton] at hlength
    have hlast : v.sockfd ≠ fd := by
      apply hadmits v
      rw [List.map_append]
      exact List.getLast?_concat
    have hmem : fd ∈ Registry.descriptors ((init ++ [(a, v)]).map Prod.snd) <->
        fd ∈ Places.descriptors init := by
      unfold Registry.descriptors Places.descriptors
      simp [Registry.descriptors, Ne.symm hlast]
    have hloop : PeerList.addLoop s.heap fd s.heap.length head =
        if fd ∈ Places.descriptors init then some none else some (some a) :=
      addLoop_eq (hhead ▸ hsegment) (by omega)
    rw [hhead]
    dsimp only
    rw [hloop]
    cases Classical.em (fd ∈ Places.descriptors init) with
    | inl hfound =>
        rw [if_pos hfound, Registry.call_add_of_mem (hmem.mpr hfound)]
        exact ⟨s, rfl, _, hsegment, hnodup, rfl⟩
    | inr hnew =>
        rw [if_neg hnew,
          Registry.call_add_of_notMem fun hfound => hnew (hmem.mp hfound)]
        rcases hsegment.concat hnodup hfresh
          { ip := ip, last_time_stamp := now, sockfd := fd } with
          ⟨hread, hadded⟩
        dsimp only
        rw [hread, Option.map_some]
        refine ⟨_, rfl, _, hhead ▸ hadded, ?_, ?_⟩
        · rw [List.append_cons, List.map_append]
          apply nodup_concat hnodup
          intro haddress
          exact hsegment.read_ne_none haddress hfresh
        · simp

theorem heardPeer_places {now : UInt64} {places : Places}
    (hsegment : Segment s.heap none s.peer_head places)
    (hnodup : (places.map Prod.fst).Nodup) :
    exists s' places', s.heardPeer fd now = some (s',
        (Registry.call (places.map Prod.snd) (PeerCall.heard fd now)).2) ∧
      Segment s'.heap none s'.peer_head places' ∧
      places'.map Prod.fst = places.map Prod.fst ∧
      places'.map Prod.snd =
        (Registry.call (places.map Prod.snd) (PeerCall.heard fd now)).1 := by
  have hlength := hsegment.length_le hnodup
  unfold PeerList.heardPeer
  cases Classical.em (fd ∈ places.descriptors) with
  | inl hmem =>
      rw [Registry.call_heard_of_mem hmem]
      unfold Places.descriptors Registry.descriptors at hmem
      rw [List.map_map] at hmem
      rcases exists_first_of_mem_keys hmem with
        ⟨pre, ⟨a, v⟩, post, rfl, hv, hpre⟩
      rw [← List.map_map] at hpre
      rcases hsegment.write_value hnodup { v with last_time_stamp := now } with
        ⟨next, hread, hwritten⟩
      rw [List.length_append, List.length_cons] at hlength
      rw [heardLoop_of_first hsegment hread (by omega) hpre hv]
      refine ⟨_, _, rfl, hwritten, ?_, ?_⟩
      · rw [List.map_append, List.map_cons, List.map_append, List.map_cons]
      · rw [List.map_append, List.map_cons, List.map_append, List.map_cons,
          modifyFirst_of_first hpre hv]
  | inr hnew =>
      rw [Registry.call_heard_of_notMem hnew,
        heardLoop_of_notMem hsegment hlength hnew]
      exact ⟨s, places, rfl, hsegment, rfl, rfl⟩

theorem heardPeer_refines {now : UInt64} (h : Represents s l) :
    exists s', s.heardPeer fd now =
        some (s', (l.call (PeerCall.heard fd now)).2) ∧
      Represents s' (l.call (PeerCall.heard fd now)).1 := by
  rcases h with ⟨places, hsegment, hnodup, rfl⟩
  rcases @heardPeer_places s fd now places hsegment hnodup with
    ⟨s', places', hcall, hafter, haddresses, hvalues⟩
  exact ⟨s', hcall, places', hafter, haddresses ▸ hnodup, hvalues⟩

theorem deletePeer_refines (h : Represents s l)
    (hdescriptors : l.descriptors.Nodup)
    (hadmits : l.Admits (PeerCall.delete fd)) :
    exists s', s.deletePeer fd = some (s', (l.call (PeerCall.delete fd)).2) ∧
      Represents s' (l.call (PeerCall.delete fd)).1 := by
  rcases h with ⟨places, hsegment, hnodup, rfl⟩
  have hlength := hsegment.length_le hnodup
  rcases hadmits with ⟨v0, hfirst, hv0⟩
  cases places with
  | nil => cases hfirst
  | cons x rest =>
      cases hfirst
      have hhead : s.peer_head = some x.1 := hsegment.left
      unfold PeerList.deletePeer
      rw [hhead]
      dsimp only
      cases Classical.em (fd ∈ Places.descriptors (x :: rest)) with
      | inl hmem =>
          rw [Registry.call_delete_of_mem hmem]
          rcases exists_before_of_mem hmem hv0 with
            ⟨pre, a, v, b, w, post, hsplit, hpre, hv, hw⟩
          rw [hsplit] at hsegment hnodup hlength hdescriptors ⊢
          rcases hsegment.unlink hnodup with
            ⟨next, hreada, hreadb, hunlinked⟩
          rw [List.length_append, List.length_cons] at hlength
          rw [deleteLoop_of_first (hhead ▸ hsegment) hreada hreadb (by omega)
            hpre hv hw]
          refine ⟨_, rfl, _, hunlinked, ?_, ?_⟩
          · refine List.Nodup.sublist ?_ hnodup
            apply List.Sublist.map
            apply List.Sublist.append_left
            exact (List.sublist_cons_self _ _).cons_cons _
          · have hvalues : (pre ++ (a, v) :: (b, w) :: post).map Prod.snd =
                (pre ++ [(a, v)]).map Prod.snd ++ w :: post.map Prod.snd := by
              simp
            rw [hvalues] at hdescriptors ⊢
            rw [filter_key_ne_of_split hdescriptors hw]
            simp
      | inr hnew =>
          rw [Registry.call_delete_of_notMem hnew]
          rw [mem_descriptors_cons, not_or] at hnew
          rw [deleteLoop_of_notMem (hhead ▸ hsegment) hlength hv0 hnew.right]
          exact ⟨s, rfl, _, hsegment, hnodup, rfl⟩

theorem call_refines {c : PeerCall} (h : Represents s l)
    (hdescriptors : l.descriptors.Nodup) (hfresh : Fresh s c)
    (hadmits : l.Admits c) :
    exists s', s.call c = some (s', (l.call c).2) ∧
      Represents s' (l.call c).1 := by
  cases c with
  | add fd ip now address => exact addPeer_refines h hfresh hadmits
  | heard fd now => exact heardPeer_refines h
  | delete fd => exact deletePeer_refines h hdescriptors hadmits

end Refinement

/-!
## Runs
-/

def registryStep (x : PeerList × Registry) (c : PeerCall) :
    Option (PeerList × Registry) :=
  (x.1.call c).map fun result => (result.1, (x.2.call c).1)

def registryGuard (x : PeerList × Registry) (c : PeerCall) : Prop :=
  Fresh x.1 c ∧ x.2.Admits c

def Idle (c : PeerCall) (reply : Reply) : Prop :=
  reply.value = -1 ∨ (exists fd, c = PeerCall.delete fd) ∧ reply.closed = []

/-- The list is the registry, and the next call does what the registry does,
without an invalid access. -/
structure Faithful (s : PeerList) (l : Registry) : Prop where
  represents : Represents s l
  nodup : l.descriptors.Nodup
  answers : forall c, Fresh s c -> l.Admits c ->
    exists s', s.call c = some (s', (l.call c).2) ∧
      Represents s' (l.call c).1 ∧ (Idle c (l.call c).2 -> s' = s)

theorem represents_empty : Represents PeerList.empty [] :=
  ⟨[], rfl, List.nodup_nil, rfl⟩

theorem reachable_represents {x : PeerList × Registry}
    (h : Reachable registryStep registryGuard (PeerList.empty, []) x) :
    Represents x.1 x.2 ∧ x.2.descriptors.Nodup := by
  have hstart : Represents PeerList.empty [] ∧
      (Registry.descriptors []).Nodup := ⟨represents_empty, List.nodup_nil⟩
  refine h.invariant (P := fun x : PeerList × Registry =>
    Represents x.1 x.2 ∧ x.2.descriptors.Nodup) hstart ?_
  intro x c x' hx hguard hstep
  rcases call_refines hx.left hx.right hguard.left hguard.right with
    ⟨s', hcall, hrepresents⟩
  unfold registryStep at hstep
  rw [hcall] at hstep
  cases hstep
  exact ⟨hrepresents, Registry.nodup_call hx.right c⟩

section Idle

variable {s s' : PeerList} {fd : Int32} {reply : Reply}

theorem addPeer_idle {ip : CString IP_LEN} {now : UInt64} {address : Nat}
    (h : s.addPeer fd ip now address = some (s', reply))
    (hvalue : reply.value = -1) : s' = s := by
  unfold PeerList.addPeer at h
  dsimp only at h
  split at h
  · cases h
    exact absurd hvalue (by decide)
  · split at h
    · cases h
    · cases h
      rfl
    · rcases Option.map_eq_some_iff.mp h with ⟨cell, _, heq⟩
      cases heq
      exact absurd hvalue (by decide)

theorem heardLoop_idle {now : UInt64} {turns : Nat} {p : Option Nat}
    (h : s.heardLoop fd now turns p = some (s', reply))
    (hvalue : reply.value = -1) : s' = s := by
  induction turns generalizing p with
  | zero =>
      cases p with
      | none =>
          cases h
          rfl
      | some temp => cases h
  | succ turns ih =>
      cases p with
      | none =>
          cases h
          rfl
      | some temp =>
          unfold PeerList.heardLoop at h
          split at h
          · cases h
          · split at h
            · cases h
              exact absurd hvalue (by decide)
            · exact ih h

theorem deleteLoop_idle {turns temp : Nat}
    (h : s.deleteLoop fd turns temp = some (s', reply)) :
    reply.value ≠ -1 ∧ (reply.closed = [] -> s' = s) := by
  induction turns generalizing temp with
  | zero => cases h
  | succ turns ih =>
      unfold PeerList.deleteLoop at h
      repeat' split at h
      · cases h
      · cases h
        exact ⟨by decide, fun _ => rfl⟩
      · cases h
        exact ⟨show (1 : Int32) ≠ -1 by decide, fun hclosed => by cases hclosed⟩
      · cases h
      · cases h
        exact ⟨show (1 : Int32) ≠ -1 by decide, fun hclosed => by cases hclosed⟩
      · exact ih h

theorem call_idle {c : PeerCall} (h : s.call c = some (s', reply))
    (hidle : Idle c reply) : s' = s := by
  cases c with
  | add fd ip now address =>
      rcases hidle with hvalue | ⟨⟨fd', hdelete⟩, _⟩
      · exact addPeer_idle h hvalue
      · cases hdelete
  | heard fd now =>
      rcases hidle with hvalue | ⟨⟨fd', hdelete⟩, _⟩
      · exact heardLoop_idle h hvalue
      · cases hdelete
  | delete fd =>
      change s.deletePeer fd = some (s', reply) at h
      unfold PeerList.deletePeer at h
      split at h
      · cases h
      · rcases deleteLoop_idle h with ⟨hne, hclosed⟩
        rcases hidle with hvalue | ⟨_, hnone⟩
        · exact absurd hvalue hne
        · exact hclosed hnone

end Idle

/-- Along every run whose calls the registry admits, the list holds the
registered peers, and every such call does what it should. -/
theorem reachable_peerList_faithful {s : PeerList} {l : Registry}
    (h : Reachable registryStep registryGuard (PeerList.empty, []) (s, l)) :
    Faithful s l := by
  rcases reachable_represents h with ⟨hrepresents, hnodup⟩
  refine ⟨hrepresents, hnodup, ?_⟩
  intro c hfresh hadmits
  rcases call_refines hrepresents hnodup hfresh hadmits with
    ⟨s', hcall, hafter⟩
  exact ⟨s', hcall, hafter, call_idle hcall⟩

def Sample.host : CString IP_LEN where
  bytes := [48, 46, 48]
  noNul := by decide
  fits := by decide

theorem last_of_two_deleted_faithful :
    exists s, Reachable registryStep registryGuard (PeerList.empty, [])
        (s, [{ ip := Sample.host, last_time_stamp := 100, sockfd := 4 }]) ∧
      Faithful s
        [{ ip := Sample.host, last_time_stamp := 100, sockfd := 4 }] := by
  have hreach : Reachable registryStep registryGuard (PeerList.empty, []) _ :=
    Reachable.step (a := PeerCall.delete 5)
      (Reachable.step (a := PeerCall.add 5 Sample.host 110 2)
        (Reachable.step (a := PeerCall.add 4 Sample.host 100 1)
          Reachable.start ?_ rfl) ?_ rfl) ?_ rfl
  · exact ⟨_, hreach, reachable_peerList_faithful hreach⟩
  · refine ⟨rfl, ?_⟩
    intro peer hpeer
    cases hpeer
  · refine ⟨rfl, ?_⟩
    intro peer hpeer
    cases hpeer
    decide
  · exact ⟨trivial, _, rfl, by decide⟩

/-- The calls that go wrong: a deletion from the empty list, the deletion of the
only and of the first peer, and the addition of the last one again. -/
theorem unfaithful_calls :
    PeerList.empty.call (PeerCall.delete 4) = none ∧
      (exists s, PeerList.empty.call (PeerCall.add 4 Sample.host 100 1) =
          some (s, { value := 1, closed := [] }) ∧
        s.call (PeerCall.delete 4) = some (s, { value := 1, closed := [] }) ∧
        exists s', s.call (PeerCall.add 4 Sample.host 110 2) =
          some (s', { value := 1, closed := [] })) ∧
      exists s s', runFrom registryStep (PeerList.empty, [])
          [PeerCall.add 4 Sample.host 100 1, PeerCall.add 5 Sample.host 110 2] =
            some (s, [{ ip := Sample.host, last_time_stamp := 100, sockfd := 4 },
              { ip := Sample.host, last_time_stamp := 110, sockfd := 5 }]) ∧
        s.call (PeerCall.delete 4) =
          some (s', { value := 1, closed := [4] }) ∧
        s'.call (PeerCall.heard 5 120) = none := by
  refine ⟨rfl, ⟨_, rfl, rfl, _, rfl⟩, _, _, rfl, rfl, rfl⟩

end Tracker
end DartSync
