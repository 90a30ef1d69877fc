import DartSync.Tracker.FileTable

/-!
# Packets from peer to tracker

`ptp_peer_t` and `peer_sendpkt` of `common/pkt.h` and `common/pkt.c`.  A packet
holds a whole `Node`, so it carries the link of the sender's list: an address
in another process, or `NULL` at the end.  The reserved bytes are left out.
-/

namespace DartSync

def CString.widen {capacity capacity' : Nat} (s : CString capacity)
    (h : capacity ≤ capacity') : CString capacity' where
  bytes := s.bytes
  noNul := s.noNul
  fits := Nat.lt_of_lt_of_le s.fits h

/-!
## Linked lists in memory
-/

/-- A list element and the address it lies at, which is not `NULL`. -/
structure Placed (α : Type) where
  address : UInt64
  notNull : address ≠ 0
  value : α

structure Linked (α : Type) where
  value : α
  pNext : UInt64
deriving DecidableEq

def Sample.placed {α : Type} (value : α) : Placed α where
  address := 1
  notNull := by decide
  value := value

def link {α : Type} : List (Placed α) -> List (Linked α)
  | [] => []
  | [last] => [{ value := last.value, pNext := 0 }]
  | x :: next :: rest =>
      { value := x.value, pNext := next.address } :: link (next :: rest)

def nullTerminated {α : Type} (nodes : List (Linked α)) : Bool :=
  nodes.getLast?.all fun last => last.pNext = 0

/-- What a traversal of a received list visits.  The links inside are those of
the receiver, the last is the sender's; `none` if it leads elsewhere. -/
def traverse {α : Type} (nodes : List (Linked α)) : Option (List α) :=
  if nullTerminated nodes then some (nodes.map Linked.value) else none

section Link

variable {α : Type}

@[simp] theorem length_link (l : List (Placed α)) :
    (link l).length = l.length := by
  induction l with
  | nil => rfl
  | cons x rest ih =>
      cases rest with
      | nil => rfl
      | cons next rest => simpa [link] using ih

theorem values_link (l : List (Placed α)) :
    (link l).map Linked.value = l.map Placed.value := by
  induction l with
  | nil => rfl
  | cons x rest ih =>
      cases rest with
      | nil => rfl
      | cons next rest => simpa [link] using ih

theorem nullTerminated_concat (nodes : List (Linked α)) (last : Linked α) :
    nullTerminated (nodes ++ [last]) = true <-> last.pNext = 0 := by
  unfold nullTerminated
  rw [List.getLast?_concat]
  exact decide_eq_true_iff

theorem nullTerminated_link (l : List (Placed α)) :
    nullTerminated (link l) = true := by
  induction l with
  | nil => rfl
  | cons x rest ih =>
      cases rest with
      | nil => simp [link, nullTerminated]
      | cons next rest =>
          unfold nullTerminated at ih ⊢
          rw [link]
          cases hlink : link (next :: rest) with
          | nil =>
              have hlength := length_link (next :: rest)
              rw [hlink] at hlength
              cases hlength
          | cons y later =>
              rw [hlink] at ih
              rw [List.getLast?_cons_cons]
              exact ih

@[simp] theorem traverse_link (l : List (Placed α)) :
    traverse (link l) = some (l.map Placed.value) := by
  rw [← values_link]
  exact if_pos (nullTerminated_link l)

theorem pNext_ne_zero_of_link {l : List (Placed α)} {pre : List (Linked α)}
    {x y : Linked α} {rest : List (Linked α)}
    (h : link l = pre ++ x :: y :: rest) : x.pNext ≠ 0 := by
  induction pre generalizing l with
  | nil =>
      cases l with
      | nil => cases h
      | cons a later =>
          cases later with
          | nil => cases h
          | cons b later =>
              rw [link, List.nil_append, List.cons.injEq] at h
              rw [← h.left]
              exact b.notNull
  | cons z pre ih =>
      cases l with
      | nil => cases h
      | cons a later =>
          cases later with
          | nil =>
              rw [link, List.cons_append, List.cons.injEq] at h
              have hlength := congrArg List.length h.right
              simp at hlength
          | cons b later =>
              rw [link, List.cons_append, List.cons.injEq] at h
              exact ih h.right

end Link

/-!
## `ptp_peer_t`
-/

abbrev P2P_PORT : Int32 := 3578

structure PtpPeer where
  type : Int32
  peer_ip : CString IP_LEN
  port : Int32
  file_table_size : Int32
  file : Linked Node
deriving DecidableEq

def zeroNode : Node where
  status := 0
  size := 0
  name := CString.empty
  timestamp := 0
  type := 0
  newpeerip := noPeers

/-- The packets `peer_sendpkt` sends.  The table is only read for a
`FILE_UPDATE`; its nodes are counted in an `int`. -/
def peerSendpkt (myip : CString IP_LEN) (ft : List (Placed Node))
    (type : Int32) : List PtpPeer :=
  let send_pkt (file_table_size : Int32) (file : Linked Node) : PtpPeer :=
    { type := type
      peer_ip := myip
      port := P2P_PORT
      file_table_size := file_table_size
      file := file }
  if type = FILE_UPDATE then
    send_pkt (Int32.ofNat ft.length) { value := zeroNode, pNext := 0 } ::
      (link ft).map (send_pkt (-1))
  else [send_pkt (-1) { value := zeroNode, pNext := 0 }]

end DartSync
