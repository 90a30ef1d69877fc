import DartSync.Common.Pkt
import DartSync.Foundation.Transition

/-!
# The handshake loop

One turn of `handshake` in `tracker/tracker.c` for each packet received.  The
loop rebuilds a peer's table from its packets with two counters; its calls of
`update_filetable` and `free_ft` are recorded with the table they are given.
Undefined behaviour ends the run: the next state is `none`.
-/

namespace DartSync
namespace Tracker

open Foundation

/-- The table `peer_ft` points to, with its nodes as they were received; the
links between them are set by the loop. -/
inductive PeerFt where
  | uninitialised
  | live (nodes : List (Linked Node))
  | freed
deriving DecidableEq

/-- The nodes a traversal of the table visits; `none` if it leaves the table. -/
def PeerFt.nodes : PeerFt -> Option (List Node)
  | live nodes => traverse nodes
  | _ => none

structure Handshake where
  counter : Int32
  file_table_size : Int32
  peer_ft : PeerFt
  ft : FileTable

/-- A packet, and which sends in answer to it fail. -/
structure Arrival where
  recv_pkt : PtpPeer
  replyFails : Bool
  broadcastFails : Option Ip

/-- A call with the pointer it is given and the size announced for it. -/
inductive Call where
  | updateFiletable (announced : Int32) (peer_ft : PeerFt)
  | freeFt (announced : Int32) (peer_ft : PeerFt)
deriving DecidableEq

namespace Handshake

def start (ft : FileTable) : Handshake where
  counter := -1
  file_table_size := -1
  peer_ft := PeerFt.uninitialised
  ft := ft

def Idle (s : Handshake) : Prop :=
  s.counter = -1 ∧ s.file_table_size = -1

/-- Append a node; with `counter == 0` it becomes the head. -/
def addNode (s : Handshake) (file : Linked Node) : Option Handshake :=
  match s.peer_ft with
  | PeerFt.live nodes =>
      some { s with
        counter := s.counter + 1
        peer_ft := PeerFt.live
          (if s.counter = 0 then [file] else nodes ++ [file]) }
  | _ => none

def store (s : Handshake) (pkt : PtpPeer) : Option Handshake :=
  if s.counter = -1 ∧ pkt.file_table_size ≠ -1 then
    some { s with
      counter := s.counter + 1
      file_table_size := pkt.file_table_size
      peer_ft := PeerFt.live [] }
  else if s.counter < s.file_table_size ∧ pkt.file_table_size = -1 then
    s.addNode pkt.file
  else some s

def finish (s : Handshake) (broadcastFails : Option Ip) :
    List Call × Option Handshake :=
  let update := Call.updateFiletable s.file_table_size s.peer_ft
  match s.peer_ft.nodes.bind (updateFiletable s.ft) with
  | none => ([update], none)
  | some ft =>
      ([update, Call.freeFt s.file_table_size s.peer_ft],
        some {
          counter := -1
          file_table_size := -1
          peer_ft := PeerFt.freed
          ft := broadcastFails.elim ft fun ip => deletePeer ip ft })

def fileUpdate (s : Handshake) (a : Arrival) : List Call × Option Handshake :=
  match s.store a.recv_pkt with
  | none => ([], none)
  | some s' =>
      if s'.counter = s'.file_table_size then s'.finish a.broadcastFails
      else ([], some s')

/-- The reply to `REGISTER`; a `KEEP_ALIVE` changes no table. -/
def receive (s : Handshake) (a : Arrival) : List Call × Option Handshake :=
  if a.recv_pkt.type = REGISTER then
    let ip := a.recv_pkt.peer_ip.widen (Nat.le_succ IP_LEN)
    ([], some (if a.replyFails then { s with ft := deletePeer ip s.ft }
      else s))
  else if a.recv_pkt.type = FILE_UPDATE then s.fileUpdate a
  else ([], some s)

def receiveAll : Handshake -> List Arrival ->
    List (List Call) × Option Handshake
  | s, [] => ([], some s)
  | s, a :: rest =>
      match s.receive a with
      | (calls, none) => ([calls], none)
      | (calls, some s') =>
          let result := receiveAll s' rest
          (calls :: result.1, result.2)

theorem receiveAll_cons_some {s s' : Handshake} {a : Arrival}
    {calls : List Call} (h : s.receive a = (calls, some s'))
    (rest : List Arrival) :
    s.receiveAll (a :: rest) =
      (calls :: (s'.receiveAll rest).1, (s'.receiveAll rest).2) := by
  rw [receiveAll, h]

theorem receiveAll_cons_none {s : Handshake} {a : Arrival}
    {calls : List Call} (h : s.receive a = (calls, none))
    (rest : List Arrival) : s.receiveAll (a :: rest) = ([calls], none) := by
  rw [receiveAll, h]

end Handshake

/-!
## Reading a packet sequence

What a reader of the packets knows: whether the tracker's table exists, and how
many announced nodes are missing.  The sequences it accepts are those that the
loop handles.
-/

structure Reading where
  known : Bool
  missing : Nat
deriving DecidableEq

/-- One packet.  Between tables a `FILE_UPDATE` must announce a number of
nodes, and none only to a table that exists; the packet that completes a table
must end its list.  Further announcements inside a table are ignored. -/
def Reading.next (r : Reading) (pkt : PtpPeer) : Option Reading :=
  if pkt.type = FILE_UPDATE then
    match r.missing with
    | 0 =>
        if pkt.file_table_size < 0 then none
        else if pkt.file_table_size = 0 ∧ r.known = false then none
        else some { r with missing := pkt.file_table_size.toInt.toNat }
    | missing + 1 =>
        if pkt.file_table_size ≠ -1 then some r
        else if missing = 0 then
          if pkt.file.pNext = 0 then some { known := true, missing := 0 }
          else none
        else some { r with missing := missing }
  else some r

structure Follows (s : Handshake) (r : Reading) : Prop where
  known : r.known = s.ft.isSome
  idle : r.missing = 0 -> s.counter = -1 ∧ s.file_table_size = -1 ∧
    forall nodes, s.peer_ft ≠ PeerFt.live nodes
  filling : r.missing ≠ 0 -> exists nodes, s.peer_ft = PeerFt.live nodes ∧
    s.counter.toInt = nodes.length ∧
    s.file_table_size.toInt = nodes.length + r.missing

theorem Follows.idle_of_missing {s : Handshake} {r : Reading}
    (h : Follows s r) (hidle : r.missing = 0) : s.Idle :=
  ⟨(h.idle hidle).left, (h.idle hidle).right.left⟩

theorem follows_start (ft : FileTable) :
    Follows (Handshake.start ft) { known := ft.isSome, missing := 0 } where
  known := rfl
  idle := by
    intro _
    refine ⟨rfl, rfl, ?_⟩
    intro nodes h
    cases h
  filling := by
    intro h
    exact absurd rfl h

/-- A call on a table that is allocated and filled as announced. -/
def Call.Sound : Call -> Prop
  | updateFiletable announced peer_ft | freeFt announced peer_ft =>
      exists nodes, peer_ft = PeerFt.live nodes ∧
        (nodes.length : Int) = announced.toInt

/-!
## One packet
-/

theorem int32_succ {c n : Int32} (h : c.toInt < n.toInt) :
    (c + 1).toInt = c.toInt + 1 := by
  have hn := n.toInt_lt
  have hc := c.le_toInt
  rw [Int32.toInt_add, Int32.toInt_one]
  apply Int.bmod_eq_of_le
  · omega
  · omega

theorem deletePeer_isSome (ip : Ip) (ft : FileTable) :
    (deletePeer ip ft).isSome = ft.isSome := by
  cases ft <;> rfl

section Receive

variable {s : Handshake} {a : Arrival}

theorem receive_other (h : a.recv_pkt.type ≠ FILE_UPDATE) :
    exists ft, s.receive a = ([], some { s with ft := ft }) ∧
      ft.isSome = s.ft.isSome := by
  unfold Handshake.receive
  split
  · cases a.replyFails with
    | true => exact ⟨_, rfl, deletePeer_isSome _ _⟩
    | false => exact ⟨s.ft, rfl, rfl⟩
  · exact ⟨s.ft, rfl, rfl⟩

theorem receive_fileUpdate (h : a.recv_pkt.type = FILE_UPDATE) :
    s.receive a = s.fileUpdate a := by
  unfold Handshake.receive
  rw [if_neg (by rw [h]; decide), if_pos h]

theorem receive_announcement (hidle : s.Idle)
    (htype : a.recv_pkt.type = FILE_UPDATE)
    (hsize : a.recv_pkt.file_table_size ≠ -1) :
    s.receive a =
      let s' := { s with
        counter := 0
        file_table_size := a.recv_pkt.file_table_size
        peer_ft := PeerFt.live [] }
      if 0 = a.recv_pkt.file_table_size then s'.finish a.broadcastFails
      else ([], some s') := by
  rw [receive_fileUpdate htype]
  unfold Handshake.fileUpdate Handshake.store
  rw [if_pos ⟨hidle.left, hsize⟩, hidle.left]
  rfl

theorem fileUpdate_ignored
    (hheader : ¬ (s.counter = -1 ∧ a.recv_pkt.file_table_size ≠ -1))
    (hnode : ¬ (s.counter < s.file_table_size ∧
      a.recv_pkt.file_table_size = -1)) :
    s.fileUpdate a =
      if s.counter = s.file_table_size then s.finish a.broadcastFails
      else ([], some s) := by
  unfold Handshake.fileUpdate Handshake.store
  rw [if_neg hheader, if_neg hnode]

theorem receive_stray (hidle : s.Idle)
    (htype : a.recv_pkt.type = FILE_UPDATE)
    (hsize : a.recv_pkt.file_table_size = -1) :
    s.receive a = s.finish a.broadcastFails := by
  rw [receive_fileUpdate htype, fileUpdate_ignored, if_pos]
  · rw [hidle.left, hidle.right]
  · intro hheader
    exact hheader.right hsize
  · intro hnode
    have hlt := Int32.lt_iff_toInt_lt.mp hnode.left
    rw [hidle.left, hidle.right] at hlt
    omega

theorem fileUpdate_node {nodes : List (Linked Node)}
    (hlive : s.peer_ft = PeerFt.live nodes)
    (hcounter : s.counter.toInt = nodes.length)
    (hroom : s.counter < s.file_table_size)
    (hsize : a.recv_pkt.file_table_size = -1) :
    s.fileUpdate a =
      let s' := { s with
        counter := s.counter + 1
        peer_ft := PeerFt.live (nodes ++ [a.recv_pkt.file]) }
      if s.counter + 1 = s.file_table_size then s'.finish a.broadcastFails
      else ([], some s') := by
  have hheader : ¬ (s.counter = -1 ∧ a.recv_pkt.file_table_size ≠ -1) :=
    fun h => h.right hsize
  have happend : (if s.counter = 0 then [a.recv_pkt.file]
      else nodes ++ [a.recv_pkt.file]) = nodes ++ [a.recv_pkt.file] := by
    split
    · next hzero =>
        rw [hzero, Int32.toInt_zero] at hcounter
        rw [List.length_eq_zero_iff.mp (Int.natCast_eq_zero.mp hcounter.symm)]
        rfl
    · rfl
  unfold Handshake.fileUpdate Handshake.store Handshake.addNode
  rw [if_neg hheader, if_pos ⟨hroom, hsize⟩, hlive]
  dsimp only
  rw [happend]

theorem finish_of_merged {nodes : List (Linked Node)} {ft : FileTable}
    {broadcastFails : Option Ip} (hlive : s.peer_ft = PeerFt.live nodes)
    (hterminated : nullTerminated nodes = true)
    (hmerge : updateFiletable s.ft (nodes.map Linked.value) = some ft) :
    exists s', s.finish broadcastFails =
        ([Call.updateFiletable s.file_table_size (PeerFt.live nodes),
          Call.freeFt s.file_table_size (PeerFt.live nodes)], some s') ∧
      Follows s' { known := true, missing := 0 } := by
  have hnodes : (PeerFt.live nodes).nodes =
      some (nodes.map Linked.value) :=
    if_pos hterminated
  unfold Handshake.finish
  rw [hlive, hnodes, Option.bind_some, hmerge]
  refine ⟨_, rfl, ?_⟩
  constructor
  · have hft := (updateFiletable_eq_some_iff.mp hmerge).right
    have hsome : ft.isSome = true := Option.isSome_iff_ne_none.mpr hft
    cases broadcastFails with
    | none => exact hsome.symm
    | some ip =>
        show true = (deletePeer ip ft).isSome
        rw [deletePeer_isSome, hsome]
  · intro _
    refine ⟨rfl, rfl, ?_⟩
    intro nodes h
    cases h
  · intro h
    exact absurd rfl h

theorem finish_of_live {nodes : List (Linked Node)}
    (broadcastFails : Option Ip) (hlive : s.peer_ft = PeerFt.live nodes)
    (hterminated : nullTerminated nodes = true)
    (hshown : s.ft ≠ none ∨ nodes ≠ []) :
    exists s', s.finish broadcastFails =
        ([Call.updateFiletable s.file_table_size (PeerFt.live nodes),
          Call.freeFt s.file_table_size (PeerFt.live nodes)], some s') ∧
      Follows s' { known := true, missing := 0 } := by
  cases hmerge : updateFiletable s.ft (nodes.map Linked.value) with
  | none =>
      rcases updateFiletable_eq_none_iff.mp hmerge with ⟨hft, hnil⟩
      cases hshown with
      | inl hsome => exact absurd hft hsome
      | inr hne => exact absurd (List.map_eq_nil_iff.mp hnil) hne
  | some ft => exact finish_of_merged hlive hterminated hmerge

theorem finish_of_fault {broadcastFails : Option Ip}
    (h : s.peer_ft.nodes.bind (updateFiletable s.ft) = none) :
    s.finish broadcastFails =
      ([Call.updateFiletable s.file_table_size s.peer_ft], none) := by
  unfold Handshake.finish
  rw [h]

end Receive

theorem finish_calls_ne_nil (s : Handshake) (broadcastFails : Option Ip) :
    (s.finish broadcastFails).1 ≠ [] := by
  unfold Handshake.finish
  cases s.peer_ft.nodes.bind (updateFiletable s.ft) with
  | none => exact List.cons_ne_nil _ _
  | some ft => exact List.cons_ne_nil _ _

/-- The header of a table announced with a negative number of nodes. -/
def Handshake.Stuck (s : Handshake) : Prop :=
  s.counter = 0 ∧ s.file_table_size.toInt < -1

theorem receive_of_stuck {s : Handshake} (h : s.Stuck) (a : Arrival) :
    exists s', s.receive a = ([], some s') ∧ s'.Stuck := by
  rcases h with ⟨hcounter, hsize⟩
  cases Classical.em (a.recv_pkt.type = FILE_UPDATE) with
  | inl htype =>
      refine ⟨s, ?_, hcounter, hsize⟩
      rw [receive_fileUpdate htype, fileUpdate_ignored, if_neg]
      · intro hfull
        rw [← hfull, hcounter] at hsize
        cases hsize
      · intro hheader
        rw [hcounter] at hheader
        cases hheader.left
      · intro hnode
        have hlt := Int32.lt_iff_toInt_lt.mp hnode.left
        rw [hcounter, Int32.toInt_zero] at hlt
        omega
  | inr htype =>
      rcases receive_other htype with ⟨ft, hreceive, _⟩
      exact ⟨_, hreceive, hcounter, hsize⟩

end Tracker
end DartSync
