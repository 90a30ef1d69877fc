import DartSync.Common.Pkt
import DartSync.Tracker.Connections

/-!
# The loop of a broadcast

`broadcast_filetable` of `tracker/tracker.c`, as `handshake` calls it behind
`update_filetable`: the table goes to one peer after the other, over
connections some of which fail.
-/

namespace DartSync
namespace Tracker

open Foundation

/-- What `tracker_sendpkt` puts into a `ptp_tracker_t`: the number of nodes, or
one of them. -/
inductive TablePacket where
  | size (file_table_size : Int32)
  | file (node : Node)
deriving DecidableEq

/-- The packets of a table; a `NULL` table is sent as an empty one. -/
def tablePackets (ft : FileTable) : List TablePacket :=
  TablePacket.size (Int32.ofNat ft.nodes.length) ::
    ft.nodes.map TablePacket.file

inductive SendOutcome where
  | sent
  /-- It returns -1. -/
  | error
  /-- The peer has hung up: no flag keeps `send` from raising `SIGPIPE`, which
  ends the tracker. -/
  | hangup
deriving DecidableEq

/-- The sends of `tracker_sendpkt` from packet `i` on; `sends i` is what comes of
that of packet `i`. -/
def sendFrom (sends : Nat -> SendOutcome) :
    Nat -> List TablePacket -> Option (List TablePacket × Int32)
  | _, [] => some ([], 1)
  | i, pkt :: rest =>
      match sends i with
      | SendOutcome.sent =>
          (sendFrom sends (i + 1) rest).map fun result =>
            (pkt :: result.1, result.2)
      | SendOutcome.error => some ([], -1)
      | SendOutcome.hangup => none

structure Broadcasting where
  peers : PeerList
  ft : FileTable

abbrev SendLog := List (Int32 × TablePacket)

abbrev Sends := Int32 -> Nat -> SendOutcome

namespace Broadcasting

/-- `delete_peer`, with both its loops. -/
def deletePeer (s : Broadcasting) (peer_sockfd : Int32)
    (peer_ip : CString IP_LEN) : Option Broadcasting :=
  (s.peers.deletePeer peer_sockfd).map fun result =>
    { peers := result.1
      ft := Tracker.deletePeer (peer_ip.widen (Nat.le_succ IP_LEN)) s.ft }

/-- The loop of `broadcast_filetable` from `temp` on. -/
def broadcastLoop (sends : Sends) (s : Broadcasting) :
    Nat -> Option Nat -> Option (Broadcasting × SendLog × Int32)
  | _, none => some (s, [], 1)
  | 0, some _ => none
  | turns + 1, some temp =>
      match s.peers.heap.read temp with
      | none => none
      | some cell =>
          (sendFrom (sends cell.value.sockfd) 0 (tablePackets s.ft)).bind
            fun result =>
              let sent := result.1.map fun pkt => (cell.value.sockfd, pkt)
              if result.2 < 0 then
                (s.deletePeer cell.value.sockfd cell.value.ip).map fun s' =>
                  (s', sent, -1)
              else
                (broadcastLoop sends s turns cell.next).map fun later =>
                  (later.1, sent ++ later.2.1, later.2.2)

def broadcastFiletable (sends : Sends) (s : Broadcasting) :
    Option (Broadcasting × SendLog × Int32) :=
  broadcastLoop sends s s.peers.heap.length s.peers.peer_head

/-- A report in `handshake`: `update_filetable`, then `broadcast_filetable`. -/
def report (sends : Sends) (peerFt : List Node) (s : Broadcasting) :
    Option (Broadcasting × SendLog × Int32) :=
  (updateFiletable s.ft peerFt).bind fun ft =>
    broadcastFiletable sends { s with ft := ft }

end Broadcasting

def failing (sends : Sends) (ft : FileTable) (fd : Int32) : Bool :=
  (List.range (tablePackets ft).length).any fun i =>
    sends fd i ≠ SendOutcome.sent

/-- The first of them that fails finds that the peer has hung up. -/
def HungUp (sends : Sends) (ft : FileTable) (fd : Int32) : Prop :=
  exists i, i < (tablePackets ft).length ∧ sends fd i = SendOutcome.hangup ∧
    forall j, j < i -> sends fd j = SendOutcome.sent

def SendLog.received (sent : SendLog) (fd : Int32) : List TablePacket :=
  (sent.filter (fun entry => entry.1 = fd)).map Prod.snd

/-- What a broadcast of a table to the peers of a list is for. -/
structure Delivered (sends : Sends) (ft : FileTable) (l : Registry)
    (s' : Broadcasting) (sent : SendLog) : Prop where
  /-- The peers that can be reached have the table, once. -/
  complete : forall peer, peer ∈ l -> failing sends ft peer.sockfd = false ->
    sent.received peer.sockfd = tablePackets ft
  /-- The others are not listed any more. -/
  listed : Represents s'.peers
    (l.filter (fun peer => ¬ failing sends ft peer.sockfd = true))

def reached (sends : Sends) (ft : FileTable) (l : Registry) : Registry :=
  l.takeWhile (fun peer => ¬ failing sends ft peer.sockfd = true)

/-- When a failing peer does no harm: there is only one, it is not the first and
has not hung up, and the descriptors of the others are found once before it. -/
structure Harmless (sends : Sends) (ft : FileTable) (l : Registry) :
    Prop where
  alone : forall pre peer post, l = pre ++ peer :: post ->
    failing sends ft peer.sockfd = true ->
      pre ≠ [] ∧ ¬ HungUp sends ft peer.sockfd ∧
        forall other, other ∈ pre ++ post ->
          failing sends ft other.sockfd = false
  once : forall peer, peer ∈ l -> failing sends ft peer.sockfd = false ->
    (reached sends ft l).descriptors.count peer.sockfd = 1

/-!
## Sending
-/

section Send

variable {sends : Nat -> SendOutcome} {pkts : List TablePacket} {i : Nat}

theorem sendFrom_eq
    (h : forall k, k < pkts.length -> sends (i + k) = SendOutcome.sent) :
    sendFrom sends i pkts = some (pkts, 1) := by
  induction pkts generalizing i with
  | nil => rfl
  | cons pkt rest ih =>
      have hfirst := h 0 (Nat.succ_pos rest.length)
      have hrest := @ih (i + 1) (by
        intro k hk
        rw [Nat.succ_add_eq_add_succ]
        exact h (k + 1) (Nat.succ_lt_succ hk))
      rw [Nat.add_zero] at hfirst
      rw [sendFrom, hfirst, hrest]
      rfl

theorem sendFrom_fails {k : Nat} (hk : k < pkts.length)
    (hbefore : forall j, j < k -> sends (i + j) = SendOutcome.sent)
    (h : sends (i + k) ≠ SendOutcome.sent) :
    sendFrom sends i pkts =
      if sends (i + k) = SendOutcome.hangup then none
      else some (pkts.take k, -1) := by
  induction pkts generalizing i k with
  | nil => cases hk
  | cons pkt rest ih =>
      rw [sendFrom]
      cases k with
      | zero =>
          rw [Nat.add_zero] at h ⊢
          cases hfirst : sends i with
          | sent => exact absurd hfirst h
          | error => rfl
          | hangup => rfl
      | succ k =>
          have hfirst := hbefore 0 (Nat.succ_pos k)
          rw [Nat.add_zero] at hfirst
          have hnext : sends (i + (k + 1)) = sends (i + 1 + k) := by
            rw [Nat.succ_add_eq_add_succ]
          rw [hnext] at h ⊢
          have hrest := ih (Nat.lt_of_succ_lt_succ hk) (by
            intro j hj
            rw [Nat.succ_add_eq_add_succ]
            exact hbefore (j + 1) (Nat.succ_lt_succ hj)) h
          rw [hfirst, hrest]
          dsimp only
          cases Classical.em (sends (i + 1 + k) = SendOutcome.hangup) with
          | inl hhangup => rw [if_pos hhangup, if_pos hhangup]; rfl
          | inr hreturns => rw [if_neg hreturns, if_neg hreturns]; rfl

end Send

section Table

variable {sends : Sends} {ft : FileTable} {fd : Int32}

theorem sendFrom_of_reachable (h : failing sends ft fd = false) :
    sendFrom (sends fd) 0 (tablePackets ft) = some (tablePackets ft, 1) := by
  apply sendFrom_eq
  intro k hk
  rw [Nat.zero_add]
  rw [failing, List.any_eq_false] at h
  have hsent := h k (List.mem_range.mpr hk)
  rw [decide_eq_true_eq, not_not] at hsent
  exact hsent

theorem sendFrom_of_failing (h : failing sends ft fd = true) :
    (HungUp sends ft fd ∧
      sendFrom (sends fd) 0 (tablePackets ft) = none) ∨
    (¬ HungUp sends ft fd ∧ exists part,
      sendFrom (sends fd) 0 (tablePackets ft) = some (part, -1)) := by
  rw [failing, List.any_eq_true] at h
  have hfails : exists k, k < (tablePackets ft).length ∧
      sends fd k ≠ SendOutcome.sent := by
    rcases h with ⟨k, hk, hfails⟩
    exact ⟨k, List.mem_range.mp hk, of_decide_eq_true hfails⟩
  have hleast := Nat.find_spec hfails
  have hbefore : forall j, j < Nat.find hfails ->
      sends fd j = SendOutcome.sent := by
    intro j hj
    have hnot := Nat.find_min hfails hj
    rw [not_and, not_not] at hnot
    exact hnot (Nat.lt_trans hj hleast.left)
  have hsend := @sendFrom_fails (sends fd) (tablePackets ft) 0
    (Nat.find hfails) hleast.left (by simpa using hbefore)
    (by simpa using hleast.right)
  rw [Nat.zero_add] at hsend
  rw [hsend]
  split
  · next hhangup =>
      exact Or.inl ⟨⟨Nat.find hfails, hleast.left, hhangup, hbefore⟩, rfl⟩
  · next hreturns =>
      refine Or.inr ⟨?_, _, rfl⟩
      intro hhungup
      rcases hhungup with ⟨k, _, hk, hbefore'⟩
      rcases Nat.lt_trichotomy k (Nat.find hfails) with hlt | heq | hgt
      · rw [hbefore k hlt] at hk
        cases hk
      · exact hreturns (heq ▸ hk)
      · exact hleast.right (hbefore' _ hgt)

end Table

/-!
## The log
-/

def tableTo (ft : FileTable) (l : Registry) : SendLog :=
  l.flatMap fun peer => (tablePackets ft).map fun pkt => (peer.sockfd, pkt)

section Log

variable {ft : FileTable} {l : Registry} {fd fd' : Int32}
  {pkts : List TablePacket}

theorem received_append (sent later : SendLog) :
    SendLog.received (sent ++ later) fd =
      sent.received fd ++ later.received fd := by
  unfold SendLog.received
  rw [List.filter_append, List.map_append]

theorem received_self :
    SendLog.received (pkts.map fun pkt => (fd, pkt)) fd = pkts := by
  unfold SendLog.received
  rw [List.filter_eq_self.mpr (by simp), List.map_map]
  exact List.map_id pkts

theorem received_of_ne (h : fd' ≠ fd) :
    SendLog.received (pkts.map fun pkt => (fd', pkt)) fd = [] := by
  unfold SendLog.received
  rw [List.filter_eq_nil_iff.mpr (by simp [h])]
  rfl

theorem length_received_tableTo :
    ((tableTo ft l).received fd).length =
      l.descriptors.count fd * (tablePackets ft).length := by
  induction l with
  | nil =>
      change 0 = 0 * (tablePackets ft).length
      rw [Nat.zero_mul]
  | cons peer rest ih =>
      have hcons : tableTo ft (peer :: rest) =
          (tablePackets ft).map (fun pkt => (peer.sockfd, pkt)) ++
            tableTo ft rest := rfl
      have hdescriptors : Registry.descriptors (peer :: rest) =
          peer.sockfd :: Registry.descriptors rest := rfl
      rw [hcons, received_append, List.length_append, ih, hdescriptors,
        List.count_cons]
      cases Classical.em (peer.sockfd = fd) with
      | inl heq =>
          rw [← heq, received_self, if_pos (beq_self_eq_true _), Nat.succ_mul,
            Nat.add_comm]
      | inr hne =>
          rw [received_of_ne hne, if_neg (by simpa using hne)]
          simp

theorem received_tableTo_of_count (h : l.descriptors.count fd = 1) :
    (tableTo ft l).received fd = tablePackets ft := by
  induction l with
  | nil => cases h
  | cons peer rest ih =>
      have hcons : tableTo ft (peer :: rest) =
          (tablePackets ft).map (fun pkt => (peer.sockfd, pkt)) ++
            tableTo ft rest := rfl
      have hdescriptors : Registry.descriptors (peer :: rest) =
          peer.sockfd :: Registry.descriptors rest := rfl
      rw [hdescriptors, List.count_cons] at h
      rw [hcons, received_append]
      cases Classical.em (peer.sockfd = fd) with
      | inl heq =>
          rw [if_pos (by simpa using heq)] at h
          have hrest : ((tableTo ft rest).received fd).length = 0 := by
            rw [length_received_tableTo, Nat.succ.inj h, Nat.zero_mul]
          rw [List.length_eq_zero_iff.mp hrest, ← heq, received_self,
            List.append_nil]
      | inr hne =>
          rw [if_neg (by simpa using hne)] at h
          rw [received_of_ne hne, List.nil_append, ih h]

theorem received_tableTo_iff :
    (tableTo ft l).received fd = tablePackets ft <->
      l.descriptors.count fd = 1 := by
  constructor
  · intro h
    have hlength := congrArg List.length h
    rw [length_received_tableTo] at hlength
    exact Nat.eq_of_mul_eq_mul_right (Nat.succ_pos _)
      (hlength.trans (Nat.one_mul _).symm)
  · exact received_tableTo_of_count

end Log

/-!
## The loop
-/

section Loop

variable {sends : Sends} {s : Broadcasting} {turns : Nat}
  {p : Option Nat} {places pre post : Places} {a : Nat} {v : TrackerPeer}

theorem broadcastLoop_of_reachable
    (h : Segment s.peers.heap none p places) (hturns : places.length ≤ turns)
    (hall : forall x, x ∈ places -> failing sends s.ft x.2.sockfd = false) :
    s.broadcastLoop sends turns p =
      some (s, tableTo s.ft (places.map Prod.snd), 1) := by
  induction places generalizing p turns with
  | nil =>
      change p = none at h
      rw [h]
      cases turns <;> rfl
  | cons x rest ih =>
      rcases h with ⟨rfl, next, hread, hrest⟩
      cases turns with
      | zero => cases hturns
      | succ turns =>
          have hsend := sendFrom_of_reachable (hall x List.mem_cons_self)
          rw [Broadcasting.broadcastLoop, hread]
          dsimp only
          rw [hsend, Option.bind_some]
          dsimp only
          rw [if_neg (show ¬ (1 : Int32) < 0 by decide),
            ih hrest (Nat.le_of_succ_le_succ hturns) fun y hy =>
              hall y (List.mem_cons_of_mem x hy)]
          rfl

theorem broadcastLoop_of_failing
    (h : Segment s.peers.heap none p (pre ++ (a, v) :: post))
    (hturns : pre.length < turns)
    (hpre : forall x, x ∈ pre -> failing sends s.ft x.2.sockfd = false)
    (hv : failing sends s.ft v.sockfd = true) :
    s.broadcastLoop sends turns p =
      (sendFrom (sends v.sockfd) 0 (tablePackets s.ft)).bind fun result =>
        (s.deletePeer v.sockfd v.ip).map fun s' =>
          (s', tableTo s.ft (pre.map Prod.snd) ++
            result.1.map fun pkt => (v.sockfd, pkt), -1) := by
  induction pre generalizing p turns with
  | nil =>
      rcases h with ⟨rfl, next, hread, _⟩
      cases turns with
      | zero => cases hturns
      | succ turns =>
          rw [Broadcasting.broadcastLoop, hread]
          dsimp only
          rcases sendFrom_of_failing hv with ⟨_, hsend⟩ | ⟨_, part, hsend⟩
          · rw [hsend]
            rfl
          · rw [hsend, Option.bind_some, Option.bind_some]
            dsimp only
            rw [if_pos (by decide)]
            rfl
  | cons x rest ih =>
      rcases h with ⟨rfl, next, hread, hrest⟩
      cases turns with
      | zero => cases hturns
      | succ turns =>
          have hsend := sendFrom_of_reachable (hpre x List.mem_cons_self)
          rw [Broadcasting.broadcastLoop, hread]
          dsimp only
          rw [hsend, Option.bind_some]
          dsimp only
          rw [if_neg (show ¬ (1 : Int32) < 0 by decide),
            ih hrest (Nat.lt_of_succ_lt_succ hturns) fun y hy =>
              hpre y (List.mem_cons_of_mem x hy)]
          cases sendFrom (sends v.sockfd) 0 (tablePackets s.ft) with
          | none => rfl
          | some result =>
              rw [Option.bind_some, Option.bind_some]
              cases s.deletePeer v.sockfd v.ip with
              | none => rfl
              | some s' =>
                  rw [Option.map_some, Option.map_some, Option.map_some,
                    ← List.append_assoc]
                  rfl

end Loop

/-!
## What the deletion leaves
-/

section Removal

variable {s s' : PeerList} {l l' : Registry} {fd : Int32} {reply : Reply}

theorem represents_unique (h : Represents s l) (h' : Represents s l') :
    l = l' := by
  rcases h with ⟨places, hsegment, _, rfl⟩
  rcases h' with ⟨places', hsegment', _, rfl⟩
  rw [hsegment.unique hsegment']

theorem deletePeer_removes {pre post : Registry} {peer : TrackerPeer}
    (h : Represents s (pre ++ peer :: post)) (hpre : pre ≠ [])
    (hfirst : peer.sockfd ∉ pre.descriptors) :
    exists s' reply, s.deletePeer peer.sockfd = some (s', reply) ∧
      Represents s' (pre ++ post) := by
  rcases h with ⟨places, hsegment, hnodup, hvalues⟩
  have hlength := hsegment.length_le hnodup
  rcases List.map_eq_append_iff.mp hvalues with
    ⟨before, rest, rfl, hbefore, hrest⟩
  rcases List.map_eq_cons_iff.mp hrest with ⟨⟨b, w⟩, after, rfl, rfl, rfl⟩
  rcases List.eq_nil_or_concat' before with rfl | ⟨front, ⟨a, v⟩, rfl⟩
  · exact absurd hbefore.symm hpre
  · rw [List.append_assoc, List.singleton_append] at hsegment hnodup hlength
    rcases hsegment.unlink hnodup with ⟨next, hreada, hreadb, hunlinked⟩
    rcases exists_head hsegment with ⟨head, hhead⟩
    rw [← hbefore, List.map_append] at hfirst
    unfold Registry.descriptors at hfirst
    rw [List.map_append, List.mem_append, not_or] at hfirst
    rw [List.length_append, List.length_cons] at hlength
    unfold PeerList.deletePeer
    rw [hhead]
    dsimp only
    rw [deleteLoop_of_first (hhead ▸ hsegment) hreada hreadb (by omega)
      hfirst.left (fun hv => hfirst.right (by simp [hv])) rfl]
    refine ⟨_, _, rfl, front ++ (a, v) :: after, hunlinked, ?_, ?_⟩
    · refine List.Nodup.sublist ?_ hnodup
      apply List.Sublist.map
      apply List.Sublist.append_left
      exact (List.sublist_cons_self _ _).cons_cons _
    · rw [← hbefore]
      simp

/-- The first peer is never taken out: it stays if it is the only one, and else
the list is lost. -/
theorem not_represents_deletePeer {peer : TrackerPeer}
    (h : Represents s (peer :: l))
    (hdelete : s.deletePeer peer.sockfd = some (s', reply))
    (hl : peer ∉ l') : ¬ Represents s' l' := by
  intro hafter
  cases l with
  | nil =>
      rw [deletePeer_of_single h] at hdelete
      cases hdelete
      apply hl
      rw [← represents_unique h hafter]
      exact List.mem_singleton_self peer
  | cons y rest =>
      rcases h with ⟨places, hsegment, hnodup, hvalues⟩
      have hlength := hsegment.length_le hnodup
      rcases List.map_eq_cons_iff.mp hvalues with
        ⟨⟨a, v⟩, later, rfl, rfl, hlater⟩
      rcases List.map_eq_cons_iff.mp hlater with ⟨⟨b, w⟩, _, rfl, _, _⟩
      have hhead : s.peer_head = some a := hsegment.left
      have hread : s.heap.read a = some { value := v, next := some b } := by
        rcases hsegment with ⟨_, next, hread, hnext, _⟩
        rw [hread, hnext]
      unfold PeerList.deletePeer at hdelete
      rw [hhead] at hdelete
      dsimp only at hdelete
      cases hturns : s.heap.length with
      | zero =>
          rw [hturns] at hlength
          cases hlength
      | succ turns =>
          rw [hturns, PeerList.deleteLoop, hread] at hdelete
          dsimp only at hdelete
          rw [if_pos ⟨hhead, rfl⟩] at hdelete
          cases hdelete
          rcases hafter with ⟨places', hsegment', _, _⟩
          dsimp only at hsegment'
          rw [hhead] at hsegment'
          cases places' with
          | nil => cases hsegment'
          | cons x rest' =>
              rcases hsegment' with ⟨hx, next, hreadx, _⟩
              rw [← Option.some.inj hx, Heap.read_free_self] at hreadx
              cases hreadx

end Removal

/-!
## When everybody else has the table
-/

section Delivery

variable {sends : Sends} {ft : FileTable} {s s' : Broadcasting}
  {l pre post : Registry} {peer : TrackerPeer} {sent : SendLog}

theorem first_failing (sends : Sends) (ft : FileTable) (l : Registry) :
    (forall peer, peer ∈ l -> failing sends ft peer.sockfd = false) ∨
      exists pre peer post, l = pre ++ peer :: post ∧
        failing sends ft peer.sockfd = true ∧
        forall other, other ∈ pre -> failing sends ft other.sockfd = false := by
  cases Classical.em
    (true ∈ l.map fun peer => failing sends ft peer.sockfd) with
  | inl hmem =>
      rcases exists_first_of_mem_keys hmem with
        ⟨pre, peer, post, hsplit, hfails, hpre⟩
      refine Or.inr ⟨pre, peer, post, hsplit, hfails, ?_⟩
      intro other hother
      apply Bool.eq_false_iff.mpr
      intro heq
      exact hpre (List.mem_map.mpr ⟨other, hother, heq⟩)
  | inr hnone =>
      left
      intro peer hpeer
      apply Bool.eq_false_iff.mpr
      intro heq
      exact hnone (List.mem_map.mpr ⟨peer, hpeer, heq⟩)

theorem reached_of_reachable
    (h : forall peer, peer ∈ l -> failing sends ft peer.sockfd = false) :
    reached sends ft l = l := by
  have htake := @List.takeWhile_append_of_pos _
    (fun peer => ¬ failing sends ft peer.sockfd = true) l []
    fun peer hpeer => by simp [h peer hpeer]
  rw [List.append_nil, List.takeWhile_nil, List.append_nil] at htake
  exact htake

theorem reached_of_failing
    (hpre : forall other, other ∈ pre ->
      failing sends ft other.sockfd = false)
    (hfails : failing sends ft peer.sockfd = true) :
    reached sends ft (pre ++ peer :: post) = pre := by
  unfold reached
  rw [List.takeWhile_append_of_pos fun other hother => by
      simp [hpre other hother],
    List.takeWhile_cons_of_neg (by simp [hfails]), List.append_nil]

theorem filter_of_reachable
    (h : forall peer, peer ∈ l -> failing sends ft peer.sockfd = false) :
    l.filter (fun peer => ¬ failing sends ft peer.sockfd = true) = l := by
  rw [List.filter_eq_self]
  intro peer hpeer
  simp [h peer hpeer]

theorem broadcast_of_reachable (h : Represents s.peers l)
    (hall : forall peer, peer ∈ l -> failing sends s.ft peer.sockfd = false) :
    s.broadcastFiletable sends = some (s, tableTo s.ft l, 1) := by
  rcases h with ⟨places, hsegment, hnodup, rfl⟩
  exact broadcastLoop_of_reachable hsegment (hsegment.length_le hnodup)
    fun x hx => hall x.2 (List.mem_map_of_mem hx)

theorem broadcast_of_failing (h : Represents s.peers (pre ++ peer :: post))
    (hpre : forall other, other ∈ pre ->
      failing sends s.ft other.sockfd = false)
    (hfails : failing sends s.ft peer.sockfd = true) :
    s.broadcastFiletable sends =
      (sendFrom (sends peer.sockfd) 0 (tablePackets s.ft)).bind fun result =>
        (s.deletePeer peer.sockfd peer.ip).map fun s' =>
          (s', tableTo s.ft pre ++
            result.1.map fun pkt => (peer.sockfd, pkt), -1) := by
  rcases h with ⟨places, hsegment, hnodup, hvalues⟩
  have hlength := hsegment.length_le hnodup
  rcases List.map_eq_append_iff.mp hvalues with
    ⟨before, rest, rfl, rfl, hrest⟩
  rcases List.map_eq_cons_iff.mp hrest with ⟨⟨a, v⟩, after, rfl, rfl, _⟩
  rw [List.length_append, List.length_cons] at hlength
  exact broadcastLoop_of_failing hsegment (by omega)
    (fun x hx => hpre x.2 (List.mem_map_of_mem hx)) hfails

theorem failing_split {before behind : Registry} {other : TrackerPeer}
    (hpre : forall other, other ∈ pre ->
      failing sends ft other.sockfd = false)
    (hpost : forall other, other ∈ post ->
      failing sends ft other.sockfd = false)
    (hsplit : pre ++ peer :: post = before ++ other :: behind)
    (hfails : failing sends ft other.sockfd = true) :
    before = pre ∧ other = peer ∧ behind = post := by
  have hno : forall l : Registry, other ∈ l ->
      ¬ forall x, x ∈ l -> failing sends ft x.sockfd = false := by
    intro l hmem hall
    rw [hall other hmem] at hfails
    cases hfails
  rcases List.append_eq_append_iff.mp hsplit with
    ⟨mid, hbefore, hrest⟩ | ⟨mid, hpre', hrest⟩
  · cases mid with
    | nil =>
        cases hrest
        exact ⟨hbefore.trans (List.append_nil pre), rfl, rfl⟩
    | cons y mid =>
        cases hrest
        exact absurd hpost (hno _ (by simp))
  · cases mid with
    | nil =>
        cases hrest
        exact ⟨(hpre'.trans (List.append_nil before)).symm, rfl, rfl⟩
    | cons y mid =>
        cases hrest
        exact absurd hpre (hno _ (by rw [hpre']; simp))

theorem delivered_of_reachable_iff (h : Represents s.peers l)
    (hall : forall peer, peer ∈ l -> failing sends s.ft peer.sockfd = false) :
    Delivered sends s.ft l s (tableTo s.ft l) <-> Harmless sends s.ft l := by
  constructor
  · intro hdelivered
    constructor
    · intro pre peer post hsplit hfails
      have hreachable := hall peer (by simp [hsplit])
      rw [hreachable] at hfails
      cases hfails
    · intro peer hpeer hreachable
      rw [reached_of_reachable hall]
      exact received_tableTo_iff.mp (hdelivered.complete peer hpeer hreachable)
  · intro hharmless
    constructor
    · intro peer hpeer hreachable
      have hcount := hharmless.once peer hpeer hreachable
      rw [reached_of_reachable hall] at hcount
      exact received_tableTo_iff.mpr hcount
    · rw [filter_of_reachable hall]
      exact h

theorem delivered_of_failing_iff {part : List TablePacket}
    (hreturns : ¬ HungUp sends ft peer.sockfd)
    (hafter : Represents s'.peers (pre ++ post)) (hne : pre ≠ [])
    (hpre : forall other, other ∈ pre ->
      failing sends ft other.sockfd = false)
    (hfails : failing sends ft peer.sockfd = true) :
    Delivered sends ft (pre ++ peer :: post) s'
        (tableTo ft pre ++ part.map fun pkt => (peer.sockfd, pkt)) <->
      Harmless sends ft (pre ++ peer :: post) := by
  have hreached := @reached_of_failing sends ft pre post peer hpre hfails
  have hreceived : forall other : TrackerPeer,
      failing sends ft other.sockfd = false ->
      SendLog.received
        (tableTo ft pre ++ part.map fun pkt => (peer.sockfd, pkt))
        other.sockfd = (tableTo ft pre).received other.sockfd := by
    intro other hother
    have hdistinct : peer.sockfd ≠ other.sockfd := by
      intro heq
      rw [← heq, hfails] at hother
      cases hother
    rw [received_append, received_of_ne hdistinct, List.append_nil]
  have hfilter : (pre ++ peer :: post).filter
      (fun peer => ¬ failing sends ft peer.sockfd = true) =
        pre ++ post.filter
          (fun peer => ¬ failing sends ft peer.sockfd = true) := by
    rw [List.filter_append, filter_of_reachable hpre,
      List.filter_cons_of_neg (by simp [hfails])]
  constructor
  · intro hdelivered
    have hlisted := hdelivered.listed
    rw [hfilter] at hlisted
    have hpost := List.append_cancel_left
      (represents_unique hafter hlisted)
    have hothers : forall other, other ∈ pre ++ post ->
        failing sends ft other.sockfd = false := by
      intro other hother
      rw [List.mem_append] at hother
      rcases hother with hother | hother
      · exact hpre other hother
      · have hkept := List.filter_eq_self.mp hpost.symm other hother
        simpa using hkept
    constructor
    · intro before other behind hsplit hother
      rcases failing_split hpre
        (fun other hother => hothers other (List.mem_append_right pre hother))
        hsplit hother with ⟨rfl, rfl, rfl⟩
      exact ⟨hne, hreturns, hothers⟩
    · intro other hmem hother
      have hcomplete := hdelivered.complete other hmem hother
      rw [hreceived other hother] at hcomplete
      rw [hreached]
      exact received_tableTo_iff.mp hcomplete
  · intro hharmless
    rcases hharmless.alone pre peer post rfl hfails with ⟨_, _, hothers⟩
    constructor
    · intro other hmem hother
      have hcount := hharmless.once other hmem hother
      rw [hreached] at hcount
      rw [hreceived other hother]
      exact received_tableTo_iff.mpr hcount
    · rw [hfilter, filter_of_reachable fun other hother =>
        hothers other (List.mem_append_right pre hother)]
      exact hafter

theorem broadcastFiletable_delivers_iff (h : Represents s.peers l) :
    (exists s' sent value,
        s.broadcastFiletable sends = some (s', sent, value) ∧
          Delivered sends s.ft l s' sent) <->
      Harmless sends s.ft l := by
  rcases first_failing sends s.ft l with hall | ⟨pre, peer, post, rfl, hfails,
    hpre⟩
  · rw [broadcast_of_reachable h hall, ← delivered_of_reachable_iff h hall]
    constructor
    · intro hexists
      rcases hexists with ⟨s', sent, value, heq, hdelivered⟩
      cases heq
      exact hdelivered
    · intro hdelivered
      exact ⟨_, _, _, rfl, hdelivered⟩
  · rw [broadcast_of_failing h hpre hfails]
    rcases sendFrom_of_failing hfails with ⟨hhungup, hsend⟩ |
      ⟨hreturns, part, hsend⟩
    · rw [hsend]
      apply iff_of_false
      · intro hexists
        rcases hexists with ⟨s', sent, value, heq, _⟩
        cases heq
      · intro hharmless
        exact (hharmless.alone pre peer post rfl hfails).right.left hhungup
    rw [hsend, Option.bind_some]
    cases Classical.em (pre = []) with
    | inl hnil =>
        subst hnil
        apply iff_of_false
        · intro hexists
          rcases hexists with ⟨s', sent, value, heq, hdelivered⟩
          rcases Option.map_eq_some_iff.mp heq with ⟨t, ht, hresult⟩
          rcases Option.map_eq_some_iff.mp ht with ⟨⟨peers, reply⟩, hcall, rfl⟩
          cases hresult
          refine not_represents_deletePeer h hcall ?_ hdelivered.listed
          simp [hfails]
        · intro hharmless
          exact (hharmless.alone [] peer post rfl hfails).left rfl
    | inr hne =>
        have hfirst : peer.sockfd ∉ Registry.descriptors pre := by
          intro hmem
          rcases List.mem_map.mp hmem with ⟨other, hother, heq⟩
          have hreachable := hpre other hother
          rw [heq, hfails] at hreachable
          cases hreachable
        rcases deletePeer_removes h hne hfirst with
          ⟨peers, reply, hcall, hafter⟩
        unfold Broadcasting.deletePeer
        rw [hcall, Option.map_some, Option.map_some]
        constructor
        · intro hexists
          rcases hexists with ⟨s', sent, value, heq, hdelivered⟩
          cases heq
          exact (delivered_of_failing_iff hreturns hafter hne hpre hfails).mp
            hdelivered
        · intro hharmless
          exact ⟨_, _, _, rfl,
            (delivered_of_failing_iff hreturns hafter hne hpre hfails).mpr
              hharmless⟩

end Delivery

/-- After a report, the broadcast reaches everybody whose connection works, and
takes out the others, exactly when `update_filetable` returns and a failing
peer does no harm. -/
theorem report_delivers_iff {sends : Sends} {peerFt : List Node}
    {s : Broadcasting} {l : Registry} (h : Represents s.peers l) :
    (exists s' sent value,
        s.report sends peerFt = some (s', sent, value) ∧
          Delivered sends (peerFt.foldl mergeNode s.ft) l s' sent) <->
      ¬ (s.ft = none ∧ peerFt = []) ∧
        Harmless sends (peerFt.foldl mergeNode s.ft) l := by
  unfold Broadcasting.report
  cases hupdate : updateFiletable s.ft peerFt with
  | none =>
      apply iff_of_false
      · intro hexists
        rcases hexists with ⟨s', sent, value, heq, _⟩
        cases heq
      · intro hcondition
        exact hcondition.left (updateFiletable_eq_none_iff.mp hupdate)
  | some ft' =>
      have hmerged := (updateFiletable_eq_some_iff.mp hupdate).left
      have hreport : ¬ (s.ft = none ∧ peerFt = []) := by
        intro hnone
        rw [updateFiletable_eq_none_iff.mpr hnone] at hupdate
        cases hupdate
      rw [Option.bind_some, hmerged, and_iff_right hreport]
      exact broadcastFiletable_delivers_iff (s := { s with ft := ft' }) h

def Sample.peerOn (sockfd : Int32) : TrackerPeer where
  ip := Sample.host
  last_time_stamp := 100
  sockfd := sockfd

def Sample.threePeers : PeerList where
  heap := [(1, { value := Sample.peerOn 4, next := some 2 }),
    (2, { value := Sample.peerOn 5, next := some 3 }),
    (3, { value := Sample.peerOn 6, next := none })]
  peer_head := some 1

def Sample.failingOn (fd : Int32) : Sends := fun fd' _ =>
  if fd' = fd then SendOutcome.error else SendOutcome.sent

theorem Sample.threePeers_represents :
    Represents Sample.threePeers
      [Sample.peerOn 4, Sample.peerOn 5, Sample.peerOn 6] :=
  ⟨[(1, Sample.peerOn 4), (2, Sample.peerOn 5), (3, Sample.peerOn 6)],
    ⟨rfl, _, rfl, rfl, _, rfl, rfl, _, rfl, rfl⟩,
    show [1, 2, 3].Nodup by decide, rfl⟩

theorem last_failing_delivers :
    exists s' sent value,
      Broadcasting.report (Sample.failingOn 6)
          [Sample.node Sample.ipA Sample.fileA 5 10 FILE_CREATE]
          { peers := Sample.threePeers, ft := none } =
        some (s', sent, value) ∧
      Delivered (Sample.failingOn 6)
        (some [addFile (Sample.node Sample.ipA Sample.fileA 5 10 FILE_CREATE)])
        [Sample.peerOn 4, Sample.peerOn 5, Sample.peerOn 6] s' sent := by
  apply (report_delivers_iff Sample.threePeers_represents).mpr
  refine ⟨by simp, ?_, ?_⟩
  · intro pre peer post hsplit hfails
    rcases pre with _ | ⟨x, _ | ⟨y, pre⟩⟩
    · cases hsplit
      exact absurd hfails (by decide)
    · cases hsplit
      exact absurd hfails (by decide)
    · rw [List.cons_append, List.cons_append] at hsplit
      cases pre with
      | nil =>
          cases hsplit
          refine ⟨by simp, ?_, by decide⟩
          intro hhungup
          rcases hhungup with ⟨i, _, hhangup, _⟩
          cases hhangup
      | cons z pre =>
          cases pre <;> cases hsplit
  · decide

/-- The first of two peers behind another fails: the last gets no table. -/
theorem not_report_delivers :
    ¬ forall (sends : Sends) (peerFt : List Node) (s : Broadcasting)
      (l : Registry), Represents s.peers l -> l.descriptors.Nodup ->
      ¬ (s.ft = none ∧ peerFt = []) ->
      exists s' sent value,
        s.report sends peerFt = some (s', sent, value) ∧
          Delivered sends (peerFt.foldl mergeNode s.ft) l s' sent := by
  intro h
  rcases h (Sample.failingOn 5) []
    { peers := Sample.threePeers, ft := some [] } _
    Sample.threePeers_represents (by decide) (by simp) with
    ⟨s', sent, value, heq, hdelivered⟩
  cases heq
  have hlast := hdelivered.complete (Sample.peerOn 6) (by simp) (by decide)
  cases hlast

end Tracker
end DartSync
