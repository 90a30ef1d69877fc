import DartSync.Foundation.Transition
import DartSync.Tracker.Reassembly

/-!
# Sending a table that grows

`peer_sendpkt` of `common/pkt.c` with a `FILE_UPDATE` walks the table twice,
first to count the nodes and then to send them, while `add` of `peer/peer.c` in
another thread may append at any time.
-/

namespace DartSync
namespace Peer

open Foundation Tracker

/-- Where `peer_sendpkt` is.  Link number 0 is `head`, and link `n + 1` is the
`pNext` of node `n`. -/
inductive SendPhase where
  /-- Reads the link with this number next. -/
  | counting (file_count : Nat)
  /-- The counting walk has read `NULL`. -/
  | counted (file_count : Nat)
  | walking (link : Nat)
  | visiting (node : Nat)
  | done
deriving DecidableEq

structure ConcurrentSend where
  file_table : PeerTable
  phase : SendPhase
  sent : List PtpPeer

inductive SendAction where
  /-- Follow a link. -/
  | follow
  | sendHeader
  | sendNode
  /-- `add` links a new node to the last one. -/
  | append (node : Placed Node)

namespace ConcurrentSend

def start (file_table : PeerTable) : ConcurrentSend where
  file_table := file_table
  phase := SendPhase.counting 0
  sent := []

/-- The sends are taken to succeed. -/
def step (myip : CString IP_LEN) (s : ConcurrentSend) :
    SendAction -> Option ConcurrentSend
  | SendAction.follow =>
      match s.phase with
      | SendPhase.counting file_count =>
          if file_count < s.file_table.length then
            some { s with phase := SendPhase.counting (file_count + 1) }
          else some { s with phase := SendPhase.counted file_count }
      | SendPhase.walking n =>
          if n < s.file_table.length then
            some { s with phase := SendPhase.visiting n }
          else some { s with phase := SendPhase.done }
      | _ => none
  | SendAction.sendHeader =>
      match s.phase with
      | SendPhase.counted file_count =>
          some { s with
            phase := SendPhase.walking 0
            sent := [
              { type := FILE_UPDATE
                peer_ip := myip
                port := P2P_PORT
                file_table_size := Int32.ofNat file_count
                file := { value := zeroNode, pNext := 0 } }] }
      | _ => none
  | SendAction.sendNode =>
      match s.phase with
      | SendPhase.visiting n =>
          ((link s.file_table)[n]?).map fun file =>
            { s with
              phase := SendPhase.walking (n + 1)
              sent := s.sent ++ [nodePacket myip file] }
      | _ => none
  | SendAction.append node =>
      some { s with file_table := s.file_table ++ [node] }

def WellCounted (sent : List PtpPeer) : Prop :=
  exists header nodes, sent = header :: nodes ∧
    header.file_table_size.toInt = nodes.length

/-- `update_filetable` and `free_ft` on the nodes of all packets behind the
header. -/
def received (sent : List PtpPeer) : List Tracker.Call :=
  let nodes := sent.tail.map PtpPeer.file
  [Tracker.Call.updateFiletable (Int32.ofNat nodes.length) (PeerFt.live nodes),
    Tracker.Call.freeFt (Int32.ofNat nodes.length) (PeerFt.live nodes)]

/-- A handshake loop that waits for a header merges exactly the sent nodes on
the last packet, and then waits for a header again.  An empty first table is
left out: `display_filetable` cannot show it. -/
def Consumed (sent : List PtpPeer) : Prop :=
  forall (s : Handshake) (stream : List (Arrival × List Tracker.Call)),
    s.Idle -> (s.ft ≠ none ∨ sent.tail ≠ []) ->
    Interleaved (lastAnswered (received sent) sent) stream ->
      Completes s stream

/-- A node is appended between the end of the counting walk and the end of the
second walk, or the number of nodes does not fit the `int`. -/
def Spoils (s : ConcurrentSend) : SendAction -> Prop
  | SendAction.append _ =>
      match s.phase with
      | SendPhase.counting _ | SendPhase.done => False
      | _ => True
  | SendAction.sendHeader => 2 ^ 31 ≤ s.file_table.length
  | _ => False

/-!
## Invariants
-/

def Announced (file_table : PeerTable) (sent : List PtpPeer) (n : Nat) :
    Prop :=
  exists header nodes, sent = header :: nodes ∧ nodes.length = n ∧
    header.file_table_size.toInt ≤ file_table.length

/-- In every run the walks stay inside the table, and the header announces no
more nodes than there are. -/
def Bounded (file_table : PeerTable) (sent : List PtpPeer) :
    SendPhase -> Prop
  | SendPhase.counting n | SendPhase.counted n => n ≤ file_table.length
  | SendPhase.walking n =>
      n ≤ file_table.length ∧ Announced file_table sent n
  | SendPhase.visiting n =>
      n < file_table.length ∧ Announced file_table sent n
  | SendPhase.done => True

/-- The packets are those of one table. -/
def Steady (myip : CString IP_LEN) (file_table : PeerTable)
    (sent : List PtpPeer) : SendPhase -> Prop
  | SendPhase.counting _ => True
  | SendPhase.counted n => n = file_table.length
  | SendPhase.walking n | SendPhase.visiting n =>
      file_table.length < 2 ^ 31 ∧ sent = headerPacket myip file_table ::
        ((link file_table).take n).map (nodePacket myip)
  | SendPhase.done => exists P : PeerTable, P.length < 2 ^ 31 ∧
      sent = headerPacket myip P :: (link P).map (nodePacket myip)

def Outgrown (file_table : PeerTable) (sent : List PtpPeer) :
    SendPhase -> Prop
  | SendPhase.counting _ => False
  | SendPhase.counted n => n < file_table.length
  | SendPhase.walking _ | SendPhase.visiting _ =>
      exists header nodes, sent = header :: nodes ∧
        header.file_table_size.toInt < file_table.length
  | SendPhase.done => exists header nodes, sent = header :: nodes ∧
      header.file_table_size.toInt < nodes.length

section Step

variable {myip : CString IP_LEN} {s s' : ConcurrentSend} {a : SendAction}

theorem step_follow (hstep : s.step myip SendAction.follow = some s') :
    (exists n, s.phase = SendPhase.counting n ∧ n < s.file_table.length ∧
        s' = { s with phase := SendPhase.counting (n + 1) }) ∨
      (exists n, s.phase = SendPhase.counting n ∧ s.file_table.length ≤ n ∧
        s' = { s with phase := SendPhase.counted n }) ∨
      (exists n, s.phase = SendPhase.walking n ∧ n < s.file_table.length ∧
        s' = { s with phase := SendPhase.visiting n }) ∨
      exists n, s.phase = SendPhase.walking n ∧ s.file_table.length ≤ n ∧
        s' = { s with phase := SendPhase.done } := by
  dsimp only [step] at hstep
  split at hstep
  · next n hphase =>
      split at hstep
      · next hlt =>
          exact Or.inl ⟨n, hphase, hlt, (Option.some.inj hstep).symm⟩
      · next hge =>
          exact Or.inr (Or.inl
            ⟨n, hphase, Nat.le_of_not_lt hge, (Option.some.inj hstep).symm⟩)
  · next n hphase =>
      split at hstep
      · next hlt =>
          exact Or.inr (Or.inr (Or.inl
            ⟨n, hphase, hlt, (Option.some.inj hstep).symm⟩))
      · next hge =>
          exact Or.inr (Or.inr (Or.inr
            ⟨n, hphase, Nat.le_of_not_lt hge, (Option.some.inj hstep).symm⟩))
  · cases hstep

theorem step_sendHeader
    (hstep : s.step myip SendAction.sendHeader = some s') :
    exists n, s.phase = SendPhase.counted n ∧
      s' = { s with
        phase := SendPhase.walking 0
        sent := [
          { type := FILE_UPDATE
            peer_ip := myip
            port := P2P_PORT
            file_table_size := Int32.ofNat n
            file := { value := zeroNode, pNext := 0 } }] } := by
  dsimp only [step] at hstep
  split at hstep
  · next n hphase => exact ⟨n, hphase, (Option.some.inj hstep).symm⟩
  · cases hstep

theorem step_sendNode (hstep : s.step myip SendAction.sendNode = some s') :
    exists n file, s.phase = SendPhase.visiting n ∧
      (link s.file_table)[n]? = some file ∧
      s' = { s with
        phase := SendPhase.walking (n + 1)
        sent := s.sent ++ [nodePacket myip file] } := by
  dsimp only [step] at hstep
  split at hstep
  · next n hphase =>
      rcases Option.map_eq_some_iff.mp hstep with ⟨file, hfile, rfl⟩
      exact ⟨n, file, hphase, hfile, rfl⟩
  · cases hstep

theorem toInt_ofNat_le (n : Nat) : (Int32.ofNat n).toInt ≤ n := by
  cases Classical.em (n < 2 ^ 31) with
  | inl hlt => rw [Int32.toInt_ofNat_of_lt hlt]
  | inr hge =>
      have hbound := (Int32.ofNat n).toInt_lt
      omega

theorem bounded_start (table : PeerTable) :
    Bounded (start table).file_table (start table).sent (start table).phase :=
  Nat.zero_le table.length

theorem steady_start (table : PeerTable) :
    Steady myip (start table).file_table (start table).sent
      (start table).phase :=
  trivial

theorem Announced.append {file_table : PeerTable} {sent : List PtpPeer}
    {n : Nat} (h : Announced file_table sent n) (node : Placed Node) :
    Announced (file_table ++ [node]) sent n := by
  rcases h with ⟨header, nodes, hsent, hnodes, hle⟩
  refine ⟨header, nodes, hsent, hnodes, ?_⟩
  rw [List.length_append]
  omega

theorem Bounded.append {file_table : PeerTable} {sent : List PtpPeer}
    {phase : SendPhase} (h : Bounded file_table sent phase)
    (node : Placed Node) : Bounded (file_table ++ [node]) sent phase := by
  have hlength : file_table.length ≤ (file_table ++ [node]).length := by
    rw [List.length_append]
    exact Nat.le_add_right _ _
  cases phase with
  | counting n => exact Nat.le_trans h hlength
  | counted n => exact Nat.le_trans h hlength
  | walking n => exact ⟨Nat.le_trans h.left hlength, h.right.append node⟩
  | visiting n =>
      exact ⟨Nat.lt_of_lt_of_le h.left hlength, h.right.append node⟩
  | done => trivial

theorem bounded_step (h : Bounded s.file_table s.sent s.phase)
    (hstep : s.step myip a = some s') :
    Bounded s'.file_table s'.sent s'.phase := by
  cases a with
  | follow =>
      rcases step_follow hstep with ⟨n, hphase, hlt, rfl⟩ |
        ⟨n, hphase, _, rfl⟩ | ⟨n, hphase, hlt, rfl⟩ | ⟨n, _, _, rfl⟩
      · exact hlt
      · rw [hphase] at h
        exact h
      · rw [hphase] at h
        exact ⟨hlt, h.right⟩
      · trivial
  | sendHeader =>
      rcases step_sendHeader hstep with ⟨n, hphase, rfl⟩
      rw [hphase] at h
      refine ⟨Nat.zero_le _, _, [], rfl, rfl, ?_⟩
      exact le_trans (toInt_ofNat_le n) (Int.ofNat_le.mpr h)
  | sendNode =>
      rcases step_sendNode hstep with ⟨n, file, hphase, _, rfl⟩
      rw [hphase] at h
      rcases h with ⟨hlt, header, nodes, hsent, hnodes, hle⟩
      refine ⟨hlt, header, nodes ++ [nodePacket myip file], ?_, ?_, hle⟩
      · change s.sent ++ _ = _
        rw [hsent]
        rfl
      · rw [List.length_append, hnodes, List.length_singleton]
  | append node =>
      cases hstep
      exact h.append node

theorem steady_step (h : Steady myip s.file_table s.sent s.phase)
    (hbounded : Bounded s.file_table s.sent s.phase) (hguard : ¬ Spoils s a)
    (hstep : s.step myip a = some s') :
    Steady myip s'.file_table s'.sent s'.phase := by
  cases a with
  | follow =>
      rcases step_follow hstep with ⟨n, _, _, rfl⟩ | ⟨n, hphase, hge, rfl⟩ |
        ⟨n, hphase, _, rfl⟩ | ⟨n, hphase, hge, rfl⟩
      · trivial
      · rw [hphase] at hbounded
        exact Nat.le_antisymm hbounded hge
      · rw [hphase] at h
        exact h
      · rw [hphase] at h
        rcases h with ⟨hshort, hsent⟩
        rw [List.take_of_length_le (by rw [length_link]; exact hge)] at hsent
        exact ⟨s.file_table, hshort, hsent⟩
  | sendHeader =>
      rcases step_sendHeader hstep with ⟨n, hphase, rfl⟩
      rw [hphase] at h
      change n = s.file_table.length at h
      subst h
      exact ⟨Nat.lt_of_not_le hguard, rfl⟩
  | sendNode =>
      rcases step_sendNode hstep with ⟨n, file, hphase, hfile, rfl⟩
      rw [hphase] at h
      refine ⟨h.left, ?_⟩
      change s.sent ++ _ = _
      rw [h.right, List.take_add_one, hfile, List.map_append]
      rfl
  | append node =>
      cases hstep
      cases hphase : s.phase with
      | counting n => trivial
      | done =>
          rw [hphase] at h
          exact h
      | counted n => exact absurd (by rw [Spoils, hphase]; trivial) hguard
      | walking n => exact absurd (by rw [Spoils, hphase]; trivial) hguard
      | visiting n => exact absurd (by rw [Spoils, hphase]; trivial) hguard

theorem outgrown_of_spoils (hbounded : Bounded s.file_table s.sent s.phase)
    (h : Spoils s a) (hstep : s.step myip a = some s') :
    Outgrown s'.file_table s'.sent s'.phase := by
  cases a with
  | follow => exact absurd h id
  | sendNode => exact absurd h id
  | sendHeader =>
      rcases step_sendHeader hstep with ⟨n, _, rfl⟩
      refine ⟨_, [], rfl, ?_⟩
      have hbound := (Int32.ofNat n).toInt_lt
      have hlong : 2 ^ 31 ≤ s.file_table.length := h
      dsimp only
      omega
  | append node =>
      cases hstep
      have hlength : (s.file_table ++ [node]).length =
          s.file_table.length + 1 := List.length_append
      cases hphase : s.phase with
      | counting n =>
          rw [Spoils, hphase] at h
          exact absurd h id
      | done =>
          rw [Spoils, hphase] at h
          exact absurd h id
      | counted n =>
          rw [hphase] at hbounded
          change n < (s.file_table ++ [node]).length
          rw [hlength]
          exact Nat.lt_succ_of_le hbounded
      | walking n | visiting n =>
          rw [hphase] at hbounded
          rcases hbounded.right with ⟨header, nodes, hsent, _, hle⟩
          refine ⟨header, nodes, hsent, ?_⟩
          rw [hlength]
          omega

theorem outgrown_step (h : Outgrown s.file_table s.sent s.phase)
    (hbounded : Bounded s.file_table s.sent s.phase)
    (hstep : s.step myip a = some s') :
    Outgrown s'.file_table s'.sent s'.phase := by
  cases a with
  | follow =>
      rcases step_follow hstep with ⟨n, hphase, _, rfl⟩ |
        ⟨n, hphase, _, rfl⟩ | ⟨n, hphase, _, rfl⟩ | ⟨n, hphase, hge, rfl⟩
      · rw [hphase] at h
        exact absurd h id
      · rw [hphase] at h
        exact absurd h id
      · rw [hphase] at h
        exact h
      · rw [hphase] at h hbounded
        rcases h with ⟨header, nodes, hsent, hlt⟩
        rcases hbounded.right with ⟨_, nodes', hsent', hnodes, _⟩
        rw [hsent, List.cons.injEq] at hsent'
        refine ⟨header, nodes, hsent, ?_⟩
        rw [hsent'.right]
        omega
  | sendHeader =>
      rcases step_sendHeader hstep with ⟨n, hphase, rfl⟩
      rw [hphase] at h
      refine ⟨_, [], rfl, ?_⟩
      exact lt_of_le_of_lt (toInt_ofNat_le n) (Int.ofNat_lt.mpr h)
  | sendNode =>
      rcases step_sendNode hstep with ⟨n, file, hphase, _, rfl⟩
      rw [hphase] at h
      rcases h with ⟨header, nodes, hsent, hlt⟩
      refine ⟨header, nodes ++ [nodePacket myip file], ?_, hlt⟩
      change s.sent ++ _ = _
      rw [hsent]
      rfl
  | append node =>
      cases hstep
      have hlength : (s.file_table ++ [node]).length =
          s.file_table.length + 1 := List.length_append
      cases hphase : s.phase with
      | counting n =>
          rw [hphase] at h
          exact absurd h id
      | done =>
          rw [hphase] at h
          exact h
      | counted n =>
          rw [hphase] at h
          change n < (s.file_table ++ [node]).length
          rw [hlength]
          exact Nat.lt_succ_of_lt h
      | walking n | visiting n =>
          rw [hphase] at h
          rcases h with ⟨header, nodes, hsent, hlt⟩
          refine ⟨header, nodes, hsent, ?_⟩
          rw [hlength]
          omega

end Step

/-!
## The result
-/

theorem wellCounted_of_steady {myip : CString IP_LEN} {P : PeerTable}
    (h : P.length < 2 ^ 31) :
    WellCounted (headerPacket myip P :: (link P).map (nodePacket myip)) := by
  refine ⟨_, _, rfl, ?_⟩
  rw [List.length_map, length_link]
  exact toInt_length h

theorem consumed_of_steady {myip : CString IP_LEN} {P : PeerTable}
    (h : P.length < 2 ^ 31) :
    Consumed (headerPacket myip P :: (link P).map (nodePacket myip)) := by
  intro s stream hidle hft hstream
  have hfiles : ((link P).map (nodePacket myip)).map PtpPeer.file =
      link P := by
    rw [List.map_map]
    exact List.map_id (link P)
  have hreceived : received (headerPacket myip P ::
      (link P).map (nodePacket myip)) = merged P := by
    unfold received merged
    rw [List.tail_cons, hfiles]
    dsimp only
    rw [length_link]
  rw [hreceived, ← bundle_eq] at hstream
  have hposition : Position myip s (bundle myip P) (Mergeable s.ft [P]) :=
    Position.between hidle (by simp)
  apply (hposition.completes_iff hstream).mpr
  refine ⟨List.forall_mem_singleton.mpr h, ?_⟩
  apply hft.imp_right
  intro hne hhead
  cases hhead
  exact hne rfl

theorem not_wellCounted_of_outgrown {sent : List PtpPeer}
    (h : exists header nodes, sent = header :: nodes ∧
      header.file_table_size.toInt < nodes.length) : ¬ WellCounted sent := by
  intro hcounted
  rcases h with ⟨header, nodes, hsent, hlt⟩
  rcases hcounted with ⟨header', nodes', hsent', heq⟩
  rw [hsent, List.cons.injEq] at hsent'
  rw [hsent'.left, hsent'.right] at hlt
  omega

/-- The packets are well counted and consumed exactly when no node is appended
between the ends of the two walks and the `int` can count the nodes. -/
theorem consumed_iff_avoids_spoils {myip : CString IP_LEN}
    {file_table : PeerTable} {actions : List SendAction} {s : ConcurrentSend}
    (hrun : runFrom (step myip) (start file_table) actions = some s)
    (hdone : s.phase = SendPhase.done) :
    (WellCounted s.sent ∧ Consumed s.sent) <->
      Avoids (step myip) Spoils (start file_table) actions := by
  have hresult := good_or_bad
    (I := fun s => Bounded s.file_table s.sent s.phase)
    (G := fun s => Steady myip s.file_table s.sent s.phase)
    (B := fun s => Outgrown s.file_table s.sent s.phase)
    (fun _ _ _ hbounded hstep => bounded_step hbounded hstep)
    (fun _ _ _ hbounded hsteady hguard hstep =>
      steady_step hsteady hbounded hguard hstep)
    (fun _ _ _ hbounded hspoils hstep =>
      outgrown_of_spoils hbounded hspoils hstep)
    (fun _ _ _ hbounded hbad hstep => outgrown_step hbad hbounded hstep)
    (bounded_start file_table) (steady_start file_table) hrun
  rw [hdone] at hresult
  rcases hresult.right with ⟨havoids, P, hP, hsent⟩ | ⟨hspoiled, hbad⟩
  · rw [hsent]
    exact iff_of_true
      ⟨wellCounted_of_steady hP, consumed_of_steady hP⟩ havoids
  · apply iff_of_false _ hspoiled
    intro h
    exact not_wellCounted_of_outgrown hbad h.left

def Sample.lateAppend : List SendAction :=
  [SendAction.follow, SendAction.follow, SendAction.sendHeader,
    SendAction.follow, SendAction.sendNode, SendAction.follow,
    SendAction.append (Sample.placed zeroNode)]

theorem lateAppend_consumed :
    exists s, runFrom (step CString.empty) (start Sample.table)
        Sample.lateAppend = some s ∧
      s.phase = SendPhase.done ∧ WellCounted s.sent ∧ Consumed s.sent := by
  refine ⟨_, rfl, rfl, (consumed_iff_avoids_spoils
    (show runFrom (step CString.empty) (start Sample.table)
      Sample.lateAppend = some _ from rfl) rfl).mpr ?_⟩
  simp [Avoids, Spoils, Sample.lateAppend, start, step, Sample.table]

/-- A node is appended before the header is sent: it announces one node, and two
follow. -/
theorem earlyAppend_not_consumed :
    exists s, runFrom (step CString.empty) (start Sample.table)
        [SendAction.follow, SendAction.follow,
          SendAction.append (Sample.placed zeroNode), SendAction.sendHeader,
          SendAction.follow, SendAction.sendNode, SendAction.follow,
          SendAction.sendNode, SendAction.follow] = some s ∧
      s.phase = SendPhase.done ∧ s.sent.map PtpPeer.file_table_size =
        [1, -1, -1] ∧ ¬ (WellCounted s.sent ∧ Consumed s.sent) := by
  refine ⟨_, rfl, rfl, by decide, ?_⟩
  intro h
  rcases h.left with ⟨header, nodes, hsent, hcount⟩
  cases hsent
  exact absurd hcount (by decide)

end ConcurrentSend
end Peer
end DartSync
