import DartSync.Common.PeerWire
import DartSync.Tracker.Reassembly

/-!
# Tables in a byte stream

The handshake thread on the bytes of a connection.  A peer sends whole tables
and, from another thread, `KEEP_ALIVE` packets between and inside them; the
connection may end anywhere.  Each table that arrived completely is merged on its
last packet, and when the connection ends the thread deletes the peer by the
address in the last packet that it received.
-/

namespace DartSync
namespace Tracker

open Foundation

def updatePackets (myip : CString IP_LEN) (P : PeerTable) : List PtpPeer :=
  peerSendpkt myip P FILE_UPDATE

theorem updatePackets_eq (myip : CString IP_LEN) (P : PeerTable) :
    updatePackets myip P =
      headerPacket myip P :: (link P).map (nodePacket myip) := rfl

def PtpPeer.isUpdate (pkt : PtpPeer) : Bool :=
  pkt.type = FILE_UPDATE

theorem PtpPeer.isUpdate_iff {pkt : PtpPeer} :
    PtpPeer.isUpdate pkt = true <-> pkt.type = FILE_UPDATE :=
  decide_eq_true_iff

/-- The `FILE_UPDATE` packets of one peer that are still to come, and the tables
they complete.  The first table may have arrived in part. -/
inductive Carries (myip : CString IP_LEN) (s : Handshake) :
    List PtpPeer -> List PeerTable -> Prop where
  | between {tables : List PeerTable} : s.Idle -> Countable tables ->
      Carries myip s (tables.flatMap (updatePackets myip)) tables
  | inside {P : PeerTable} {tables : List PeerTable}
      {seen toCome : List (Linked Node)} :
      s.peer_ft = PeerFt.live seen -> s.counter.toInt = seen.length ->
      s.file_table_size = Int32.ofNat P.length -> link P = seen ++ toCome ->
      toCome ≠ [] -> P.length < 2 ^ 31 -> Countable tables ->
      Carries myip s
        (toCome.map (nodePacket myip) ++ tables.flatMap (updatePackets myip))
        (P :: tables)

theorem Carries.congr {myip : CString IP_LEN} {s s' : Handshake}
    {pkts : List PtpPeer} {tables : List PeerTable}
    (h : Carries myip s pkts tables) (hcounter : s'.counter = s.counter)
    (hsize : s'.file_table_size = s.file_table_size)
    (hpeer : s'.peer_ft = s.peer_ft) : Carries myip s' pkts tables := by
  cases h with
  | between hidle hcount =>
      apply Carries.between _ hcount
      exact ⟨hcounter.trans hidle.left, hsize.trans hidle.right⟩
  | inside hlive hseen hlength hlink hmore hfits hcount =>
      exact Carries.inside (hpeer.trans hlive)
        ((congrArg Int32.toInt hcounter).trans hseen) (hsize.trans hlength)
        hlink hmore hfits hcount

inductive Completing (myip : CString IP_LEN) (s : Handshake) (a : Arrival)
    (later : List PtpPeer) (tables : List PeerTable) : Prop where
  | fault {P : PeerTable} {rest : List PeerTable} {calls : List Call} :
      tables = P :: rest ->
      updateFiletable s.ft (P.map Placed.value) = none ->
      s.receive a = (calls, none) -> Completing myip s a later tables
  | merges {P : PeerTable} {rest : List PeerTable} {ft : FileTable}
      {s' : Handshake} : tables = P :: rest ->
      updateFiletable s.ft (P.map Placed.value) = some ft ->
      s.receive a = (merged P, some s') ->
      s'.ft = a.broadcastFails.elim ft (fun ip => deletePeer ip ft) ->
      Carries myip s' later rest -> Completing myip s a later tables

theorem completing_of_finish {myip : CString IP_LEN} {s t : Handshake}
    {a : Arrival} {P : PeerTable} {rest : List PeerTable}
    (hreceive : s.receive a = t.finish a.broadcastFails)
    (hlive : t.peer_ft = PeerFt.live (link P))
    (hsize : t.file_table_size = Int32.ofNat P.length) (hft : t.ft = s.ft)
    (hcount : Countable rest) :
    Completing myip s a (rest.flatMap (updatePackets myip)) (P :: rest) := by
  have hnodes : t.peer_ft.nodes = some (P.map Placed.value) := by
    rw [hlive]
    exact traverse_link P
  unfold Handshake.finish at hreceive
  rw [hnodes, Option.bind_some, hft, hlive, hsize] at hreceive
  cases hmerge : updateFiletable s.ft (P.map Placed.value) with
  | none =>
      rw [hmerge] at hreceive
      exact Completing.fault rfl hmerge hreceive
  | some ft =>
      rw [hmerge] at hreceive
      exact Completing.merges rfl hmerge hreceive rfl
        (Carries.between ⟨rfl, rfl⟩ hcount)

theorem Carries.receive {myip : CString IP_LEN} {s : Handshake} {a : Arrival}
    {later : List PtpPeer} {tables : List PeerTable}
    (h : Carries myip s (a.recv_pkt :: later) tables) :
    (exists s', s.receive a = ([], some s') ∧ s'.ft = s.ft ∧
      Carries myip s' later tables) ∨ Completing myip s a later tables := by
  generalize hpkts : a.recv_pkt :: later = pkts at h
  cases h with
  | between hidle hcount =>
      cases tables with
      | nil => cases hpkts
      | cons P tables =>
          rw [countable_cons] at hcount
          rw [List.flatMap_cons, updatePackets_eq, List.cons_append,
            List.cons.injEq] at hpkts
          rcases hpkts with ⟨hpkt, hlater⟩
          have hsize := toInt_length hcount.left
          have hminus : Int32.ofNat P.length ≠ -1 := by
            intro hminus
            rw [hminus] at hsize
            have : (-1 : Int32).toInt = -1 := rfl
            omega
          have hreceive := receive_header hidle hpkt hminus
          dsimp only at hreceive
          cases P with
          | nil =>
              right
              rw [if_pos (by rfl)] at hreceive
              rw [hlater]
              exact completing_of_finish hreceive rfl rfl rfl hcount.right
          | cons x P =>
              left
              have hzero : ¬ 0 = Int32.ofNat (x :: P).length := by
                intro hzero
                rw [← hzero, Int32.toInt_zero, List.length_cons] at hsize
                omega
              rw [if_neg hzero] at hreceive
              refine ⟨_, hreceive, rfl, ?_⟩
              rw [hlater]
              exact Carries.inside rfl rfl rfl rfl
                (link_ne_nil (List.cons_ne_nil x P)) hcount.left hcount.right
  | inside hlive hseen hlength hlink hmore hfits hcount =>
      rename_i P tables seen toCome
      cases toCome with
      | nil => exact absurd rfl hmore
      | cons file toCome =>
          rw [List.map_cons, List.cons_append, List.cons.injEq] at hpkts
          rcases hpkts with ⟨hpkt, hlater⟩
          have hlast : P.length = seen.length + (toCome.length + 1) := by
            rw [← length_link P, hlink, List.length_append, List.length_cons]
          have hsize : s.file_table_size.toInt = P.length := by
            rw [hlength, toInt_length hfits]
          have hroom : s.counter.toInt < s.file_table_size.toInt := by omega
          have hreceive := receive_node hlive hseen
            (Int32.lt_iff_toInt_lt.mpr hroom) hpkt
          have hnext := int32_succ hroom
          dsimp only at hreceive
          rw [hlater]
          cases toCome with
          | nil =>
              right
              rw [List.length_nil] at hlast
              have hfull : s.counter + 1 = s.file_table_size := by
                apply Int32.toInt_inj.mp
                omega
              rw [if_pos hfull, ← hlink] at hreceive
              exact completing_of_finish hreceive rfl hlength rfl hcount
          | cons next toCome =>
              left
              rw [List.length_cons] at hlast
              have hnotFull : ¬ s.counter + 1 = s.file_table_size := by
                intro hfull
                rw [hfull] at hnext
                omega
              rw [if_neg hnotFull] at hreceive
              refine ⟨_, hreceive, rfl, ?_⟩
              refine @Carries.inside myip _ P tables (seen ++ [file])
                (next :: toCome) rfl ?_ hlength ?_ (List.cons_ne_nil _ _) hfits
                hcount
              · show (s.counter + 1).toInt = _
                rw [List.length_append, List.length_singleton]
                omega
              · rw [hlink, List.append_assoc, List.singleton_append]

theorem Carries.split {myip : CString IP_LEN} {s : Handshake}
    {pkts : List PtpPeer} {tables : List PeerTable}
    (h : Carries myip s pkts tables) :
    exists done, tables.flatMap (updatePackets myip) = done ++ pkts ∧
      forall P, tables.head? = some P ->
        done.length < (updatePackets myip P).length := by
  cases h with
  | between hidle hcount =>
      refine ⟨[], rfl, ?_⟩
      intro P _
      exact Nat.zero_lt_succ _
  | inside hlive hseen hlength hlink hmore hfits hcount =>
      rename_i P tables seen toCome
      refine ⟨headerPacket myip P :: seen.map (nodePacket myip), ?_, ?_⟩
      · rw [List.flatMap_cons, updatePackets_eq, hlink, List.map_append,
          List.cons_append, List.append_assoc, List.cons_append]
      · intro P' hP'
        cases hP'
        have hpositive := List.length_pos_iff.mpr hmore
        rw [updatePackets_eq, hlink, List.length_cons, List.length_map,
          List.length_cons, List.length_map, List.length_append]
        omega

theorem Carries.eq_nil {myip : CString IP_LEN} {s : Handshake}
    {tables : List PeerTable} (h : Carries myip s [] tables) :
    tables = [] := by
  rcases h.split with ⟨done, hdone, hmissing⟩
  cases tables with
  | nil => rfl
  | cons P rest =>
      have hless := hmissing P rfl
      rw [List.append_nil] at hdone
      rw [← hdone, List.flatMap_cons, List.length_append] at hless
      omega

theorem Carries.append {myip : CString IP_LEN} {s : Handshake}
    {pkts : List PtpPeer} {tables : List PeerTable}
    (h : Carries myip s pkts tables) {P : PeerTable}
    (hP : P.length < 2 ^ 31) :
    Carries myip s (pkts ++ updatePackets myip P) (tables ++ [P]) := by
  have hlater : forall {tables : List PeerTable}, Countable tables ->
      Countable (tables ++ [P]) := by
    intro tables hcount P' hP'
    cases List.mem_append.mp hP' with
    | inl hold => exact hcount P' hold
    | inr hnew =>
        rw [List.mem_singleton.mp hnew]
        exact hP
  have hpackets : forall tables : List PeerTable,
      tables.flatMap (updatePackets myip) ++ updatePackets myip P =
        (tables ++ [P]).flatMap (updatePackets myip) := by
    intro tables
    rw [List.flatMap_append, List.flatMap_singleton]
  cases h with
  | between hidle hcount =>
      rw [hpackets]
      exact Carries.between hidle (hlater hcount)
  | inside hlive hseen hlength hlink hmore hfits hcount =>
      rw [List.append_assoc, hpackets]
      exact Carries.inside hlive hseen hlength hlink hmore hfits
        (hlater hcount)

theorem filter_updatePackets (myip : CString IP_LEN) (P : PeerTable) :
    (updatePackets myip P).filter PtpPeer.isUpdate = updatePackets myip P := by
  apply List.filter_eq_self.mpr
  intro pkt hpkt
  rw [updatePackets_eq] at hpkt
  cases hpkt with
  | head => rfl
  | tail _ hpkt =>
      rcases List.mem_map.mp hpkt with ⟨file, _, hfile⟩
      rw [← hfile]
      rfl

/-!
## Other packets
-/

/-- The tracker's table after the answer to a packet that is no
`FILE_UPDATE`. -/
def answered (a : Arrival) (ft : FileTable) : FileTable :=
  if a.recv_pkt.type = REGISTER ∧ a.replyFails = true then
    deletePeer (a.recv_pkt.peer_ip.widen (Nat.le_succ IP_LEN)) ft
  else ft

theorem answered_isSome (a : Arrival) (ft : FileTable) :
    (answered a ft).isSome = ft.isSome := by
  unfold answered
  split
  · exact deletePeer_isSome _ ft
  · rfl

theorem receive_answered {s : Handshake} {a : Arrival}
    (h : a.recv_pkt.type ≠ FILE_UPDATE) :
    s.receive a = ([], some { s with ft := answered a s.ft }) := by
  unfold Handshake.receive answered
  cases Classical.em (a.recv_pkt.type = REGISTER) with
  | inr hother => simp [hother, h]
  | inl hregister =>
      cases hfails : a.replyFails with
      | true => simp [hregister]
      | false => simp [hregister]

/-!
## A connection
-/

def mergeTables (ft : FileTable) (tables : List PeerTable) :
    Option FileTable :=
  tables.foldlM (fun ft P => updateFiletable ft (P.map Placed.value)) ft

def Arrival.Answered (a : Arrival) : Prop :=
  a.replyFails = false ∧ a.broadcastFails = none

def updates (arrivals : List Arrival) : List PtpPeer :=
  (arrivals.map Arrival.recv_pkt).filter PtpPeer.isUpdate

theorem updates_cons_of_update {a : Arrival}
    (h : a.recv_pkt.type = FILE_UPDATE) (rest : List Arrival) :
    updates (a :: rest) = a.recv_pkt :: updates rest := by
  unfold updates
  rw [List.map_cons, List.filter_cons_of_pos (PtpPeer.isUpdate_iff.mpr h)]

theorem updates_cons_of_other {a : Arrival}
    (h : a.recv_pkt.type ≠ FILE_UPDATE) (rest : List Arrival) :
    updates (a :: rest) = updates rest := by
  unfold updates
  rw [List.map_cons, List.filter_cons_of_neg]
  intro hupdate
  exact h (PtpPeer.isUpdate_iff.mp hupdate)

/-- The tables that were completed, and where the thread is afterwards. -/
structure Served (myip : CString IP_LEN) (s : Handshake)
    (tables : List PeerTable) (arrivals : List Arrival) (rest : List PtpPeer)
    (m : Nat) (s' : Handshake) : Prop where
  bound : m ≤ tables.length
  calls : (s.receiveAll arrivals).1.flatten = (tables.take m).flatMap merged
  survives : (s.receiveAll arrivals).2 = some s'
  carries : Carries myip s' rest (tables.drop m)
  merges : (forall a, a ∈ arrivals -> a.Answered) ->
    mergeTables s.ft (tables.take m) = some s'.ft

theorem Carries.served {myip : CString IP_LEN} {s : Handshake}
    {arrivals : List Arrival} {rest : List PtpPeer} {tables : List PeerTable}
    (h : Carries myip s (updates arrivals ++ rest) tables)
    (hshown : s.ft ≠ none ∨ tables.head? ≠ some []) :
    exists m s', Served myip s tables arrivals rest m s' := by
  induction arrivals generalizing s tables with
  | nil =>
      refine ⟨0, s, Nat.zero_le _, rfl, rfl, h, ?_⟩
      intro _
      rfl
  | cons a arrivals ih =>
      cases Classical.em (a.recv_pkt.type = FILE_UPDATE) with
      | inr hother =>
          rw [updates_cons_of_other hother] at h
          have hreceive := @receive_answered s a hother
          have hnext : Carries myip { s with ft := answered a s.ft }
              (updates arrivals ++ rest) tables := h.congr rfl rfl rfl
          have hshown' : answered a s.ft ≠ none ∨ tables.head? ≠ some [] := by
            rw [← Option.isSome_iff_ne_none, answered_isSome,
              Option.isSome_iff_ne_none]
            exact hshown
          rcases ih hnext hshown' with ⟨m, s', hserved⟩
          refine ⟨m, s', hserved.bound, ?_, ?_, hserved.carries, ?_⟩
          · rw [Handshake.receiveAll_cons_some hreceive]
            exact hserved.calls
          · rw [Handshake.receiveAll_cons_some hreceive]
            exact hserved.survives
          · intro hanswered
            rw [List.forall_mem_cons] at hanswered
            have hsame : answered a s.ft = s.ft := by
              apply if_neg
              intro hfails
              rw [hanswered.left.left] at hfails
              cases hfails.right
            have hmerges := hserved.merges hanswered.right
            dsimp only at hmerges
            rw [hsame] at hmerges
            exact hmerges
      | inl hupdate =>
          rw [updates_cons_of_update hupdate, List.cons_append] at h
          cases h.receive with
          | inl hstored =>
              rcases hstored with ⟨t, hreceive, hft, hnext⟩
              rw [← hft] at hshown
              rcases ih hnext hshown with ⟨m, s', hserved⟩
              refine ⟨m, s', hserved.bound, ?_, ?_, hserved.carries, ?_⟩
              · rw [Handshake.receiveAll_cons_some hreceive]
                exact hserved.calls
              · rw [Handshake.receiveAll_cons_some hreceive]
                exact hserved.survives
              · intro hanswered
                rw [List.forall_mem_cons] at hanswered
                rw [← hft]
                exact hserved.merges hanswered.right
          | inr hcompleting =>
              cases hcompleting with
              | fault htables hmerge hreceive =>
                  rename_i P later calls
                  rcases updateFiletable_eq_none_iff.mp hmerge with ⟨hft, hnil⟩
                  rw [List.map_eq_nil_iff] at hnil
                  rw [htables, hnil] at hshown
                  cases hshown with
                  | inl hsome => exact absurd hft hsome
                  | inr hhead => exact absurd rfl hhead
              | merges htables hmerge hreceive hft hnext =>
                  rename_i P later ft t
                  have hknown : t.ft ≠ none := by
                    have hsome := (updateFiletable_eq_some_iff.mp hmerge).right
                    rw [hft]
                    cases a.broadcastFails with
                    | none => exact hsome
                    | some ip =>
                        rw [← Option.isSome_iff_ne_none] at hsome ⊢
                        exact (deletePeer_isSome ip ft).trans hsome
                  rcases ih hnext (Or.inl hknown) with ⟨m, s', hserved⟩
                  rw [htables]
                  refine ⟨m + 1, s', Nat.succ_le_succ hserved.bound, ?_, ?_,
                    hserved.carries, ?_⟩
                  · rw [Handshake.receiveAll_cons_some hreceive,
                      List.flatten_cons, List.take_succ_cons, List.flatMap_cons]
                    exact congrArg _ hserved.calls
                  · rw [Handshake.receiveAll_cons_some hreceive]
                    exact hserved.survives
                  · intro hanswered
                    rw [List.forall_mem_cons] at hanswered
                    have hmerges := hserved.merges hanswered.right
                    rw [hft, hanswered.left.right] at hmerges
                    unfold mergeTables at hmerges ⊢
                    rw [List.take_succ_cons, List.foldlM_cons, hmerge]
                    exact hmerges

/-- The address that `delete_peer` is given when the connection ends:
`recv_pkt` keeps the last packet that was received as a whole. -/
def lastIp (arrivals : List Arrival) : CString IP_LEN :=
  arrivals.getLast?.elim CString.empty fun a => a.recv_pkt.peer_ip

/-- The tracker's table after the thread; `none` where it does not survive. -/
def handshake (ft : FileTable) (arrivals : List Arrival) : Option FileTable :=
  ((Handshake.start ft).receiveAll arrivals).2.map fun s =>
    deletePeer ((lastIp arrivals).widen (Nat.le_succ IP_LEN)) s.ft

/-- The packets of one peer: its tables in order, and other packets between and
inside them. -/
structure PeerStream (myip : CString IP_LEN) (tables : List PeerTable)
    (pkts : List PtpPeer) : Prop where
  updates : pkts.filter PtpPeer.isUpdate = tables.flatMap (updatePackets myip)
  sender : forall pkt, pkt ∈ pkts -> pkt.peer_ip = myip

structure ServesPrefix (myip : CString IP_LEN) (ft : FileTable)
    (tables : List PeerTable) (arrivals : List Arrival) (m : Nat) : Prop where
  bound : m ≤ tables.length
  complete : (tables.take m).flatMap (updatePackets myip) <+: updates arrivals
  incomplete : m < tables.length ->
    ¬ (tables.take (m + 1)).flatMap (updatePackets myip) <+: updates arrivals
  calls : ((Handshake.start ft).receiveAll arrivals).1.flatten =
    (tables.take m).flatMap merged
  survives : (handshake ft arrivals).isSome = true
  merges : arrivals ≠ [] ->
    handshake ft arrivals =
      (mergeTables ft (tables.take m)).map
        (deletePeer (myip.widen (Nat.le_succ IP_LEN)))

theorem lastIp_of_sender {myip : CString IP_LEN} {arrivals : List Arrival}
    (h : forall a, a ∈ arrivals -> a.recv_pkt.peer_ip = myip)
    (hne : arrivals ≠ []) : lastIp arrivals = myip := by
  unfold lastIp
  rw [List.getLast?_eq_some_getLast hne]
  exact h _ (List.getLast_mem hne)

/-- Wherever the connection of a peer ends, as long as no send in answer fails,
the tables that were sent completely before are merged in order, each with its
own nodes, and then the peer is deleted. -/
theorem servesPrefix_of_prefix {myip : CString IP_LEN}
    {tables : List PeerTable} {pkts : List PtpPeer} {bytes : List PeerImage}
    {conn : List UInt8} {arrivals : List Arrival} {ft : FileTable}
    (hpkts : PeerStream myip tables pkts)
    (hbytes : bytes.map PeerImage.read = pkts.map some)
    (hmergeable : Mergeable ft tables)
    (hconn : conn <+: bytes.flatMap peerCodec.encode)
    (harrivals : (received conn).map PeerImage.read =
      arrivals.map fun a => some a.recv_pkt)
    (hanswered : forall a, a ∈ arrivals -> a.Answered) :
    exists m, ServesPrefix myip ft tables arrivals m := by
  rcases received_of_prefix hconn with ⟨i, _, hreceived, _⟩
  have harrived : arrivals.map Arrival.recv_pkt = pkts.take i := by
    apply List.map_injective_iff.mpr (Option.some_injective PtpPeer)
    rw [List.map_map, List.map_take, ← hbytes, ← List.map_take, ← hreceived,
      harrivals]
    rfl
  have hsplit : tables.flatMap (updatePackets myip) =
      updates arrivals ++ (pkts.drop i).filter PtpPeer.isUpdate := by
    unfold updates
    rw [harrived, ← List.filter_append, List.take_append_drop, hpkts.updates]
  have hcarries : Carries myip (Handshake.start ft)
      (updates arrivals ++ (pkts.drop i).filter PtpPeer.isUpdate) tables := by
    rw [← hsplit]
    exact Carries.between ⟨rfl, rfl⟩ hmergeable.left
  rcases hcarries.served hmergeable.right with ⟨m, s', hserved⟩
  rcases hserved.carries.split with ⟨done, hdone, hmissing⟩
  have hupdates : updates arrivals =
      (tables.take m).flatMap (updatePackets myip) ++ done := by
    apply List.append_cancel_right
    rw [← hsplit, List.append_assoc, ← hdone, ← List.flatMap_append,
      List.take_append_drop]
  refine ⟨m, hserved.bound, ?_, ?_, hserved.calls, ?_, ?_⟩
  · rw [hupdates]
    exact List.prefix_append _ _
  · intro hlt hwhole
    have hhead : (tables.drop m).head? = some tables[m] := by
      rw [List.head?_drop, List.getElem?_eq_getElem hlt]
    have hlength := hwhole.length_le
    rw [List.take_succ_eq_append_getElem hlt, List.flatMap_append,
      List.flatMap_singleton, hupdates, List.length_append,
      List.length_append] at hlength
    have hless := hmissing _ hhead
    omega
  · unfold handshake
    rw [hserved.survives]
    rfl
  · intro hne
    unfold handshake
    rw [hserved.survives, lastIp_of_sender _ hne]
    · have hmerges := hserved.merges hanswered
      rw [show (Handshake.start ft).ft = ft from rfl] at hmerges
      rw [hmerges]
      rfl
    · intro a ha
      apply hpkts.sender
      apply List.mem_of_mem_take
      rw [← harrived]
      exact List.mem_map_of_mem ha

def Sample.packets : List PtpPeer :=
  [Sample.header, Sample.keepAlive, Sample.last, Sample.header,
    Sample.last].map Arrival.recv_pkt

theorem servesPrefix_cut :
    exists m, ServesPrefix CString.empty none [Sample.table, Sample.table]
      [Sample.header, Sample.keepAlive, Sample.last] m := by
  have hlength : ((Sample.packets.map PtpPeer.image).flatMap
      peerCodec.encode).length = 5 * 928 :=
    peerCodec.length_flatMap_encode _
  have hcut := List.take_prefix 3000
    ((Sample.packets.map PtpPeer.image).flatMap peerCodec.encode)
  have hread : forall pkts : List PtpPeer,
      (pkts.map PtpPeer.image).map PeerImage.read = pkts.map some := by
    intro pkts
    rw [List.map_map]
    exact List.map_congr_left fun pkt _ => pkt.read_image
  apply servesPrefix_of_prefix _ (hread Sample.packets) _ hcut
  · rcases received_of_prefix hcut with ⟨i, _, hreceived, hlow, hhigh⟩
    rw [List.length_take, hlength] at hlow hhigh
    change i * 928 ≤ 3000 at hlow
    change 3000 < (i + 1) * 928 at hhigh
    have hi : i = 3 := by omega
    rw [hreceived, hi, ← List.map_take, hread]
    rfl
  · refine List.forall_mem_cons.mpr ⟨⟨rfl, rfl⟩, ?_⟩
    refine List.forall_mem_cons.mpr ⟨⟨rfl, rfl⟩, ?_⟩
    exact List.forall_mem_singleton.mpr ⟨rfl, rfl⟩
  · constructor
    · decide
    · decide
  · constructor
    · intro P hP
      have hone : P.length = 1 := by
        cases hP with
        | head => rfl
        | tail _ hP =>
            cases List.mem_singleton.mp hP
            rfl
      omega
    · right
      intro hhead
      cases hhead

end Tracker
end DartSync
