import DartSync.System.Wire

/-!
# The connections refine the system of tables

A byte-level state stands for the state in which what is on a connection is
whole tables: those that the handshake thread has in part, that are in the bytes
to it, and that are still to be sent, and the broadcasts that are in the bytes
to the peer.
-/

namespace DartSync
namespace System

open Foundation Peer Tracker

/-- What is on the connection of a peer: packets in the bytes to the tracker and
what they hold, packets still to be sent, the tables that all of them carry, and
the broadcasts to the peer with their entries. -/
structure Flight where
  up : List PeerImage
  sent : List PtpPeer
  waiting : List PtpPeer
  tables : List PeerTable
  down : List SentTable
  coming : List (List Node)

structure Flight.On (w : Flight) (myip : CString IP_LEN) (e : Endpoint) :
    Prop where
  up : e.up = w.up.flatMap peerCodec.encode
  sent : w.up.map PeerImage.read = w.sent.map some
  waiting : e.unsent.map PeerImage.read = w.waiting.map some
  known : forall pkt, pkt ∈ w.sent ++ w.waiting ->
    pkt.type = FILE_UPDATE ∨ pkt.type = KEEP_ALIVE
  tables : Carries myip e.handler
    ((w.sent ++ w.waiting).filter PtpPeer.isUpdate) w.tables
  down : e.down = sentTables w.down
  countable : forall ft, ft ∈ w.down -> ft.Countable
  coming : List.Forall₂ (fun ft nodes => HoldsNodes ft.nodes nodes) w.down
    w.coming
  drained : e.own.outbox = []

def Flight.peer (w : Flight) (e : Endpoint) : PeerState :=
  e.own.carry (w.tables.map fun P => P.map Placed.value) w.coming.flatten

variable {ι : Type}

structure Refines (myip : ι -> CString IP_LEN) (s : WireState ι)
    (t : State ι) : Prop where
  ft : t.ft = s.ft
  peers : forall p, exists w : Flight,
    w.On (myip p) (s.ends p) ∧ t.peers p = w.peer (s.ends p)

def ipOf (myip : ι -> CString IP_LEN) (p : ι) : Ip :=
  (myip p).widen (Nat.le_succ IP_LEN)

/-!
## One endpoint
-/

section Endpoint

variable {myip : CString IP_LEN} {e e' : Endpoint} {w : Flight}

theorem Flight.On.announce {memory : List (Placed NodeImage)} {P : PeerTable}
    (h : w.On myip e) (hdone : e.unsent = []) (hmemory : Stores memory P)
    (hfits : P.length < 2 ^ 31) {own : PeerState} (hown : own.outbox = []) :
    { w with
      waiting := updatePackets myip P
      tables := w.tables ++ [P] : Flight }.On myip
        { e with own := own, unsent := peerPackets myip memory FILE_UPDATE } where
  up := h.up
  sent := h.sent
  waiting := read_peerPackets hmemory myip FILE_UPDATE
  known := by
    intro pkt hpkt
    cases List.mem_append.mp hpkt with
    | inl hsent => exact h.known pkt (List.mem_append_left _ hsent)
    | inr hnew =>
        left
        rw [← filter_updatePackets] at hnew
        exact PtpPeer.isUpdate_iff.mp (List.mem_filter.mp hnew).right
  tables := by
    have hwaiting : w.waiting = [] := by
      have hread := h.waiting
      rw [hdone, List.map_nil, eq_comm, List.map_eq_nil_iff] at hread
      exact hread
    have htables := h.tables.append hfits
    rw [hwaiting, List.append_nil] at htables
    rw [List.filter_append, filter_updatePackets]
    exact htables.congr rfl rfl rfl
  down := h.down
  countable := h.countable
  coming := h.coming
  drained := hown

theorem Flight.On.of_own (h : w.On myip e) {own : PeerState}
    (hown : own.outbox = []) : w.On myip { e with own := own } where
  up := h.up
  sent := h.sent
  waiting := h.waiting
  known := h.known
  tables := h.tables
  down := h.down
  countable := h.countable
  coming := h.coming
  drained := hown

theorem Flight.On.peer_step {a : LocalAction} {memory : List (Placed NodeImage)}
    (h : w.On myip e) (hcounted : memory.length < 2 ^ 31)
    (hstep : e.peer myip a memory = some e') :
    exists w' : Flight, w'.On myip e' ∧
      localStep (myip.widen (Nat.le_succ IP_LEN)) (w.peer e) a =
        some (w'.peer e') := by
  unfold Endpoint.peer at hstep
  split at hstep
  · cases hstep
  · next hfree =>
      split at hstep
      · cases hstep
      · next own hlocal =>
          have hcarried := localStep_carry hlocal
            (w.tables.map fun P => P.map Placed.value) w.coming.flatten
          split at hstep
          · next hquiet =>
              cases hstep
              exact ⟨w, h.of_own hquiet, hcarried⟩
          · next table later houtbox =>
              split at hstep
              · next hholds =>
                  cases hstep
                  have houtbox' := localStep_outbox hlocal
                  rw [houtbox, h.drained] at houtbox'
                  cases houtbox' with
                  | inl hnil => cases hnil
                  | inr hnotify =>
                      rcases hnotify with ⟨ha, table', htable⟩
                      rw [List.nil_append, List.cons.injEq] at htable
                      have hdone : e.unsent = [] := by
                        cases Classical.em (e.unsent = []) with
                        | inl hdone => exact hdone
                        | inr hbusy => exact absurd ⟨ha, hbusy⟩ hfree
                      rcases exists_stores hholds with ⟨P, hstores, hP⟩
                      have hfits : P.length < 2 ^ 31 := by
                        rw [← hstores.length_eq]
                        exact hcounted
                      refine ⟨_, h.announce hdone hstores hfits rfl, ?_⟩
                      unfold Flight.peer
                      rw [hcarried]
                      unfold PeerState.carry
                      dsimp only
                      rw [houtbox, htable.right, List.map_append,
                        List.map_singleton, hP, List.append_nil]
              · cases hstep

theorem Flight.On.send_step (h : w.On myip e) (hstep : e.send = some e') :
    exists w' : Flight, w'.On myip e' ∧ w'.peer e' = w.peer e := by
  unfold Endpoint.send at hstep
  split at hstep
  · cases hstep
  · next pkt rest hunsent =>
      cases hstep
      have hwaiting := h.waiting
      rw [hunsent, List.map_cons] at hwaiting
      cases hpkts : w.waiting with
      | nil =>
          rw [hpkts] at hwaiting
          cases hwaiting
      | cons recv_pkt later =>
          rw [hpkts, List.map_cons, List.cons.injEq] at hwaiting
          have hsame : (w.sent ++ [recv_pkt]) ++ later =
              w.sent ++ w.waiting := by
            rw [hpkts, List.append_assoc, List.singleton_append]
          refine ⟨{ w with
            up := w.up ++ [pkt]
            sent := w.sent ++ [recv_pkt]
            waiting := later }, ?_, rfl⟩
          refine ⟨?_, ?_, hwaiting.right, ?_, ?_, h.down, h.countable, h.coming,
            h.drained⟩
          · rw [List.flatMap_append, List.flatMap_singleton, ← h.up]
          · rw [List.map_append, List.map_append, h.sent, List.map_singleton,
              List.map_singleton, hwaiting.left]
          · rw [hsame]
            exact h.known
          · rw [hsame]
            exact h.tables

def keepAlivePacket (myip : CString IP_LEN) : PtpPeer where
  type := KEEP_ALIVE
  peer_ip := myip
  port := P2P_PORT
  file_table_size := -1
  file := { value := zeroNode, pNext := 0 }

theorem Flight.On.keepAlive_step (h : w.On myip e) :
    exists w' : Flight, w'.On myip (e.keepAlive myip) ∧
      w'.peer (e.keepAlive myip) = w.peer e := by
  have hread := read_peerPackets (show Stores [] [] from rfl) myip KEEP_ALIVE
  rw [show peerSendpkt myip [] KEEP_ALIVE = [keepAlivePacket myip] from rfl]
    at hread
  refine ⟨{ w with
    up := w.up ++ peerPackets myip [] KEEP_ALIVE
    sent := w.sent ++ [keepAlivePacket myip] }, ?_, rfl⟩
  refine ⟨?_, ?_, h.waiting, ?_, ?_, h.down, h.countable, h.coming,
    h.drained⟩
  · rw [List.flatMap_append, ← h.up]
    rfl
  · rw [List.map_append, List.map_append, h.sent, hread]
  · intro pkt hmem
    rw [List.append_assoc, List.mem_append, List.mem_append,
      List.mem_singleton] at hmem
    rcases hmem with hsent | hnew | hwaiting
    · exact h.known pkt (List.mem_append_left _ hsent)
    · rw [hnew]
      exact Or.inr rfl
    · exact h.known pkt (List.mem_append_right _ hwaiting)
  · have htables := h.tables
    have hother : ¬ PtpPeer.isUpdate (keepAlivePacket myip) = true := by
      intro hupdate
      cases PtpPeer.isUpdate_iff.mp hupdate
    rw [List.filter_append] at htables
    rw [List.append_assoc, List.filter_append, List.filter_append,
      List.filter_cons_of_neg hother, List.filter_nil, List.nil_append]
    exact htables

theorem mapM_read {images : List NodeImage} {nodes : List Node}
    (h : images.map NodeImage.read = nodes.map some) :
    images.mapM NodeImage.read = some nodes := by
  induction images generalizing nodes with
  | nil =>
      rw [List.map_nil, eq_comm, List.map_eq_nil_iff] at h
      rw [h]
      rfl
  | cons image rest ih =>
      cases nodes with
      | nil => cases h
      | cons node later =>
          rw [List.map_cons, List.map_cons, List.cons.injEq] at h
          rw [List.mapM_cons, h.left, ih h.right]
          rfl

theorem Flight.On.fetch_eq {ft : SentTable} {later : List SentTable}
    {nodes : List Node} {coming : List (List Node)} (h : w.On myip e)
    (hinbox : e.own.inbox = []) (hdown : w.down = ft :: later)
    (hcoming : w.coming = nodes :: coming) :
    e.fetch = some { e with
      own := { e.own with inbox := nodes }, down := sentTables later } := by
  have hheld := h.coming
  rw [hdown, hcoming, List.forall₂_cons] at hheld
  have hcount := h.countable ft (by rw [hdown]; exact List.mem_cons_self)
  have hbytes : e.down = DartSync.sent (trackerSendpkt ft ++
      later.flatMap trackerSendpkt) ++ [] := by
    rw [List.append_nil, h.down, hdown]
    rfl
  have hread : (ft.nodes.map Placed.value).mapM NodeImage.read =
      some nodes := by
    apply mapM_read
    rw [List.map_map]
    exact hheld.left
  unfold Endpoint.fetch
  rw [hinbox, hbytes, peerRecvpkt_trackerSendpkt hcount, List.append_nil]
  dsimp only
  rw [traverse_link, Option.bind_some, hread]
  rfl

theorem Flight.On.of_fetch {ft : SentTable} {later : List SentTable}
    {nodes : List Node} {coming : List (List Node)} (h : w.On myip e)
    (hinbox : e.own.inbox = []) (hdown : w.down = ft :: later)
    (hcoming : w.coming = nodes :: coming) :
    let e' := { e with
      own := { e.own with inbox := nodes }, down := sentTables later }
    let w' := { w with down := later, coming := coming }
    w'.On myip e' ∧ w'.peer e' = w.peer e := by
  have hheld := h.coming
  rw [hdown, hcoming, List.forall₂_cons] at hheld
  constructor
  · refine ⟨h.up, h.sent, h.waiting, h.known, h.tables, rfl, ?_, hheld.right,
      h.drained⟩
    intro ft' hft'
    apply h.countable
    rw [hdown]
    exact List.mem_cons_of_mem _ hft'
  · unfold Flight.peer PeerState.carry
    dsimp only
    rw [hinbox, hcoming, List.flatten_cons, List.nil_append]

theorem Flight.On.fetch_step (h : w.On myip e) (hstep : e.fetch = some e') :
    exists w' : Flight, w'.On myip e' ∧ w'.peer e' = w.peer e := by
  have hinbox : e.own.inbox = [] := by
    unfold Endpoint.fetch at hstep
    split at hstep
    · assumption
    · cases hstep
  cases hdown : w.down with
  | nil =>
      have hend : peerRecvpkt e.down = (none, []) := by
        rw [h.down, hdown]
        exact peerRecvpkt_of_end (by decide)
      unfold Endpoint.fetch at hstep
      rw [hinbox, hend] at hstep
      cases hstep
  | cons ft later =>
      have hheld := h.coming
      cases hcoming : w.coming with
      | nil =>
          rw [hdown, hcoming] at hheld
          cases hheld
      | cons nodes coming =>
          rw [h.fetch_eq hinbox hdown hcoming] at hstep
          cases hstep
          exact ⟨_, h.of_fetch hinbox hdown hcoming⟩

theorem Flight.On.receive {memory : SentTable} {ft : FileTable}
    (h : w.On myip e) (hcount : memory.Countable)
    (hheld : HoldsTable memory ft) :
    exists w' : Flight, w'.On myip (e.receive (sentTables [memory])) ∧
      w'.peer (e.receive (sentTables [memory])) = (w.peer e).receive ft := by
  refine ⟨{ w with
    down := w.down ++ [memory], coming := w.coming ++ [ft.nodes] }, ?_, ?_⟩
  · refine ⟨h.up, h.sent, h.waiting, h.known, h.tables, ?_, ?_, ?_, h.drained⟩
    · show e.down ++ sentTables [memory] = _
      rw [h.down]
      unfold sentTables DartSync.sent
      rw [← List.flatMap_append, ← List.flatMap_append]
    · intro ft' hft'
      cases List.mem_append.mp hft' with
      | inl hold => exact h.countable ft' hold
      | inr hnew =>
          rw [List.mem_singleton.mp hnew]
          exact hcount
    · exact List.rel_append h.coming
        (List.Forall₂.cons hheld.right List.Forall₂.nil)
  · unfold Flight.peer PeerState.receive PeerState.carry Endpoint.receive
    dsimp only
    rw [List.flatten_append, List.flatten_singleton, List.append_assoc]

theorem Flight.On.outbox (h : w.On myip e) :
    (w.peer e).outbox = w.tables.map fun P => P.map Placed.value := by
  unfold Flight.peer PeerState.carry
  dsimp only
  rw [h.drained, List.append_nil]

theorem Flight.On.received {pkt : PeerImage} {rest : List UInt8}
    (h : w.On myip e) (hreceived : trackerReceiver e.up = (some pkt, rest)) :
    exists up recv_pkt sent, w.up = pkt :: up ∧ w.sent = recv_pkt :: sent ∧
      pkt.read = some recv_pkt ∧ rest = up.flatMap peerCodec.encode := by
  cases hup : w.up with
  | nil =>
      rw [h.up, hup, List.flatMap_nil,
        trackerReceiver_of_short (by decide)] at hreceived
      cases hreceived
  | cons pkt' up =>
      rw [h.up, hup, List.flatMap_cons, trackerReceiver_encode] at hreceived
      cases hreceived
      have hsent := h.sent
      rw [hup, List.map_cons] at hsent
      cases hpkts : w.sent with
      | nil =>
          rw [hpkts] at hsent
          cases hsent
      | cons recv_pkt later =>
          rw [hpkts, List.map_cons, List.cons.injEq] at hsent
          exact ⟨up, recv_pkt, later, rfl, rfl, hsent.left, rfl⟩

def Endpoint.advance (e : Endpoint) (up : List PeerImage)
    (handler : Handshake) : Endpoint :=
  { e with up := up.flatMap peerCodec.encode, handler := handler }

theorem Flight.On.handled {pkt : PeerImage} {up : List PeerImage}
    {recv_pkt : PtpPeer} {later : List PtpPeer} {handler : Handshake}
    {tables : List PeerTable} (h : w.On myip e) (hup : w.up = pkt :: up)
    (hsent : w.sent = recv_pkt :: later)
    (htables : Carries myip handler
      ((later ++ w.waiting).filter PtpPeer.isUpdate) tables) :
    { w with up := up, sent := later, tables := tables : Flight }.On myip
      (e.advance up handler) := by
  have hread := h.sent
  rw [hup, hsent, List.map_cons, List.map_cons, List.cons.injEq] at hread
  refine ⟨rfl, hread.right, h.waiting, ?_, htables, h.down, h.countable,
    h.coming, h.drained⟩
  intro pkt' hpkt'
  apply h.known
  rw [hsent]
  exact List.mem_cons_of_mem _ hpkt'

inductive PacketHandled (w : Flight) (myip : CString IP_LEN) (e : Endpoint)
    (ft : FileTable) (up : List PeerImage) :
    List Tracker.Call × Option Handshake -> Prop where
  | stored {handler : Handshake} {w' : Flight} :
      w'.On myip (e.advance up handler) -> w'.up = up ->
      w'.waiting = w.waiting -> w'.peer (e.advance up handler) = w.peer e ->
      PacketHandled w myip e ft up ([], some handler)
  | merged {P : PeerTable} {rest : List PeerTable} {handler : Handshake}
      {w' : Flight} : w.tables = P :: rest ->
      updateFiletable ft (P.map Placed.value) = some handler.ft ->
      w'.On myip (e.advance up handler) ->
      w'.peer (e.advance up handler) =
        { w.peer e with outbox := rest.map fun P => P.map Placed.value } ->
      PacketHandled w myip e ft up (Tracker.merged P, some handler)
  | fault {P : PeerTable} {rest : List PeerTable} {calls : List Tracker.Call} :
      w.tables = P :: rest ->
      updateFiletable ft (P.map Placed.value) = none ->
      PacketHandled w myip e ft up (calls, none)

def arrivalOf (recv_pkt : PtpPeer) : Arrival where
  recv_pkt := recv_pkt
  replyFails := false
  broadcastFails := none

theorem Flight.On.handle {pkt : PeerImage} {up : List PeerImage}
    {recv_pkt : PtpPeer} {later : List PtpPeer} (h : w.On myip e)
    (hup : w.up = pkt :: up) (hsent : w.sent = recv_pkt :: later)
    (ft : FileTable) :
    PacketHandled w myip e ft up
      ({ e.handler with ft := ft }.receive (arrivalOf recv_pkt)) := by
  have htables : Carries myip { e.handler with ft := ft }
      ((w.sent ++ w.waiting).filter PtpPeer.isUpdate) w.tables :=
    h.tables.congr rfl rfl rfl
  rw [hsent, List.cons_append] at htables
  have hknown := h.known recv_pkt
    (by rw [hsent]; exact List.mem_append_left _ List.mem_cons_self)
  cases Classical.em (recv_pkt.type = FILE_UPDATE) with
  | inr hother =>
      have halive : recv_pkt.type = KEEP_ALIVE := by
        cases hknown with
        | inl hupdate => exact absurd hupdate hother
        | inr halive => exact halive
      rw [List.filter_cons_of_neg
        (fun hupdate => hother (PtpPeer.isUpdate_iff.mp hupdate))] at htables
      have hsame : answered (arrivalOf recv_pkt) ft = ft := by
        apply if_neg
        intro hregister
        cases hregister.right
      rw [@receive_answered _ (arrivalOf recv_pkt) hother]
      dsimp only
      rw [hsame]
      exact PacketHandled.stored (h.handled hup hsent htables) rfl rfl rfl
  | inl hupdate =>
      rw [List.filter_cons_of_pos (PtpPeer.isUpdate_iff.mpr hupdate)] at htables
      cases @Carries.receive _ _ (arrivalOf recv_pkt) _ _ htables with
      | inl hstored =>
          rcases hstored with ⟨handler, hreceive, hft, hcarries⟩
          rw [hreceive]
          exact PacketHandled.stored (h.handled hup hsent hcarries) rfl rfl rfl
      | inr hcompleting =>
          cases hcompleting with
          | fault hP hmerge hreceive =>
              rw [hreceive]
              exact PacketHandled.fault hP hmerge
          | merges hP hmerge hreceive hft hcarries =>
              rename_i P rest ft' handler
              have hft' : handler.ft = ft' := hft
              rw [hreceive]
              apply PacketHandled.merged hP _ (h.handled hup hsent hcarries)
              · have hdrained : (e.advance up handler).own.outbox = [] :=
                  h.drained
                unfold Flight.peer PeerState.carry
                dsimp only
                rw [hdrained, List.append_nil]
                rfl
              · rw [hft']
                exact hmerge

end Endpoint

/-!
## One step
-/

section Step

variable {myip : ι -> CString IP_LEN} {s s' : WireState ι} {t : State ι}
  {p : ι}

theorem Refines.broadcast (h : Refines myip s t) {memory : SentTable}
    {ft : FileTable} (hcount : memory.Countable)
    (hheld : HoldsTable memory ft) :
    Refines myip
      { ft := ft, ends := fun q => (s.ends q).receive (sentTables [memory]) }
      { ft := ft, peers := fun q => (t.peers q).receive ft } where
  ft := rfl
  peers := by
    intro q
    rcases h.peers q with ⟨w, hw, hpeer⟩
    rcases hw.receive hcount hheld with ⟨w', hw', hpeer'⟩
    refine ⟨w', hw', ?_⟩
    dsimp only
    rw [hpeer, hpeer']

variable [DecidableEq ι]

theorem Refines.set (h : Refines myip s t) {e : Endpoint} {w : Flight}
    (hw : w.On (myip p) e) :
    Refines myip (s.set p e)
      { t with peers := Function.update t.peers p (w.peer e) } where
  ft := h.ft
  peers := by
    intro q
    unfold WireState.set
    dsimp only
    cases Classical.em (q = p) with
    | inl hq =>
        rw [hq, Function.update_self, Function.update_self]
        exact ⟨w, hw, rfl⟩
    | inr hq =>
        rw [Function.update_of_ne hq, Function.update_of_ne hq]
        exact h.peers q

theorem Refines.set_same (h : Refines myip s t) {e : Endpoint} {w : Flight}
    (hw : w.On (myip p) e) (hsame : w.peer e = t.peers p) :
    Refines myip (s.set p e) t := by
  have hset := h.set hw
  rw [hsame, Function.update_eq_self] at hset
  exact hset

theorem Refines.mergeStep_eq {w : Flight} {P : PeerTable}
    {rest : List PeerTable} (h : Refines myip s t)
    (hw : w.On (myip p) (s.ends p)) (hpeer : t.peers p = w.peer (s.ends p))
    (hP : w.tables = P :: rest) :
    mergeStep t p = (updateFiletable s.ft (P.map Placed.value)).map fun ft =>
      let x := { t.peers p with
        outbox := rest.map fun P => P.map Placed.value }
      { ft := ft
        peers := fun q => (Function.update t.peers p x q).receive ft } := by
  have houtbox : (t.peers p).outbox =
      P.map Placed.value :: rest.map fun P => P.map Placed.value := by
    rw [hpeer, hw.outbox, hP, List.map_cons]
  unfold mergeStep
  rw [houtbox]
  dsimp only
  rw [h.ft]
  cases updateFiletable s.ft (P.map Placed.value) with
  | none => rfl
  | some ft => rfl

theorem Refines.merge {w w' : Flight} {P : PeerTable} {rest : List PeerTable}
    {ft : FileTable} {e : Endpoint} {memory : SentTable}
    (h : Refines myip s t) (hw : w.On (myip p) (s.ends p))
    (hpeer : t.peers p = w.peer (s.ends p)) (hP : w.tables = P :: rest)
    (hmerge : updateFiletable s.ft (P.map Placed.value) = some ft)
    (hw' : w'.On (myip p) e)
    (hpeer' : w'.peer e =
      { w.peer (s.ends p) with
        outbox := rest.map fun P => P.map Placed.value })
    (hcount : memory.Countable) (hheld : HoldsTable memory ft) :
    exists t', mergeStep t p = some t' ∧
      Refines myip
        { ft := ft
          ends := fun q =>
            ((s.set p e).ends q).receive (sentTables [memory]) } t' := by
  refine ⟨_, ?_, (h.set hw').broadcast hcount hheld⟩
  rw [h.mergeStep_eq hw hpeer hP, hmerge, hpeer', ← hpeer]
  rfl

theorem Flight.On.not_register {w : Flight} {e : Endpoint}
    {myip : CString IP_LEN} {recv_pkt : PtpPeer} {later : List PtpPeer}
    (h : w.On myip e) (hsent : w.sent = recv_pkt :: later) :
    recv_pkt.type ≠ REGISTER := by
  have hknown := h.known recv_pkt
    (by rw [hsent]; exact List.mem_append_left _ List.mem_cons_self)
  cases hknown with
  | inl hupdate => rw [hupdate]; decide
  | inr halive => rw [halive]; decide

theorem Refines.handle {memory : SentTable} (h : Refines myip s t)
    (hcount : memory.Countable) (hstep : handleStep s p memory = some s') :
    Refines myip s' t ∨ exists t', mergeStep t p = some t' ∧
      Refines myip s' t' := by
  rcases h.peers p with ⟨w, hw, hpeer⟩
  unfold handleStep at hstep
  cases hreceived : trackerReceiver (s.ends p).up with
  | mk pkt? bytes =>
      rw [hreceived] at hstep
      cases pkt? with
      | none => cases hstep
      | some pkt =>
          rcases hw.received hreceived with
            ⟨up, recv_pkt, later, hup, hsent, hread, hbytes⟩
          have hhandled := hw.handle hup hsent s.ft
          dsimp only at hstep
          rw [hread, hbytes] at hstep
          dsimp only at hstep
          unfold arrivalOf at hhandled
          generalize hresult : Handshake.receive _ _ = result at hstep hhandled
          cases hhandled with
          | stored hw' hup' hwaiting hsame =>
              dsimp only at hstep
              rw [if_neg (hw.not_register hsent)] at hstep
              cases hstep
              exact Or.inl (h.set_same hw' (hsame.trans hpeer.symm))
          | merged hP hmerge hw' hpeer' =>
              unfold Tracker.merged at hstep
              dsimp only at hstep
              split at hstep
              · next hheld =>
                  cases hstep
                  right
                  exact h.merge hw hpeer hP hmerge hw' hpeer' hcount hheld
              · cases hstep
          | fault hP hmerge => cases hstep

theorem Refines.step {a : WireAction ι} (h : Refines myip s t)
    (hcounted : a.Counted) (hstep : wireStep myip s a = some s') :
    Refines myip s' t ∨ exists b t', step (ipOf myip) t b = some t' ∧
      Refines myip s' t' := by
  cases a with
  | peer p a memory =>
      right
      rcases h.peers p with ⟨w, hw, hpeer⟩
      rcases Option.map_eq_some_iff.mp hstep with ⟨e, he, hs'⟩
      rcases hw.peer_step hcounted he with ⟨w', hw', hlocal⟩
      refine ⟨Action.peer p a,
        { t with peers := Function.update t.peers p (w'.peer e) }, ?_, ?_⟩
      · rw [← hpeer] at hlocal
        exact congrArg (Option.map _) hlocal
      · rw [← hs']
        exact h.set hw'
  | send p =>
      left
      rcases h.peers p with ⟨w, hw, hpeer⟩
      rcases Option.map_eq_some_iff.mp hstep with ⟨e, he, hs'⟩
      rcases hw.send_step he with ⟨w', hw', hsame⟩
      rw [← hs']
      exact h.set_same hw' (hsame.trans hpeer.symm)
  | keepAlive p =>
      left
      rcases h.peers p with ⟨w, hw, hpeer⟩
      rcases hw.keepAlive_step with ⟨w', hw', hsame⟩
      cases hstep
      exact h.set_same hw' (hsame.trans hpeer.symm)
  | handle p memory =>
      cases h.handle hcounted hstep with
      | inl hsame => exact Or.inl hsame
      | inr hmerged =>
          rcases hmerged with ⟨t', ht', hrefines⟩
          exact Or.inr ⟨Action.merge p, t', ht', hrefines⟩
  | fetch p =>
      left
      rcases h.peers p with ⟨w, hw, hpeer⟩
      rcases Option.map_eq_some_iff.mp hstep with ⟨e, he, hs'⟩
      rcases hw.fetch_step he with ⟨w', hw', hsame⟩
      rw [← hs']
      exact h.set_same hw' (hsame.trans hpeer.symm)

end Step

/-!
## Whole runs
-/

def WireState.tables (s : WireState ι) : State ι where
  ft := s.ft
  peers := fun p => (s.ends p).own

theorem Connected.refines {s : WireState ι} (h : Connected s)
    (myip : ι -> CString IP_LEN) : Refines myip s s.tables where
  ft := rfl
  peers := by
    intro p
    rcases h.ends p with ⟨clock, files, he⟩
    refine ⟨⟨[], [], [], [], [], []⟩, ?_, ?_⟩
    · rw [he]
      constructor
      · rfl
      · rfl
      · rfl
      · intro pkt hpkt
        cases hpkt
      · apply @Carries.between _ _ [] ⟨rfl, rfl⟩
        intro P hP
        cases hP
      · rfl
      · intro ft hft
        cases hft
      · exact List.Forall₂.nil
      · rfl
    · exact PeerState.carry_nil.symm

theorem Connected.started {s : WireState ι} (h : Connected s) :
    Started s.tables where
  names := h.names
  peers := by
    intro p
    rcases h.ends p with ⟨clock, files, he⟩
    refine ⟨clock, files, ?_⟩
    show (s.ends p).own = _
    rw [he]
    rfl

/-- Every state that is reached over the connections stands for a state that the
system of whole tables reaches. -/
theorem refines_of_reachable [DecidableEq ι] {myip : ι -> CString IP_LEN}
    {start s : WireState ι} (hstart : Connected start)
    (h : Reachable (wireStep myip) counted start s) :
    exists t, Reachable (step (ipOf myip)) unguarded start.tables t ∧
      Refines myip s t := by
  apply h.simulation (hstart.refines myip)
  intro s a s' t hrefines hcounted hstep
  cases hrefines.step hcounted hstep with
  | inl hsame => exact Or.inl hsame
  | inr hmatched =>
      rcases hmatched with ⟨b, t', ht', hrefines'⟩
      exact Or.inr ⟨b, t', trivial, ht', hrefines'⟩

namespace Sample

def oneIp : Unit -> CString IP_LEN :=
  fun _ => ⟨[49, 48], by decide, by decide⟩

def oneConnected : WireState Unit where
  ft := none
  ends := fun _ => connected none 100 fun _ => none

theorem oneConnected_connected : Connected oneConnected where
  names := List.nodup_nil
  ends := fun _ => ⟨100, fun _ => none, rfl⟩

end Sample

theorem refines_of_reachable_sending :
    exists s, ((s.ends ()).unsent.length = 1 ∧
        (s.ends ()).up.length = 2 * 928) ∧
      exists t, Reachable (step (ipOf Sample.oneIp)) unguarded
          Sample.oneConnected.tables t ∧ Refines Sample.oneIp s t := by
  let n := createdNode (ipOf Sample.oneIp ())
    { filepath := Sample.fileA, size := 5, lastModifyTime := 100 }
  let own := (Sample.oneConnected.ends ()).own.touch EventKind.create
    Sample.fileA (some { size := 5, mtime := 100 })
  have hcreate := @Reachable.step _ _ (wireStep Sample.oneIp) counted
    Sample.oneConnected _ _
    (WireAction.peer () (LocalAction.userCreate Sample.fileA 5) [])
    Reachable.start (by decide : (0 : Nat) < 2 ^ 31) rfl
  have hlocal : localStep (ipOf Sample.oneIp ()) own LocalAction.notify =
      some { own with events := [], table := [n], outbox := [[n]] } := rfl
  have hpeer := @Endpoint.peer_of_table (Sample.oneIp ())
    { Sample.oneConnected.ends () with own := own } LocalAction.notify
    (someMemory [n]) _ [n] [] (fun _ => rfl) hlocal rfl
    (holdsNodes_someMemory [n])
  have hnotify := @Reachable.step _ _ (wireStep Sample.oneIp) counted
    Sample.oneConnected _ _
    (WireAction.peer () LocalAction.notify (someMemory [n]))
    hcreate (by decide : (1 : Nat) < 2 ^ 31)
    (congrArg (Option.map (Sample.oneConnected.set ())) hpeer)
  have hsend := @Reachable.step _ _ (wireStep Sample.oneIp) counted
    Sample.oneConnected _ _ (WireAction.send ()) hnotify trivial rfl
  have halive := @Reachable.step _ _ (wireStep Sample.oneIp) counted
    Sample.oneConnected _ _ (WireAction.keepAlive ()) hsend trivial rfl
  refine ⟨_, ⟨rfl, ?_⟩,
    refines_of_reachable Sample.oneConnected_connected halive⟩
  show (([] ++ peerCodec.encode _) ++ List.flatMap _ _).length = _
  rw [List.length_append, List.nil_append, peerCodec.length_encode,
    peerCodec.length_flatMap_encode]
  rfl

end System
end DartSync
