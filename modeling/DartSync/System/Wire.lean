import DartSync.System.Model
import DartSync.Tracker.TableStream

/-!
# The system over its connections

The peers and the tracker with what really travels between them: the bytes of
`ptp_peer_t` and `ptp_tracker_t` packets.  A peer's monitor sends its table
packet by packet while its other thread may send `KEEP_ALIVE`s; a handshake
thread for each peer puts the tables together; the tracker's broadcasts are read
back by the peer's main thread as whole tables before it compares them.

Every step of this system is a step of the system of whole tables or changes
nothing there.
-/

namespace DartSync
namespace System

open Foundation Peer Tracker

/-- A peer, the handshake thread that serves it, and the connection between
them.  `unsent` is what `peer_sendpkt` has still to send.  The `ft` of a handler
is stale: the global table is read when a packet is handled. -/
structure Endpoint where
  own : PeerState
  unsent : List PeerImage
  up : List UInt8
  down : List UInt8
  handler : Handshake

structure WireState (ι : Type) where
  ft : FileTable
  ends : ι -> Endpoint

/-- The memory that holds a table which is sent is part of the action. -/
inductive WireAction (ι : Type) where
  | peer (p : ι) (a : LocalAction) (memory : List (Placed NodeImage))
  | send (p : ι)
  | keepAlive (p : ι)
  /-- The handshake thread of a peer handles one packet. -/
  | handle (p : ι) (memory : SentTable)
  /-- The main thread of a peer reads one broadcast. -/
  | fetch (p : ι)

def HoldsNodes (memory : List (Placed NodeImage)) (nodes : List Node) : Prop :=
  memory.map (fun x => x.value.read) = nodes.map some

instance (memory : List (Placed NodeImage)) (nodes : List Node) :
    Decidable (HoldsNodes memory nodes) :=
  inferInstanceAs (Decidable (_ = _))

def HoldsTable (memory : SentTable) (ft : FileTable) : Prop :=
  memory.isSome = ft.isSome ∧ HoldsNodes memory.nodes ft.nodes

instance (memory : SentTable) (ft : FileTable) :
    Decidable (HoldsTable memory ft) :=
  inferInstanceAs (Decidable (_ ∧ _))

namespace Endpoint

/-- A step of the peer itself.  A table that it sends is cut into packets; the
monitor handles no event before all of them are sent. -/
def peer (myip : CString IP_LEN) (e : Endpoint) (a : LocalAction)
    (memory : List (Placed NodeImage)) : Option Endpoint :=
  if a = LocalAction.notify ∧ e.unsent ≠ [] then none
  else
    match localStep (myip.widen (Nat.le_succ IP_LEN)) e.own a with
    | none => none
    | some own =>
        match own.outbox with
        | [] => some { e with own := own }
        | table :: _ =>
            if HoldsNodes memory table then
              some { e with
                own := { own with outbox := [] }
                unsent := peerPackets myip memory FILE_UPDATE }
            else none

def send (e : Endpoint) : Option Endpoint :=
  match e.unsent with
  | [] => none
  | pkt :: rest =>
      some { e with unsent := rest, up := e.up ++ peerCodec.encode pkt }

def keepAlive (myip : CString IP_LEN) (e : Endpoint) : Endpoint :=
  { e with
    up := e.up ++ (peerPackets myip [] KEEP_ALIVE).flatMap peerCodec.encode }

/-- `peer_recvpkt` and the table it fills; the connection must hold the whole
table, and all strings must end in their arrays. -/
def fetch (e : Endpoint) : Option Endpoint :=
  match e.own.inbox, peerRecvpkt e.down with
  | [], (some nodes, rest) =>
      match (traverse nodes).bind fun images => images.mapM NodeImage.read with
      | none => none
      | some inbox =>
          some { e with own := { e.own with inbox := inbox }, down := rest }
  | _, _ => none

def receive (e : Endpoint) (bytes : List UInt8) : Endpoint :=
  { e with down := e.down ++ bytes }

section Peer

variable {myip : CString IP_LEN} {e : Endpoint} {a : LocalAction}
  {memory : List (Placed NodeImage)} {own : PeerState}

theorem peer_of_quiet (hfree : a = LocalAction.notify -> e.unsent = [])
    (hlocal : localStep (myip.widen (Nat.le_succ IP_LEN)) e.own a = some own)
    (houtbox : own.outbox = []) :
    e.peer myip a memory = some { e with own := own } := by
  unfold peer
  rw [if_neg (fun hbusy => hbusy.right (hfree hbusy.left)), hlocal]
  dsimp only
  rw [houtbox]

theorem peer_of_table {table : List Node} {later : List (List Node)}
    (hfree : a = LocalAction.notify -> e.unsent = [])
    (hlocal : localStep (myip.widen (Nat.le_succ IP_LEN)) e.own a = some own)
    (houtbox : own.outbox = table :: later)
    (hholds : HoldsNodes memory table) :
    e.peer myip a memory = some { e with
      own := { own with outbox := [] }
      unsent := peerPackets myip memory FILE_UPDATE } := by
  unfold peer
  rw [if_neg (fun hbusy => hbusy.right (hfree hbusy.left)), hlocal]
  dsimp only
  rw [houtbox]
  dsimp only
  rw [if_pos hholds]

end Peer

end Endpoint

variable {ι : Type} [DecidableEq ι]

def WireState.set (s : WireState ι) (p : ι) (e : Endpoint) : WireState ι :=
  { s with ends := Function.update s.ends p e }

/-- One turn of the loop in `handshake`.  A `REGISTER` is answered to its
sender; the last packet of a table changes the tracker's table, which is then
broadcast. -/
def handleStep (s : WireState ι) (p : ι) (memory : SentTable) :
    Option (WireState ι) :=
  match trackerReceiver (s.ends p).up with
  | (none, _) => none
  | (some pkt, rest) =>
      match pkt.read with
      | none => none
      | some recv_pkt =>
          let arrival : Arrival :=
            { recv_pkt := recv_pkt, replyFails := false, broadcastFails := none }
          match { (s.ends p).handler with ft := s.ft }.receive arrival with
          | (_, none) => none
          | ([], some handler) =>
              let e := { s.ends p with up := rest, handler := handler }
              if recv_pkt.type = REGISTER then
                if HoldsTable memory s.ft then
                  some (s.set p (e.receive (sentTables [memory])))
                else none
              else some (s.set p e)
          | (_ :: _, some handler) =>
              let e := { s.ends p with up := rest, handler := handler }
              if HoldsTable memory handler.ft then
                some
                  { ft := handler.ft
                    ends := fun q =>
                      ((s.set p e).ends q).receive (sentTables [memory]) }
              else none

def wireStep (myip : ι -> CString IP_LEN) (s : WireState ι) :
    WireAction ι -> Option (WireState ι)
  | WireAction.peer p a memory =>
      ((s.ends p).peer (myip p) a memory).map (s.set p)
  | WireAction.send p => (s.ends p).send.map (s.set p)
  | WireAction.keepAlive p => some (s.set p ((s.ends p).keepAlive (myip p)))
  | WireAction.handle p memory => handleStep s p memory
  | WireAction.fetch p => (s.ends p).fetch.map (s.set p)

def WireAction.Counted : WireAction ι -> Prop
  | WireAction.peer _ _ memory => memory.length < 2 ^ 31
  | WireAction.handle _ memory => memory.Countable
  | _ => True

def counted : WireState ι -> WireAction ι -> Prop :=
  fun _ a => a.Counted

/-- A peer that has read the answer to its `REGISTER`. -/
def connected (ft : FileTable) (clock : UInt64)
    (files : FileName -> Option FileStat) : Endpoint where
  own := registered ft clock files
  unsent := []
  up := []
  down := []
  handler := Handshake.start ft

structure Connected (s : WireState ι) : Prop where
  names : (s.ft.nodes.map Node.name).Nodup
  ends : forall p, exists clock files, s.ends p = connected s.ft clock files

/-!
## Memory for the tables
-/

def someMemory (nodes : List Node) : List (Placed NodeImage) :=
  images (nodes.map Sample.placed)

theorem holdsNodes_someMemory (nodes : List Node) :
    HoldsNodes (someMemory nodes) nodes := by
  unfold HoldsNodes someMemory images
  rw [List.map_map, List.map_map]
  exact List.map_congr_left fun node _ => node.read_image

theorem length_someMemory (nodes : List Node) :
    (someMemory nodes).length = nodes.length := by
  unfold someMemory images
  rw [List.length_map, List.length_map]

def someTable (ft : FileTable) : SentTable :=
  ft.map someMemory

theorem nodes_someTable (ft : FileTable) :
    (someTable ft).nodes = someMemory ft.nodes := by
  cases ft <;> rfl

theorem holdsTable_someTable (ft : FileTable) :
    HoldsTable (someTable ft) ft := by
  constructor
  · exact Option.isSome_map
  · rw [nodes_someTable]
    exact holdsNodes_someMemory ft.nodes

/-!
## Tables on their way
-/

namespace PeerState

/-- The peer with tables on its connection: `sent` before what it sends next,
`coming` after what it compares next. -/
def carry (x : PeerState) (sent : List (List Node)) (coming : List Node) :
    PeerState :=
  { x with outbox := sent ++ x.outbox, inbox := x.inbox ++ coming }

variable {x y : PeerState} {sent : List (List Node)} {coming : List Node}

@[simp] theorem carry_nil : x.carry [] [] = x := by
  unfold carry
  rw [List.nil_append, List.append_nil]

theorem carry_perform (effect? : Option Effect) :
    (x.carry sent coming).perform effect? =
      (x.perform effect?).carry sent coming := by
  cases effect? with
  | none => rfl
  | some effect =>
      cases effect with
      | startDownload arg => rfl
      | removeFile f =>
          change (x.carry sent coming).unlink f = (x.unlink f).carry sent coming
          have hsame : (x.carry sent coming).files f = x.files f := rfl
          unfold unlink
          rw [hsame]
          cases x.files f with
          | none => rfl
          | some stat => rfl

theorem carry_notify {myip : Ip} (h : x.notify myip = some y) :
    (x.carry sent coming).notify myip = some (y.carry sent coming) := by
  have hsame : (x.carry sent coming).events = x.events := rfl
  unfold notify at h ⊢
  rw [hsame]
  cases hevents : x.events with
  | nil =>
      rw [hevents] at h
      cases h
  | cons event rest =>
      rw [hevents] at h
      rcases Option.ite_none_left_eq_some.mp h with ⟨hroom, hnotified⟩
      cases hnotified
      dsimp only [carry]
      rw [if_neg hroom]
      apply congrArg some
      split
      · rw [List.append_assoc]
      · rfl

theorem carry_compare {myip : Ip} (h : x.compare myip = some y) :
    (x.carry sent coming).compare myip = some (y.carry sent coming) := by
  unfold compare at h
  cases hinbox : x.inbox with
  | nil =>
      rw [hinbox] at h
      cases h
  | cons seekNode rest =>
      rw [hinbox] at h
      cases h
      have hcarried : (x.carry sent coming).inbox =
          seekNode :: (rest ++ coming) := by
        show x.inbox ++ coming = _
        rw [hinbox, List.cons_append]
      unfold compare
      rw [hcarried]
      dsimp only
      rw [← carry_perform]
      rfl

end PeerState

theorem outbox_perform (x : PeerState) (effect? : Option Effect) :
    (x.perform effect?).outbox = x.outbox := by
  cases effect? with
  | none => rfl
  | some effect =>
      cases effect with
      | startDownload arg => rfl
      | removeFile f =>
          dsimp only [PeerState.perform, PeerState.unlink]
          cases x.files f with
          | none => rfl
          | some stat => rfl

theorem localStep_carry {myip : Ip} {x y : PeerState} {a : LocalAction}
    (h : localStep myip x a = some y) (sent : List (List Node))
    (coming : List Node) :
    localStep myip (x.carry sent coming) a = some (y.carry sent coming) := by
  cases a with
  | setClock now =>
      cases h
      rfl
  | userCreate f size =>
      dsimp only [localStep] at h ⊢
      cases hfile : x.files f with
      | none =>
          rw [hfile] at h
          rw [show (x.carry sent coming).files f = none from hfile]
          cases h
          rfl
      | some stat =>
          rw [hfile] at h
          cases h
  | userWrite f size =>
      dsimp only [localStep] at h ⊢
      cases hfile : x.files f with
      | none =>
          rw [hfile] at h
          cases h
      | some stat =>
          rw [hfile] at h
          rw [show (x.carry sent coming).files f = some stat from hfile]
          cases h
          rfl
  | userDelete f =>
      dsimp only [localStep] at h ⊢
      cases hfile : x.files f with
      | none =>
          rw [hfile] at h
          cases h
      | some stat =>
          rw [hfile] at h
          rw [show (x.carry sent coming).files f = some stat from hfile]
          cases h
          rfl
  | notify => exact PeerState.carry_notify h
  | compare => exact PeerState.carry_compare h
  | openFile index =>
      change x.openFile index = some y at h
      change (x.carry sent coming).openFile index = _
      unfold PeerState.openFile at h ⊢
      dsimp only [PeerState.carry] at h ⊢
      split at h
      · next arg hdownload =>
          cases h
          rfl
      · cases h
  | writeFile index size =>
      change x.writeFile index size = some y at h
      change (x.carry sent coming).writeFile index size = _
      unfold PeerState.writeFile at h ⊢
      dsimp only [PeerState.carry] at h ⊢
      split at h
      · next arg hdownload =>
          split at h
          · cases h
            rfl
          · cases h
            rfl
      · cases h
  | setNodeType index =>
      change x.finish index = some y at h
      change (x.carry sent coming).finish index = _
      unfold PeerState.finish at h ⊢
      dsimp only [PeerState.carry] at h ⊢
      split at h
      · cases h
        rfl
      · cases h
  | closeFile index flushed =>
      change x.closeFile index flushed = some y at h
      change (x.carry sent coming).closeFile index flushed = _
      unfold PeerState.closeFile at h ⊢
      dsimp only [PeerState.carry] at h ⊢
      split at h
      · next arg hdownload =>
          split at h
          · cases h
            rfl
          · cases h
            rfl
      · cases h

theorem localStep_outbox {myip : Ip} {x y : PeerState} {a : LocalAction}
    (h : localStep myip x a = some y) :
    y.outbox = x.outbox ∨
      a = LocalAction.notify ∧ exists table, y.outbox = x.outbox ++ [table] := by
  cases a with
  | setClock now =>
      cases h
      exact Or.inl rfl
  | userCreate f size =>
      dsimp only [localStep] at h
      split at h
      · cases h
        exact Or.inl rfl
      · cases h
  | userWrite f size =>
      dsimp only [localStep] at h
      split at h
      · cases h
      · cases h
        exact Or.inl rfl
  | userDelete f =>
      dsimp only [localStep] at h
      split at h
      · cases h
      · cases h
        exact Or.inl rfl
  | notify =>
      dsimp only [localStep, PeerState.notify] at h
      split at h
      · cases h
      · rcases Option.ite_none_left_eq_some.mp h with ⟨_, hnotified⟩
        cases hnotified
        dsimp only
        split
        · exact Or.inr ⟨rfl, _, rfl⟩
        · exact Or.inl rfl
  | compare =>
      dsimp only [localStep, PeerState.compare] at h
      split at h
      · cases h
      · cases h
        left
        exact outbox_perform _ _
  | openFile index =>
      dsimp only [localStep, PeerState.openFile] at h
      split at h
      · cases h
        exact Or.inl rfl
      · cases h
  | writeFile index size =>
      dsimp only [localStep, PeerState.writeFile] at h
      split at h
      · split at h
        · cases h
          exact Or.inl rfl
        · cases h
          exact Or.inl rfl
      · cases h
  | setNodeType index =>
      dsimp only [localStep, PeerState.finish] at h
      split at h
      · cases h
        exact Or.inl rfl
      · cases h
  | closeFile index flushed =>
      dsimp only [localStep, PeerState.closeFile] at h
      split at h
      · split at h
        · cases h
          exact Or.inl rfl
        · cases h
          exact Or.inl rfl
      · cases h

end System
end DartSync
