import Mathlib.Logic.Function.Basic
import DartSync.Foundation.Transition
import DartSync.Peer.Compare
import DartSync.Peer.Monitor

/-!
# One tracker and its peers

The whole system: the tracker's table, and for every peer its sync folder, its
unhandled file events, its table, its running downloads and the two directions
of its connection.  A connection delivers in order.  A `FILE_UPDATE` travels as
one table; a broadcast is taken apart into its entries, because `compareNode`
handles them one by one while other threads of the peer run.

The last part of `ptp_download` is followed step by step: it opens the final
file for writing, writes to it, calls `setNodeType`, and closes the file, which
may still write what was buffered.  Each write is seen by the file monitor.
-/

namespace DartSync
namespace System

open Foundation Peer

inductive Stage where
  | fetching
  | writing
  | closing
deriving DecidableEq

structure Download where
  arg : DownloadArg
  stage : Stage
deriving DecidableEq

structure PeerState where
  clock : UInt64
  files : FileName -> Option FileStat
  events : List Event
  table : List Node
  downloads : List Download
  /-- `FILE_UPDATE` tables on their way to the tracker. -/
  outbox : List (List Node)
  /-- Broadcast entries on their way to `compareNode`. -/
  inbox : List Node

inductive LocalAction where
  | setClock (now : UInt64)
  | userCreate (f : FileName) (size : UInt64)
  | userWrite (f : FileName) (size : UInt64)
  | userDelete (f : FileName)
  | notify
  | compare
  | openFile (index : Nat)
  | writeFile (index : Nat) (size : UInt64)
  | setNodeType (index : Nat)
  | closeFile (index : Nat) (flushed : Option UInt64)
deriving DecidableEq

namespace PeerState

/-- Change a file of the sync folder; the kernel queues the event. -/
def touch (x : PeerState) (kind : EventKind) (f : FileName)
    (stat? : Option FileStat) : PeerState :=
  { x with
    files := Function.update x.files f stat?
    events := x.events ++ [{ kind := kind, name := f }] }

def written (x : PeerState) (size : UInt64) : Option FileStat :=
  some { size := size, mtime := x.clock }

def notify (myip : Ip) (x : PeerState) : Option PeerState :=
  match x.events with
  | [] => none
  | event :: rest =>
      let result :=
        notifyEvent myip x.clock (x.files event.name) event x.table
      if overruns event then none
      else
        some { x with
          events := rest
          table := result.1
          outbox := if result.2 then x.outbox ++ [result.1] else x.outbox }

/-- `remove(filepath)`, which only fails on a file that is not there. -/
def unlink (x : PeerState) (f : FileName) : PeerState :=
  match x.files f with
  | none => x
  | some _ => x.touch EventKind.delete f none

def perform (x : PeerState) : Option Effect -> PeerState
  | none => x
  | some (Effect.startDownload arg) =>
      { x with downloads := x.downloads ++ [{ arg := arg, stage := Stage.fetching }] }
  | some (Effect.removeFile f) => x.unlink f

def compare (myip : Ip) (x : PeerState) : Option PeerState :=
  match x.inbox with
  | [] => none
  | seekNode :: rest =>
      let result := compareNode myip seekNode x.table
      some ({ x with inbox := rest, table := result.1 }.perform result.2)

/-- `fopen(filepath, "w")` creates the file or truncates it. -/
def openFile (x : PeerState) (index : Nat) : Option PeerState :=
  match x.downloads[index]? with
  | some { arg := arg, stage := Stage.fetching } =>
      let kind :=
        match x.files arg.filename with
        | none => EventKind.create
        | some _ => EventKind.modify
      some ({ x with
        downloads := x.downloads.set index { arg := arg, stage := Stage.writing } }.touch
          kind arg.filename (x.written 0))
  | _ => none

/-- A write to the open file; it is not seen once the name is gone. -/
def writeFile (x : PeerState) (index : Nat) (size : UInt64) :
    Option PeerState :=
  match x.downloads[index]? with
  | some { arg := arg, stage := Stage.writing } =>
      match x.files arg.filename with
      | none => some x
      | some _ =>
          some (x.touch EventKind.modify arg.filename (x.written size))
  | _ => none

def finish (x : PeerState) (index : Nat) : Option PeerState :=
  match x.downloads[index]? with
  | some { arg := arg, stage := Stage.writing } =>
      some { x with
        downloads := x.downloads.set index { arg := arg, stage := Stage.closing }
        table := Peer.setNodeType arg.filename FILE_DOWNLOAD arg.size x.table }
  | _ => none

/-- `fclose(fp)`: what was still buffered is written now, if anything was. -/
def closeFile (x : PeerState) (index : Nat) (flushed : Option UInt64) :
    Option PeerState :=
  match x.downloads[index]? with
  | some { arg := arg, stage := Stage.closing } =>
      let closed := { x with downloads := x.downloads.eraseIdx index }
      match flushed, x.files arg.filename with
      | some size, some _ =>
          some (closed.touch EventKind.modify arg.filename (x.written size))
      | _, _ => some closed
  | _ => none

end PeerState

def localStep (myip : Ip) (x : PeerState) : LocalAction -> Option PeerState
  | LocalAction.setClock now => some { x with clock := now }
  | LocalAction.userCreate f size =>
      match x.files f with
      | none => some (x.touch EventKind.create f (x.written size))
      | some _ => none
  | LocalAction.userWrite f size =>
      match x.files f with
      | none => none
      | some _ => some (x.touch EventKind.modify f (x.written size))
  | LocalAction.userDelete f =>
      match x.files f with
      | none => none
      | some _ => some (x.touch EventKind.delete f none)
  | LocalAction.notify => x.notify myip
  | LocalAction.compare => x.compare myip
  | LocalAction.openFile index => x.openFile index
  | LocalAction.writeFile index size => x.writeFile index size
  | LocalAction.setNodeType index => x.finish index
  | LocalAction.closeFile index flushed => x.closeFile index flushed

/-!
## The system
-/

variable {ι : Type} [DecidableEq ι]

structure State (ι : Type) where
  ft : FileTable
  peers : ι -> PeerState

inductive Action (ι : Type) where
  | peer (p : ι) (a : LocalAction)
  /-- The tracker merges the oldest table of a peer and broadcasts. -/
  | merge (p : ι)

/-- `broadcast_filetable`, as seen by one peer. -/
def PeerState.receive (x : PeerState) (ft : FileTable) : PeerState :=
  { x with inbox := x.inbox ++ ft.nodes }

def mergeStep (s : State ι) (p : ι) : Option (State ι) :=
  match (s.peers p).outbox with
  | [] => none
  | peerFt :: rest =>
      match Tracker.updateFiletable s.ft peerFt with
      | none => none
      | some ft =>
          let peers :=
            Function.update s.peers p { s.peers p with outbox := rest }
          some { ft := ft, peers := fun q => (peers q).receive ft }

def step (ip : ι -> Ip) (s : State ι) : Action ι -> Option (State ι)
  | Action.peer p a =>
      (localStep (ip p) (s.peers p) a).map fun x =>
        { s with peers := Function.update s.peers p x }
  | Action.merge p => mergeStep s p

def registered (ft : FileTable) (clock : UInt64)
    (files : FileName -> Option FileStat) : PeerState where
  clock := clock
  files := files
  events := []
  table := []
  downloads := []
  outbox := []
  inbox := ft.nodes

structure Started (s : State ι) : Prop where
  names : (s.ft.nodes.map Node.name).Nodup
  peers : forall p, exists clock files,
    s.peers p = registered s.ft clock files

/-!
## A start for concrete runs
-/

namespace Sample

open DartSync.Sample

def ips : Bool -> Ip
  | true => ipA
  | false => ipB

def twoPeers : State Bool where
  ft := none
  peers := fun _ => registered none 100 fun _ => none

theorem ips_injective : Function.Injective ips := by
  intro p q h
  cases p with
  | false =>
      cases q with
      | false => rfl
      | true => exact absurd h (by decide)
  | true =>
      cases q with
      | false => exact absurd h (by decide)
      | true => rfl

theorem twoPeers_started : Started twoPeers where
  names := List.nodup_nil
  peers := fun _ => ⟨100, fun _ => none, rfl⟩

def onlyIp : Unit -> Ip :=
  fun _ => ipA

def onePeer : State Unit where
  ft := none
  peers := fun _ => registered none 100 fun _ => none

theorem onePeer_started : Started onePeer where
  names := List.nodup_nil
  peers := fun _ => ⟨100, fun _ => none, rfl⟩

end Sample

end System
end DartSync
