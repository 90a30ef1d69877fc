import DartSync.Tracker.PeerList

/-!
# Descriptors of the tracker's connections

The accept loop of `main`, the `heartbeat` thread and the `handshake` threads of
`tracker/tracker.c`, as far as they open and close connections.  All of them
know a peer by its descriptor alone, and the system gives a number that has
been closed to a later connection.
-/

namespace DartSync
namespace Tracker

open Foundation

/-- A descriptor and the connection it stands for.  Connections are numbered in
the order of their acceptance. -/
structure Socket where
  fd : Int32
  connection : Nat
deriving DecidableEq

structure Connections where
  peers : PeerList
  /-- The descriptors that are open. -/
  opened : List Socket
  /-- The local variable `connection` of each `handshake` thread, with the
  connection the thread was created for. -/
  handlers : List Socket
  /-- The connections whose other end is gone. -/
  ended : List Nat
  accepted : Nat

inductive ConnectionAction where
  /-- `accept`, then `add_peer` and `pthread_create`. -/
  | accept (fd : Int32) (ip : CString IP_LEN) (now : UInt64) (address : Nat)
  | hangUp (connection : Nat)
  /-- A `KEEP_ALIVE` in the `handshake` thread with this index. -/
  | heard (index : Nat) (now : UInt64)
  /-- `heartbeat` finds that the time of the peer at this address is over. -/
  | timeOut (temp : Nat) (now : UInt64)
  /-- The `handshake` thread with this index ends. -/
  | exit (index : Nat)

/-- The comparison in `heartbeat`, with its unsigned difference. -/
def TrackerPeer.expired (now : UInt64) (peer : TrackerPeer) : Bool :=
  now - peer.last_time_stamp > HEARTBEAT_TIMEOUT

namespace Connections

def start : Connections where
  peers := PeerList.empty
  opened := []
  handlers := []
  ended := []
  accepted := 0

/-- `delete_peer`, with what its `close` does to the descriptors. -/
def delete (s : Connections) (peer_sockfd : Int32) : Option Connections :=
  (s.peers.deletePeer peer_sockfd).map fun result =>
    { s with
      peers := result.1
      opened := s.opened.filter (fun socket => socket.fd ∉ result.2.closed) }

/-- The system gives a descriptor that is not open, and `calloc` an address that
is not in use. -/
def accept (s : Connections) (fd : Int32) (ip : CString IP_LEN)
    (now : UInt64) (address : Nat) : Option Connections :=
  if fd ∈ s.opened.map Socket.fd ∨
      (s.peers.heap.read address).isSome then none
  else
    (s.peers.addPeer fd ip now address).map fun result =>
      let socket : Socket := { fd := fd, connection := s.accepted }
      { s with
        peers := result.1
        opened := s.opened ++ [socket]
        handlers := s.handlers ++ [socket]
        accepted := s.accepted + 1 }

/-- The connection of a thread is over: the other end is gone, or the tracker
has closed it. -/
def finished (s : Connections) (handler : Socket) : Bool :=
  handler.connection ∈ s.ended ∨ handler ∉ s.opened

def step (s : Connections) : ConnectionAction -> Option Connections
  | ConnectionAction.accept fd ip now address => s.accept fd ip now address
  | ConnectionAction.hangUp connection =>
      some { s with ended := connection :: s.ended }
  | ConnectionAction.heard index now =>
      match s.handlers[index]? with
      | none => none
      | some handler =>
          if s.finished handler then none
          else
            (s.peers.heardPeer handler.fd now).map fun result =>
              { s with peers := result.1 }
  | ConnectionAction.timeOut temp now =>
      match s.peers.heap.read temp with
      | none => none
      | some cell =>
          if cell.value.expired now then s.delete cell.value.sockfd
          else none
  | ConnectionAction.exit index =>
      match s.handlers[index]? with
      | none => none
      | some handler =>
          if s.finished handler then
            (s.delete handler.fd).map fun s' =>
              { s' with handlers := s'.handlers.eraseIdx index }
          else none

end Connections

/-!
## What a deletion does
-/

/-- `peer_head` has the descriptor, and there is a peer behind it. -/
def FirstOfSeveral (s : PeerList) (fd : Int32) : Prop :=
  exists head cell, s.peer_head = some head ∧
    s.heap.read head = some cell ∧ cell.value.sockfd = fd ∧
    cell.next ≠ none

/-- The list of peers is intact, and a peer in it has the descriptor. -/
def Registered (s : PeerList) (fd : Int32) : Prop :=
  exists l, Represents s l ∧ fd ∈ l.descriptors

section Delete

variable {s : PeerList} {l : Registry} {fd : Int32}

theorem deletePeer_of_single {peer : TrackerPeer} (h : Represents s [peer]) :
    s.deletePeer fd = some (s, { value := 1, closed := [] }) := by
  rcases h with ⟨places, hsegment, hnodup, hvalues⟩
  rcases List.map_eq_singleton_iff.mp hvalues with ⟨x, rfl, _⟩
  have hlength := hsegment.length_le hnodup
  rcases hsegment with ⟨hhead, next, hread, hnext⟩
  change next = none at hnext
  subst hnext
  unfold PeerList.deletePeer
  rw [hhead]
  dsimp only
  cases hturns : s.heap.length with
  | zero =>
      rw [hturns] at hlength
      cases hlength
  | succ turns => rw [PeerList.deleteLoop, hread]

theorem firstOfSeveral_of_represents {x y : TrackerPeer}
    (h : Represents s (x :: y :: l)) : FirstOfSeveral s x.sockfd := by
  rcases h with ⟨places, hsegment, _, hvalues⟩
  rcases List.map_eq_cons_iff.mp hvalues with ⟨⟨a, v⟩, rest, rfl, rfl, hrest⟩
  rcases List.map_eq_cons_iff.mp hrest with ⟨⟨b, w⟩, later, rfl, _, _⟩
  rcases hsegment with ⟨hhead, next, hread, hnext, _⟩
  refine ⟨a, _, hhead, hread, rfl, ?_⟩
  rw [hnext]
  exact Option.some_ne_none b

theorem deletePeer_cases {s' : PeerList} {reply : Reply}
    (h : Represents s l) (hnodup : l.descriptors.Nodup)
    (hfirst : ¬ FirstOfSeveral s fd)
    (hdelete : s.deletePeer fd = some (s', reply)) :
    (s' = s ∧ reply.closed = []) ∨
      (reply.closed = [fd] ∧
        Represents s' (l.filter (fun peer => peer.sockfd ≠ fd))) := by
  cases l with
  | nil =>
      rcases h with ⟨places, hsegment, _, hvalues⟩
      rw [List.map_eq_nil_iff] at hvalues
      subst hvalues
      change s.peer_head = none at hsegment
      unfold PeerList.deletePeer at hdelete
      rw [hsegment] at hdelete
      cases hdelete
  | cons x rest =>
      cases rest with
      | nil =>
          rw [deletePeer_of_single h] at hdelete
          cases hdelete
          exact Or.inl ⟨rfl, rfl⟩
      | cons y later =>
          have hadmits : Registry.Admits (x :: y :: later)
              (PeerCall.delete fd) := by
            refine ⟨x, rfl, ?_⟩
            intro hx
            exact hfirst (hx ▸ firstOfSeveral_of_represents h)
          rcases deletePeer_refines h hnodup hadmits with
            ⟨t, ht, hrepresents⟩
          rw [hdelete] at ht
          cases ht
          cases Classical.em
            (fd ∈ Registry.descriptors (x :: y :: later)) with
          | inl hmem =>
              rw [Registry.call_delete_of_mem hmem] at hrepresents ⊢
              exact Or.inr ⟨rfl, hrepresents⟩
          | inr hnew =>
              rw [Registry.call_delete_of_notMem hnew] at hdelete ⊢
              refine Or.inl ⟨?_, rfl⟩
              exact call_idle (c := PeerCall.delete fd) hdelete
                (Or.inr ⟨⟨fd, rfl⟩, rfl⟩)

end Delete

/-!
## Peers that have nothing to do with a step
-/

def TimedOut (s : Connections) (socket : Socket) (now : UInt64) : Prop :=
  exists temp cell, s.peers.heap.read temp = some cell ∧
    cell.value.sockfd = socket.fd ∧ cell.value.expired now = true

/-- A connection that is alive, and not timed out when `heartbeat` looks at the
clock, stays open and in the list. -/
def KeepsOthers (s : Connections) (a : ConnectionAction) (s' : Connections) :
    Prop :=
  forall socket, socket ∈ s.opened -> socket.connection ∉ s.ended ->
    (forall temp now, a = ConnectionAction.timeOut temp now ->
      ¬ TimedOut s socket now) ->
    socket ∈ s'.opened ∧ Registered s'.peers socket.fd

/-- No step deletes the first of several peers, and no thread ends whose
descriptor stands for another connection by now. -/
def OwnDescriptor (s : Connections) : ConnectionAction -> Prop
  | ConnectionAction.timeOut temp _ =>
      forall cell, s.peers.heap.read temp = some cell ->
        ¬ FirstOfSeveral s.peers cell.value.sockfd
  | ConnectionAction.exit index =>
      forall handler, s.handlers[index]? = some handler ->
        ¬ FirstOfSeveral s.peers handler.fd ∧
          forall socket, socket ∈ s.opened -> socket.fd = handler.fd ->
            socket.connection = handler.connection
  | _ => True

structure Listed (s : Connections) : Prop where
  peers : exists l, Represents s.peers l ∧
    l.descriptors = s.opened.map Socket.fd
  distinct : (s.opened.map Socket.fd).Nodup

namespace Listed

variable {s s' : Connections} {socket : Socket} {fd : Int32}

theorem registered (h : Listed s) (hsocket : socket ∈ s.opened) :
    Registered s.peers socket.fd := by
  rcases h.peers with ⟨l, hrepresents, hdescriptors⟩
  refine ⟨l, hrepresents, ?_⟩
  rw [hdescriptors]
  exact List.mem_map_of_mem hsocket

theorem start : Listed Connections.start where
  peers := ⟨[], represents_empty, rfl⟩
  distinct := List.nodup_nil

theorem delete (h : Listed s) (hfirst : ¬ FirstOfSeveral s.peers fd)
    (hdelete : s.delete fd = some s') :
    Listed s' ∧ s'.ended = s.ended ∧ s'.handlers = s.handlers ∧
      forall socket, socket ∈ s.opened -> socket.fd ≠ fd ->
        socket ∈ s'.opened := by
  rcases Option.map_eq_some_iff.mp hdelete with ⟨⟨peers, reply⟩, hcall, rfl⟩
  rcases h.peers with ⟨l, hrepresents, hdescriptors⟩
  cases deletePeer_cases hrepresents (hdescriptors ▸ h.distinct) hfirst hcall
    with
  | inl hidle =>
      rcases hidle with ⟨rfl, hclosed⟩
      have hopened : s.opened.filter
          (fun socket => socket.fd ∉ reply.closed) = s.opened := by
        rw [hclosed, List.filter_eq_self]
        intro socket _
        simp
      dsimp only
      rw [hopened]
      exact ⟨⟨⟨l, hrepresents, hdescriptors⟩, h.distinct⟩, rfl, rfl,
        fun socket hsocket _ => hsocket⟩
  | inr hremoved =>
      rcases hremoved with ⟨hclosed, hrest⟩
      dsimp only
      rw [hclosed]
      refine ⟨⟨⟨_, hrest, ?_⟩, ?_⟩, rfl, rfl, ?_⟩
      · have hkept : Registry.descriptors
            (l.filter (fun peer => peer.sockfd ≠ fd)) =
            l.descriptors.filter (fun d => d ≠ fd) := by
          unfold Registry.descriptors
          rw [List.filter_map]
          rfl
        rw [hkept, hdescriptors, List.filter_map]
        congr 1
        apply List.filter_congr
        intro socket _
        simp
      · exact h.distinct.sublist (List.filter_sublist.map Socket.fd)
      · intro socket hsocket hne
        rw [List.mem_filter]
        exact ⟨hsocket, by simpa using hne⟩

theorem accept {ip : CString IP_LEN} {now : UInt64} {address : Nat}
    (h : Listed s) (haccept : s.accept fd ip now address = some s') :
    Listed s' ∧ forall socket, socket ∈ s.opened -> socket ∈ s'.opened := by
  unfold Connections.accept at haccept
  split at haccept
  · cases haccept
  · next havailable =>
      rw [not_or, Option.not_isSome_iff_eq_none] at havailable
      rcases havailable with ⟨hnew, hfresh⟩
      rcases h.peers with ⟨l, hrepresents, hdescriptors⟩
      have hunlisted : fd ∉ l.descriptors := hdescriptors ▸ hnew
      have hadmits : l.Admits (PeerCall.add fd ip now address) := by
        intro peer hpeer heq
        apply hunlisted
        rw [← heq]
        exact List.mem_map_of_mem (List.mem_of_getLast? hpeer)
      rcases addPeer_refines hrepresents hfresh hadmits with
        ⟨peers, hcall, hadded⟩
      rw [hcall, Registry.call_add_of_notMem hunlisted] at haccept
      rw [Registry.call_add_of_notMem hunlisted] at hadded
      cases haccept
      refine ⟨⟨⟨_, hadded, ?_⟩, ?_⟩, ?_⟩
      · unfold Registry.descriptors at hdescriptors ⊢
        rw [List.map_append, List.map_append, hdescriptors]
        rfl
      · rw [List.map_append]
        exact nodup_concat h.distinct hnew
      · intro socket hsocket
        exact List.mem_append_left _ hsocket

theorem heard {index : Nat} {now : UInt64} (h : Listed s)
    (hstep : s.step (ConnectionAction.heard index now) = some s') :
    Listed s' ∧ s'.opened = s.opened := by
  dsimp only [Connections.step] at hstep
  split at hstep
  · cases hstep
  · next handler _ =>
      split at hstep
      · cases hstep
      · rcases h.peers with ⟨l, hrepresents, hdescriptors⟩
        rcases @heardPeer_refines _ _ handler.fd now hrepresents with
          ⟨peers, hcall, hheard⟩
        rw [hcall] at hstep
        cases hstep
        refine ⟨⟨⟨_, hheard, ?_⟩, h.distinct⟩, rfl⟩
        rw [Registry.descriptors_heard]
        exact hdescriptors

theorem step_delete {a : ConnectionAction} (hguard : OwnDescriptor s a)
    (hstep : s.step a = some s')
    (hdeletes : (exists temp now, a = ConnectionAction.timeOut temp now) ∨
      exists index, a = ConnectionAction.exit index) :
    exists fd t, s.delete fd = some t ∧ ¬ FirstOfSeveral s.peers fd ∧
      t.peers = s'.peers ∧ t.opened = s'.opened ∧ t.ended = s'.ended ∧
      forall socket, socket ∈ s.opened -> socket.connection ∉ s.ended ->
        (forall temp now, a = ConnectionAction.timeOut temp now ->
          ¬ TimedOut s socket now) ->
        socket.fd ≠ fd := by
  rcases hdeletes with ⟨temp, now, rfl⟩ | ⟨index, rfl⟩
  · dsimp only [Connections.step] at hstep
    split at hstep
    · cases hstep
    · next cell hread =>
        split at hstep
        · next hexpired =>
            refine ⟨_, s', hstep, hguard cell hread, rfl, rfl, rfl, ?_⟩
            intro socket _ _ hintime heq
            exact hintime temp now rfl ⟨temp, cell, hread, heq.symm, hexpired⟩
        · cases hstep
  · dsimp only [Connections.step] at hstep
    split at hstep
    · cases hstep
    · next handler hhandler =>
        split at hstep
        · next hover =>
            rcases Option.map_eq_some_iff.mp hstep with ⟨t, ht, rfl⟩
            rcases hguard handler hhandler with ⟨hfirst, hown⟩
            refine ⟨_, t, ht, hfirst, rfl, rfl, rfl, ?_⟩
            intro socket hsocket halive _ heq
            have hconnection := hown socket hsocket heq
            have hsame : socket = handler := by
              cases socket
              cases handler
              cases heq
              cases hconnection
              rfl
            rw [Connections.finished, decide_eq_true_eq, ← hsame] at hover
            rcases hover with hended | hclosed
            · exact halive hended
            · exact hclosed hsocket
        · cases hstep

theorem step {a : ConnectionAction} (h : Listed s)
    (hguard : OwnDescriptor s a) (hstep : s.step a = some s') :
    Listed s' ∧ KeepsOthers s a s' := by
  have hdeletes : (exists temp now, a = ConnectionAction.timeOut temp now) ∨
      (exists index, a = ConnectionAction.exit index) ->
      Listed s' ∧ KeepsOthers s a s' := by
    intro hdeletes
    rcases step_delete hguard hstep hdeletes with
      ⟨fd, t, ht, hfirst, hpeers, hopened, hended, hothers⟩
    rcases h.delete hfirst ht with ⟨hlisted, _, _, hkept⟩
    have hlisted' : Listed s' := by
      constructor
      · rw [← hpeers, ← hopened]
        exact hlisted.peers
      · rw [← hopened]
        exact hlisted.distinct
    refine ⟨hlisted', ?_⟩
    intro socket hsocket halive hintime
    have hmem : socket ∈ s'.opened := by
      rw [← hopened]
      exact hkept socket hsocket (hothers socket hsocket halive hintime)
    exact ⟨hmem, hlisted'.registered hmem⟩
  cases a with
  | accept fd ip now address =>
      rcases h.accept hstep with ⟨hlisted, hkept⟩
      refine ⟨hlisted, ?_⟩
      intro socket hsocket _ _
      exact ⟨hkept socket hsocket, hlisted.registered (hkept socket hsocket)⟩
  | hangUp connection =>
      cases hstep
      have hlisted : Listed { s with ended := connection :: s.ended } :=
        ⟨h.peers, h.distinct⟩
      refine ⟨hlisted, ?_⟩
      intro socket hsocket _ _
      exact ⟨hsocket, hlisted.registered hsocket⟩
  | heard index now =>
      rcases h.heard hstep with ⟨hlisted, hopened⟩
      refine ⟨hlisted, ?_⟩
      intro socket hsocket _ _
      rw [← hopened] at hsocket
      exact ⟨hsocket, hlisted.registered hsocket⟩
  | timeOut temp now => exact hdeletes (Or.inl ⟨temp, now, rfl⟩)
  | exit index => exact hdeletes (Or.inr ⟨index, rfl⟩)

end Listed

/-- Along every run in which each deletion has a descriptor that is the deleted
connection's own, no step takes away another connection. -/
theorem reachable_keepsOthers {s : Connections}
    (h : Reachable Connections.step OwnDescriptor Connections.start s)
    {a : ConnectionAction} {s' : Connections} (hguard : OwnDescriptor s a)
    (hstep : s.step a = some s') : KeepsOthers s a s' := by
  have hlisted : Listed s :=
    h.invariant Listed.start fun _ _ _ hs hguard hstep =>
      (hs.step hguard hstep).left
  exact (hlisted.step hguard hstep).right

def Sample.twoAccepted : List ConnectionAction :=
  [ConnectionAction.accept 3 Sample.host 100 1,
    ConnectionAction.accept 4 Sample.host 341 2]

theorem last_of_two_ends :
    exists s s', s.step (ConnectionAction.exit 1) = some s' ∧
      { fd := 3, connection := 0 } ∈ s.opened ∧
      KeepsOthers s (ConnectionAction.exit 1) s' := by
  have hreach : Reachable Connections.step OwnDescriptor Connections.start _ :=
    Reachable.step (a := ConnectionAction.hangUp 1)
      (Reachable.step (a := ConnectionAction.accept 4 Sample.host 341 2)
        (Reachable.step (a := ConnectionAction.accept 3 Sample.host 100 1)
          Reachable.start trivial rfl) trivial rfl) trivial rfl
  refine ⟨_, _, rfl, List.mem_cons_self,
    reachable_keepsOthers hreach ?_ rfl⟩
  intro handler hhandler
  cases hhandler
  constructor
  · intro hfirst
    rcases hfirst with ⟨head, cell, hhead, hread, hfd, _⟩
    cases hhead
    cases hread
    cases hfd
  · decide

/-- The second of two connections times out, its descriptor goes to a third one,
and then its thread ends and closes the third.  And the first of two times out:
the list is lost. -/
theorem newcomer_closed_reachable :
    (exists s s', Reachable Connections.step unguarded Connections.start s ∧
      s.step (ConnectionAction.exit 1) = some s' ∧
      { fd := 4, connection := 2 } ∈ s.opened ∧ 2 ∉ s.ended ∧
      { fd := 4, connection := 2 } ∉ s'.opened ∧
      ¬ KeepsOthers s (ConnectionAction.exit 1) s') ∧
    exists s s', Reachable Connections.step unguarded Connections.start s ∧
      s.step (ConnectionAction.timeOut 1 341) = some s' ∧
      ¬ KeepsOthers s (ConnectionAction.timeOut 1 341) s' := by
  constructor
  · have hreach := @reachable_of_runFrom _ _ Connections.step
      Connections.start _
      [ConnectionAction.accept 3 Sample.host 100 1,
        ConnectionAction.accept 4 Sample.host 100 2,
        ConnectionAction.timeOut 2 341,
        ConnectionAction.accept 4 Sample.host 341 2] rfl
    refine ⟨_, _, hreach, rfl, by decide, by decide, by decide, ?_⟩
    intro hkeeps
    have hkept := hkeeps { fd := 4, connection := 2 } (by decide) (by decide)
      (fun temp now h => by cases h)
    exact absurd hkept.left (by decide)
  · have hreach := @reachable_of_runFrom _ _ Connections.step
      Connections.start _ Sample.twoAccepted rfl
    refine ⟨_, _, hreach, rfl, ?_⟩
    intro hkeeps
    have hkept := hkeeps { fd := 4, connection := 1 } (by decide) (by decide) ?_
    · rcases hkept.right with ⟨l, ⟨places, hsegment, _, _⟩, _⟩
      cases places with
      | nil => cases hsegment
      | cons x rest =>
          rcases hsegment with ⟨hhead, next, hread, _⟩
          have hx : 1 = x.1 := Option.some.inj hhead
          rw [← hx] at hread
          cases hread
    · intro temp now h htimed
      cases h
      rcases htimed with ⟨temp, cell, hread, hfd, hexpired⟩
      rcases Option.map_eq_some_iff.mp hread with ⟨x, hx, rfl⟩
      have hmem := mem_of_lookup hx
      cases hmem with
      | head => cases hexpired
      | tail _ hmem =>
          cases hmem with
          | head => cases hfd
          | tail _ hmem => cases hmem

end Tracker
end DartSync
