import Mathlib.Data.Fintype.Basic
import DartSync.System.VersionFlow
import DartSync.Tracker.SourceList

/-!
# Peers come and go

The system with peers that connect while it runs and end or break off at any
time.  The tracker forgets an address with `delete_peer`: when the handshake
thread of a connection ends, when the heartbeat has not heard a peer for long,
and when a send to it fails.  A broadcast reaches those connected peers that
come before the first failure.  A host that comes back is a new peer with the
address of the old one.

The list of peers is not part of the state.  `delete_peer` frees the element at
`peer_head` and leaves the pointer, so the runs are those in which the first peer
of the list stays and is sent every broadcast.
-/

namespace DartSync
namespace System

open Foundation Peer Tracker

inductive Phase where
  | away
  /-- `accept` has returned; the answer to `REGISTER` has not been read. -/
  | accepted
  | running
  /-- The process has ended, the tracker still reads what it has sent. -/
  | ended
  | left
deriving DecidableEq

/-- Broadcasts are sent to a peer from `add_peer` on. -/
def Phase.receives : Phase -> Bool
  | accepted => true
  | running => true
  | _ => false

structure Membership (ι : Type) where
  system : State ι
  phase : ι -> Phase
  /-- `recv_pkt->peer_ip` of the handshake thread, once it has received one. -/
  seen : ι -> Option Ip
  /-- The tables merged from the connection. -/
  heard : ι -> List (List Node)
  /-- The peer at `peer_head`. -/
  first : Option ι

inductive MemberAction (ι : Type) where
  /-- `main` of the tracker accepts the connection. -/
  | accept (p : ι)
  /-- The tracker answers `REGISTER` with its table, and the peer starts. -/
  | register (p : ι) (clock : UInt64) (files : FileName -> Option FileStat)
  | act (p : ι) (a : LocalAction)
  /-- The tracker merges the oldest table of a peer; its broadcast gets to
  some. -/
  | merge (p : ι) (reached : ι -> Bool)
  /-- The process of a peer ends, after `sent` of its tables have got out. -/
  | stop (p : ι) (sent : Nat)
  /-- The handshake thread has read everything and ends. -/
  | leave (p : ι)
  /-- The heartbeat or a failing broadcast calls `delete_peer`. -/
  | forget (p : ι)

variable {ι : Type} [DecidableEq ι]

/-- The first table is compared after the broadcasts that came before it. -/
def PeerState.register (x : PeerState) (ft : FileTable) (clock : UInt64)
    (files : FileName -> Option FileStat) : PeerState :=
  { registered ft clock files with inbox := x.inbox ++ ft.nodes }

def State.deliver (s : State ι) (p : ι) (rest : List (List Node))
    (ft : FileTable) (reached : ι -> Bool) : State ι where
  ft := ft
  peers := fun q =>
    let x := Function.update s.peers p { s.peers p with outbox := rest } q
    if reached q then x.receive ft else x

namespace Membership

/-- Nobody has connected. -/
def start : Membership ι where
  system := { ft := none, peers := fun _ => registered none 0 fun _ => none }
  phase := fun _ => Phase.away
  seen := fun _ => none
  heard := fun _ => []
  first := none

def setPeer (m : Membership ι) (p : ι) (x : PeerState) : Membership ι :=
  { m with system :=
      { m.system with peers := Function.update m.system.peers p x } }

def setPhase (m : Membership ι) (p : ι) (phase : Phase) : Membership ι :=
  { m with phase := Function.update m.phase p phase }

def setFirst (m : Membership ι) (p : ι) : Membership ι :=
  { m with first := some (m.first.getD p) }

def setTable (m : Membership ι) (ft : FileTable) : Membership ι :=
  { m with system := { m.system with ft := ft } }

def setSeen (m : Membership ι) (p : ι) (peerIp : Ip) : Membership ι :=
  { m with seen := Function.update m.seen p (some peerIp) }

/-- The tracker's table after the handshake thread of `p` has ended.  Without a
packet `peer_ip` is empty, and no list contains an empty address. -/
def tableWithout (m : Membership ι) (p : ι) : FileTable :=
  match m.seen p with
  | none => m.system.ft
  | some peerIp => deletePeer peerIp m.system.ft

def merged (m : Membership ι) (p : ι) (peerFt : List Node)
    (rest : List (List Node)) (ft : FileTable) (reached : ι -> Bool) :
    Membership ι :=
  { m with
    system := m.system.deliver p rest ft fun q =>
      reached q && (m.phase q).receives
    heard := Function.update m.heard p (m.heard p ++ [peerFt]) }

end Membership

def memberStep (ip : ι -> Ip) (m : Membership ι) :
    MemberAction ι -> Option (Membership ι)
  | MemberAction.accept p =>
      match m.phase p with
      | Phase.away => some ((m.setPhase p Phase.accepted).setFirst p)
      | _ => none
  | MemberAction.register p clock files =>
      match m.phase p with
      | Phase.accepted =>
          some (((m.setPeer p ((m.system.peers p).register m.system.ft clock
            files)).setPhase p Phase.running).setSeen p (ip p))
      | _ => none
  | MemberAction.act p a =>
      match m.phase p with
      | Phase.running =>
          (localStep (ip p) (m.system.peers p) a).map (m.setPeer p)
      | _ => none
  | MemberAction.merge p reached =>
      match (m.system.peers p).outbox with
      | [] => none
      | peerFt :: rest =>
          if m.first.all reached then
            (updateFiletable m.system.ft peerFt).map fun ft =>
              (m.merged p peerFt rest ft reached).setSeen p (ip p)
          else none
  | MemberAction.stop p sent =>
      let ended := (m.setPeer p { m.system.peers p with
        outbox := (m.system.peers p).outbox.take sent }).setPhase p Phase.ended
      if m.first = some p then none
      else
        match m.phase p with
        | Phase.accepted => some ended
        | Phase.running => some ended
        | _ => none
  | MemberAction.leave p =>
      match m.phase p, (m.system.peers p).outbox with
      | Phase.ended, [] =>
          some ((m.setTable (m.tableWithout p)).setPhase p Phase.left)
      | _, _ => none
  | MemberAction.forget p =>
      if m.first = some p ∨ m.phase p = Phase.away then none
      else some (m.setTable (deletePeer (ip p) m.system.ft))

theorem setPeer_peers (m : Membership ι) (p q : ι) (x : PeerState) :
    (q = p ∧ (m.setPeer p x).system.peers q = x) ∨
      (m.setPeer p x).system.peers q = m.system.peers q := by
  unfold Membership.setPeer
  dsimp only
  cases Classical.em (q = p) with
  | inl hqp =>
      rw [hqp, Function.update_self]
      exact Or.inl ⟨rfl, rfl⟩
  | inr hqp =>
      rw [Function.update_of_ne hqp]
      exact Or.inr rfl

/-!
## What a step does
-/

inductive MemberChange (ip : ι -> Ip) (m : Membership ι) :
    MemberAction ι -> Membership ι -> Prop where
  | accepted {p : ι} : m.phase p = Phase.away ->
      MemberChange ip m (MemberAction.accept p)
        ((m.setPhase p Phase.accepted).setFirst p)
  | registered {p : ι} {clock : UInt64} {files : FileName -> Option FileStat} :
      m.phase p = Phase.accepted ->
        MemberChange ip m (MemberAction.register p clock files)
          (((m.setPeer p ((m.system.peers p).register m.system.ft clock
            files)).setPhase p Phase.running).setSeen p (ip p))
  | acted {p : ι} {a : LocalAction} {x : PeerState} :
      m.phase p = Phase.running ->
      localStep (ip p) (m.system.peers p) a = some x ->
        MemberChange ip m (MemberAction.act p a) (m.setPeer p x)
  | merged {p : ι} {reached : ι -> Bool} {peerFt : List Node}
      {rest : List (List Node)} {ft : FileTable} :
      (m.system.peers p).outbox = peerFt :: rest ->
      updateFiletable m.system.ft peerFt = some ft ->
        MemberChange ip m (MemberAction.merge p reached)
          ((m.merged p peerFt rest ft reached).setSeen p (ip p))
  | stopped {p : ι} {sent : Nat} :
      m.phase p = Phase.accepted ∨ m.phase p = Phase.running ->
        MemberChange ip m (MemberAction.stop p sent)
          ((m.setPeer p { m.system.peers p with
            outbox := (m.system.peers p).outbox.take sent }).setPhase p
              Phase.ended)
  | left {p : ι} : m.phase p = Phase.ended ->
      (m.system.peers p).outbox = [] ->
        MemberChange ip m (MemberAction.leave p)
          ((m.setTable (m.tableWithout p)).setPhase p Phase.left)
  | forgotten (p : ι) :
      MemberChange ip m (MemberAction.forget p)
        (m.setTable (deletePeer (ip p) m.system.ft))

theorem memberStep_change {ip : ι -> Ip} {m m' : Membership ι}
    {a : MemberAction ι} (h : memberStep ip m a = some m') :
    MemberChange ip m a m' := by
  cases a with
  | accept p =>
      dsimp only [memberStep] at h
      split at h
      · next hphase =>
          cases h
          exact MemberChange.accepted hphase
      · cases h
  | register p clock files =>
      dsimp only [memberStep] at h
      split at h
      · next hphase =>
          cases h
          exact MemberChange.registered hphase
      · cases h
  | act p a =>
      dsimp only [memberStep] at h
      split at h
      · next hphase =>
          rcases Option.map_eq_some_iff.mp h with ⟨x, hx, rfl⟩
          exact MemberChange.acted hphase hx
      · cases h
  | merge p reached =>
      dsimp only [memberStep] at h
      split at h
      · cases h
      · next peerFt rest houtbox =>
          split at h
          · rcases Option.map_eq_some_iff.mp h with ⟨ft, hft, rfl⟩
            exact MemberChange.merged houtbox hft
          · cases h
  | stop p sent =>
      dsimp only [memberStep] at h
      split at h
      · cases h
      · split at h
        · next hphase =>
            cases h
            exact MemberChange.stopped (Or.inl hphase)
        · next hphase =>
            cases h
            exact MemberChange.stopped (Or.inr hphase)
        · cases h
  | leave p =>
      dsimp only [memberStep] at h
      split at h
      · next hphase houtbox =>
          cases h
          exact MemberChange.left hphase houtbox
      · cases h
  | forget p =>
      dsimp only [memberStep] at h
      split at h
      · cases h
      · cases h
        exact MemberChange.forgotten p

structure Continues (x x' : PeerState) : Prop where
  inbox : x'.inbox.Sublist x.inbox
  downloads : forall d, d ∈ x'.downloads ->
    (exists d', d' ∈ x.downloads ∧ d'.arg = d.arg) ∨
      exists n, n ∈ x.inbox ∧ d.arg = downloadArg n.name n

section Local

variable {myip : Ip} {x x' : PeerState}

theorem Continues.of_eq (hinbox : x'.inbox = x.inbox)
    (hdownloads : forall d, d ∈ x'.downloads ->
      exists d', d' ∈ x.downloads ∧ d'.arg = d.arg) : Continues x x' where
  inbox := by rw [hinbox]
  downloads := fun d hd => Or.inl (hdownloads d hd)

theorem Continues.of_same (hinbox : x'.inbox = x.inbox)
    (hdownloads : x'.downloads = x.downloads) : Continues x x' := by
  apply Continues.of_eq hinbox
  intro d hd
  rw [hdownloads] at hd
  exact ⟨d, hd, rfl⟩

theorem exists_mem_of_set {downloads : List Download} {index : Nat}
    {d' e : Download} (h : downloads[index]? = some d') (harg : e.arg = d'.arg) :
    forall d, d ∈ downloads.set index e ->
      exists d', d' ∈ downloads ∧ d'.arg = d.arg := by
  intro d hd
  cases List.mem_or_eq_of_mem_set hd with
  | inl hold => exact ⟨d, hold, rfl⟩
  | inr hnew =>
      rw [hnew]
      exact ⟨d', List.mem_of_getElem? h, harg.symm⟩

theorem compare_continues (h : x.compare myip = some x') : Continues x x' := by
  unfold PeerState.compare at h
  split at h
  · cases h
  · next seekNode rest hinbox =>
      cases h
      generalize heffect : (compareNode myip seekNode x.table).2 = effect?
      have hsub : rest.Sublist x.inbox := by
        rw [hinbox]
        exact List.sublist_cons_self seekNode rest
      cases effect? with
      | none => exact ⟨hsub, fun d hd => Or.inl ⟨d, hd, rfl⟩⟩
      | some e =>
          rcases compareNode_effect heffect with rfl | rfl
          · constructor
            · exact hsub
            · intro d hd
              cases List.mem_append.mp hd with
              | inl hold => exact Or.inl ⟨d, hold, rfl⟩
              | inr hnew =>
                  right
                  rw [List.mem_singleton.mp hnew]
                  refine ⟨seekNode, ?_, rfl⟩
                  rw [hinbox]
                  exact List.mem_cons_self
          · unfold PeerState.perform PeerState.unlink
            dsimp only
            split
            · exact ⟨hsub, fun d hd => Or.inl ⟨d, hd, rfl⟩⟩
            · exact ⟨hsub, fun d hd => Or.inl ⟨d, hd, rfl⟩⟩

theorem localStep_continues {a : LocalAction}
    (h : localStep myip x a = some x') : Continues x x' := by
  cases a with
  | setClock now =>
      cases h
      exact Continues.of_same rfl rfl
  | userCreate f size =>
      dsimp only [localStep] at h
      split at h
      · cases h
        exact Continues.of_same rfl rfl
      · cases h
  | userWrite f size =>
      dsimp only [localStep] at h
      split at h
      · cases h
      · cases h
        exact Continues.of_same rfl rfl
  | userDelete f =>
      dsimp only [localStep] at h
      split at h
      · cases h
      · cases h
        exact Continues.of_same rfl rfl
  | notify =>
      dsimp only [localStep, PeerState.notify] at h
      split at h
      · cases h
      · rcases Option.ite_none_left_eq_some.mp h with ⟨_, hnotified⟩
        cases hnotified
        exact Continues.of_same rfl rfl
  | compare => exact compare_continues h
  | openFile index =>
      dsimp only [localStep, PeerState.openFile] at h
      split at h
      · next hdownload =>
          cases h
          exact Continues.of_eq rfl (exists_mem_of_set hdownload rfl)
      · cases h
  | writeFile index size =>
      dsimp only [localStep, PeerState.writeFile] at h
      split at h
      · split at h
        · cases h
          exact Continues.of_same rfl rfl
        · cases h
          exact Continues.of_same rfl rfl
      · cases h
  | setNodeType index =>
      dsimp only [localStep, PeerState.finish] at h
      split at h
      · next hdownload =>
          cases h
          exact Continues.of_eq rfl (exists_mem_of_set hdownload rfl)
      · cases h
  | closeFile index flushed =>
      have hrest : forall d, d ∈ x.downloads.eraseIdx index ->
          exists d', d' ∈ x.downloads ∧ d'.arg = d.arg :=
        fun d hd => ⟨d, List.mem_of_mem_eraseIdx hd, rfl⟩
      dsimp only [localStep, PeerState.closeFile] at h
      split at h
      · split at h
        · cases h
          exact Continues.of_eq rfl hrest
        · cases h
          exact Continues.of_eq rfl hrest
      · cases h

end Local

section Deliver

variable {s : State ι} {p q : ι} {peerFt : List Node}
  {rest : List (List Node)} {ft : FileTable} {reached : ι -> Bool}

theorem deliver_peers (houtbox : (s.peers p).outbox = peerFt :: rest) (q : ι) :
    exists outbox, (forall b, b ∈ outbox -> b ∈ (s.peers q).outbox) ∧
      (s.deliver p rest ft reached).peers q =
        if reached q then
          { s.peers q with outbox := outbox }.receive ft
        else { s.peers q with outbox := outbox } := by
  unfold State.deliver
  dsimp only
  cases Classical.em (q = p) with
  | inl hqp =>
      subst hqp
      refine ⟨rest, ?_, ?_⟩
      · intro b hb
        rw [houtbox]
        exact List.mem_cons_of_mem _ hb
      · rw [Function.update_self]
  | inr hqp =>
      refine ⟨(s.peers q).outbox, fun b hb => hb, ?_⟩
      rw [Function.update_of_ne hqp]

theorem deliver_table (houtbox : (s.peers p).outbox = peerFt :: rest) :
    ((s.deliver p rest ft reached).peers q).table = (s.peers q).table ∧
      ((s.deliver p rest ft reached).peers q).downloads =
        (s.peers q).downloads := by
  rcases @deliver_peers _ _ s p peerFt rest ft reached houtbox q with
    ⟨outbox, _, hpeer⟩
  rw [hpeer]
  split <;> exact ⟨rfl, rfl⟩

theorem deliver_inbox (houtbox : (s.peers p).outbox = peerFt :: rest) :
    ((s.deliver p rest ft reached).peers q).inbox = (s.peers q).inbox ∨
      ((s.deliver p rest ft reached).peers q).inbox =
        (s.peers q).inbox ++ ft.nodes := by
  rcases @deliver_peers _ _ s p peerFt rest ft reached houtbox q with
    ⟨outbox, _, hpeer⟩
  rw [hpeer]
  split
  · exact Or.inr rfl
  · exact Or.inl rfl

theorem mem_deliver_outbox (houtbox : (s.peers p).outbox = peerFt :: rest)
    {b : List Node}
    (hb : b ∈ ((s.deliver p rest ft reached).peers q).outbox) :
    b ∈ (s.peers q).outbox := by
  rcases @deliver_peers _ _ s p peerFt rest ft reached houtbox q with
    ⟨outbox, hsub, hpeer⟩
  rw [hpeer] at hb
  apply hsub b
  split at hb
  · exact hb
  · exact hb

end Deliver

/-!
## What holds whoever comes and goes
-/

section Sane

variable {ip : ι -> Ip} {s : State ι} {m m' : Membership ι} {p : ι}

theorem Sane.setPeer (hs : Sane ip s) {x : PeerState}
    (htable : OwnTable (ip p) x.table)
    (hbundles : forall b, b ∈ x.outbox -> OwnTable (ip p) b) :
    Sane ip { s with peers := Function.update s.peers p x } where
  names := hs.names
  tables := by
    intro q
    dsimp only
    cases Classical.em (q = p) with
    | inl hqp =>
        rw [hqp, Function.update_self]
        exact htable
    | inr hqp =>
        rw [Function.update_of_ne hqp]
        exact hs.tables q
  bundles := by
    intro q
    dsimp only
    cases Classical.em (q = p) with
    | inl hqp =>
        rw [hqp, Function.update_self]
        exact hbundles
    | inr hqp =>
        rw [Function.update_of_ne hqp]
        exact hs.bundles q

omit [DecidableEq ι] in
theorem Sane.setTable (hs : Sane ip s) {ft : FileTable}
    (hnames : (ft.nodes.map Node.name).Nodup) :
    Sane ip { s with ft := ft } :=
  ⟨hnames, hs.tables, hs.bundles⟩

theorem Sane.deliver (hs : Sane ip s) {peerFt : List Node}
    {rest : List (List Node)} {ft : FileTable} {reached : ι -> Bool}
    (houtbox : (s.peers p).outbox = peerFt :: rest)
    (hnames : (ft.nodes.map Node.name).Nodup) :
    Sane ip (s.deliver p rest ft reached) where
  names := hnames
  tables := by
    intro q
    rw [(deliver_table houtbox).left]
    exact hs.tables q
  bundles := by
    intro q b hb
    exact hs.bundles q b (mem_deliver_outbox houtbox hb)

omit [DecidableEq ι] in
theorem names_tableWithout (m : Membership ι) (p : ι) :
    (m.tableWithout p).nodes.map Node.name =
      m.system.ft.nodes.map Node.name := by
  unfold Membership.tableWithout
  split
  · rfl
  · exact names_deletePeer _ _

theorem sane_memberChange {a : MemberAction ι} (hs : Sane ip m.system)
    (h : MemberChange ip m a m') : Sane ip m'.system := by
  cases h with
  | accepted _ => exact hs
  | registered _ =>
      apply hs.setPeer
      · exact ⟨List.nodup_nil, fun n hn => absurd hn List.not_mem_nil⟩
      · intro b hb
        cases hb
  | acted _ hlocal =>
      have hown := localStep_own hlocal (hs.tables _) (hs.bundles _)
      exact hs.setPeer hown.left hown.right
  | merged houtbox hupdate =>
      apply hs.deliver houtbox
      rw [← (updateFiletable_eq_some_iff.mp hupdate).left]
      exact nodup_names_foldl_mergeNode _ hs.names
  | stopped _ =>
      apply hs.setPeer
      · exact hs.tables _
      · intro b hb
        exact hs.bundles _ b (List.mem_of_mem_take hb)
  | left _ _ =>
      apply hs.setTable
      rw [names_tableWithout]
      exact hs.names
  | forgotten p =>
      apply hs.setTable
      rw [names_deletePeer]
      exact hs.names

end Sane

/-!
## Versions
-/

def NotOlder (e? e'? : Option Node) : Prop :=
  forall e, e? = some e -> exists e', e'? = some e' ∧ e.version ≤ e'.version

/-- Versions in the order in which they were broadcast, up to the entry. -/
structure Rising (inbox : List Node) (e? : Option Node) : Prop where
  sorted : (inbox.map Node.version).Pairwise fun a b => a ≤ b
  bound : forall n, n ∈ inbox -> exists e, e? = some e ∧ n.version ≤ e.version

theorem NotOlder.refl (e? : Option Node) : NotOlder e? e? :=
  fun e he => ⟨e, he, le_refl _⟩

theorem NotOlder.trans {e? e'? e''? : Option Node} (h : NotOlder e? e'?)
    (h' : NotOlder e'? e''?) : NotOlder e? e''? := by
  intro e he
  rcases h e he with ⟨e', he', hle⟩
  rcases h' e' he' with ⟨e'', he'', hle'⟩
  exact ⟨e'', he'', le_trans hle hle'⟩

theorem notOlder_mergeReport (report? e? : Option Node) :
    NotOlder e? (mergeReport report? e?) := by
  intro e he
  rw [he]
  cases report? with
  | none => exact ⟨e, rfl, le_refl _⟩
  | some r =>
      have hmerged : mergeReport (some r) (some e) =
          some (mergeEntry r (some e)) := rfl
      exact ⟨_, rfl, version_le_mergeReport hmerged⟩

section Rising

variable {inbox inbox' : List Node} {e? e'? : Option Node}

theorem rising_nil (e? : Option Node) : Rising [] e? :=
  ⟨List.Pairwise.nil, fun _ hn => absurd hn List.not_mem_nil⟩

theorem Rising.sublist (h : Rising inbox e?) (hsub : inbox'.Sublist inbox) :
    Rising inbox' e? where
  sorted := h.sorted.sublist (hsub.map Node.version)
  bound := fun n hn => h.bound n (hsub.subset hn)

theorem Rising.newer (h : Rising inbox e?) (hnewer : NotOlder e? e'?) :
    Rising inbox e'? where
  sorted := h.sorted
  bound := by
    intro n hn
    rcases h.bound n hn with ⟨e, he, hle⟩
    rcases hnewer e he with ⟨e', he', hle'⟩
    exact ⟨e', he', le_trans hle hle'⟩

theorem Rising.append (h : Rising inbox e?) :
    Rising (inbox ++ e?.toList) e? := by
  cases e? with
  | none =>
      rw [Option.toList_none, List.append_nil]
      exact h
  | some e =>
      constructor
      · rw [Option.toList_some, List.map_append, List.pairwise_append]
        refine ⟨h.sorted, List.pairwise_singleton _ _, ?_⟩
        intro a ha b hb
        rcases List.mem_map.mp ha with ⟨n, hn, rfl⟩
        rcases h.bound n hn with ⟨e', he', hle⟩
        cases he'
        rw [List.mem_singleton.mp hb]
        exact hle
      · intro n hn
        cases List.mem_append.mp hn with
        | inl hold => exact h.bound n hold
        | inr hnew =>
            rw [List.mem_singleton.mp hnew]
            exact ⟨e, rfl, le_refl _⟩

end Rising

section Versions

variable {ip : ι -> Ip} {m m' : Membership ι} {a : MemberAction ι}

theorem entry_deletePeer (peerIp : Ip) (ft : FileTable) (f : FileName) :
    entry f (deletePeer peerIp ft) =
      (entry f ft).map fun n =>
        { n with newpeerip :=
            deletePeerSlots peerIp MAX_PEER_NUM 0 n.newpeerip } := by
  cases ft with
  | none => rfl
  | some nodes => exact lookup_map fun _ => rfl

theorem notOlder_deletePeer (peerIp : Ip) (ft : FileTable) (f : FileName) :
    NotOlder (entry f ft) (entry f (deletePeer peerIp ft)) := by
  intro e he
  rw [entry_deletePeer, he]
  exact ⟨_, rfl, le_refl _⟩

theorem entry_memberChange (hs : Sane ip m.system)
    (h : MemberChange ip m a m') (f : FileName) :
    NotOlder (entry f m.system.ft) (entry f m'.system.ft) := by
  cases h with
  | accepted _ => exact NotOlder.refl _
  | registered _ => exact NotOlder.refl _
  | acted _ _ => exact NotOlder.refl _
  | merged houtbox hupdate =>
      rename_i p reached peerFt rest ft
      show NotOlder _ (entry f ft)
      have hbundle := hs.bundles p peerFt (by rw [houtbox]; exact List.mem_cons_self)
      rw [← (updateFiletable_eq_some_iff.mp hupdate).left,
        entry_foldl_mergeNode hbundle.names]
      exact notOlder_mergeReport _ _
  | stopped _ => exact NotOlder.refl _
  | left _ _ =>
      rename_i p _ _
      show NotOlder _ (entry f (m.tableWithout p))
      unfold Membership.tableWithout
      split
      · exact NotOlder.refl _
      · exact notOlder_deletePeer _ _ f
  | forgotten p => exact notOlder_deletePeer (ip p) _ f

def Membership.Ordered (m : Membership ι) : Prop :=
  forall p f, Rising (inboxOf f (m.system.peers p).inbox) (entry f m.system.ft)

omit [DecidableEq ι] in
theorem rising_broadcast {s : State ι} {p : ι} {f : FileName} {ft : FileTable}
    (h : Rising (inboxOf f (s.peers p).inbox) (entry f ft))
    (hnames : (ft.nodes.map Node.name).Nodup) :
    Rising (inboxOf f ((s.peers p).inbox ++ ft.nodes)) (entry f ft) := by
  rw [inboxOf_append_nodes hnames]
  exact h.append

theorem ordered_setPeer (h : m.Ordered) {p : ι} {x : PeerState}
    (hx : forall f, Rising (inboxOf f x.inbox) (entry f m.system.ft)) :
    (m.setPeer p x).Ordered := by
  intro q f
  cases setPeer_peers m p q x with
  | inl hself =>
      rw [hself.right]
      exact hx f
  | inr hother =>
      rw [hother]
      exact h q f

theorem ordered_memberChange (hs : Sane ip m.system) (h : m.Ordered)
    (hchange : MemberChange ip m a m') : m'.Ordered := by
  have hnewer := entry_memberChange hs hchange
  have hnames := (sane_memberChange hs hchange).names
  cases hchange with
  | accepted _ => exact h
  | registered _ =>
      apply ordered_setPeer h
      intro f
      exact rising_broadcast (h _ f) hnames
  | acted _ hlocal =>
      apply ordered_setPeer h
      intro f
      exact (h _ f).sublist ((localStep_continues hlocal).inbox.filter _)
  | merged houtbox hupdate =>
      intro q f
      have hkept := (h q f).newer (hnewer f)
      rename_i p reached peerFt rest ft
      cases @deliver_inbox _ _ m.system p q peerFt rest ft
          (fun q => reached q && (m.phase q).receives) houtbox with
      | inl hsame =>
          show Rising (inboxOf f ((m.system.deliver p rest ft _).peers q).inbox) _
          rw [hsame]
          exact hkept
      | inr hmore =>
          show Rising (inboxOf f ((m.system.deliver p rest ft _).peers q).inbox) _
          rw [hmore]
          exact rising_broadcast hkept hnames
  | stopped _ =>
      apply ordered_setPeer h
      intro f
      exact h _ f
  | left _ _ => exact fun q f => (h q f).newer (hnewer f)
  | forgotten p => exact fun q f => (h q f).newer (hnewer f)

end Versions

/-!
## Peers that are there from the start

If all peers connect before anything happens, none ends and no send fails, the
system is the one of a fixed set of peers.
-/

section Fixed

variable {ip : ι -> Ip} {start s s' : State ι} {m m' : Membership ι}

def Membership.Complete (m : Membership ι) (s : State ι) : Prop :=
  m.system = s ∧ forall p, m.phase p = Phase.running

structure Joined (start : State ι) (joined : List ι) (m : Membership ι) :
    Prop where
  table : m.system.ft = none
  inside : forall p, p ∈ joined ->
    m.phase p = Phase.running ∧ m.system.peers p = start.peers p
  outside : forall p, p ∉ joined -> m.phase p = Phase.away ∧
    m.system.peers p = registered none 0 fun _ => none

theorem joined_cons (hstarted : Started start) (hft : start.ft = none)
    {p : ι} {joined : List ι} (hp : p ∉ joined) (h : Joined start joined m) :
    exists m', runFrom (memberStep ip) m
        [MemberAction.accept p, MemberAction.register p
          (start.peers p).clock (start.peers p).files] = some m' ∧
      Joined start (p :: joined) m' := by
  rcases hstarted.peers p with ⟨clock, files, hpeer⟩
  rcases h.outside p hp with ⟨hphase, hblank⟩
  rw [hft] at hpeer
  have hclock : (start.peers p).clock = clock := by rw [hpeer]; rfl
  have hfiles : (start.peers p).files = files := by rw [hpeer]; rfl
  have haccept : memberStep ip m (MemberAction.accept p) =
      some ((m.setPhase p Phase.accepted).setFirst p) := by
    unfold memberStep
    dsimp only
    rw [hphase]
  have hregister : memberStep ip ((m.setPhase p Phase.accepted).setFirst p)
      (MemberAction.register p clock files) =
        some (((((m.setPhase p Phase.accepted).setFirst p).setPeer p
          (registered none clock files)).setPhase p Phase.running).setSeen p
            (ip p)) := by
    have haccepted : ((m.setPhase p Phase.accepted).setFirst p).phase p =
        Phase.accepted := by
      show Function.update m.phase p Phase.accepted p = Phase.accepted
      rw [Function.update_self]
    unfold memberStep
    dsimp only
    rw [haccepted]
    dsimp only [Membership.setPhase, Membership.setFirst]
    rw [hblank, h.table]
    rfl
  rw [hclock, hfiles]
  refine ⟨_, runFrom_cons_eq_some_iff.mpr ⟨_, haccept,
    runFrom_cons_eq_some_iff.mpr ⟨_, hregister, rfl⟩⟩, ?_⟩
  constructor
  · exact h.table
  · intro q hq
    show Function.update (Function.update m.phase p _) p _ q = _ ∧
      Function.update m.system.peers p _ q = _
    cases Classical.em (q = p) with
    | inl hqp =>
        rw [hqp, Function.update_self, Function.update_self, hpeer]
        exact ⟨rfl, rfl⟩
    | inr hqp =>
        rw [Function.update_of_ne hqp, Function.update_of_ne hqp,
          Function.update_of_ne hqp]
        exact h.inside q ((List.mem_cons.mp hq).resolve_left hqp)
  · intro q hq
    rw [List.mem_cons, not_or] at hq
    show Function.update (Function.update m.phase p _) p _ q = _ ∧
      Function.update m.system.peers p _ q = _
    rw [Function.update_of_ne hq.left, Function.update_of_ne hq.left,
      Function.update_of_ne hq.left]
    exact h.outside q hq.right

theorem exists_joined (hstarted : Started start) (hft : start.ft = none)
    {joined : List ι} (hnodup : joined.Nodup) :
    exists m, Reachable (memberStep ip) unguarded Membership.start m ∧
      Joined start joined m := by
  induction joined with
  | nil =>
      refine ⟨Membership.start, Reachable.start, rfl, ?_, ?_⟩
      · intro p hp
        cases hp
      · exact fun _ _ => ⟨rfl, rfl⟩
  | cons p rest ih =>
      rw [List.nodup_cons] at hnodup
      rcases ih hnodup.right with ⟨m, hreach, hjoined⟩
      rcases @joined_cons _ _ ip start m hstarted hft p rest hnodup.left hjoined
        with ⟨m', hrun, hjoined'⟩
      exact ⟨m', hreach.of_runFrom hrun, hjoined'⟩

theorem complete_step {a : Action ι} (h : m.Complete s)
    (hstep : step ip s a = some s') :
    exists b m', memberStep ip m b = some m' ∧ m'.Complete s' := by
  rcases h with ⟨rfl, hphase⟩
  cases a with
  | peer p a =>
      rcases Option.map_eq_some_iff.mp hstep with ⟨x, hx, rfl⟩
      refine ⟨MemberAction.act p a, m.setPeer p x, ?_, rfl, hphase⟩
      unfold memberStep
      dsimp only
      rw [hphase p]
      dsimp only
      rw [hx]
      rfl
  | merge p =>
      change mergeStep m.system p = some s' at hstep
      unfold mergeStep at hstep
      cases houtbox : (m.system.peers p).outbox with
      | nil =>
          rw [houtbox] at hstep
          cases hstep
      | cons peerFt rest =>
          rw [houtbox] at hstep
          dsimp only at hstep
          cases hupdate : updateFiletable m.system.ft peerFt with
          | none =>
              rw [hupdate] at hstep
              cases hstep
          | some ft =>
              rw [hupdate] at hstep
              cases hstep
              refine ⟨MemberAction.merge p fun _ => true,
                (m.merged p peerFt rest ft fun _ => true).setSeen p (ip p),
                ?_, ?_, ?_⟩
              · unfold memberStep
                dsimp only
                have hall : m.first.all (fun _ => true) = true := by
                  cases m.first with
                  | none => rfl
                  | some q => rfl
                rw [houtbox]
                dsimp only
                rw [hall, if_pos rfl, hupdate]
                rfl
              · show m.system.deliver p rest ft _ = _
                unfold State.deliver
                congr 1
                funext q
                dsimp only
                apply if_pos
                rw [hphase q]
                rfl
              · exact hphase

theorem exists_complete [Fintype ι] (hstarted : Started start)
    (hft : start.ft = none) (h : Reachable (step ip) unguarded start s) :
    exists m, Reachable (memberStep ip) unguarded Membership.start m ∧
      m.Complete s := by
  induction h with
  | start =>
      rcases @exists_joined _ _ ip start hstarted hft _
        (Finset.nodup_toList Finset.univ) with ⟨m, hreach, hjoined⟩
      have hall : forall p, m.phase p = Phase.running ∧
          m.system.peers p = start.peers p := by
        intro p
        exact hjoined.inside p (Finset.mem_toList.mpr (Finset.mem_univ p))
      refine ⟨m, hreach, ?_, fun p => (hall p).left⟩
      have hpeers : m.system.peers = start.peers :=
        funext fun p => (hall p).right
      cases hsystem : m.system with
      | mk ft peers =>
          have htable := hjoined.table
          rw [hsystem] at htable hpeers
          cases start with
          | mk ft' peers' =>
              cases htable
              cases hft
              cases hpeers
              rfl
  | step _ _ hstep ih =>
      rcases ih with ⟨m, hreach, hcomplete⟩
      rcases complete_step hcomplete hstep with ⟨b, m', hb, hcomplete'⟩
      exact ⟨m', Reachable.step hreach trivial hb, hcomplete'⟩

end Fixed

end System
end DartSync
