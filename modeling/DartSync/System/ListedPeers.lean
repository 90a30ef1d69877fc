import Mathlib.Data.List.TakeWhile
import DartSync.System.Membership

/-!
# Who is listed, whoever comes and goes

A list of the tracker names the peers that have reported the version of the
entry and are still connected, and a download asks only peers that have reported
the version it is of.  The versions themselves outlive the peers.
-/

namespace DartSync
namespace System

open Foundation Peer Tracker

variable {ι : Type} [DecidableEq ι]

/-!
## Who is listed, and who is asked
-/

namespace Membership

def Open (m : Membership ι) (q : ι) : Prop :=
  m.phase q = Phase.running ∨ m.phase q = Phase.ended

def HasReported (m : Membership ι) (q : ι) (f : FileName)
    (version : Version) : Prop :=
  exists table, table ∈ m.heard q ∧
    exists r, r ∈ table ∧ r.name = f ∧ r.version = version

/-- A listed address is that of a connected peer that has reported the very
version of the entry. -/
def Listed (ip : ι -> Ip) (m : Membership ι) : Prop :=
  forall f e, entry f m.system.ft = some e -> forall i, i ∈ e.ipSet ->
    exists q, ip q = i ∧ m.Open q ∧ m.HasReported q f e.version

/-- The same of the entries still to be compared, when they were sent, and of
the peers that a download asks. -/
structure Sourced (ip : ι -> Ip) (m : Membership ι) : Prop where
  coming : forall p n, n ∈ (m.system.peers p).inbox ->
    forall i, i ∈ n.ipSet ->
      exists q, ip q = i ∧ m.HasReported q n.name n.version
  downloads : forall p d, d ∈ (m.system.peers p).downloads ->
    forall i, i ∈ d.arg.addrList ->
      exists q, ip q = i ∧ m.HasReported q d.arg.filename
        (versionOf d.arg.timestamp d.arg.size)

structure Tracked (ip : ι -> Ip) (m : Membership ι) : Prop where
  seen : forall p i, m.seen p = some i -> i = ip p
  heard : forall p, m.seen p = none -> m.heard p = []
  sending : forall p, (m.system.peers p).outbox ≠ [] -> m.Open p

end Membership

section Sources

variable {ip : ι -> Ip} {m m' : Membership ι} {a : MemberAction ι}
  {f : FileName} {i : Ip}

theorem hasReported_memberChange (h : MemberChange ip m a m') {q : ι}
    {version : Version} (hreported : m.HasReported q f version) :
    m'.HasReported q f version := by
  cases h with
  | merged houtbox hupdate =>
      rename_i p reached peerFt rest ft
      rcases hreported with ⟨table, htable, hr⟩
      refine ⟨table, ?_, hr⟩
      show table ∈ Function.update m.heard p (m.heard p ++ [peerFt]) q
      cases Classical.em (q = p) with
      | inl hqp =>
          rw [hqp] at htable ⊢
          rw [Function.update_self]
          exact List.mem_append_left _ htable
      | inr hqp =>
          rw [Function.update_of_ne hqp]
          exact htable
  | _ => exact hreported

theorem open_setPhase {q p : ι} {phase : Phase} (h : m.Open q)
    (hp : q = p -> phase = Phase.running ∨ phase = Phase.ended) :
    (m.setPhase p phase).Open q := by
  show Function.update m.phase p phase q = _ ∨
    Function.update m.phase p phase q = _
  cases Classical.em (q = p) with
  | inl hqp =>
      rw [hqp, Function.update_self]
      exact hp hqp
  | inr hqp =>
      rw [Function.update_of_ne hqp]
      exact h

omit [DecidableEq ι] in
theorem not_open {q : ι} {phase : Phase} (h : m.phase q = phase)
    (hrunning : phase ≠ Phase.running) (hended : phase ≠ Phase.ended) :
    ¬ m.Open q := by
  intro hopen
  cases hopen with
  | inl hphase => exact hrunning (h.symm.trans hphase)
  | inr hphase => exact hended (h.symm.trans hphase)

theorem open_memberChange (h : MemberChange ip m a m') {q : ι}
    (hq : m.Open q) (hleave : a ≠ MemberAction.leave q) : m'.Open q := by
  cases h with
  | accepted haway =>
      apply open_setPhase hq
      intro hqp
      rw [← hqp] at haway
      exact absurd hq (not_open haway Phase.noConfusion Phase.noConfusion)
  | registered _ =>
      rename_i p _ _ _
      exact @open_setPhase _ _ m q p _ hq fun _ => Or.inl rfl
  | acted _ _ => exact hq
  | merged _ _ => exact hq
  | stopped _ =>
      rename_i p _ _
      exact @open_setPhase _ _ m q p _ hq fun _ => Or.inr rfl
  | left _ _ =>
      rename_i p _ _
      apply @open_setPhase _ _ m q p _ hq
      intro hqp
      rw [hqp] at hleave
      exact absurd rfl hleave
  | forgotten _ => exact hq

omit [DecidableEq ι] in
theorem mem_ipSet_of_mem_peers {n : Node} (h : i ∈ n.peers) : i ∈ n.ipSet := by
  refine ⟨(List.takeWhile_sublist _).subset h, ?_⟩
  have hne := List.mem_takeWhile_imp h
  simpa using hne

omit [DecidableEq ι] in
theorem mem_ipSet_deletePeer {peerIp : Ip} {ft : FileTable} {e : Node}
    (hft : WellFormed ft.nodes) (he : entry f (deletePeer peerIp ft) = some e)
    (hi : i ∈ e.ipSet) :
    i ≠ peerIp ∧ exists e', entry f ft = some e' ∧ e'.version = e.version ∧
      i ∈ e'.ipSet := by
  rw [entry_deletePeer] at he
  rcases Option.map_eq_some_iff.mp he with ⟨e', he', rfl⟩
  rcases hft.peers e' (mem_of_lookup he') with ⟨l, hl⟩
  rcases deletePeerSlots_all peerIp hl with ⟨l', hl', hmem⟩
  rw [Lists.ipSet_eq hl'] at hi
  have hboth := (hmem i).mp hi
  refine ⟨hboth.right, e', he', rfl, ?_⟩
  rw [hl.ipSet_eq]
  exact hboth.left

theorem wellFormed_memberChange (hft : WellFormed m.system.ft.nodes)
    (h : MemberChange ip m a m') : WellFormed m'.system.ft.nodes := by
  cases h with
  | merged _ hupdate => exact updateFiletable_wellFormed hft hupdate
  | left _ _ =>
      rename_i p _ _
      show WellFormed (m.tableWithout p).nodes
      unfold Membership.tableWithout
      split
      · exact hft
      · exact deletePeer_wellFormed _ hft
  | forgotten p => exact deletePeer_wellFormed (ip p) hft
  | _ => exact hft

theorem outbox_setPeer {p q : ι} {x : PeerState}
    (h : ((m.setPeer p x).system.peers q).outbox ≠ []) :
    (q = p ∧ x.outbox ≠ []) ∨ (m.system.peers q).outbox ≠ [] := by
  cases setPeer_peers m p q x with
  | inl hself =>
      rw [hself.right] at h
      exact Or.inl ⟨hself.left, h⟩
  | inr hother =>
      rw [hother] at h
      exact Or.inr h

theorem sending_memberChange
    (hsending : forall p, (m.system.peers p).outbox ≠ [] -> m.Open p)
    (h : MemberChange ip m a m') (q : ι)
    (hq : (m'.system.peers q).outbox ≠ []) : m'.Open q := by
  have hold : (m.system.peers q).outbox ≠ [] ->
      a ≠ MemberAction.leave q -> m'.Open q :=
    fun houtbox => open_memberChange h (hsending q houtbox)
  cases h with
  | accepted _ => exact hold hq fun ha => by cases ha
  | registered _ =>
      cases outbox_setPeer hq with
      | inl hself => exact absurd rfl hself.right
      | inr houtbox => exact hold houtbox fun ha => by cases ha
  | acted hrunning hlocal =>
      cases outbox_setPeer hq with
      | inl hself =>
          rw [hself.left]
          exact Or.inl hrunning
      | inr houtbox => exact hold houtbox fun ha => by cases ha
  | merged houtbox hupdate =>
      rcases List.exists_mem_of_ne_nil _ hq with ⟨b, hb⟩
      have hne := List.ne_nil_of_mem (mem_deliver_outbox houtbox hb)
      exact hold hne fun ha => by cases ha
  | stopped _ =>
      rename_i p sent _
      cases outbox_setPeer hq with
      | inl hself =>
          right
          show Function.update m.phase p Phase.ended q = Phase.ended
          rw [hself.left, Function.update_self]
      | inr houtbox => exact hold houtbox fun ha => by cases ha
  | left _ houtbox =>
      apply hold hq
      intro ha
      cases ha
      exact hq houtbox
  | forgotten peerIp => exact hold hq fun ha => by cases ha

theorem seen_setSeen (hseen : forall q i, m.seen q = some i -> i = ip q)
    (p q : ι) (i : Ip) (h : (m.setSeen p (ip p)).seen q = some i) :
    i = ip q := by
  change Function.update m.seen p (some (ip p)) q = some i at h
  cases Classical.em (q = p) with
  | inl hqp =>
      rw [hqp, Function.update_self] at h
      rw [hqp]
      exact (Option.some.inj h).symm
  | inr hqp =>
      rw [Function.update_of_ne hqp] at h
      exact hseen q i h

theorem tracked_memberChange (ht : m.Tracked ip)
    (h : MemberChange ip m a m') : m'.Tracked ip where
  seen := by
    cases h with
    | registered _ => exact seen_setSeen ht.seen _
    | merged _ _ => exact seen_setSeen ht.seen _
    | _ => exact ht.seen
  heard := by
    intro q hq
    cases h with
    | registered _ =>
        rename_i p _ _ _
        change Function.update m.seen p (some (ip p)) q = none at hq
        cases Classical.em (q = p) with
        | inl hqp =>
            rw [hqp, Function.update_self] at hq
            cases hq
        | inr hqp =>
            rw [Function.update_of_ne hqp] at hq
            exact ht.heard q hq
    | merged _ _ =>
        rename_i p _ peerFt _ _ _ _
        change Function.update m.seen p (some (ip p)) q = none at hq
        show Function.update m.heard p (m.heard p ++ [peerFt]) q = []
        cases Classical.em (q = p) with
        | inl hqp =>
            rw [hqp, Function.update_self] at hq
            cases hq
        | inr hqp =>
            rw [Function.update_of_ne hqp] at hq ⊢
            exact ht.heard q hq
    | _ => exact ht.heard q hq
  sending := fun q => sending_memberChange ht.sending h q

theorem listed_of_same (hl : m.Listed ip) (h : MemberChange ip m a m')
    {e e' : Node} (he' : entry f m.system.ft = some e')
    (hversion : e'.version = e.version) (hi : i ∈ e'.ipSet)
    (hleave : forall q, a = MemberAction.leave q ->
      ip q = i -> ¬ m.HasReported q f e'.version) :
    exists q, ip q = i ∧ m'.Open q ∧ m'.HasReported q f e.version := by
  rcases hl f e' he' i hi with ⟨q, hq, hopen, hreported⟩
  refine ⟨q, hq, ?_, ?_⟩
  · apply open_memberChange h hopen
    intro ha
    exact hleave q ha hq hreported
  · rw [← hversion]
    exact hasReported_memberChange h hreported

theorem listed_memberChange (hs : Sane ip m.system)
    (hft : WellFormed m.system.ft.nodes) (ht : m.Tracked ip)
    (hl : m.Listed ip) (h : MemberChange ip m a m') : m'.Listed ip := by
  have hsame := fun {f i e e'} => @listed_of_same _ _ ip m m' a f i hl h e e'
  intro f e he i hi
  cases h with
  | accepted _ => exact hsame he rfl hi fun _ ha => by cases ha
  | registered _ => exact hsame he rfl hi fun _ ha => by cases ha
  | acted _ _ => exact hsame he rfl hi fun _ ha => by cases ha
  | stopped _ => exact hsame he rfl hi fun _ ha => by cases ha
  | merged houtbox hupdate =>
      rename_i p reached peerFt rest ft
      have hbundle := hs.bundles p peerFt
        (by rw [houtbox]; exact List.mem_cons_self)
      change entry f ft = some e at he
      rw [← (updateFiletable_eq_some_iff.mp hupdate).left,
        entry_foldl_mergeNode hbundle.names] at he
      cases hreport : lookup Node.name f peerFt with
      | none =>
          rw [hreport] at he
          exact hsame he rfl hi fun _ ha => by cases ha
      | some r =>
          rw [hreport] at he
          cases he
          cases mem_ipSet_mergeEntry hi with
          | inl hreporter =>
              have hopen : m.Open p := by
                apply ht.sending
                rw [houtbox]
                exact List.cons_ne_nil _ _
              have hnew := hbundle.newpeerip r (mem_of_lookup hreport)
              refine ⟨p, ?_, hopen, peerFt, ?_, r, mem_of_lookup hreport,
                key_of_lookup hreport, hreporter.right.symm⟩
              · rw [hreporter.left]
                unfold Node.reporter
                rw [hnew]
                rfl
              · show peerFt ∈ Function.update m.heard p _ p
                rw [Function.update_self]
                exact List.mem_append_right _ List.mem_cons_self
          | inr hold =>
              rcases hold with ⟨t, ht', hmem, hversion, _⟩
              exact hsame ht' hversion.symm hmem fun _ ha => by cases ha
  | left hended houtbox =>
      rename_i p
      change entry f (m.tableWithout p) = some e at he
      unfold Membership.tableWithout at he
      split at he
      · next hseen =>
          apply hsame he rfl hi
          intro q ha _ hreported
          cases ha
          rcases hreported with ⟨table, htable, _⟩
          rw [ht.heard p hseen] at htable
          cases htable
      · next peerIp hseen =>
          rcases mem_ipSet_deletePeer hft he hi with
            ⟨hne, e', he', hversion, hi'⟩
          apply hsame he' hversion hi'
          intro q ha hq _
          cases ha
          rw [ht.seen p peerIp hseen] at hne
          exact hne hq.symm
  | forgotten peerIp =>
      rcases mem_ipSet_deletePeer hft he hi with ⟨_, e', he', hversion, hi'⟩
      exact hsame he' hversion hi' fun _ ha => by cases ha

theorem inbox_memberChange (h : MemberChange ip m a m') {q : ι} {n : Node}
    (hn : n ∈ (m'.system.peers q).inbox) :
    n ∈ (m.system.peers q).inbox ∨ n ∈ m'.system.ft.nodes := by
  have hset : forall p x, n ∈ ((m.setPeer p x).system.peers q).inbox ->
      (q = p ∧ n ∈ x.inbox) ∨ n ∈ (m.system.peers q).inbox := by
    intro p x hn
    cases setPeer_peers m p q x with
    | inl hself =>
        rw [hself.right] at hn
        exact Or.inl ⟨hself.left, hn⟩
    | inr hother =>
        rw [hother] at hn
        exact Or.inr hn
  cases h with
  | registered _ =>
      cases hset _ _ hn with
      | inl hself =>
          rw [hself.left]
          exact List.mem_append.mp hself.right
      | inr hold => exact Or.inl hold
  | acted _ hlocal =>
      left
      cases hset _ _ hn with
      | inl hself =>
          rw [hself.left]
          exact (localStep_continues hlocal).inbox.subset hself.right
      | inr hold => exact hold
  | merged houtbox hupdate =>
      rename_i p reached peerFt rest ft
      change n ∈ ((m.system.deliver p rest ft _).peers q).inbox at hn
      cases @deliver_inbox _ _ m.system p q peerFt rest ft
          (fun q => reached q && (m.phase q).receives) houtbox with
      | inl hsame =>
          rw [hsame] at hn
          exact Or.inl hn
      | inr hmore =>
          rw [hmore] at hn
          exact List.mem_append.mp hn
  | stopped _ =>
      left
      cases hset _ _ hn with
      | inl hself =>
          rw [hself.left]
          exact hself.right
      | inr hold => exact hold
  | accepted _ => exact Or.inl hn
  | left _ _ => exact Or.inl hn
  | forgotten _ => exact Or.inl hn

theorem downloads_memberChange (h : MemberChange ip m a m') {q : ι}
    {d : Download} (hd : d ∈ (m'.system.peers q).downloads) :
    (exists d', d' ∈ (m.system.peers q).downloads ∧ d'.arg = d.arg) ∨
      exists n, n ∈ (m.system.peers q).inbox ∧
        d.arg = downloadArg n.name n := by
  have hset : forall p x, d ∈ ((m.setPeer p x).system.peers q).downloads ->
      (q = p ∧ d ∈ x.downloads) ∨ d ∈ (m.system.peers q).downloads := by
    intro p x hd
    cases setPeer_peers m p q x with
    | inl hself =>
        rw [hself.right] at hd
        exact Or.inl ⟨hself.left, hd⟩
    | inr hother =>
        rw [hother] at hd
        exact Or.inr hd
  cases h with
  | registered _ =>
      cases hset _ _ hd with
      | inl hself => cases hself.right
      | inr hold => exact Or.inl ⟨d, hold, rfl⟩
  | acted _ hlocal =>
      cases hset _ _ hd with
      | inl hself =>
          rw [hself.left]
          exact (localStep_continues hlocal).downloads d hself.right
      | inr hold => exact Or.inl ⟨d, hold, rfl⟩
  | merged houtbox hupdate =>
      rename_i p reached peerFt rest ft
      change d ∈ ((m.system.deliver p rest ft _).peers q).downloads at hd
      rw [(deliver_table houtbox).right] at hd
      exact Or.inl ⟨d, hd, rfl⟩
  | stopped _ =>
      left
      cases hset _ _ hd with
      | inl hself =>
          rw [hself.left]
          exact ⟨d, hself.right, rfl⟩
      | inr hold => exact ⟨d, hold, rfl⟩
  | accepted _ => exact Or.inl ⟨d, hd, rfl⟩
  | left _ _ => exact Or.inl ⟨d, hd, rfl⟩
  | forgotten _ => exact Or.inl ⟨d, hd, rfl⟩

omit [DecidableEq ι] in
theorem Membership.Listed.of_mem (h : m.Listed ip) (hs : Sane ip m.system)
    {n : Node} (hn : n ∈ m.system.ft.nodes) (hi : i ∈ n.ipSet) :
    exists q, ip q = i ∧ m.Open q ∧ m.HasReported q n.name n.version :=
  h n.name n (lookup_of_mem hs.names hn) i hi

theorem sourced_memberChange (hs : Sane ip m'.system) (hl : m'.Listed ip)
    (hsourced : m.Sourced ip) (h : MemberChange ip m a m') :
    m'.Sourced ip where
  coming := by
    intro p n hn i hi
    cases inbox_memberChange h hn with
    | inl hold =>
        rcases hsourced.coming p n hold i hi with ⟨q, hq, hreported⟩
        exact ⟨q, hq, hasReported_memberChange h hreported⟩
    | inr hnew =>
        rcases hl.of_mem hs hnew hi with ⟨q, hq, _, hreported⟩
        exact ⟨q, hq, hreported⟩
  downloads := by
    intro p d hd i hi
    cases downloads_memberChange h hd with
    | inl hold =>
        rcases hold with ⟨d', hd', harg⟩
        rw [← harg] at hi ⊢
        rcases hsourced.downloads p d' hd' i hi with ⟨q, hq, hreported⟩
        exact ⟨q, hq, hasReported_memberChange h hreported⟩
    | inr hnew =>
        rcases hnew with ⟨n, hn, harg⟩
        rw [harg] at hi ⊢
        rcases hsourced.coming p n hn i (mem_ipSet_of_mem_peers hi) with
          ⟨q, hq, hreported⟩
        exact ⟨q, hq, hasReported_memberChange h hreported⟩

end Sources

/-!
## Runs
-/

namespace Sample

def visit : List (MemberAction Bool) :=
  [MemberAction.accept false,
    MemberAction.register false 100 fun _ => none,
    MemberAction.accept true,
    MemberAction.register true 100 fun _ => none,
    MemberAction.act true (LocalAction.userCreate DartSync.Sample.fileA 5),
    MemberAction.act true LocalAction.notify,
    MemberAction.merge true fun _ => true,
    MemberAction.act false LocalAction.compare]

def departure : List (MemberAction Bool) :=
  [MemberAction.stop true 0, MemberAction.leave true]

end Sample

structure Membership.Sound (ip : ι -> Ip) (m : Membership ι) : Prop where
  sane : Sane ip m.system
  wellFormed : WellFormed m.system.ft.nodes
  ordered : m.Ordered
  tracked : m.Tracked ip
  listed : m.Listed ip
  sourced : m.Sourced ip

section Runs

variable {ip : ι -> Ip} {m m' : Membership ι} {a : MemberAction ι}

omit [DecidableEq ι] in
theorem sound_start : Membership.Sound ip Membership.start where
  sane := by
    constructor
    · exact List.nodup_nil
    · exact fun _ => ⟨List.nodup_nil, fun _ hn => absurd hn List.not_mem_nil⟩
    · intro p b hb
      cases hb
  wellFormed := wellFormed_null
  ordered := fun _ _ => rising_nil _
  tracked := by
    constructor
    · intro p i h
      cases h
    · exact fun _ _ => rfl
    · exact fun _ h => absurd rfl h
  listed := by
    intro f e he
    cases he
  sourced := by
    constructor
    · intro p n hn
      cases hn
    · intro p d hd
      cases hd

theorem sound_memberStep (h : m.Sound ip) (hstep : memberStep ip m a = some m') :
    m'.Sound ip := by
  have hchange := memberStep_change hstep
  have hs := sane_memberChange h.sane hchange
  have hl := listed_memberChange h.sane h.wellFormed h.tracked h.listed hchange
  exact ⟨hs, wellFormed_memberChange h.wellFormed hchange,
    ordered_memberChange h.sane h.ordered hchange,
    tracked_memberChange h.tracked hchange, hl,
    sourced_memberChange hs hl h.sourced hchange⟩

theorem sound_of_reachable
    (h : Reachable (memberStep ip) unguarded Membership.start m) :
    m.Sound ip :=
  h.invariant (P := Membership.Sound ip) sound_start
    fun _ _ _ hm _ hstep => sound_memberStep hm hstep

theorem notOlder_of_runFrom (h : m.Sound ip) {actions : List (MemberAction ι)}
    (hrun : runFrom (memberStep ip) m actions = some m') (f : FileName) :
    NotOlder (entry f m.system.ft) (entry f m'.system.ft) := by
  induction actions generalizing m with
  | nil =>
      cases hrun
      exact NotOlder.refl _
  | cons a rest ih =>
      rcases runFrom_cons_eq_some_iff.mp hrun with ⟨t, ht, hrest⟩
      have hfirst := entry_memberChange h.sane (memberStep_change ht) f
      exact hfirst.trans (ih (sound_memberStep h ht) hrest)

/-- The lists of the tracker name connected peers only, each with the version it
has reported. -/
theorem listed_are_connected
    (h : Reachable (memberStep ip) unguarded Membership.start m) {n : Node}
    (hn : n ∈ m.system.ft.nodes) {i : Ip} (hi : i ∈ n.ipSet) :
    exists q, ip q = i ∧
      (m.phase q = Phase.running ∨ m.phase q = Phase.ended) ∧
      exists table, table ∈ m.heard q ∧
        exists r, r ∈ table ∧ r.name = n.name ∧ r.version = n.version := by
  have hsound := sound_of_reachable h
  exact hsound.listed.of_mem hsound.sane hn hi

theorem listed_are_connected_visit :
    exists m n, runFrom (memberStep Sample.ips) Membership.start Sample.visit =
        some m ∧ n ∈ m.system.ft.nodes ∧
      exists q, Sample.ips q = DartSync.Sample.ipA ∧
        (m.phase q = Phase.running ∨ m.phase q = Phase.ended) ∧
        exists table, table ∈ m.heard q ∧
          exists r, r ∈ table ∧ r.name = n.name ∧ r.version = n.version := by
  have hrun : runFrom (memberStep Sample.ips) Membership.start Sample.visit =
      some _ := rfl
  refine ⟨_, _, hrun, List.mem_cons_self, ?_⟩
  apply listed_are_connected (reachable_of_runFrom hrun) List.mem_cons_self
  exact ⟨by decide, by decide⟩

/-- A download asks only peers that have reported the version it downloads. -/
theorem downloads_ask_reporters
    (h : Reachable (memberStep ip) unguarded Membership.start m) {p : ι}
    {d : Download} (hd : d ∈ (m.system.peers p).downloads) {i : Ip}
    (hi : i ∈ d.arg.addrList) :
    exists q, ip q = i ∧ exists table, table ∈ m.heard q ∧
      exists r, r ∈ table ∧ r.name = d.arg.filename ∧
        r.timestamp = d.arg.timestamp ∧ r.size = d.arg.size := by
  rcases (sound_of_reachable h).sourced.downloads p d hd i hi with
    ⟨q, hq, table, htable, r, hr, hname, hversion⟩
  exact ⟨q, hq, table, htable, r, hr, hname, versionOf_eq_iff.mp hversion⟩

theorem downloads_ask_reporters_visit :
    exists m d, runFrom (memberStep Sample.ips) Membership.start Sample.visit =
        some m ∧ d ∈ (m.system.peers false).downloads ∧
      exists q, Sample.ips q = DartSync.Sample.ipA ∧
        exists table, table ∈ m.heard q ∧
          exists r, r ∈ table ∧ r.name = d.arg.filename ∧
            r.timestamp = d.arg.timestamp ∧ r.size = d.arg.size := by
  have hrun : runFrom (memberStep Sample.ips) Membership.start Sample.visit =
      some _ := rfl
  refine ⟨_, _, hrun, List.mem_cons_self, ?_⟩
  apply downloads_ask_reporters (p := false) (reachable_of_runFrom hrun)
    List.mem_cons_self
  decide

/-- No version is lost, whoever comes and goes, and every peer gets to compare
the versions in their order. -/
theorem versions_outlive_peers
    (h : Reachable (memberStep ip) unguarded Membership.start m) (f : FileName) :
    (forall p,
      let coming := (m.system.peers p).inbox.filter fun n => n.name = f
      (coming.map Node.version).Pairwise (fun a b => a ≤ b) ∧
        forall n, n ∈ coming ->
          exists e, entry f m.system.ft = some e ∧ n.version ≤ e.version) ∧
    forall actions m', runFrom (memberStep ip) m actions = some m' ->
      forall e, entry f m.system.ft = some e ->
        exists e', entry f m'.system.ft = some e' ∧ e.version ≤ e'.version := by
  have hsound := sound_of_reachable h
  constructor
  · intro p
    have hrising := hsound.ordered p f
    exact ⟨hrising.sorted, hrising.bound⟩
  · intro actions m' hrun
    exact notOlder_of_runFrom hsound hrun f

theorem versions_outlive_peers_departure :
    exists m, runFrom (memberStep Sample.ips) Membership.start
        (Sample.visit ++ Sample.departure) = some m ∧
      m.phase true = Phase.left ∧
      (exists e, entry DartSync.Sample.fileA m.system.ft = some e ∧
        e.peers = []) ∧
      forall actions m', runFrom (memberStep Sample.ips) m actions = some m' ->
        forall e, entry DartSync.Sample.fileA m.system.ft = some e ->
          exists e', entry DartSync.Sample.fileA m'.system.ft = some e' ∧
            e.version ≤ e'.version := by
  have hrun : runFrom (memberStep Sample.ips) Membership.start
      (Sample.visit ++ Sample.departure) = some _ := rfl
  refine ⟨_, hrun, rfl, ⟨_, rfl, by decide⟩, ?_⟩
  exact (versions_outlive_peers (reachable_of_runFrom hrun) _).right

end Runs

end System
end DartSync
