import DartSync.System.ListedPeers

/-!
# Where deletions come from

A peer removes a file when the tracker's entry says that it is deleted, and the
tracker's entry says so when a peer has reported it.  Behind every removal and
every such entry there is a user who has deleted the file at some peer.
-/

namespace DartSync
namespace System

open Foundation Peer Tracker

/-- There is no node, or it is not a deletion. -/
def Live (n? : Option Node) : Prop :=
  forall n, n? = some n -> n.type ≠ FILE_DELETE

structure PeerState.Keeps (f : FileName) (x : PeerState) : Prop where
  events : forall e, e ∈ x.events -> e.name = f -> e.kind ≠ EventKind.delete
  table : Live (lookup Node.name f x.table)
  outbox : forall b, b ∈ x.outbox -> Live (lookup Node.name f b)
  inbox : forall n, n ∈ x.inbox -> n.name = f -> n.type ≠ FILE_DELETE

section Nodes

variable {n? t? : Option Node} {event : Event} {myip : Ip} {now : UInt64}
  {stat? : Option FileStat} {seekNode : Node}

theorem live_none : Live none := by
  intro n hn
  cases hn

theorem live_some {n : Node} (h : n.type ≠ FILE_DELETE) : Live (some n) := by
  intro m hm
  cases hm
  exact h

theorem live_addedNode (fileInfo : FileInfo) (n : Node) :
    (addedNode fileInfo n).1.type ≠ FILE_DELETE := by
  unfold addedNode
  split
  · next hlive =>
      split
      · exact hlive
      · split
        · exact of_decide_eq_true rfl
        · exact hlive
  · exact of_decide_eq_true rfl

theorem live_modifiedNode (fileInfo : FileInfo) (n : Node) :
    (modifiedNode fileInfo n).1.type ≠ FILE_DELETE := by
  unfold modifiedNode
  split
  · next htype =>
      rw [htype]
      decide
  · split
    · exact of_decide_eq_true rfl
    · exact of_decide_eq_true rfl

theorem live_notifyNode (h : event.kind ≠ EventKind.delete) (hn : Live n?) :
    Live (notifyNode myip now stat? event n?).1 := by
  unfold notifyNode
  split
  · split
    · exact live_some (live_addedNode _ _)
    · exact live_some (of_decide_eq_true rfl)
    · exact live_some (live_modifiedNode _ _)
    · next hkind => exact absurd hkind h
    · exact hn
  · exact hn

theorem live_compareEntry (h : seekNode.type ≠ FILE_DELETE) (hn : Live n?) :
    Live (compareEntry myip seekNode n?).1 ∧
      (compareEntry myip seekNode n?).2 ≠
        some (Effect.removeFile seekNode.name) := by
  have hcompared := compareEntry_compared myip seekNode n?
  generalize compareEntry myip seekNode n? = result at hcompared
  cases hcompared with
  | download htype _ _ =>
      constructor
      · apply live_some
        rw [htype]
        decide
      · intro heq
        cases heq
  | remove hdelete _ _ => exact absurd hdelete h
  | absent _ =>
      refine ⟨live_none, ?_⟩
      intro heq
      cases heq
  | keep _ =>
      refine ⟨hn, ?_⟩
      intro heq
      cases heq

theorem live_mergeReport (hn : Live n?) (ht : Live t?) :
    Live (mergeReport n? t?) := by
  cases n? with
  | none => exact ht
  | some p =>
      apply live_some
      rcases mergeEntry_cases p t? with ⟨_, htype, _⟩ | ⟨t, hsome, _, _, htype⟩
      · rw [htype]
        exact hn p rfl
      · rw [htype]
        exact ht t hsome

end Nodes

/-!
## The steps of a peer
-/

structure Preserves (f : FileName) (x x' : PeerState) : Prop where
  keeps : x'.Keeps f
  file : x.files f ≠ none -> x'.files f ≠ none

section Local

variable {myip : Ip} {x x' : PeerState} {f : FileName}

theorem PeerState.Keeps.same (h : x.Keeps f) (hfiles : x'.files = x.files)
    (hevents : x'.events = x.events) (htable : x'.table = x.table)
    (houtbox : x'.outbox = x.outbox) (hinbox : x'.inbox = x.inbox) :
    Preserves f x x' where
  keeps :=
    { events := by rw [hevents]; exact h.events
      table := by rw [htable]; exact h.table
      outbox := by rw [houtbox]; exact h.outbox
      inbox := by rw [hinbox]; exact h.inbox }
  file := by
    rw [hfiles]
    exact id

theorem PeerState.Keeps.touch (h : x.Keeps f) {kind : EventKind} {g : FileName}
    {stat? : Option FileStat}
    (hkept : g = f -> kind ≠ EventKind.delete ∧ stat? ≠ none) :
    Preserves f x (x.touch kind g stat?) where
  keeps :=
    { events := by
        intro e he hname
        cases List.mem_append.mp he with
        | inl hold => exact h.events e hold hname
        | inr hnew =>
            rw [List.mem_singleton.mp hnew] at hname ⊢
            exact (hkept hname).left
      table := h.table
      outbox := h.outbox
      inbox := h.inbox }
  file := by
    intro hfile
    unfold PeerState.touch
    dsimp only
    cases Classical.em (f = g) with
    | inl heq =>
        rw [heq, Function.update_self]
        exact (hkept heq.symm).right
    | inr hne =>
        rw [Function.update_of_ne hne]
        exact hfile

theorem PeerState.Keeps.write (h : x.Keeps f) {kind : EventKind}
    {g : FileName} {stat : FileStat} (hkind : kind ≠ EventKind.delete) :
    Preserves f x (x.touch kind g (some stat)) :=
  h.touch fun _ => ⟨hkind, Option.some_ne_none stat⟩

theorem Preserves.trans {x'' : PeerState} (h : Preserves f x x')
    (h' : Preserves f x' x'') : Preserves f x x'' where
  keeps := h'.keeps
  file := fun hfile => h'.file (h.file hfile)

theorem notify_preserves (h : x.Keeps f) (hstep : x.notify myip = some x') :
    Preserves f x x' := by
  unfold PeerState.notify at hstep
  cases hevents : x.events with
  | nil =>
      rw [hevents] at hstep
      cases hstep
  | cons event rest =>
      rw [hevents] at hstep
      rcases Option.ite_none_left_eq_some.mp hstep with ⟨_, hnotified⟩
      cases hnotified
      have hmem : forall e, e ∈ rest -> e ∈ x.events := by
        intro e he
        rw [hevents]
        exact List.mem_cons_of_mem event he
      have hlive : Live (lookup Node.name f (notifyEvent myip x.clock
          (x.files event.name) event x.table).1) := by
        cases Classical.em (event.name = f) with
        | inl hname =>
            have hkind : event.kind ≠ EventKind.delete := by
              apply h.events event _ hname
              rw [hevents]
              exact List.mem_cons_self
            rw [← hname, lookup_notifyEvent_self, hname]
            exact live_notifyNode hkind h.table
        | inr hname =>
            rw [notifyEvent_of_ne (Ne.symm hname)]
            exact h.table
      constructor
      · constructor
        · exact fun e he => h.events e (hmem e he)
        · exact hlive
        · intro b hb
          dsimp only at hb
          split at hb
          · cases List.mem_append.mp hb with
            | inl hold => exact h.outbox b hold
            | inr hnew =>
                rw [List.mem_singleton.mp hnew]
                exact hlive
          · exact h.outbox b hb
        · exact h.inbox
      · exact id

theorem compare_preserves (h : x.Keeps f) (hstep : x.compare myip = some x') :
    Preserves f x x' := by
  unfold PeerState.compare at hstep
  cases hinbox : x.inbox with
  | nil =>
      rw [hinbox] at hstep
      cases hstep
  | cons seekNode rest =>
      rw [hinbox] at hstep
      cases hstep
      have hseek : seekNode ∈ x.inbox := by
        rw [hinbox]
        exact List.mem_cons_self
      have hself := @compareNode_self myip seekNode x.table
      -- the node of the file, and what is done to the file
      have hlive : Live (lookup Node.name f
            (compareNode myip seekNode x.table).1) ∧
          (seekNode.name = f -> (compareNode myip seekNode x.table).2 ≠
            some (Effect.removeFile seekNode.name)) := by
        cases Classical.em (seekNode.name = f) with
        | inl hname =>
            have htype := h.inbox seekNode hseek hname
            have htable := h.table
            rw [← hname] at htable ⊢
            have hentry := @live_compareEntry _ myip seekNode htype htable
            rw [← hself] at hentry
            exact ⟨hentry.left, fun _ => hentry.right⟩
        | inr hname =>
            rw [compareNode_of_ne (Ne.symm hname)]
            exact ⟨h.table, fun heq => absurd heq hname⟩
      have hrest : Preserves f x { x with
          inbox := rest
          table := (compareNode myip seekNode x.table).1 } := by
        refine ⟨⟨h.events, hlive.left, h.outbox, ?_⟩, id⟩
        intro n hn
        apply h.inbox n
        rw [hinbox]
        exact List.mem_cons_of_mem seekNode hn
      generalize heffect : (compareNode myip seekNode x.table).2 = effect?
      rw [heffect] at hlive
      cases effect? with
      | none => exact hrest
      | some effect =>
          rcases compareNode_effect heffect with rfl | rfl
          · exact hrest.trans (hrest.keeps.same rfl rfl rfl rfl rfl)
          · have hne : seekNode.name ≠ f := fun hname =>
              hlive.right hname rfl
            unfold PeerState.perform PeerState.unlink
            dsimp only
            split
            · exact hrest
            · exact hrest.trans (hrest.keeps.touch fun heq => absurd heq hne)

theorem localStep_preserves {a : LocalAction} (h : x.Keeps f)
    (hstep : localStep myip x a = some x')
    (ha : a ≠ LocalAction.userDelete f) : Preserves f x x' := by
  cases a with
  | setClock now =>
      cases hstep
      exact h.same rfl rfl rfl rfl rfl
  | userCreate g size =>
      dsimp only [localStep] at hstep
      split at hstep
      · cases hstep
        apply h.write
        intro heq
        cases heq
      · cases hstep
  | userWrite g size =>
      dsimp only [localStep] at hstep
      split at hstep
      · cases hstep
      · cases hstep
        apply h.write
        intro heq
        cases heq
  | userDelete g =>
      dsimp only [localStep] at hstep
      split at hstep
      · cases hstep
      · cases hstep
        apply h.touch
        intro hname
        rw [hname] at ha
        exact absurd rfl ha
  | notify => exact notify_preserves h hstep
  | compare => exact compare_preserves h hstep
  | openFile index =>
      dsimp only [localStep, PeerState.openFile] at hstep
      split at hstep
      · next arg hdownload =>
          cases hstep
          have hset : Preserves f x { x with
              downloads := x.downloads.set index
                { arg := arg, stage := Stage.writing } } :=
            h.same rfl rfl rfl rfl rfl
          apply hset.trans
          apply hset.keeps.write
          split
          · intro heq
            cases heq
          · intro heq
            cases heq
      · cases hstep
  | writeFile index size =>
      dsimp only [localStep, PeerState.writeFile] at hstep
      split at hstep
      · split at hstep
        · cases hstep
          exact ⟨h, id⟩
        · cases hstep
          apply h.write
          intro heq
          cases heq
      · cases hstep
  | setNodeType index =>
      dsimp only [localStep, PeerState.finish] at hstep
      split at hstep
      · next arg hdownload =>
          cases hstep
          refine ⟨⟨h.events, ?_, h.outbox, h.inbox⟩, id⟩
          dsimp only
          cases Classical.em (f = arg.filename) with
          | inl hname =>
              rw [hname, lookup_setNodeType]
              intro n hn
              rcases Option.map_eq_some_iff.mp hn with ⟨m, _, rfl⟩
              exact of_decide_eq_true rfl
          | inr hname =>
              rw [lookup_setNodeType_of_ne hname]
              exact h.table
      · cases hstep
  | closeFile index flushed =>
      dsimp only [localStep, PeerState.closeFile] at hstep
      split at hstep
      · next arg hdownload =>
          have hclosed : Preserves f x { x with
              downloads := x.downloads.eraseIdx index } :=
            h.same rfl rfl rfl rfl rfl
          split at hstep
          · cases hstep
            apply hclosed.trans
            apply hclosed.keeps.write
            intro heq
            cases heq
          · cases hstep
            exact hclosed
      · cases hstep

end Local

/-!
## The steps of the system
-/

variable {ι : Type} [DecidableEq ι]

namespace Membership

structure Keeps (f : FileName) (m : Membership ι) : Prop where
  entry : Live (entry f m.system.ft)
  peers : forall p, (m.system.peers p).Keeps f

structure Has (f : FileName) (m : Membership ι) (p : ι) : Prop where
  begun : m.phase p ≠ Phase.away ∧ m.phase p ≠ Phase.accepted
  file : (m.system.peers p).files f ≠ none

end Membership

section Members

variable {ip : ι -> Ip} {m m' : Membership ι} {a : MemberAction ι}
  {f : FileName} {x : PeerState} {ft : FileTable} {p q : ι}

theorem keeps_receive (h : x.Keeps f) (hlive : Live (entry f ft))
    (hnames : (ft.nodes.map Node.name).Nodup) :
    (x.receive ft).Keeps f where
  events := h.events
  table := h.table
  outbox := h.outbox
  inbox := by
    intro n hn hname
    cases List.mem_append.mp hn with
    | inl hold => exact h.inbox n hold hname
    | inr hnew =>
        apply hlive n
        rw [← hname]
        exact lookup_of_mem hnames hnew

theorem keeps_setPeer (h : m.Keeps f) (hx : x.Keeps f) :
    (m.setPeer p x).Keeps f where
  entry := h.entry
  peers := by
    intro q
    cases setPeer_peers m p q x with
    | inl hself =>
        rw [hself.right]
        exact hx
    | inr hother =>
        rw [hother]
        exact h.peers q

theorem has_setPeer (h : m.Has f q)
    (hx : (m.system.peers p).files f ≠ none -> x.files f ≠ none) :
    (m.setPeer p x).Has f q where
  begun := h.begun
  file := by
    cases setPeer_peers m p q x with
    | inl hself =>
        rw [hself.right]
        apply hx
        rw [← hself.left]
        exact h.file
    | inr hother =>
        rw [hother]
        exact h.file

omit [DecidableEq ι] in
theorem has_setFirst (h : m.Has f q) : (m.setFirst p).Has f q :=
  ⟨h.begun, h.file⟩

theorem has_setPhase (h : m.Has f q) {phase : Phase}
    (hphase : q = p -> phase ≠ Phase.away ∧ phase ≠ Phase.accepted) :
    (m.setPhase p phase).Has f q where
  begun := by
    unfold Membership.setPhase
    dsimp only
    cases Classical.em (q = p) with
    | inl heq =>
        rw [heq, Function.update_self]
        exact hphase heq
    | inr hne =>
        rw [Function.update_of_ne hne]
        exact h.begun
  file := h.file

omit [DecidableEq ι] in
theorem has_setTable (h : m.Has f q) : (m.setTable ft).Has f q :=
  ⟨h.begun, h.file⟩

theorem live_deletePeer (h : Live (entry f ft)) (peerIp : Ip) :
    Live (entry f (deletePeer peerIp ft)) := by
  rw [entry_deletePeer]
  intro n hn
  rcases Option.map_eq_some_iff.mp hn with ⟨e, he, rfl⟩
  exact h e he

theorem deliver_files {s : State ι} {peerFt : List Node}
    {rest : List (List Node)} {reached : ι -> Bool}
    (houtbox : (s.peers p).outbox = peerFt :: rest) :
    ((s.deliver p rest ft reached).peers q).files = (s.peers q).files ∧
      ((s.deliver p rest ft reached).peers q).events = (s.peers q).events := by
  rcases @deliver_peers _ _ s p peerFt rest ft reached houtbox q with
    ⟨outbox, _, hpeer⟩
  rw [hpeer]
  split <;> exact ⟨rfl, rfl⟩

theorem keeps_deliver {s : State ι} {peerFt : List Node}
    {rest : List (List Node)} {reached : ι -> Bool}
    (houtbox : (s.peers p).outbox = peerFt :: rest)
    (h : (s.peers q).Keeps f) (hlive : Live (entry f ft))
    (hnames : (ft.nodes.map Node.name).Nodup) :
    ((s.deliver p rest ft reached).peers q).Keeps f := by
  rcases @deliver_peers _ _ s p peerFt rest ft reached houtbox q with
    ⟨outbox, hsub, hpeer⟩
  have hkeeps : PeerState.Keeps f { s.peers q with outbox := outbox } :=
    ⟨h.events, h.table, fun b hb => h.outbox b (hsub b hb), h.inbox⟩
  rw [hpeer]
  split
  · exact keeps_receive hkeeps hlive hnames
  · exact hkeeps

theorem keeps_memberChange (hs : Sane ip m.system)
    (h : MemberChange ip m a m')
    (ha : forall p, a ≠ MemberAction.act p (LocalAction.userDelete f))
    (hk : m.Keeps f) : m'.Keeps f := by
  have hnames := (sane_memberChange hs h).names
  cases h with
  | accepted _ => exact ⟨hk.entry, hk.peers⟩
  | @registered p clock files _ =>
      have hregistered : PeerState.Keeps f
          ((m.system.peers p).register m.system.ft clock files) := by
        have hreceived := keeps_receive (hk.peers p) hk.entry hs.names
        constructor
        · intro e he
          cases he
        · exact live_none
        · intro b hb
          cases hb
        · exact hreceived.inbox
      have hnext := @keeps_setPeer _ _ _ _ _ p hk hregistered
      exact ⟨hnext.entry, hnext.peers⟩
  | @acted p b x _ hlocal =>
      apply keeps_setPeer hk
      apply (localStep_preserves (hk.peers p) hlocal _).keeps
      intro heq
      rw [heq] at ha
      exact ha p rfl
  | @merged p reached peerFt rest ft houtbox hupdate =>
      have hbundle : peerFt ∈ (m.system.peers p).outbox := by
        rw [houtbox]
        exact List.mem_cons_self
      have hlive : Live (entry f ft) := by
        rw [← (updateFiletable_eq_some_iff.mp hupdate).left,
          entry_foldl_mergeNode (hs.bundles p peerFt hbundle).names]
        exact live_mergeReport ((hk.peers p).outbox peerFt hbundle) hk.entry
      exact ⟨hlive, fun q => keeps_deliver houtbox (hk.peers q) hlive hnames⟩
  | @stopped p sent _ =>
      have hstopped : PeerState.Keeps f { m.system.peers p with
          outbox := (m.system.peers p).outbox.take sent } :=
        ⟨(hk.peers p).events, (hk.peers p).table,
          fun b hb => (hk.peers p).outbox b (List.mem_of_mem_take hb),
          (hk.peers p).inbox⟩
      have hnext := @keeps_setPeer _ _ _ _ _ p hk hstopped
      exact ⟨hnext.entry, hnext.peers⟩
  | @left p _ _ =>
      refine ⟨?_, hk.peers⟩
      show Live (entry f (m.tableWithout p))
      unfold Membership.tableWithout
      split
      · exact hk.entry
      · exact live_deletePeer hk.entry _
  | forgotten p => exact ⟨live_deletePeer hk.entry (ip p), hk.peers⟩

theorem has_memberChange (h : MemberChange ip m a m')
    (ha : forall p, a ≠ MemberAction.act p (LocalAction.userDelete f))
    (hk : m.Keeps f) (hq : m.Has f q) : m'.Has f q := by
  cases h with
  | @accepted p hphase =>
      apply has_setFirst
      apply has_setPhase hq
      intro heq
      rw [heq] at hq
      exact absurd hphase hq.begun.left
  | @registered p clock files hphase =>
      have hne : q ≠ p := by
        intro heq
        rw [heq] at hq
        exact hq.begun.right hphase
      constructor
      · change Function.update m.phase p Phase.running q ≠ Phase.away ∧
          Function.update m.phase p Phase.running q ≠ Phase.accepted
        rw [Function.update_of_ne hne]
        exact hq.begun
      · change (Function.update m.system.peers p _ q).files f ≠ none
        rw [Function.update_of_ne hne]
        exact hq.file
  | @acted p b x _ hlocal =>
      apply has_setPeer hq
      apply (localStep_preserves (hk.peers p) hlocal _).file
      intro heq
      rw [heq] at ha
      exact ha p rfl
  | merged houtbox _ =>
      refine ⟨hq.begun, ?_⟩
      change ((m.system.deliver _ _ _ _).peers q).files f ≠ none
      rw [(deliver_files houtbox).left]
      exact hq.file
  | @stopped p sent _ =>
      apply has_setPhase
      · exact has_setPeer hq id
      · intro _
        exact ⟨by decide, by decide⟩
  | left _ _ =>
      apply has_setPhase (has_setTable hq)
      intro _
      exact ⟨by decide, by decide⟩
  | forgotten _ => exact has_setTable hq

theorem keeps_of_runFrom (hs : Sane ip m.system)
    {actions : List (MemberAction ι)}
    (hrun : runFrom (memberStep ip) m actions = some m')
    (hactions : forall p,
      MemberAction.act p (LocalAction.userDelete f) ∉ actions)
    (hk : m.Keeps f) :
    Sane ip m'.system ∧ m'.Keeps f ∧ forall q, m.Has f q -> m'.Has f q := by
  induction actions generalizing m with
  | nil =>
      cases hrun
      exact ⟨hs, hk, fun _ hq => hq⟩
  | cons a rest ih =>
      rcases runFrom_cons_eq_some_iff.mp hrun with ⟨t, ht, hrest⟩
      have hchange := memberStep_change ht
      have ha : forall p,
          a ≠ MemberAction.act p (LocalAction.userDelete f) := by
        intro p heq
        apply hactions p
        rw [heq]
        exact List.mem_cons_self
      rcases ih (sane_memberChange hs hchange) hrest
        (fun p hmem => hactions p (List.mem_cons_of_mem a hmem))
        (keeps_memberChange hs hchange ha hk) with ⟨hsane, hkeeps, hhas⟩
      exact ⟨hsane, hkeeps, fun q hq =>
        hhas q (has_memberChange hchange ha hk hq)⟩

omit [DecidableEq ι] in
theorem keeps_start : (Membership.start : Membership ι).Keeps f where
  entry := live_none
  peers := by
    intro p
    constructor
    · intro e he
      cases he
    · exact live_none
    · intro b hb
      cases hb
    · intro n hn
      cases hn

end Members

namespace Sample

def firstWrite : List (MemberAction Bool) :=
  visit ++ [MemberAction.act false (LocalAction.openFile 0)]

def removal : List (MemberAction Bool) :=
  [MemberAction.act false (LocalAction.setNodeType 0),
    MemberAction.act true (LocalAction.setClock 200),
    MemberAction.act true (LocalAction.userDelete DartSync.Sample.fileA),
    MemberAction.act true LocalAction.notify,
    MemberAction.merge true fun _ => true,
    MemberAction.act false LocalAction.compare]

def opened : Membership Bool :=
  (runFrom (memberStep ips) Membership.start firstWrite).getD
    Membership.start

end Sample

end System
end DartSync
