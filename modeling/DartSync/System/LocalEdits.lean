import DartSync.System.Change

/-!
# A peer's own edits

One peer and the tracker, with nobody else acting.  The history records what
the user's last operation on a file left and what `compareNode` did to that
file.  When everything has been handled, the tracker holds the user's last
edit, and `compareNode` has left the file alone: in the runs where each edit
that the monitor reports comes out newer than every copy still around.

The versions around the peer form a chain, ordered by timestamp, by size, and
live before deleted; the tracker's entry is its first element and each report
is appended to it.
-/

namespace DartSync
namespace System

open Foundation Peer Tracker

/-!
## The history of one file
-/

def savedBy (f : FileName) (x : PeerState) :
    LocalAction -> Option (Option FileStat)
  | LocalAction.userCreate g size =>
      if g = f then some (x.written size) else none
  | LocalAction.userWrite g size =>
      if g = f then some (x.written size) else none
  | LocalAction.userDelete g => if g = f then some none else none
  | _ => none

def effectOn (myip : Ip) (f : FileName) (x : PeerState) :
    LocalAction -> Option Effect
  | LocalAction.compare =>
      match x.inbox with
      | [] => none
      | seekNode :: _ =>
          if seekNode.name = f then (compareNode myip seekNode x.table).2
          else none
  | _ => none

structure History where
  sys : State Unit
  saved : Option FileStat
  effects : List Effect

def begun (s : State Unit) : History where
  sys := s
  saved := none
  effects := []

def historyStep (myip : Ip) (f : FileName) (h : History) (a : Action Unit) :
    Option History :=
  (step (fun _ => myip) h.sys a).map fun s =>
    match a with
    | Action.peer _ b =>
        { sys := s
          saved := (savedBy f (h.sys.peers ()) b).getD h.saved
          effects := h.effects ++
            (effectOn myip f (h.sys.peers ()) b).toList }
    | Action.merge _ => { h with sys := s }

/-- Every event has been read, every table merged, every entry compared. -/
def Settled (s : State Unit) : Prop :=
  (s.peers ()).events = [] ∧ (s.peers ()).outbox = [] ∧
    (s.peers ()).inbox = []

def EditKept (f : FileName) (h : History) : Prop :=
  forall stat, h.saved = some stat -> stat.size ≠ 0 ->
    (exists t, entry f h.sys.ft = some t ∧ t.type ≠ FILE_DELETE ∧
      t.timestamp = stat.mtime ∧ t.size = stat.size) ∧
    (h.sys.peers ()).files f = some stat ∧ h.effects = []

/-!
## The condition on the steps
-/

/-- The attributes are newer than every copy at the tracker or on its way
there, apart from live copies of just this version, and younger than every
deletion still to be merged or compared. -/
structure NewerThanCopies (v : View) (stat : FileStat) : Prop where
  copies : forall n, (v.entry = some n ∨ some n ∈ v.outbox) ->
    n.version < versionOf stat.mtime stat.size ∨
      (n.version = versionOf stat.mtime stat.size ∧ n.type ≠ FILE_DELETE)
  deletions : forall n, (some n ∈ v.outbox ∨ n ∈ v.inbox) ->
    n.type = FILE_DELETE -> n.timestamp < stat.mtime

def ReportsNewer (myip : Ip) (f : FileName) (s : State Unit) :
    Action Unit -> Prop
  | Action.peer p (LocalAction.setClock now) => (s.peers p).clock ≤ now
  | Action.peer p LocalAction.notify =>
      forall event later, (s.peers p).events = event :: later ->
        event.name = f ->
        passesFilter event = true ∧
          (event.kind ≠ EventKind.delete ->
            forall stat, (s.peers p).files f = some stat ->
            (notifyNode myip (s.peers p).clock (some stat) event
              (lookup Node.name f (s.peers p).table)).2 = true ->
            NewerThanCopies (view s p f) stat)
  | _ => True

/-!
## The order of versions, with deletions after live copies
-/

def stamp (n : Node) : Version ×ₗ Bool :=
  toLex (n.version, decide (n.type = FILE_DELETE))

theorem stamp_le_iff {a b : Node} :
    stamp a ≤ stamp b <-> a.version < b.version ∨
      (a.version = b.version ∧
        (b.type ≠ FILE_DELETE -> a.type ≠ FILE_DELETE)) := by
  unfold stamp
  rw [Prod.Lex.toLex_le_toLex]
  have hbool : decide (a.type = FILE_DELETE) ≤ decide (b.type = FILE_DELETE) <->
      (b.type ≠ FILE_DELETE -> a.type ≠ FILE_DELETE) := by
    cases Classical.em (a.type = FILE_DELETE) with
    | inl ha => cases Classical.em (b.type = FILE_DELETE) with
        | inl hb => simp [ha, hb]
        | inr hb => simp [ha, hb]
    | inr ha => simp [ha]
  rw [← hbool]

theorem version_le_of_stamp_le {a b : Node} (h : stamp a ≤ stamp b) :
    a.version ≤ b.version := by
  rcases stamp_le_iff.mp h with hlt | ⟨heq, _⟩
  · exact hlt.le
  · exact heq.le

theorem stamp_eq_of {a b : Node} (hversion : a.version = b.version)
    (htype : a.type = b.type) : stamp a = stamp b := by
  unfold stamp
  rw [hversion, htype]

theorem stamp_mergeEntry {r : Node} {t? : Option Node}
    (h : forall t, t? = some t -> stamp t ≤ stamp r) :
    (mergeEntry r t?).version = r.version ∧
      stamp (mergeEntry r t?) ≤ stamp r := by
  rcases mergeEntry_cases r t? with
    ⟨hversion, htype, _, _⟩ | ⟨t, ht, hle, hversion, htype⟩
  · exact ⟨hversion, (stamp_eq_of hversion htype).le⟩
  · have hstamp := h t ht
    rw [stamp_eq_of hversion htype]
    exact ⟨hversion.trans (le_antisymm (version_le_of_stamp_le hstamp) hle),
      hstamp⟩

/-!
## The events of a file
-/

/-- The file is gone: this is known, or the event that tells it is still to be
read. -/
def Gone (node? : Option Node) (events : List EventKind) : Prop :=
  match events.getLast? with
  | none => forall n, node? = some n -> n.type = FILE_DELETE
  | some kind => kind = EventKind.delete

/-- The unread events lead from what the node says to the file as it is. -/
inductive LeadsTo (node? : Option Node) :
    Option FileStat -> List EventKind -> Prop where
  | gone {events : List EventKind} : Gone node? events ->
      LeadsTo node? none events
  | created {stat : FileStat} {before : List EventKind} (k : Nat) :
      Gone node? before ->
      LeadsTo node? (some stat)
        (before ++ EventKind.create :: List.replicate k EventKind.modify)
  | modified {stat : FileStat} {n : Node} (k : Nat) : node? = some n ->
      n.type ≠ FILE_DELETE ->
      (k = 0 -> n.version = versionOf stat.mtime stat.size) ->
      LeadsTo node? (some stat) (List.replicate k EventKind.modify)

theorem LeadsTo.edit {v : View} {kind : EventKind} {stat? : Option FileStat}
    (h : LeadsTo v.node v.file v.events) (hedit : Edit v kind stat?) :
    LeadsTo v.node stat? (v.events ++ [kind]) := by
  generalize hfile : v.file = file? at h
  generalize hevents : v.events = events at h
  cases hedit with
  | create size hnone =>
      rw [hfile] at hnone
      subst hnone
      cases h with
      | gone hgone => exact LeadsTo.created 0 hgone
  | modify size hsome =>
      cases h with
      | gone hgone => exact absurd hfile hsome
      | created k hgone =>
          rw [List.append_assoc, List.cons_append, ← List.replicate_succ']
          exact LeadsTo.created (k + 1) hgone
      | modified k hnode hlive hversion =>
          rw [← List.replicate_succ']
          exact LeadsTo.modified (k + 1) hnode hlive
            (fun hk => absurd hk (Nat.succ_ne_zero k))
  | delete hsome =>
      apply LeadsTo.gone
      unfold Gone
      rw [List.getLast?_concat]

theorem Gone.handle {now : UInt64} {stat? : Option FileStat} {event : Event}
    {node? : Option Node} {rest : List EventKind} {result : Option Node × Bool}
    (h : Gone node? (event.kind :: rest)) (hpass : passesFilter event = true)
    (hhandled : Handled now stat? event node? result) :
    Gone result.1 rest := by
  unfold Gone at h ⊢
  cases rest with
  | cons next later =>
      rw [getLast?_of_ne_nil (List.cons_ne_nil _ _)] at h
      cases hlast : (next :: later).getLast? with
      | none =>
          exact absurd (List.getLast?_eq_none_iff.mp hlast)
            (List.cons_ne_nil _ _)
      | some kind =>
          rw [hlast] at h
          exact h
  | nil =>
      change event.kind = EventKind.delete at h
      intro n hn
      cases hhandled with
      | removed _ =>
          cases hn
          rfl
      | downloaded _ _ hkind => exact absurd h hkind
      | seen _ _ _ _ hkind => exact absurd h hkind
      | ignored hwhy =>
          rcases hwhy hpass with ⟨_, hkind⟩ | ⟨hnone, _⟩ | ⟨_, _, hkind, _⟩
          · exact absurd h hkind
          · change _ = some n at hn
            rw [hnone] at hn
            cases hn
          · exact absurd h hkind

/-- The types that a node has when nothing of its file was downloaded. -/
def SetLocally (n : Node) : Prop :=
  n.type = FILE_CREATE ∨ n.type = FILE_MODIFY ∨ n.type = FILE_DELETE

theorem SetLocally.ne_download {n : Node} (h : SetLocally n) :
    n.type ≠ FILE_DOWNLOAD ∧ n.type ≠ FILE_DOWNLOADING := by
  rcases h with h | h | h
  · rw [h]
    decide
  · rw [h]
    decide
  · rw [h]
    decide

theorem live_of_seen {n : Node}
    (h : n.type = FILE_CREATE ∨ n.type = FILE_MODIFY) :
    n.type ≠ FILE_DELETE := by
  rcases h with h | h
  · rw [h]
    decide
  · rw [h]
    decide

theorem LeadsTo.handle {now : UInt64} {stat? : Option FileStat}
    {event : Event} {node? : Option Node} {rest : List EventKind}
    {result : Option Node × Bool}
    (h : LeadsTo node? stat? (event.kind :: rest))
    (hpass : passesFilter event = true)
    (hlocal : forall n, node? = some n -> SetLocally n)
    (hhandled : Handled now stat? event node? result) :
    LeadsTo result.1 stat? rest := by
  generalize hevents : event.kind :: rest = events at h
  cases h with
  | gone hgone =>
      rw [← hevents] at hgone
      exact LeadsTo.gone (hgone.handle hpass hhandled)
  | created k hgone =>
      rename_i stat before
      cases before with
      | cons kind before =>
          rw [List.cons_append, List.cons.injEq] at hevents
          rw [← hevents.left] at hgone
          rw [hevents.right]
          exact LeadsTo.created k (hgone.handle hpass hhandled)
      | nil =>
          rw [List.nil_append, List.cons.injEq] at hevents
          rw [hevents.right]
          change forall n, node? = some n -> n.type = FILE_DELETE at hgone
          cases hhandled with
          | removed hkind =>
              rw [hevents.left] at hkind
              cases hkind
          | downloaded _ htype _ =>
              exact absurd htype (hlocal _ rfl).ne_download.left
          | seen hstat hversion htype _ _ =>
              cases hstat
              exact LeadsTo.modified k rfl (live_of_seen htype)
                (fun _ => hversion)
          | ignored hwhy =>
              rcases hwhy hpass with ⟨hnone, _⟩ | ⟨_, hkind⟩ |
                ⟨n, hn, _, htype⟩
              · cases hnone
              · exact absurd hevents.left hkind
              · rcases htype with htype | ⟨_, htype, _⟩
                · exact absurd htype (hlocal n hn).ne_download.right
                · exact absurd (hgone n hn) htype
  | modified k hnode hlive hversion =>
      rename_i stat n
      cases k with
      | zero => cases hevents
      | succ k =>
          rw [List.replicate_succ, List.cons.injEq] at hevents
          rw [hevents.right]
          cases hhandled with
          | removed hkind =>
              rw [hevents.left] at hkind
              cases hkind
          | downloaded _ htype _ =>
              exact absurd htype (hlocal _ rfl).ne_download.left
          | seen hstat hversion htype _ _ =>
              cases hstat
              exact LeadsTo.modified k rfl (live_of_seen htype)
                (fun _ => hversion)
          | ignored hwhy =>
              rcases hwhy hpass with ⟨hnone, _⟩ | ⟨hnone, _⟩ |
                ⟨m, hm, _, htype⟩
              · cases hnone
              · rw [hnode] at hnone
                cases hnone
              · rcases htype with htype | ⟨hkind, _, _⟩
                · exact absurd htype (hlocal m hm).ne_download.right
                · rw [hevents.left] at hkind
                  cases hkind

/-!
## The invariant

The first `k` tables on their way were sent before the peer knew the file; the
others report `reports`.
-/

def copies (v : View) (reports : List Node) : List Node :=
  v.entry.toList ++ reports

structure Tracked (k : Nat) (reports : List Node) (v : View) : Prop where
  idle : v.active = false
  setLocally : forall n, v.node = some n -> SetLocally n
  outbox : v.outbox = List.replicate k none ++ reports.map some
  unsent : k ≠ 0 -> v.entry = none
  chain : (copies v reports).Pairwise (fun a b => stamp a ≤ stamp b)
  latest : forall n, v.node = some n ->
    exists m, (copies v reports).getLast? = some m ∧
      m.version = n.version ∧ stamp m ≤ stamp n
  unknown : v.node = none -> v.entry = none ∧ reports = [] ∧ v.inbox = []
  heard : forall m, m ∈ v.inbox ->
    exists t, v.entry = some t ∧ m.version ≤ t.version
  deletions : forall n, v.node = some n -> n.type ≠ FILE_DELETE ->
    forall m, (m ∈ reports ∨ m ∈ v.inbox) -> m.type = FILE_DELETE ->
      m.timestamp < n.timestamp
  clockNode : forall n, v.node = some n -> n.timestamp ≤ v.clock
  clockFile : forall stat, v.file = some stat -> stat.mtime ≤ v.clock
  leadsTo : LeadsTo v.node v.file v.events

theorem stamp_le_getLast {l : List Node} {a m : Node}
    (hchain : l.Pairwise (fun a b => stamp a ≤ stamp b))
    (hlast : l.getLast? = some m) (ha : a ∈ l) : stamp a ≤ stamp m := by
  rcases List.getLast?_eq_some_iff.mp hlast with ⟨before, hbefore⟩
  rw [hbefore] at hchain ha
  rcases List.mem_append.mp ha with ha | ha
  · exact (List.pairwise_append.mp hchain).right.right a ha m
      (List.mem_singleton_self m)
  · rw [List.mem_singleton.mp ha]

theorem chain_concat {l : List Node} {n : Node}
    (hchain : l.Pairwise (fun a b => stamp a ≤ stamp b))
    (h : forall a, a ∈ l -> stamp a ≤ stamp n) :
    (l ++ [n]).Pairwise (fun a b => stamp a ≤ stamp b) := by
  apply List.pairwise_append.mpr
  refine ⟨hchain, List.pairwise_singleton _ _, ?_⟩
  intro a ha b hb
  rw [List.mem_singleton.mp hb]
  exact h a ha

section Tracked

variable {k : Nat} {reports : List Node} {v : View}

theorem Tracked.copies_le (h : Tracked k reports v) {n : Node}
    (hn : v.node = some n) {a : Node} (ha : a ∈ copies v reports) :
    stamp a ≤ stamp n := by
  rcases h.latest n hn with ⟨m, hlast, _, hm⟩
  exact (stamp_le_getLast h.chain hlast ha).trans hm

theorem Tracked.entry_le (h : Tracked k reports v) {n t : Node}
    (hn : v.node = some n) (ht : v.entry = some t) :
    stamp t ≤ stamp n := by
  apply h.copies_le hn
  unfold copies
  rw [ht]
  exact List.mem_cons_self

theorem Tracked.send (h : Tracked k reports v) {n' : Node}
    {events : List EventKind} {v' : View}
    (hnode : v'.node = some n') (houtbox : v'.outbox = v.outbox ++ [some n'])
    (hevents : v'.events = events) (hactive : v'.active = v.active)
    (hentry : v'.entry = v.entry) (hinbox : v'.inbox = v.inbox)
    (hclock : v'.clock = v.clock) (hfile : v'.file = v.file)
    (hle : forall a, a ∈ copies v reports -> stamp a ≤ stamp n')
    (hlocal : SetLocally n')
    (hdeletions : n'.type ≠ FILE_DELETE ->
      forall m, (m ∈ reports ∨ m ∈ v.inbox) -> m.type = FILE_DELETE ->
        m.timestamp < n'.timestamp)
    (hnow : n'.timestamp ≤ v.clock)
    (hleads : LeadsTo (some n') v.file events) :
    Tracked k (reports ++ [n']) v' := by
  have honly : forall n, v'.node = some n -> n = n' := by
    intro n hn
    rw [hnode] at hn
    exact (Option.some.inj hn).symm
  have hcopies : copies v' (reports ++ [n']) = copies v reports ++ [n'] := by
    unfold copies
    rw [hentry, List.append_assoc]
  constructor
  · rw [hactive]
    exact h.idle
  · intro n hn
    rw [honly n hn]
    exact hlocal
  · rw [houtbox, h.outbox, List.map_append, List.append_assoc]
    rfl
  · rw [hentry]
    exact h.unsent
  · rw [hcopies]
    exact chain_concat h.chain hle
  · intro n hn
    rw [honly n hn, hcopies]
    exact ⟨n', List.getLast?_concat, rfl, le_refl _⟩
  · intro hnone
    rw [hnode] at hnone
    cases hnone
  · rw [hinbox, hentry]
    exact h.heard
  · intro n hn hlive m hm hdelete
    rw [honly n hn] at hlive ⊢
    rw [hinbox] at hm
    rcases hm with hm | hm
    · rcases List.mem_append.mp hm with hm | hm
      · exact hdeletions hlive m (Or.inl hm) hdelete
      · rw [List.mem_singleton.mp hm] at hdelete
        exact absurd hdelete hlive
    · exact hdeletions hlive m (Or.inr hm) hdelete
  · intro n hn
    rw [honly n hn, hclock]
    exact hnow
  · rw [hfile, hclock]
    exact h.clockFile
  · rw [hnode, hfile, hevents]
    exact hleads

theorem Tracked.ignore (h : Tracked k reports v) {events : List EventKind}
    (hleads : LeadsTo v.node v.file events) :
    Tracked k reports { v with events := events } :=
  ⟨h.idle, h.setLocally, h.outbox, h.unsent, h.chain, h.latest, h.unknown,
    h.heard, h.deletions, h.clockNode, h.clockFile, hleads⟩

theorem deletedNode_stamp {n : Node} {now : UInt64} (h : n.timestamp ≤ now) :
    stamp n ≤ stamp (deletedNode now n).1 := by
  apply stamp_le_iff.mpr
  have hle : n.version ≤ (deletedNode now n).1.version :=
    versionOf_le_of_timestamp_le h
  rcases hle.lt_or_eq with hlt | heq
  · exact Or.inl hlt
  · exact Or.inr ⟨heq, fun hlive => absurd rfl hlive⟩

theorem Tracked.handle (h : Tracked k reports v) {event : Event}
    {rest : List EventKind} {result : Option Node × Bool}
    (hevents : v.events = event.kind :: rest)
    (hpass : passesFilter event = true)
    (hhandled : Handled v.clock v.file event v.node result)
    (hnewer : event.kind ≠ EventKind.delete -> forall stat,
      v.file = some stat -> result.2 = true -> NewerThanCopies v stat) :
    exists reports', Tracked k reports' (v.handle result rest) := by
  have hleads : LeadsTo result.1 v.file rest := by
    have hbefore := h.leadsTo
    rw [hevents] at hbefore
    exact hbefore.handle hpass h.setLocally hhandled
  generalize hnode? : v.node = node? at hhandled
  generalize hfile? : v.file = file? at hhandled
  cases hhandled with
  | ignored _ =>
      rw [← hnode?] at hleads ⊢
      exact ⟨reports, h.ignore hleads⟩
  | removed hkind =>
      rename_i n
      have hnow := h.clockNode n hnode?
      refine ⟨_, h.send rfl rfl rfl rfl rfl rfl rfl rfl ?_ ?_ ?_ ?_ hleads⟩
      · intro a ha
        exact (h.copies_le hnode? ha).trans (deletedNode_stamp hnow)
      · exact Or.inr (Or.inr rfl)
      · intro hlive
        exact absurd rfl hlive
      · exact UInt64.le_refl v.clock
  | downloaded _ htype _ =>
      exact absurd htype (h.setLocally _ hnode?).ne_download.left
  | seen hstat hversion htype hidle hkind =>
      rename_i n' stat
      have hfile : v.file = some stat := hfile?.trans hstat
      have hcopies := hnewer hkind stat hfile rfl
      have htime : n'.timestamp = stat.mtime :=
        (versionOf_eq_iff.mp hversion).left
      refine ⟨_, h.send rfl rfl rfl rfl rfl rfl rfl rfl ?_ ?_ ?_ ?_ hleads⟩
      · intro a ha
        have haround : v.entry = some a ∨ some a ∈ v.outbox := by
          rcases List.mem_append.mp ha with ha | ha
          · exact Or.inl (Option.mem_toList.mp ha)
          · rw [h.outbox]
            exact Or.inr (List.mem_append_right _ (List.mem_map_of_mem ha))
        apply stamp_le_iff.mpr
        rw [hversion]
        rcases hcopies.copies a haround with hlt | ⟨heq, hlive⟩
        · exact Or.inl hlt
        · exact Or.inr ⟨heq, fun _ => hlive⟩
      · exact htype.imp id Or.inl
      · intro _ m hm hdelete
        rw [htime]
        apply hcopies.deletions m _ hdelete
        rcases hm with hm | hm
        · rw [h.outbox]
          exact Or.inl (List.mem_append_right _ (List.mem_map_of_mem hm))
        · exact Or.inr hm
      · rw [htime]
        exact h.clockFile stat hfile

theorem Tracked.resend (h : Tracked k reports v) :
    exists k' reports', Tracked k' reports' v.resend := by
  rcases Option.eq_none_or_eq_some v.node with hnone | ⟨n, hn⟩
  · rcases h.unknown hnone with ⟨hentry, hreports, _⟩
    refine ⟨k + 1, reports, ⟨h.idle, h.setLocally, ?_, fun _ => hentry, h.chain,
      h.latest, h.unknown, h.heard, h.deletions, h.clockNode, h.clockFile,
      h.leadsTo⟩⟩
    show v.outbox ++ [v.node] = _
    rw [h.outbox, hnone, hreports, List.map_nil, List.append_nil,
      List.append_nil, List.replicate_succ']
  · refine ⟨k, _, h.send hn ?_ rfl rfl rfl rfl rfl rfl ?_ ?_ ?_ ?_ ?_⟩
    · show v.outbox ++ [v.node] = _
      rw [hn]
    · intro a ha
      exact h.copies_le hn ha
    · exact h.setLocally n hn
    · exact h.deletions n hn
    · exact h.clockNode n hn
    · rw [← hn]
      exact h.leadsTo

theorem Tracked.compare (h : Tracked k reports v) {seekNode : Node}
    {rest : List Node} {result : Option Node × Option Effect}
    (hinbox : v.inbox = seekNode :: rest)
    (hcompared : Compared seekNode v.node result) :
    result = (v.node, none) := by
  have hmem : seekNode ∈ v.inbox := by
    rw [hinbox]
    exact List.mem_cons_self
  have hknown : v.node ≠ none := by
    intro hnone
    rw [(h.unknown hnone).right.right] at hmem
    cases hmem
  generalize hnode? : v.node = node? at hcompared hknown
  cases hcompared with
  | download _ _ holder =>
      rcases Option.ne_none_iff_exists'.mp hknown with ⟨n, hn⟩
      rcases h.heard seekNode hmem with ⟨t, ht, hle⟩
      have htn := version_le_of_stamp_le (h.entry_le (hnode?.trans hn) ht)
      exact absurd (hle.trans htn) (not_le_of_gt (holder n hn))
  | remove htype hlive hle =>
      have hlt := h.deletions _ hnode? hlive seekNode (Or.inr hmem) htype
      exact absurd hle (UInt64.not_le.mpr hlt)
  | absent _ => exact absurd rfl hknown
  | keep _ => rfl

theorem Tracked.compared (h : Tracked k reports v) {seekNode : Node}
    {rest : List Node} (hinbox : v.inbox = seekNode :: rest) :
    Tracked k reports { v with inbox := rest } := by
  have hsub : forall m, m ∈ rest -> m ∈ v.inbox := by
    intro m hm
    rw [hinbox]
    exact List.mem_cons_of_mem _ hm
  refine ⟨h.idle, h.setLocally, h.outbox, h.unsent, h.chain, h.latest, ?_, ?_,
    ?_, h.clockNode, h.clockFile, h.leadsTo⟩
  · intro hnone
    rcases h.unknown hnone with ⟨_, _, hempty⟩
    rw [hinbox] at hempty
    cases hempty
  · exact fun m hm => h.heard m (hsub m hm)
  · intro n hn hlive m hm
    exact h.deletions n hn hlive m (hm.imp id (hsub m))

theorem Tracked.merge (h : Tracked 0 reports v) {r : Node}
    {later : List Node} (hreports : reports = r :: later) :
    Tracked 0 later
      ({ v with outbox := later.map some }.broadcast (some r)) := by
  subst hreports
  have hcopies : copies v (r :: later) = v.entry.toList ++ r :: later := rfl
  have hbehind : forall t, v.entry = some t -> stamp t ≤ stamp r := by
    intro t ht
    have hchain := h.chain
    rw [hcopies, ht] at hchain
    exact (List.pairwise_cons.mp hchain).left r List.mem_cons_self
  have hafter : (r :: later).Pairwise (fun a b => stamp a ≤ stamp b) :=
    (List.pairwise_append.mp h.chain).right.left
  rcases stamp_mergeEntry hbehind with ⟨hversion, hstamp⟩
  have hdead : (mergeEntry r v.entry).type = FILE_DELETE ->
      r.type = FILE_DELETE := by
    intro hdelete
    by_contra hlive
    rcases stamp_le_iff.mp hstamp with hlt | ⟨_, himp⟩
    · exact absurd hversion hlt.ne
    · exact himp hlive hdelete
  constructor
  · exact h.idle
  · exact h.setLocally
  · rfl
  · exact fun hk => absurd rfl hk
  · show (mergeEntry r v.entry :: later).Pairwise _
    apply List.pairwise_cons.mpr
    refine ⟨?_, (List.pairwise_cons.mp hafter).right⟩
    intro a ha
    exact hstamp.trans ((List.pairwise_cons.mp hafter).left a ha)
  · intro n hn
    rcases h.latest n hn with ⟨m, hlast, hm, hle⟩
    rw [hcopies, List.getLast?_append_of_ne_nil _ (List.cons_ne_nil _ _)]
      at hlast
    show exists m, (mergeEntry r v.entry :: later).getLast? = some m ∧ _
    cases later with
    | nil =>
        cases hlast
        exact ⟨_, rfl, hversion.trans hm, hstamp.trans hle⟩
    | cons next later =>
        rw [getLast?_of_ne_nil (List.cons_ne_nil _ _)] at hlast ⊢
        exact ⟨m, hlast, hm, hle⟩
  · intro hnone
    cases (h.unknown hnone).right.left
  · intro m hm
    refine ⟨_, rfl, ?_⟩
    rcases List.mem_append.mp hm with hm | hm
    · rcases h.heard m hm with ⟨t, ht, hle⟩
      rw [hversion]
      exact hle.trans (version_le_of_stamp_le (hbehind t ht))
    · rw [Option.mem_toList.mp hm |> Option.some.inj]
  · intro n hn hlive m hm hdelete
    rcases hm with hm | hm
    · exact h.deletions n hn hlive m (Or.inl (List.mem_cons_of_mem _ hm))
        hdelete
    · rcases List.mem_append.mp hm with hm | hm
      · exact h.deletions n hn hlive m (Or.inr hm) hdelete
      · have heq : mergeEntry r v.entry = m :=
          Option.some.inj (Option.mem_toList.mp hm)
        rw [← heq] at hdelete ⊢
        rw [(Node.version_eq_iff.mp hversion).left]
        exact h.deletions n hn hlive r (Or.inl List.mem_cons_self)
          (hdead hdelete)
  · exact h.clockNode
  · exact h.clockFile
  · exact h.leadsTo

theorem Tracked.merged (h : Tracked k reports v) {report? : Option Node}
    {rest : List (Option Node)} (houtbox : v.outbox = report? :: rest) :
    exists k' reports',
      Tracked k' reports' ({ v with outbox := rest }.broadcast report?) := by
  have hsplit := h.outbox
  rw [houtbox] at hsplit
  cases k with
  | zero =>
      cases reports with
      | nil => cases hsplit
      | cons r later =>
          cases hsplit
          exact ⟨0, later, h.merge rfl⟩
  | succ k =>
      rw [List.replicate_succ, List.cons_append, List.cons.injEq] at hsplit
      rcases hsplit with ⟨hreport, hrest⟩
      have hentry := h.unsent (Nat.succ_ne_zero k)
      subst hreport
      have hview : { v with outbox := rest }.broadcast none =
          { v with outbox := rest } := by
        simp [View.broadcast, mergeReport, hentry]
      rw [hview]
      exact ⟨k, reports, h.idle, h.setLocally, hrest, fun _ => hentry, h.chain,
        h.latest, h.unknown, h.heard, h.deletions, h.clockNode, h.clockFile,
        h.leadsTo⟩

end Tracked

/-!
## Runs
-/

section Run

variable {myip : Ip} {f : FileName}

theorem tracked_step {s : State Unit} {k : Nat} {reports : List Node}
    (h : Tracked k reports (view s () f)) {a : Action Unit}
    (hguard : ReportsNewer myip f s a) {v : View}
    (hchange : Change (fun _ => myip) s () f a v) :
    exists k' reports', Tracked k' reports' v := by
  have hquiet : (view s () f).fetches = [] := by
    cases Classical.em ((view s () f).fetches = []) with
    | inl hnil => exact hnil
    | inr hne =>
        have hactive := active_of_fetches hne
        rw [h.idle] at hactive
        cases hactive
  cases hchange with
  | elsewhere a => exact ⟨k, reports, h⟩
  | clock now =>
      refine ⟨k, reports, h.idle, h.setLocally, h.outbox, h.unsent, h.chain,
        h.latest, h.unknown, h.heard, h.deletions, ?_, ?_, h.leadsTo⟩
      · intro n hn
        exact UInt64.le_trans (h.clockNode n hn) hguard
      · intro stat hstat
        exact UInt64.le_trans (h.clockFile stat hstat) hguard
  | edited hedit =>
      refine ⟨k, reports, h.idle, h.setLocally, h.outbox, h.unsent, h.chain,
        h.latest, h.unknown, h.heard, h.deletions, h.clockNode, ?_,
        h.leadsTo.edit hedit⟩
      intro stat hstat
      cases hedit with
      | create size _ =>
          cases hstat
          exact UInt64.le_refl _
      | modify size _ =>
          cases hstat
          exact UInt64.le_refl _
      | delete _ => cases hstat
  | opened _ hfetching =>
      rw [hquiet] at hfetching
      cases hfetching
  | wrote hfetching => exact absurd hquiet hfetching
  | handled hevents hname hview =>
      rename_i event later rest
      rcases hguard event later hevents hname with ⟨hpass, hnewer⟩
      refine ⟨k, h.handle hview hpass (notifyNode_handled _) ?_⟩
      intro hkind stat hstat hsent
      apply hnewer hkind stat hstat
      rw [hstat] at hsent
      exact hsent
  | resent _ _ _ => exact h.resend
  | compared hinbox hname hview =>
      have hnothing := h.compare hview (compareEntry_compared myip _ _)
      rw [hnothing]
      exact ⟨k, reports, h.compared hview⟩
  | finished _ _ hwriting =>
      rw [hquiet] at hwriting
      cases hwriting
  | closed hdownload hname _ =>
      have hactive : (view s () f).active = true :=
        any_of_getElem? hdownload (by simp [Download.concerns, hname])
      rw [h.idle] at hactive
      cases hactive
  | flushed hactive =>
      rw [h.idle] at hactive
      cases hactive
  | merged houtbox => exact h.merged houtbox
  | mergedOther hne _ => exact absurd rfl hne

theorem files_touch (x : PeerState) (kind : EventKind) (g : FileName)
    (stat? : Option FileStat) :
    (x.touch kind g stat?).files f = if g = f then stat? else x.files f := by
  simp only [PeerState.touch, Function.update_apply, eq_comm]

theorem files_compare {x x' : PeerState}
    (h : x.compare myip = some x')
    (heffect : effectOn myip f x LocalAction.compare = none) :
    x'.files f = x.files f := by
  unfold PeerState.compare at h
  split at h
  · cases h
  · next seekNode later hinbox =>
      cases h
      unfold effectOn at heffect
      rw [hinbox] at heffect
      dsimp only at heffect
      cases hresult : (compareNode myip seekNode x.table).2 with
      | none => rfl
      | some e =>
          rw [hresult, ite_eq_right_iff] at heffect
          have hne : seekNode.name ≠ f := by
            intro hname
            cases heffect hname
          rcases compareNode_effect hresult with he | he
          · rw [he]
            rfl
          · rw [he]
            show (PeerState.unlink _ _).files f = _
            unfold PeerState.unlink
            split
            · rfl
            · rw [files_touch, if_neg hne]

theorem files_localStep {x x' : PeerState} {a : LocalAction}
    (h : localStep myip x a = some x')
    (hidle : x.downloads.any (Download.concerns f) = false)
    (heffect : effectOn myip f x a = none) :
    x'.files f = (savedBy f x a).getD (x.files f) := by
  have hother : forall (index : Nat) (arg : DownloadArg) (stage : Stage),
      x.downloads[index]? = some { arg := arg, stage := stage } ->
        f ≠ arg.filename := by
    intro index arg stage hdownload hname
    have hactive : x.downloads.any (Download.concerns f) = true :=
      any_of_getElem? hdownload (by simp [Download.concerns, hname])
    rw [hidle] at hactive
    cases hactive
  cases a with
  | setClock now =>
      cases h
      rfl
  | userCreate g size =>
      simp only [localStep] at h
      split at h <;> cases h
      rw [files_touch]
      cases Classical.em (g = f) with
      | inl hname => simp [savedBy, hname]
      | inr hname => simp [savedBy, hname]
  | userWrite g size =>
      simp only [localStep] at h
      split at h <;> cases h
      rw [files_touch]
      cases Classical.em (g = f) with
      | inl hname => simp [savedBy, hname]
      | inr hname => simp [savedBy, hname]
  | userDelete g =>
      simp only [localStep] at h
      split at h <;> cases h
      rw [files_touch]
      cases Classical.em (g = f) with
      | inl hname => simp [savedBy, hname]
      | inr hname => simp [savedBy, hname]
  | notify =>
      simp only [localStep, PeerState.notify] at h
      split at h
      · cases h
      · rcases Option.ite_none_left_eq_some.mp h with ⟨_, hnotified⟩
        cases hnotified
        rfl
  | compare => exact files_compare h heffect
  | openFile index =>
      simp only [localStep, PeerState.openFile] at h
      split at h
      · next arg hdownload =>
          cases h
          rw [files_touch, if_neg (Ne.symm (hother _ _ _ hdownload))]
          rfl
      · cases h
  | writeFile index size =>
      simp only [localStep, PeerState.writeFile] at h
      split at h
      · next arg hdownload =>
          split at h <;> cases h
          · rfl
          · rw [files_touch, if_neg (Ne.symm (hother _ _ _ hdownload))]
            rfl
      · cases h
  | setNodeType index =>
      simp only [localStep, PeerState.finish] at h
      split at h <;> cases h
      rfl
  | closeFile index flushed =>
      simp only [localStep, PeerState.closeFile] at h
      split at h
      · next arg hdownload =>
          split at h <;> cases h
          · rw [files_touch, if_neg (Ne.symm (hother _ _ _ hdownload))]
            rfl
          · rfl
      · cases h

theorem effectOn_of_tracked {s : State Unit} {k : Nat} {reports : List Node}
    (h : Tracked k reports (view s () f)) (a : LocalAction) :
    effectOn myip f (s.peers ()) a = none := by
  cases a with
  | compare =>
      unfold effectOn
      dsimp only
      cases hinbox : (s.peers ()).inbox with
      | nil => rfl
      | cons seekNode later =>
          dsimp only
          cases Classical.em (seekNode.name = f) with
          | inr hname => rw [if_neg hname]
          | inl hname =>
              subst hname
              rw [if_pos rfl]
              have hview : (view s () seekNode.name).inbox =
                  seekNode :: inboxOf seekNode.name later := by
                change inboxOf seekNode.name (s.peers ()).inbox = _
                rw [hinbox, inboxOf_cons_self rfl]
              have hself :=
                @compareNode_self myip seekNode (s.peers ()).table
              have hnothing := h.compare hview
                (compareEntry_compared myip seekNode _)
              exact congrArg Prod.snd (hself.trans hnothing)
  | _ => rfl

theorem files_mergeStep {s s' : State Unit} {q : Unit}
    (h : mergeStep s q = some s') :
    (s'.peers ()).files = (s.peers ()).files := by
  unfold mergeStep at h
  split at h
  · cases h
  · split at h <;> cases h
    rfl

structure Faithful (myip : Ip) (f : FileName) (h : History) : Prop where
  sane : Sane (fun _ => myip) h.sys
  tracked : exists k reports, Tracked k reports (view h.sys () f)
  saved : h.saved = (h.sys.peers ()).files f
  untouched : h.effects = []

theorem faithful_step {h h' : History} (hinv : Faithful myip f h)
    {a : Action Unit} (hguard : ReportsNewer myip f h.sys a)
    (hstep : historyStep myip f h a = some h') : Faithful myip f h' := by
  unfold historyStep at hstep
  rcases Option.map_eq_some_iff.mp hstep with ⟨s, hs, heq⟩
  rcases hinv.tracked with ⟨k, reports, htracked⟩
  have hsane := sane_step hinv.sane hs
  have hafter := tracked_step htracked hguard (step_change hinv.sane hs () f)
  cases a with
  | merge q =>
      rw [← heq]
      refine ⟨hsane, hafter, ?_, hinv.untouched⟩
      show h.saved = (s.peers ()).files f
      rw [hinv.saved, files_mergeStep hs]
  | peer p b =>
      have heffect : effectOn myip f (h.sys.peers ()) b = none :=
        effectOn_of_tracked htracked b
      rw [← heq]
      refine ⟨hsane, hafter, ?_, ?_⟩
      · simp only [step, Option.map_eq_some_iff] at hs
        rcases hs with ⟨x, hx, hs⟩
        show (savedBy f (h.sys.peers ()) b).getD h.saved = (s.peers ()).files f
        rw [hinv.saved, ← hs, ← files_localStep hx htracked.idle heffect]
        rfl
      · show h.effects ++ _ = []
        rw [hinv.untouched, heffect]
        rfl

theorem tracked_of_started {s : State Unit} (h : Started s)
    (hentry : entry f s.ft = none) (hfile : (s.peers ()).files f = none) :
    Tracked 0 [] (view s () f) := by
  rcases h.peers () with ⟨clock, files, hp⟩
  have hnode : (view s () f).node = none := by
    change lookup Node.name f (s.peers ()).table = none
    rw [hp]
    rfl
  have hinbox : (view s () f).inbox = [] := by
    change inboxOf f (s.peers ()).inbox = []
    rw [hp]
    show inboxOf f s.ft.nodes = []
    unfold inboxOf
    rw [filter_key_eq_lookup h.names]
    exact Option.toList_eq_nil_iff.mpr hentry
  have hknown : forall n, (view s () f).node ≠ some n := by
    intro n hn
    rw [hnode] at hn
    cases hn
  constructor
  · change (s.peers ()).downloads.any (Download.concerns f) = false
    rw [hp]
    rfl
  · exact fun n hn => absurd hn (hknown n)
  · change (s.peers ()).outbox.map (lookup Node.name f) = []
    rw [hp]
    rfl
  · exact fun hk => absurd rfl hk
  · show ((entry f s.ft).toList ++ []).Pairwise _
    rw [hentry]
    exact List.Pairwise.nil
  · exact fun n hn => absurd hn (hknown n)
  · exact fun _ => ⟨hentry, rfl, hinbox⟩
  · intro m hm
    rw [hinbox] at hm
    cases hm
  · exact fun n hn => absurd hn (hknown n)
  · exact fun n hn => absurd hn (hknown n)
  · intro stat hstat
    change (s.peers ()).files f = some stat at hstat
    rw [hfile] at hstat
    cases hstat
  · show LeadsTo _ ((s.peers ()).files f) (eventsOf f (s.peers ()).events)
    rw [hfile]
    apply LeadsTo.gone
    rw [hp]
    intro n hn
    exact absurd hn (hknown n)

theorem editKept_of_faithful {h : History} (hinv : Faithful myip f h)
    (hsettled : Settled h.sys) : EditKept f h := by
  rcases hinv.tracked with ⟨k, reports, htracked⟩
  rcases hsettled with ⟨hevents, houtbox, _⟩
  intro stat hsaved _
  have hfile : (h.sys.peers ()).files f = some stat := by
    rw [← hinv.saved]
    exact hsaved
  refine ⟨?_, hfile, hinv.untouched⟩
  have hleads := htracked.leadsTo
  change LeadsTo _ ((h.sys.peers ()).files f)
    (eventsOf f (h.sys.peers ()).events) at hleads
  rw [hfile, hevents] at hleads
  change LeadsTo _ (some stat) [] at hleads
  generalize hnone : ([] : List EventKind) = events at hleads
  cases hleads with
  | created k _ => exact absurd hnone.symm (by simp)
  | modified k hnode hlive hversion =>
      rename_i n
      have hk : k = 0 := by
        cases k with
        | zero => rfl
        | succ k => cases hnone
      have hreports : reports = [] := by
        have hout := htracked.outbox
        change (h.sys.peers ()).outbox.map _ = _ at hout
        rw [houtbox] at hout
        exact List.map_eq_nil_iff.mp (List.append_eq_nil_iff.mp hout.symm).right
      rcases htracked.latest n hnode with ⟨t, hlast, ht, hle⟩
      unfold copies at hlast
      rw [hreports, List.append_nil] at hlast
      have hentry : entry f h.sys.ft = some t :=
        Option.mem_toList.mp (List.mem_of_getLast? hlast)
      have hstat := Node.version_eq_iff.mp
        (ht.trans (hversion hk) :
          t.version = Node.version { n with
            timestamp := stat.mtime, size := stat.size })
      refine ⟨t, hentry, ?_, hstat⟩
      rcases stamp_le_iff.mp hle with hlt | ⟨_, himp⟩
      · exact absurd ht hlt.ne
      · exact himp hlive

/-- In every run whose reports come out newer than the copies around, the
user's last edit of the file is kept once everything is handled. -/
theorem reachable_editKept {start : State Unit} {h : History}
    (hstarted : Started start) (hentry : entry f start.ft = none)
    (hfile : (start.peers ()).files f = none)
    (hreach : Reachable (historyStep myip f)
      (fun h => ReportsNewer myip f h.sys) (begun start) h)
    (hsettled : Settled h.sys) : EditKept f h := by
  have hstart : Faithful myip f (begun start) :=
    ⟨sane_of_started hstarted,
      ⟨0, [], tracked_of_started hstarted hentry hfile⟩, hfile.symm, rfl⟩
  have hinv : Faithful myip f h :=
    hreach.invariant (P := Faithful myip f) hstart
      (fun h a h' hinv hguard hstep => faithful_step hinv hguard hstep)
  exact editKept_of_faithful hinv hsettled

end Run

/-!
## Runs that keep and lose an edit
-/

open DartSync.Sample Sample

theorem created_file_editKept :
    exists h, Reachable (historyStep ipA fileA)
        (fun h => ReportsNewer ipA fileA h.sys) (begun onePeer) h ∧
      Settled h.sys ∧ h.saved = some { size := 10, mtime := 100 } ∧
      EditKept fileA h := by
  have h1 : Reachable (historyStep ipA fileA)
      (fun h => ReportsNewer ipA fileA h.sys) (begun onePeer) _ :=
    Reachable.step (a := Action.peer () (LocalAction.userCreate fileA 10))
      Reachable.start trivial rfl
  have h2 : Reachable (historyStep ipA fileA)
      (fun h => ReportsNewer ipA fileA h.sys) (begun onePeer) _ :=
    Reachable.step (a := Action.peer () LocalAction.notify) h1
      (by
        intro event later hevents _
        cases hevents
        constructor
        · decide
        · intro _ stat _ _
          constructor
          · intro n hn
            rcases hn with hn | hn
            · cases hn
            · cases hn
          · intro n hn
            rcases hn with hn | hn
            · cases hn
            · cases hn) rfl
  have h3 : Reachable (historyStep ipA fileA)
      (fun h => ReportsNewer ipA fileA h.sys) (begun onePeer) _ :=
    Reachable.step (a := Action.merge ()) h2 trivial rfl
  have h4 : Reachable (historyStep ipA fileA)
      (fun h => ReportsNewer ipA fileA h.sys) (begun onePeer) _ :=
    Reachable.step (a := Action.peer () LocalAction.compare) h3 trivial rfl
  refine ⟨_, h4, ⟨rfl, rfl, rfl⟩, rfl, ?_⟩
  exact reachable_editKept onePeer_started rfl rfl h4 ⟨rfl, rfl, rfl⟩

def shrinkInSameSecond : List (Action Unit) :=
  [Action.peer () (LocalAction.userCreate fileA 10),
    Action.peer () LocalAction.notify, Action.merge (),
    Action.peer () LocalAction.compare,
    Action.peer () (LocalAction.userWrite fileA 5),
    Action.peer () LocalAction.notify, Action.merge (),
    Action.peer () LocalAction.compare]

theorem lost_edit_reachable :
    exists h, Reachable (historyStep ipA fileA) unguarded (begun onePeer) h ∧
      Settled h.sys ∧ ¬ EditKept fileA h := by
  rcases exists_reachable_of_check (historyStep ipA fileA) (begun onePeer)
      shrinkInSameSecond
      (fun h => ((h.sys.peers ()).events = [] ∧ (h.sys.peers ()).outbox = [] ∧
        (h.sys.peers ()).inbox = []) ∧
        h.saved = some { size := 5, mtime := 100 } ∧ h.effects ≠ [])
      (by decide) with ⟨h, hreach, hsettled, hsaved, heffects⟩
  refine ⟨h, hreach, hsettled, ?_⟩
  intro hkept
  exact heffects (hkept _ hsaved (by decide)).right.right

end System
end DartSync
