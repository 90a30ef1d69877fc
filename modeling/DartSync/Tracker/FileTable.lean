import Mathlib.Data.Set.Defs
import DartSync.Common.Constant
import DartSync.Foundation.Keyed
import DartSync.Foundation.Slots

/-!
# The tracker's file table

The file-table functions of `tracker/tracker.c`.  The global `ft` is `none`
while it is `NULL`; a table is the list of its nodes in link order.  Where the
source would dereference a null pointer the result is `none`.
-/

namespace DartSync

open Foundation

def noPeers : Vector Ip MAX_PEER_NUM :=
  blankSlots CString.empty MAX_PEER_NUM

def onlyPeer (ip : Ip) : Vector Ip MAX_PEER_NUM :=
  noPeers.setIfInBounds 0 ip

def peerSlot (newpeerip : Vector Ip MAX_PEER_NUM) (index : Nat) : Ip :=
  slotAt CString.empty newpeerip index

/-- The addresses a scan of `newpeerip` visits: up to the first empty slot. -/
def Node.peers (n : Node) : List Ip :=
  occupied CString.empty n.newpeerip

/-- `newpeerip[0]`, where a peer's own table names the peer. -/
def Node.reporter (n : Node) : Ip :=
  slotAt CString.empty n.newpeerip 0

def Node.ipSet (n : Node) : Set Ip :=
  {ip | ip ∈ n.newpeerip.toList ∧ ip ≠ CString.empty}

/-- The global `ft` of the tracker. -/
abbrev FileTable := Option (List Node)

def FileTable.nodes (ft : FileTable) : List Node :=
  ft.getD []

def Sample.node (ip : Ip) (name : FileName) (timestamp size : UInt64)
    (type : Int32) : Node where
  status := IS_FILE
  size := size
  name := name
  timestamp := timestamp
  type := type
  newpeerip := onlyPeer ip

namespace Tracker

/-!
## Merging a report

`updateFiletable` walks the reported table; each reported node is searched in
the tracker's table and merged there, or appended at the tail.
-/

/-- `UPDATE_FILE_PEERS`: add the reporter to the peers of an equal version. -/
def updateFilePeers (trackerNode peerNode : Node) : Node :=
  let index := scanEnd CString.empty trackerNode.newpeerip 0
  if peerNode.reporter ∉ trackerNode.peers ∧ index < MAX_PEER_NUM then
    { trackerNode with
      newpeerip := trackerNode.newpeerip.setIfInBounds index peerNode.reporter }
  else trackerNode

/-- `UPDATE_FILE_VERSION`: take over the reported version. -/
def updateFileVersion (trackerNode peerNode : Node) : Node :=
  { trackerNode with
    size := peerNode.size
    timestamp := peerNode.timestamp
    type := peerNode.type
    status := peerNode.status
    newpeerip := onlyPeer peerNode.reporter }

def updateEntry (peerNode trackerNode : Node) : Node :=
  if trackerNode.timestamp = peerNode.timestamp ∧
      trackerNode.size = peerNode.size then
    updateFilePeers trackerNode peerNode
  else if (trackerNode.timestamp = peerNode.timestamp ∧
        trackerNode.size < peerNode.size) ∨
      trackerNode.timestamp < peerNode.timestamp then
    updateFileVersion trackerNode peerNode
  else trackerNode

/-- `ADD_FILE`: the entry appended for a name that was not found. -/
def addFile (peerNode : Node) : Node where
  status := peerNode.status
  size := peerNode.size
  name := peerNode.name
  timestamp := peerNode.timestamp
  type := peerNode.type
  newpeerip := onlyPeer peerNode.reporter

/-- The search for one reported node, with its cursor on the rest of the
tracker's table. -/
def updateNode (peerNode : Node) : List Node -> List Node
  | [] => [addFile peerNode]
  | trackerNode :: rest =>
      if trackerNode.name = peerNode.name then
        updateEntry peerNode trackerNode :: rest
      else trackerNode :: updateNode peerNode rest

/-- `display_filetable` reads `ft->head` without looking at `ft`. -/
def displayFiletable (ft : FileTable) : Option FileTable :=
  match ft with
  | none => none
  | some nodes => some (some nodes)

def mergeNode (ft : FileTable) (peerNode : Node) : FileTable :=
  some (updateNode peerNode ft.nodes)

def updateFiletable (ft : FileTable) (peerFt : List Node) : Option FileTable :=
  displayFiletable (peerFt.foldl mergeNode ft)

/-!
## Forgetting a peer
-/

/-- The scan of `delete_peer` over one `newpeerip` array from `index` on, with
`left` slots to go.  A match is overwritten by the last listed address, whose
slot is cleared, and the scan goes on behind the match. -/
def deletePeerSlots (peerIp : Ip) :
    Nat -> Nat -> Vector Ip MAX_PEER_NUM -> Vector Ip MAX_PEER_NUM
  | 0, _, slots => slots
  | left + 1, index, slots =>
      if (slotAt CString.empty slots index).strlen = 0 then slots
      else if slotAt CString.empty slots index = peerIp then
        let counter := scanEnd CString.empty slots (index + 1)
        let moved :=
          if counter - 1 > index then
            slots.setIfInBounds index
              (slotAt CString.empty slots (counter - 1))
          else slots
        deletePeerSlots peerIp left (index + 1)
          (moved.setIfInBounds (counter - 1) CString.empty)
      else deletePeerSlots peerIp left (index + 1) slots

/-- The file-table part of `delete_peer`. -/
def deletePeer (peerIp : Ip) (ft : FileTable) : FileTable :=
  ft.map fun nodes => nodes.map fun n =>
    { n with newpeerip := deletePeerSlots peerIp MAX_PEER_NUM 0 n.newpeerip }

/-!
## The merge of one entry
-/

theorem updateNode_eq_upsert (peerNode : Node) (nodes : List Node) :
    updateNode peerNode nodes =
      upsert Node.name peerNode.name (updateEntry peerNode)
        (addFile peerNode) nodes := by
  induction nodes with
  | nil => rfl
  | cons n rest ih => rw [updateNode, upsert, ih]

@[simp] theorem updateFilePeers_name (t p : Node) :
    (updateFilePeers t p).name = t.name := by
  unfold updateFilePeers
  dsimp only
  split <;> rfl

@[simp] theorem updateEntry_name (p t : Node) :
    (updateEntry p t).name = t.name := by
  unfold updateEntry
  split
  · exact updateFilePeers_name t p
  · split <;> rfl

theorem updateFilePeers_version (t p : Node) :
    (updateFilePeers t p).version = t.version := by
  unfold updateFilePeers
  dsimp only
  split <;> rfl

theorem updateFilePeers_type (t p : Node) :
    (updateFilePeers t p).type = t.type := by
  unfold updateFilePeers
  dsimp only
  split <;> rfl

theorem updateFilePeers_status (t p : Node) :
    (updateFilePeers t p).status = t.status := by
  unfold updateFilePeers
  dsimp only
  split <;> rfl

theorem updateEntry_of_version_eq {p t : Node} (h : t.version = p.version) :
    updateEntry p t = updateFilePeers t p := by
  unfold updateEntry
  rw [if_pos (Node.version_eq_iff.mp h)]

theorem updateEntry_of_version_lt {p t : Node} (h : t.version < p.version) :
    updateEntry p t = updateFileVersion t p := by
  have hne : ¬ (t.timestamp = p.timestamp ∧ t.size = p.size) := fun heq =>
    absurd (Node.version_eq_iff.mpr heq) (ne_of_lt h)
  unfold updateEntry
  rw [if_neg hne, if_pos (Node.version_lt_iff.mp h)]

theorem updateEntry_of_version_gt {p t : Node} (h : p.version < t.version) :
    updateEntry p t = t := by
  have hne : ¬ (t.timestamp = p.timestamp ∧ t.size = p.size) := fun heq =>
    absurd (Node.version_eq_iff.mpr heq) (ne_of_gt h)
  have hnlt : ¬ ((t.timestamp = p.timestamp ∧ t.size < p.size) ∨
      t.timestamp < p.timestamp) := fun hlt =>
    lt_asymm h (Node.version_lt_iff.mpr hlt)
  unfold updateEntry
  rw [if_neg hne, if_neg hnlt]

theorem updateEntry_version (p t : Node) :
    (updateEntry p t).version = max t.version p.version := by
  rcases lt_trichotomy t.version p.version with h | h | h
  · rw [updateEntry_of_version_lt h, max_eq_right h.le]
    rfl
  · rw [updateEntry_of_version_eq h, updateFilePeers_version, h, max_self]
  · rw [updateEntry_of_version_gt h, max_eq_left h.le]

/-!
## Merging, one name at a time
-/

def entry (f : FileName) (ft : FileTable) : Option Node :=
  lookup Node.name f ft.nodes

def mergeEntry (peerNode : Node) (t? : Option Node) : Node :=
  (t?.map (updateEntry peerNode)).getD (addFile peerNode)

theorem mergeEntry_cases (p : Node) (t? : Option Node) :
    ((mergeEntry p t?).version = p.version ∧
        (mergeEntry p t?).type = p.type ∧
        (mergeEntry p t?).newpeerip = onlyPeer p.reporter ∧
        forall t, t? = some t -> t.version < p.version) ∨
      exists t, t? = some t ∧ p.version ≤ t.version ∧
        (mergeEntry p t?).version = t.version ∧
        (mergeEntry p t?).type = t.type := by
  cases t? with
  | none => exact Or.inl ⟨rfl, rfl, rfl, fun t ht => by cases ht⟩
  | some t =>
      change ((updateEntry p t).version = _ ∧ (updateEntry p t).type = _ ∧
        (updateEntry p t).newpeerip = _ ∧ _) ∨ exists t', some t = some t' ∧ _ ∧
        (updateEntry p t).version = _ ∧ (updateEntry p t).type = _
      rcases lt_trichotomy t.version p.version with h | h | h
      · left
        rw [updateEntry_of_version_lt h]
        exact ⟨rfl, rfl, rfl, fun t' ht' => Option.some.inj ht' ▸ h⟩
      · right
        rw [updateEntry_of_version_eq h]
        exact ⟨t, rfl, h.ge, updateFilePeers_version t p,
          updateFilePeers_type t p⟩
      · right
        rw [updateEntry_of_version_gt h]
        exact ⟨t, rfl, h.le, rfl, rfl⟩

theorem mem_ipSet_onlyPeer {n : Node} {i ip : Ip}
    (hn : n.newpeerip = onlyPeer ip) (h : i ∈ n.ipSet) : i = ip := by
  rcases h with ⟨hmem, hne⟩
  rw [hn] at hmem
  simp only [onlyPeer, noPeers, blankSlots, Vector.toList_setIfInBounds,
    Vector.toList_replicate] at hmem
  rcases List.mem_or_eq_of_mem_set hmem with h | h
  · exact absurd (List.eq_of_mem_replicate h) hne
  · exact h

theorem mem_ipSet_updateFilePeers {t p : Node} {i : Ip}
    (h : i ∈ (updateFilePeers t p).ipSet) : i = p.reporter ∨ i ∈ t.ipSet := by
  rcases h with ⟨hmem, hne⟩
  unfold updateFilePeers at hmem
  dsimp only at hmem
  split at hmem
  · rw [Vector.toList_setIfInBounds] at hmem
    rcases List.mem_or_eq_of_mem_set hmem with h | h
    · exact Or.inr ⟨h, hne⟩
    · exact Or.inl h
  · exact Or.inr ⟨hmem, hne⟩

theorem mem_ipSet_mergeEntry {p : Node} {t? : Option Node} {i : Ip}
    (h : i ∈ (mergeEntry p t?).ipSet) :
    (i = p.reporter ∧ (mergeEntry p t?).version = p.version) ∨
      exists t, t? = some t ∧ i ∈ t.ipSet ∧
        (mergeEntry p t?).version = t.version ∧
        (mergeEntry p t?).type = t.type := by
  cases t? with
  | none => exact Or.inl ⟨mem_ipSet_onlyPeer rfl h, rfl⟩
  | some t =>
      change i ∈ (updateEntry p t).ipSet at h
      change (_ ∧ (updateEntry p t).version = _) ∨ exists t', some t = some t' ∧
        _ ∧ (updateEntry p t).version = _ ∧ (updateEntry p t).type = _
      rcases lt_trichotomy t.version p.version with hv | hv | hv
      · rw [updateEntry_of_version_lt hv] at h ⊢
        exact Or.inl ⟨mem_ipSet_onlyPeer rfl h, rfl⟩
      · rw [updateEntry_of_version_eq hv] at h ⊢
        rcases mem_ipSet_updateFilePeers h with h | h
        · exact Or.inl ⟨h, (updateFilePeers_version t p).trans hv⟩
        · exact Or.inr ⟨t, rfl, h, updateFilePeers_version t p,
            updateFilePeers_type t p⟩
      · rw [updateEntry_of_version_gt hv] at h ⊢
        exact Or.inr ⟨t, rfl, h, rfl, rfl⟩

theorem entry_mergeNode_self (ft : FileTable) (p : Node) :
    entry p.name (mergeNode ft p) = some (mergeEntry p (entry p.name ft)) := by
  unfold entry mergeNode mergeEntry
  rw [updateNode_eq_upsert]
  exact lookup_upsert_self (fun t h => (updateEntry_name p t).trans h) rfl

theorem entry_mergeNode_of_ne {f : FileName} (ft : FileTable) {p : Node}
    (h : f ≠ p.name) : entry f (mergeNode ft p) = entry f ft := by
  unfold entry mergeNode
  rw [updateNode_eq_upsert]
  exact lookup_upsert_of_ne (fun t h => (updateEntry_name p t).trans h) rfl h

theorem names_mergeNode (ft : FileTable) (p : Node) :
    (mergeNode ft p).nodes.map Node.name =
      if p.name ∈ ft.nodes.map Node.name then ft.nodes.map Node.name
      else ft.nodes.map Node.name ++ [p.name] := by
  unfold mergeNode
  rw [updateNode_eq_upsert]
  exact keys_upsert (fun t h => (updateEntry_name p t).trans h) rfl

theorem nodup_names_mergeNode {ft : FileTable} (p : Node)
    (h : (ft.nodes.map Node.name).Nodup) :
    ((mergeNode ft p).nodes.map Node.name).Nodup := by
  unfold mergeNode
  rw [updateNode_eq_upsert]
  exact nodup_keys_upsert (fun t h => (updateEntry_name p t).trans h) rfl h

theorem nodup_names_foldl_mergeNode {ft : FileTable} (peerFt : List Node)
    (h : (ft.nodes.map Node.name).Nodup) :
    ((peerFt.foldl mergeNode ft).nodes.map Node.name).Nodup := by
  induction peerFt generalizing ft with
  | nil => exact h
  | cons p rest ih => exact ih (nodup_names_mergeNode p h)

def mergeReport (report? t? : Option Node) : Option Node :=
  match report? with
  | none => t?
  | some p => some (mergeEntry p t?)

theorem entry_foldl_mergeNode {f : FileName} {peerFt : List Node}
    (h : (peerFt.map Node.name).Nodup) (ft : FileTable) :
    entry f (peerFt.foldl mergeNode ft) =
      mergeReport (lookup Node.name f peerFt) (entry f ft) := by
  induction peerFt generalizing ft with
  | nil => rfl
  | cons p rest ih =>
      rw [List.map_cons, List.nodup_cons] at h
      rw [List.foldl_cons, ih h.right, lookup_cons]
      split
      · next hname =>
          subst hname
          rw [lookup_eq_none_iff.mpr h.left, entry_mergeNode_self]
          rfl
      · next hname => rw [entry_mergeNode_of_ne ft (Ne.symm hname)]

theorem updateFiletable_eq_some_iff {ft ft' : FileTable} {peerFt : List Node} :
    updateFiletable ft peerFt = some ft' <->
      peerFt.foldl mergeNode ft = ft' ∧ ft' ≠ none := by
  unfold updateFiletable
  cases peerFt.foldl mergeNode ft with
  | none =>
      constructor
      · intro h
        cases h
      · intro h
        rcases h with ⟨rfl, hne⟩
        exact absurd rfl hne
  | some nodes =>
      constructor
      · intro h
        cases h
        exact ⟨rfl, by simp⟩
      · intro h
        rcases h with ⟨rfl, _⟩
        rfl

theorem updateFiletable_eq_none_iff {ft : FileTable} {peerFt : List Node} :
    updateFiletable ft peerFt = none <-> ft = none ∧ peerFt = [] := by
  have hsome : forall (nodes : List Node) (reports : List Node),
      exists nodes', reports.foldl mergeNode (some nodes) = some nodes' := by
    intro nodes reports
    induction reports generalizing nodes with
    | nil => exact ⟨nodes, rfl⟩
    | cons p rest ih => exact ih _
  unfold updateFiletable
  cases ft with
  | some nodes =>
      rcases hsome nodes peerFt with ⟨nodes', h⟩
      simp [h, displayFiletable]
  | none =>
      cases peerFt with
      | nil => simp [displayFiletable]
      | cons p rest =>
          rcases hsome (updateNode p []) rest with ⟨nodes', h⟩
          have hfold : (p :: rest).foldl mergeNode none = some nodes' := h
          simp [hfold, displayFiletable]

end Tracker
end DartSync
