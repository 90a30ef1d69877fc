import DartSync.Foundation.FirstDistinct
import DartSync.Foundation.Transition
import DartSync.Tracker.FileTable

/-!
# The representation of the tracker's table

Every table the tracker can hold names each file once, and every `newpeerip`
array is a prefix of distinct addresses followed by empty slots.  The loop of
`delete_peer`, which changes the array it is scanning, relies on both halves of
the second fact.
-/

namespace DartSync
namespace Tracker

open Foundation

/-- The array lists exactly the distinct addresses `l`. -/
structure Lists (newpeerip : Vector Ip MAX_PEER_NUM) (l : List Ip) :
    Prop where
  dense : Dense CString.empty newpeerip l
  nodup : l.Nodup

structure WellFormed (nodes : List Node) : Prop where
  names : (nodes.map Node.name).Nodup
  peers : forall n, n ∈ nodes -> exists l, Lists n.newpeerip l

theorem Lists.ipSet_eq {n : Node} {l : List Ip} (h : Lists n.newpeerip l) :
    Node.ipSet n = {ip | ip ∈ l} := by
  ext ip
  change ip ∈ n.newpeerip.toList ∧ ip ≠ CString.empty <-> ip ∈ l
  rw [h.dense.toList_eq, List.mem_append, List.mem_replicate]
  constructor
  · intro h
    rcases h with ⟨hmem | ⟨_, hempty⟩, hne⟩
    · exact hmem
    · exact absurd hempty hne
  · intro hmem
    exact ⟨Or.inl hmem, fun hempty =>
      h.dense.notMem_blank (hempty ▸ hmem)⟩

/-!
## Merging keeps the representation
-/

theorem onlyPeer_lists {ip : Ip} (h : ip ≠ CString.empty) :
    Lists (onlyPeer ip) [ip] where
  dense := Dense.single h (by decide)
  nodup := List.nodup_singleton ip

theorem updateFilePeers_dense {t p : Node} {l : List Ip}
    (h : Dense CString.empty t.newpeerip l)
    (hp : p.reporter ≠ CString.empty) :
    Dense CString.empty (updateFilePeers t p).newpeerip
      (insertCapped MAX_PEER_NUM p.reporter l) := by
  have hpeers : t.peers = l := h.occupied_eq
  have hindex : scanEnd CString.empty t.newpeerip 0 = l.length :=
    h.scanEnd_eq (Nat.zero_le _)
  unfold updateFilePeers insertCapped
  rw [hpeers, hindex]
  dsimp only
  split
  · next hroom => exact h.push hp hroom.right
  · exact h

theorem updateFilePeers_lists {t p : Node} {l : List Ip}
    (h : Lists t.newpeerip l) (hp : p.reporter ≠ CString.empty) :
    Lists (updateFilePeers t p).newpeerip
      (insertCapped MAX_PEER_NUM p.reporter l) :=
  ⟨updateFilePeers_dense h.dense hp, insertCapped_nodup h.nodup⟩

theorem onlyPeer_lists_of_empty {ip : Ip} (h : ip = CString.empty) :
    Lists (onlyPeer ip) [] where
  dense := by
    rw [h]
    exact (Dense.ofBlank CString.empty MAX_PEER_NUM).set_blank (Nat.zero_le _)
  nodup := List.nodup_nil

theorem updateFilePeers_lists_of_empty {t p : Node} {l : List Ip}
    (h : Lists t.newpeerip l) (hp : p.reporter = CString.empty) :
    Lists (updateFilePeers t p).newpeerip l := by
  have hindex : scanEnd CString.empty t.newpeerip 0 = l.length :=
    h.dense.scanEnd_eq (Nat.zero_le _)
  unfold updateFilePeers
  rw [hindex, hp]
  dsimp only
  split
  · exact ⟨h.dense.set_blank (Nat.le_refl _), h.nodup⟩
  · exact h

theorem onlyPeer_wellListed (ip : Ip) : exists l, Lists (onlyPeer ip) l := by
  cases Classical.em (ip = CString.empty) with
  | inl hempty => exact ⟨[], onlyPeer_lists_of_empty hempty⟩
  | inr hne => exact ⟨[ip], onlyPeer_lists hne⟩

theorem updateFilePeers_wellListed {t p : Node}
    (h : exists l, Lists t.newpeerip l) :
    exists l, Lists (updateFilePeers t p).newpeerip l := by
  rcases h with ⟨l, hl⟩
  cases Classical.em (p.reporter = CString.empty) with
  | inl hempty => exact ⟨l, updateFilePeers_lists_of_empty hl hempty⟩
  | inr hne => exact ⟨_, updateFilePeers_lists hl hne⟩

theorem updateEntry_wellListed {t p : Node}
    (h : exists l, Lists t.newpeerip l) :
    exists l, Lists (updateEntry p t).newpeerip l := by
  unfold updateEntry
  split
  · exact updateFilePeers_wellListed h
  · split
    · exact onlyPeer_wellListed p.reporter
    · exact h

theorem mergeNode_wellFormed {ft : FileTable} {p : Node}
    (h : WellFormed ft.nodes) : WellFormed (mergeNode ft p).nodes where
  names := nodup_names_mergeNode p h.names
  peers := by
    intro n hn
    change n ∈ updateNode p ft.nodes at hn
    rw [updateNode_eq_upsert] at hn
    rcases mem_upsert hn with hmem | ⟨t, hmem, _, rfl⟩ | rfl
    · exact h.peers n hmem
    · exact updateEntry_wellListed (h.peers t hmem)
    · exact onlyPeer_wellListed p.reporter

theorem updateFiletable_wellFormed {ft ft' : FileTable} {peerFt : List Node}
    (h : WellFormed ft.nodes)
    (hupdate : updateFiletable ft peerFt = some ft') :
    WellFormed ft'.nodes := by
  rw [← (updateFiletable_eq_some_iff.mp hupdate).left]
  clear hupdate
  induction peerFt generalizing ft with
  | nil => exact h
  | cons p rest ih => exact ih (mergeNode_wellFormed h)

/-!
## The scan of `delete_peer`

The scan is followed at an index that splits the listed addresses into those
already passed and those still ahead.
-/

theorem slotAt_strlen_ne_zero {newpeerip : Vector Ip MAX_PEER_NUM}
    {pre rest : List Ip} {a : Ip}
    (h : Dense CString.empty newpeerip (pre ++ a :: rest)) :
    (slotAt CString.empty newpeerip pre.length).strlen ≠ 0 := by
  rw [h.slotAt_append, ne_eq, CString.strlen_eq_zero_iff]
  intro ha
  exact h.notMem_blank (ha ▸ List.mem_append_right pre List.mem_cons_self)

theorem deletePeerSlots_at_end {peerIp : Ip} {left index : Nat}
    {newpeerip : Vector Ip MAX_PEER_NUM} {l : List Ip}
    (h : Dense CString.empty newpeerip l) (hindex : l.length ≤ index) :
    deletePeerSlots peerIp left index newpeerip = newpeerip := by
  cases left with
  | zero => rfl
  | succ left =>
      unfold deletePeerSlots
      rw [if_pos]
      rw [h.slotAt_of_length_le hindex]
      rfl

theorem deletePeerSlots_of_notMem {peerIp : Ip}
    {newpeerip : Vector Ip MAX_PEER_NUM} (left : Nat) (pre rest : List Ip)
    (h : Dense CString.empty newpeerip (pre ++ rest)) (hrest : peerIp ∉ rest) :
    deletePeerSlots peerIp left pre.length newpeerip = newpeerip := by
  induction left generalizing pre rest with
  | zero => rfl
  | succ left ih =>
      cases rest with
      | nil =>
          rw [List.append_nil] at h
          exact deletePeerSlots_at_end h (Nat.le_refl _)
      | cons a rest =>
          rw [List.mem_cons, not_or] at hrest
          unfold deletePeerSlots
          rw [if_neg (slotAt_strlen_ne_zero h), h.slotAt_append,
            if_neg (Ne.symm hrest.left)]
          have hnext := ih (pre ++ [a]) rest (by simpa using h) hrest.right
          simpa using hnext

theorem deletePeerSlots_of_match {peerIp : Ip}
    {newpeerip : Vector Ip MAX_PEER_NUM} {pre rest : List Ip} (left : Nat)
    (h : Dense CString.empty newpeerip (pre ++ peerIp :: rest))
    (hnodup : (pre ++ peerIp :: rest).Nodup) :
    exists l, Dense CString.empty
        (deletePeerSlots peerIp (left + 1) pre.length newpeerip) l ∧
      l.Perm (pre ++ rest) := by
  have hcounter : scanEnd CString.empty newpeerip (pre.length + 1) =
      (pre ++ peerIp :: rest).length :=
    h.scanEnd_eq (by simp)
  unfold deletePeerSlots
  rw [if_neg (slotAt_strlen_ne_zero h), h.slotAt_append, if_pos rfl, hcounter]
  dsimp only
  rcases List.eq_nil_or_concat' rest with rfl | ⟨mid, z, rfl⟩
  · -- the match is the last listed address
    have hlast : (pre ++ [peerIp]).length - 1 = pre.length := by simp
    rw [hlast, if_neg (Nat.lt_irrefl _)]
    have hpop := h.pop
    refine ⟨pre, ?_, by simp⟩
    rw [deletePeerSlots_at_end hpop (Nat.le_succ _)]
    exact hpop
  · have hlast : (pre ++ peerIp :: (mid ++ [z])).length - 1 =
        (pre ++ peerIp :: mid).length := by simp
    have hz : slotAt CString.empty newpeerip (pre ++ peerIp :: mid).length =
        z := by
      have h' : Dense CString.empty newpeerip
          ((pre ++ peerIp :: mid) ++ z :: []) := by simpa using h
      exact h'.slotAt_append
    have hzne : z ≠ CString.empty := by
      intro hempty
      apply h.notMem_blank
      rw [← hempty]
      simp
    have hmoved := h.overwrite hzne
    have hpop : Dense CString.empty
        ((newpeerip.setIfInBounds pre.length z).setIfInBounds
          (pre ++ peerIp :: mid).length CString.empty) (pre ++ z :: mid) := by
      have hmoved' : Dense CString.empty
          (newpeerip.setIfInBounds pre.length z) ((pre ++ z :: mid) ++ [z]) := by
        simpa using hmoved
      have hlen : (pre ++ z :: mid).length = (pre ++ peerIp :: mid).length := by
        simp
      rw [← hlen]
      exact hmoved'.pop
    have hmid : peerIp ∉ mid := by
      intro hmem
      rw [List.nodup_append, List.nodup_cons] at hnodup
      exact hnodup.right.left.left (List.mem_append_left _ hmem)
    rw [hlast, hz, if_pos (by simp)]
    have hsplit : pre ++ z :: mid = (pre ++ [z]) ++ mid := by simp
    have hrest :=
      deletePeerSlots_of_notMem left (pre ++ [z]) mid (hsplit ▸ hpop) hmid
    rw [List.length_append, List.length_singleton] at hrest
    refine ⟨pre ++ z :: mid, ?_, ?_⟩
    · rw [hrest]
      exact hpop
    · apply List.Perm.append_left
      exact (List.perm_append_singleton z mid).symm

theorem deletePeerSlots_lists {peerIp : Ip}
    {newpeerip : Vector Ip MAX_PEER_NUM} (left : Nat) (pre rest : List Ip)
    (h : Lists newpeerip (pre ++ rest)) (hpre : peerIp ∉ pre)
    (hleft : rest.length ≤ left) :
    exists l, Lists (deletePeerSlots peerIp left pre.length newpeerip) l ∧
      forall ip, ip ∈ l <-> ip ∈ pre ++ rest ∧ ip ≠ peerIp := by
  induction left generalizing pre rest with
  | zero =>
      have hrest : rest = [] := List.length_eq_zero_iff.mp (Nat.le_zero.mp hleft)
      subst hrest
      refine ⟨pre ++ [], h, ?_⟩
      intro ip
      constructor
      · intro hip
        exact ⟨hip, fun heq => hpre (by simpa [heq] using hip)⟩
      · exact And.left
  | succ left ih =>
      cases rest with
      | nil =>
          refine ⟨pre ++ [], ?_, ?_⟩
          · rw [deletePeerSlots_at_end h.dense (by simp)]
            exact h
          · intro ip
            constructor
            · intro hip
              exact ⟨hip, fun heq => hpre (by simpa [heq] using hip)⟩
            · exact And.left
      | cons a rest =>
          by_cases ha : a = peerIp
          · subst ha
            rcases deletePeerSlots_of_match left h.dense h.nodup with
              ⟨l, hdense, hperm⟩
            have hsplit := h.nodup
            rw [List.nodup_append, List.nodup_cons] at hsplit
            have hnot : a ∉ pre ++ rest := by
              rw [List.mem_append, not_or]
              exact ⟨hpre, hsplit.right.left.left⟩
            have hnodup : (pre ++ rest).Nodup :=
              h.nodup.sublist
                (List.Sublist.append_left (List.sublist_cons_self a rest) pre)
            refine ⟨l, ⟨hdense, hperm.nodup_iff.mpr hnodup⟩, ?_⟩
            intro ip
            rw [hperm.mem_iff]
            constructor
            · intro hip
              refine ⟨?_, fun heq => hnot (heq ▸ hip)⟩
              rw [List.mem_append] at hip ⊢
              exact hip.imp id (List.mem_cons_of_mem a)
            · intro h
              rcases h with ⟨hip, hne⟩
              simpa [hne] using hip
          · unfold deletePeerSlots
            rw [if_neg (slotAt_strlen_ne_zero h.dense), h.dense.slotAt_append,
              if_neg ha]
            have hpre' : peerIp ∉ pre ++ [a] := by
              simp [hpre, Ne.symm ha]
            have hnext := ih (pre ++ [a]) rest
              (by simpa using h) hpre' (by simpa using hleft)
            simpa using hnext

theorem deletePeerSlots_all (peerIp : Ip)
    {newpeerip : Vector Ip MAX_PEER_NUM} {l : List Ip}
    (h : Lists newpeerip l) :
    exists l', Lists (deletePeerSlots peerIp MAX_PEER_NUM 0 newpeerip) l' ∧
      forall ip, ip ∈ l' <-> ip ∈ l ∧ ip ≠ peerIp :=
  deletePeerSlots_lists MAX_PEER_NUM [] l h List.not_mem_nil h.dense.length_le

/-!
## Reachable tables
-/

inductive TableAction where
  | update (peerFt : List Node)
  | forget (peerIp : Ip)

def tableStep : FileTable -> TableAction -> Option FileTable
  | ft, TableAction.update peerFt => updateFiletable ft peerFt
  | ft, TableAction.forget peerIp => some (deletePeer peerIp ft)

def NamesReporter : FileTable -> TableAction -> Prop
  | _, TableAction.update peerFt =>
      forall p, p ∈ peerFt -> p.reporter.strlen ≠ 0
  | _, TableAction.forget _ => True

/-- The nodes differ in the listed addresses only, and these are the old ones
without `peerIp`. -/
def WithoutPeer (peerIp : Ip) (old new : Node) : Prop :=
  new = { old with newpeerip := new.newpeerip } ∧
    Node.ipSet new = Node.ipSet old \ {peerIp}

theorem names_deletePeer (peerIp : Ip) (ft : FileTable) :
    (deletePeer peerIp ft).nodes.map Node.name = ft.nodes.map Node.name := by
  cases ft with
  | none => rfl
  | some nodes =>
      change (nodes.map _).map Node.name = nodes.map Node.name
      rw [List.map_map]
      rfl

theorem deletePeer_wellFormed {ft : FileTable} (peerIp : Ip)
    (h : WellFormed ft.nodes) : WellFormed (deletePeer peerIp ft).nodes where
  names := by
    rw [names_deletePeer]
    exact h.names
  peers := by
    cases ft with
    | none => exact h.peers
    | some nodes =>
        intro n hn
        rcases List.mem_map.mp hn with ⟨old, hold, rfl⟩
        rcases h.peers old hold with ⟨l, hl⟩
        rcases deletePeerSlots_all peerIp hl with ⟨l', hl', _⟩
        exact ⟨l', hl'⟩

theorem deletePeer_withoutPeer {ft : FileTable} (peerIp : Ip)
    (h : WellFormed ft.nodes) :
    List.Forall₂ (WithoutPeer peerIp) ft.nodes
      (deletePeer peerIp ft).nodes := by
  cases ft with
  | none => exact List.Forall₂.nil
  | some nodes =>
      change List.Forall₂ (WithoutPeer peerIp) nodes (nodes.map _)
      rw [List.forall₂_map_right_iff, List.forall₂_same]
      intro old hold
      rcases h.peers old hold with ⟨l, hl⟩
      rcases deletePeerSlots_all peerIp hl with ⟨l', hl', hmem⟩
      refine ⟨rfl, ?_⟩
      rw [hl.ipSet_eq, Lists.ipSet_eq hl']
      ext ip
      exact hmem ip

theorem tableStep_wellFormed {ft ft' : FileTable} {a : TableAction}
    (h : WellFormed ft.nodes) (hstep : tableStep ft a = some ft') :
    WellFormed ft'.nodes := by
  cases a with
  | update peerFt => exact updateFiletable_wellFormed h hstep
  | forget peerIp =>
      cases hstep
      exact deletePeer_wellFormed peerIp h

theorem wellFormed_null : WellFormed (FileTable.nodes none) where
  names := List.nodup_nil
  peers := by
    intro n hn
    cases hn

theorem wellFormed_of_reachable {guard : FileTable -> TableAction -> Prop}
    {ft : FileTable} (h : Reachable tableStep guard none ft) :
    WellFormed ft.nodes :=
  h.invariant (P := fun ft : FileTable => WellFormed ft.nodes)
    wellFormed_null fun _ _ _ hft _ => tableStep_wellFormed hft

/-- Along every run of reports and departures the table is well formed, and a
departure removes the address from every entry and changes nothing else. -/
theorem reachable_table_wellFormed_and_deletePeer_exact {ft : FileTable}
    (h : Reachable tableStep NamesReporter none ft) :
    WellFormed ft.nodes ∧
      forall peerIp : Ip,
        List.Forall₂ (WithoutPeer peerIp) ft.nodes
          (deletePeer peerIp ft).nodes :=
  ⟨wellFormed_of_reachable h, fun peerIp =>
    deletePeer_withoutPeer peerIp (wellFormed_of_reachable h)⟩

theorem one_report_wellFormed_and_deletePeer_exact :
    exists ft,
      Reachable tableStep NamesReporter none ft ∧
        WellFormed ft.nodes ∧
        forall peerIp : Ip,
          List.Forall₂ (WithoutPeer peerIp) ft.nodes
            (deletePeer peerIp ft).nodes := by
  have hreach : Reachable tableStep NamesReporter none
      (mergeNode none (Sample.node Sample.ipA Sample.fileA 100 5 FILE_CREATE)) := by
    refine Reachable.step (a := TableAction.update
      [Sample.node Sample.ipA Sample.fileA 100 5 FILE_CREATE])
      Reachable.start ?_ rfl
    intro p hp
    rw [List.mem_singleton.mp hp]
    decide
  exact ⟨_, hreach, reachable_table_wellFormed_and_deletePeer_exact hreach⟩

end Tracker
end DartSync
