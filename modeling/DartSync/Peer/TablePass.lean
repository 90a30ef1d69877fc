import DartSync.Peer.Calls
import DartSync.Tracker.SourceList

/-!
# One pass over a broadcast table

`main` runs `compareNode` on every entry of a table it receives.  The entries
have different names, so each is compared with the table as it was before the
pass, and a second pass over the same table finds nothing left to do, apart
from tombstones of files that the first pass has started to download.
-/

namespace DartSync
namespace Peer

open Foundation

/-- The loops of `main` over a table of the tracker. -/
def comparePass (myip : Ip) : List Node -> List Node -> List Node × List Effect
  | [], table => (table, [])
  | current :: rest, table =>
      let result := compareNode myip current table
      let others := comparePass myip rest result.1
      (others.1, result.2.toList ++ others.2)

section Pass

variable {myip : Ip} {entries table : List Node} {f : FileName} {e : Effect}

theorem lookup_comparePass (h : (entries.map Node.name).Nodup) :
    lookup Node.name f (comparePass myip entries table).1 =
      match lookup Node.name f entries with
      | none => lookup Node.name f table
      | some seekNode =>
          (compareEntry myip seekNode (lookup Node.name f table)).1 := by
  induction entries generalizing table with
  | nil => rfl
  | cons current rest ih =>
      rw [List.map_cons, List.nodup_cons] at h
      change lookup Node.name f (comparePass myip rest
        (compareNode myip current table).1).1 = _
      rw [ih h.right, lookup_cons]
      cases Classical.em (current.name = f) with
      | inl hname =>
          subst hname
          rw [if_pos rfl, lookup_eq_none_iff.mpr h.left]
          exact congrArg Prod.fst compareNode_self
      | inr hname => rw [if_neg hname, compareNode_of_ne (Ne.symm hname)]

theorem mem_effects_comparePass (h : (entries.map Node.name).Nodup) :
    e ∈ (comparePass myip entries table).2 <->
      exists seekNode, seekNode ∈ entries ∧
        (compareEntry myip seekNode
          (lookup Node.name seekNode.name table)).2 = some e := by
  induction entries generalizing table with
  | nil => simp [comparePass]
  | cons current rest ih =>
      rw [List.map_cons, List.nodup_cons] at h
      have hself := congrArg Prod.snd (@compareNode_self myip current table)
      -- the comparison with `current` does not touch the other names
      have hother : forall seekNode, seekNode ∈ rest ->
          lookup Node.name seekNode.name
              (compareNode myip current table).1 =
            lookup Node.name seekNode.name table := by
        intro seekNode hmem
        apply compareNode_of_ne
        intro hname
        exact h.left (hname ▸ List.mem_map_of_mem hmem)
      change e ∈ (compareNode myip current table).2.toList ++
        (comparePass myip rest (compareNode myip current table).1).2 <-> _
      rw [List.mem_append, ih h.right, Option.mem_toList]
      constructor
      · intro he
        rcases he with he | ⟨seekNode, hmem, he⟩
        · exact ⟨current, List.mem_cons_self, hself ▸ he⟩
        · rw [hother seekNode hmem] at he
          exact ⟨seekNode, List.mem_cons_of_mem current hmem, he⟩
      · intro he
        rcases he with ⟨seekNode, hmem, he⟩
        rcases List.mem_cons.mp hmem with rfl | hmem
        · exact Or.inl (hself.trans he)
        · refine Or.inr ⟨seekNode, hmem, ?_⟩
          rw [hother seekNode hmem]
          exact he

theorem comparePass_of_no_effect
    (h : forall seekNode, seekNode ∈ entries ->
      (compareEntry myip seekNode
        (lookup Node.name seekNode.name table)).2 = none) :
    comparePass myip entries table = (table, []) := by
  induction entries with
  | nil => rfl
  | cons current rest ih =>
      have hself := congrArg Prod.snd (@compareNode_self myip current table)
      have hnone : (compareNode myip current table).2 = none :=
        hself.trans (h current List.mem_cons_self)
      have hrest := ih fun seekNode hmem =>
        h seekNode (List.mem_cons_of_mem current hmem)
      unfold comparePass
      dsimp only
      rw [compareNode_of_no_effect hnone, hnone, hrest]
      rfl

end Pass

theorem compareEntry_unknown {myip : Ip} {seekNode : Node} :
    compareEntry myip seekNode none =
      if seekNode.size = 0 then (none, none)
      else (some (addedDownload myip (downloadArg seekNode.name seekNode)),
        some (Effect.startDownload (downloadArg seekNode.name seekNode))) := by
  unfold compareEntry
  dsimp only
  cases Classical.em (seekNode.size = 0) with
  | inl hsize => simp [hsize]
  | inr hsize =>
      rw [if_pos (UInt64.pos_iff_ne_zero.mpr hsize), if_neg hsize]

theorem compareEntry_twice {myip : Ip} {seekNode : Node}
    {node? : Option Node}
    (h : seekNode.type = FILE_DELETE -> node? = none -> seekNode.size = 0) :
    (compareEntry myip seekNode
      (compareEntry myip seekNode node?).1).2 = none := by
  cases node? with
  | none =>
      rw [compareEntry_unknown]
      split
      · next hsize => rw [compareEntry_unknown, if_pos hsize]
      · next hsize =>
          have hlive : seekNode.type ≠ FILE_DELETE :=
            fun hdelete => hsize (h hdelete rfl)
          rw [compareEntry_of_neither]
          · intro hwants
            exact (wantsDownload_iff.mp hwants).right.left rfl
          · intro hremoval
            exact hlive hremoval.left
  | some n =>
      cases Classical.em (wantsDownload n seekNode = true) with
      | inl hwants =>
          rw [compareEntry_of_wantsDownload hwants, compareEntry_of_neither]
          · intro hwants'
            exact (wantsDownload_iff.mp hwants').right.left rfl
          · intro hremoval
            exact (wantsDownload_iff.mp hwants).right.right.left hremoval.left
      | inr hwants =>
          cases Classical.em (WantsRemoval n seekNode) with
          | inl hremoval =>
              rw [compareEntry_of_wantsRemoval hremoval,
                compareEntry_of_neither]
              · intro hwants'
                exact (wantsDownload_iff.mp hwants').right.right.left
                  hremoval.left
              · intro hremoval'
                exact hremoval'.right.left rfl
          | inr hremoval =>
              rw [compareEntry_of_neither hwants hremoval,
                compareEntry_of_neither hwants hremoval]

/-!
## Tombstones in the pass
-/

structure SettlesInOnePass (myip : Ip) (entries table : List Node) :
    Prop where
  noDownload : forall n, n ∈ entries -> n.type = FILE_DELETE ->
    forall arg, Effect.startDownload arg ∈
      (comparePass myip entries table).2 -> arg.filename ≠ n.name
  noNode : forall n, n ∈ entries -> n.type = FILE_DELETE ->
    forall m, lookup Node.name n.name (comparePass myip entries table).1 =
      some m -> m.type = FILE_DOWNLOADING ->
        lookup Node.name n.name table = some m
  settled : comparePass myip entries (comparePass myip entries table).1 =
    ((comparePass myip entries table).1, [])

theorem compareEntry_tombstone {myip : Ip} {seekNode n : Node}
    (h : seekNode.type = FILE_DELETE) :
    ((compareEntry myip seekNode (some n)).2 = none ∧
        (compareEntry myip seekNode (some n)).1 = some n) ∨
      ((compareEntry myip seekNode (some n)).2 =
          some (Effect.removeFile seekNode.name) ∧
        (compareEntry myip seekNode (some n)).1 =
          some { n with type := FILE_DELETE }) := by
  have hwants : wantsDownload n seekNode ≠ true := by
    intro hwants
    exact (wantsDownload_iff.mp hwants).right.right.left h
  cases Classical.em (WantsRemoval n seekNode) with
  | inl hremoval =>
      rw [compareEntry_of_wantsRemoval hremoval]
      exact Or.inr ⟨rfl, rfl⟩
  | inr hremoval =>
      rw [compareEntry_of_neither hwants hremoval]
      exact Or.inl ⟨rfl, rfl⟩

theorem settlesInOnePass_iff_of_nodup {myip : Ip} {entries table : List Node}
    (h : (entries.map Node.name).Nodup) :
    SettlesInOnePass myip entries table <->
      forall n, n ∈ entries -> n.type = FILE_DELETE -> n.size ≠ 0 ->
        n.name ∈ table.map Node.name := by
  constructor
  · intro hsettles n hn hdelete hsize
    by_contra hunknown
    have hnone : lookup Node.name n.name table = none :=
      lookup_eq_none_iff.mpr hunknown
    have heffect : Effect.startDownload (downloadArg n.name n) ∈
        (comparePass myip entries table).2 := by
      refine (mem_effects_comparePass h).mpr ⟨n, hn, ?_⟩
      rw [hnone, compareEntry_unknown, if_neg hsize]
    exact hsettles.noDownload n hn hdelete _ heffect rfl
  · intro hknown
    -- the node of a tombstone's file, before and after
    have htombstone : forall n, n ∈ entries -> n.type = FILE_DELETE ->
        (exists m, lookup Node.name n.name table = some m) ∨
          (lookup Node.name n.name table = none ∧ n.size = 0) := by
      intro n hn hdelete
      cases hlookup : lookup Node.name n.name table with
      | some m => exact Or.inl ⟨m, rfl⟩
      | none =>
          right
          refine ⟨rfl, ?_⟩
          by_contra hsize
          exact lookup_eq_none_iff.mp hlookup (hknown n hn hdelete hsize)
    constructor
    · intro n hn hdelete arg harg hname
      rcases (mem_effects_comparePass h).mp harg with ⟨other, hother, he⟩
      rcases compareEntry_effect he with heq | heq
      · cases heq
        have hsame : other = n := List.inj_on_of_nodup_map h hother hn hname
        subst hsame
        rcases htombstone other hn hdelete with ⟨old, hold⟩ | ⟨hnone, hsize⟩
        · rw [hold] at he
          rcases @compareEntry_tombstone myip other old hdelete with
            ⟨heffect, _⟩ | ⟨heffect, _⟩
          · rw [heffect] at he
            cases he
          · rw [heffect] at he
            cases he
        · rw [hnone, compareEntry_unknown, if_pos hsize] at he
          cases he
      · cases heq
    · intro n hn hdelete m hm hdownloading
      rw [lookup_comparePass h, lookup_of_mem h hn] at hm
      dsimp only at hm
      rcases htombstone n hn hdelete with ⟨old, hold⟩ | ⟨hnone, hsize⟩
      · rw [hold] at hm ⊢
        rcases @compareEntry_tombstone myip n old hdelete with
          ⟨_, hnode⟩ | ⟨_, hnode⟩
        · exact hnode.symm.trans hm
        · rw [hnode] at hm
          cases hm
          exact absurd (show FILE_DELETE = FILE_DOWNLOADING from hdownloading)
            (by decide)
      · rw [hnone, compareEntry_unknown, if_pos hsize] at hm
        cases hm
    · apply comparePass_of_no_effect
      intro n hn
      rw [lookup_comparePass h, lookup_of_mem h hn]
      apply compareEntry_twice
      intro hdelete hnone
      rcases htombstone n hn hdelete with ⟨m, hm⟩ | ⟨_, hsize⟩
      · rw [hnone] at hm
        cases hm
      · exact hsize

/-- A pass over a table of the tracker fetches no deleted file, and leaves
nothing for a second pass, exactly when the peer knows every deleted file whose
tombstone has a size. -/
theorem settlesInOnePass_iff {myip : Ip} {ft : FileTable} {table : List Node}
    (h : Reachable Tracker.tableStep unguarded none ft) :
    SettlesInOnePass myip ft.nodes table <->
      forall n, n ∈ ft.nodes -> n.type = FILE_DELETE -> n.size ≠ 0 ->
        n.name ∈ table.map Node.name :=
  settlesInOnePass_iff_of_nodup (Tracker.wellFormed_of_reachable h).names

theorem known_tombstone_settlesInOnePass :
    SettlesInOnePass Sample.ipA
      [Sample.node Sample.ipB Sample.fileA 200 5 FILE_DELETE]
      [Sample.node Sample.ipA Sample.fileA 100 5 FILE_CREATE] := by
  have hreach : Reachable Tracker.tableStep unguarded none
      (Tracker.mergeNode none
        (Sample.node Sample.ipB Sample.fileA 200 5 FILE_DELETE)) :=
    Reachable.step (a := Tracker.TableAction.update
      [Sample.node Sample.ipB Sample.fileA 200 5 FILE_DELETE])
      Reachable.start trivial rfl
  exact (settlesInOnePass_iff hreach).mpr (by decide)

/-- A peer that has just registered starts to download a deleted file, and
deletes it in the next pass. -/
theorem registered_peer_fetches_deleted_file :
    exists ft, Reachable Tracker.tableStep unguarded none ft ∧
      (comparePass Sample.ipA ft.nodes []).2 =
        [Effect.startDownload (downloadArg Sample.fileA
          (Sample.node Sample.ipB Sample.fileA 200 5 FILE_DELETE))] ∧
      (comparePass Sample.ipA ft.nodes
          (comparePass Sample.ipA ft.nodes []).1).2 =
        [Effect.removeFile Sample.fileA] ∧
      ¬ SettlesInOnePass Sample.ipA ft.nodes [] := by
  have hreach : Reachable Tracker.tableStep unguarded none
      (Tracker.mergeNode none
        (Sample.node Sample.ipB Sample.fileA 200 5 FILE_DELETE)) :=
    Reachable.step (a := Tracker.TableAction.update
      [Sample.node Sample.ipB Sample.fileA 200 5 FILE_DELETE])
      Reachable.start trivial rfl
  refine ⟨_, hreach, by decide, by decide, ?_⟩
  intro h
  have hsettled := congrArg Prod.snd h.settled
  exact absurd hsettled (by decide)

end Peer
end DartSync
