import DartSync.Peer.Compare

/-!
# The version order of peer and tracker

`compareNode` on a peer and `update_filetable` on the tracker each compare
versions by their own chain of conditions.  Downloads follow the order of the
tracker, for entries that are not empty; deletions follow its timestamps.
-/

namespace DartSync
namespace Peer

open Foundation

def Replaces (new old : Node) : Prop :=
  (Tracker.updateEntry new old).version ≠ old.version

theorem replaces_iff {new old : Node} :
    Replaces new old <-> old.version < new.version := by
  rw [Replaces, Tracker.updateEntry_version, ne_eq, max_eq_left_iff, not_le]

theorem timestamp_le_of_not_replaces {new old : Node}
    (h : ¬ Replaces old new) : old.timestamp ≤ new.timestamp := by
  rw [replaces_iff, not_lt] at h
  exact versionOf_timestamp_le h

section CompareNode

variable {myip : Ip} {table : List Node} {current seekNode : Node}

theorem startsDownload_iff
    (h : lookup Node.name seekNode.name table = some current) :
    (exists arg, (compareNode myip seekNode table).2 =
        some (Effect.startDownload arg)) <->
      wantsDownload current seekNode = true := by
  rw [compareNode_effect_eq h]
  constructor
  · intro hstart
    rcases hstart with ⟨arg, harg⟩
    by_contra hwants
    cases Classical.em (WantsRemoval current seekNode) with
    | inl hremoval =>
        rw [compareEntry_of_wantsRemoval hremoval] at harg
        cases harg
    | inr hremoval =>
        rw [compareEntry_of_neither hwants hremoval] at harg
        cases harg
  · intro hwants
    exact ⟨_, congrArg Prod.snd (compareEntry_of_wantsDownload hwants)⟩

theorem removesFile_iff
    (h : lookup Node.name seekNode.name table = some current) :
    (compareNode myip seekNode table).2 =
        some (Effect.removeFile seekNode.name) <->
      WantsRemoval current seekNode := by
  rw [compareNode_effect_eq h]
  constructor
  · intro hremove
    by_contra hremoval
    cases Classical.em (wantsDownload current seekNode = true) with
    | inl hwants =>
        rw [compareEntry_of_wantsDownload hwants] at hremove
        cases hremove
    | inr hwants =>
        rw [compareEntry_of_neither hwants hremoval] at hremove
        cases hremove
  · intro hremoval
    exact congrArg Prod.snd (compareEntry_of_wantsRemoval hremoval)

/-- Downloads follow the tracker's version order on entries that are not
empty.  A deletion wins against every version that is not newer, and never
against a newer timestamp. -/
theorem compareNode_follows_version_order
    (h : lookup Node.name seekNode.name table = some current)
    (hidle : current.type ≠ FILE_DOWNLOADING) :
    ((exists arg, (compareNode myip seekNode table).2 =
        some (Effect.startDownload arg)) <->
      seekNode.type ≠ FILE_DELETE ∧ seekNode.size ≠ 0 ∧
        Replaces seekNode current) ∧
    ((compareNode myip seekNode table).2 =
        some (Effect.removeFile seekNode.name) ->
      seekNode.type = FILE_DELETE ∧ current.type ≠ FILE_DELETE ∧
        current.timestamp ≤ seekNode.timestamp) ∧
    (seekNode.type = FILE_DELETE -> current.type ≠ FILE_DELETE ->
      ¬ Replaces current seekNode ->
      (compareNode myip seekNode table).2 =
        some (Effect.removeFile seekNode.name)) ∧
    ((forall arg, (compareNode myip seekNode table).2 ≠
        some (Effect.startDownload arg)) ->
      (compareNode myip seekNode table).2 ≠
        some (Effect.removeFile seekNode.name) ->
      compareNode myip seekNode table = (table, none)) := by
  refine ⟨?_, ?_, ?_, ?_⟩
  · rw [startsDownload_iff h, wantsDownload_iff, replaces_iff]
    tauto
  · exact (removesFile_iff h).mp
  · intro hdelete hlive hnot
    exact (removesFile_iff h).mpr
      ⟨hdelete, hlive, timestamp_le_of_not_replaces hnot⟩
  · intro hstart hremove
    have hnone : (compareNode myip seekNode table).2 = none := by
      cases heffect : (compareNode myip seekNode table).2 with
      | none => rfl
      | some e =>
          rcases compareNode_effect heffect with rfl | rfl
          · exact absurd heffect (hstart _)
          · exact absurd heffect hremove
    exact Prod.ext (compareNode_of_no_effect hnone) hnone

end CompareNode

theorem newer_version_follows_version_order :
    (exists arg, (compareNode Sample.ipA
        (Sample.node Sample.ipB Sample.fileA 200 6 FILE_MODIFY)
        [Sample.node Sample.ipA Sample.fileA 100 5 FILE_CREATE]).2 =
      some (Effect.startDownload arg)) ∧
    (compareNode Sample.ipA
        (Sample.node Sample.ipB Sample.fileA 100 5 FILE_DELETE)
        [Sample.node Sample.ipA Sample.fileA 100 5 FILE_CREATE]).2 =
      some (Effect.removeFile Sample.fileA) := by
  have hnewer := @compareNode_follows_version_order Sample.ipA
    [Sample.node Sample.ipA Sample.fileA 100 5 FILE_CREATE]
    (Sample.node Sample.ipA Sample.fileA 100 5 FILE_CREATE)
    (Sample.node Sample.ipB Sample.fileA 200 6 FILE_MODIFY) rfl (by decide)
  have hdeletion := @compareNode_follows_version_order Sample.ipA
    [Sample.node Sample.ipA Sample.fileA 100 5 FILE_CREATE]
    (Sample.node Sample.ipA Sample.fileA 100 5 FILE_CREATE)
    (Sample.node Sample.ipB Sample.fileA 100 5 FILE_DELETE) rfl (by decide)
  constructor
  · apply hnewer.left.mpr
    refine ⟨by decide, by decide, ?_⟩
    unfold Replaces
    decide
  · apply hdeletion.right.right.left (by decide) (by decide)
    unfold Replaces
    decide

/-- A newer version without bytes is not downloaded; and a tombstone of the
same second deletes a file that `update_filetable` would put in its place. -/
theorem empty_version_and_tie_differ :
    (Replaces (Sample.node Sample.ipB Sample.fileA 200 0 FILE_MODIFY)
        (Sample.node Sample.ipA Sample.fileA 100 5 FILE_CREATE) ∧
      compareNode Sample.ipA
          (Sample.node Sample.ipB Sample.fileA 200 0 FILE_MODIFY)
          [Sample.node Sample.ipA Sample.fileA 100 5 FILE_CREATE] =
        ([Sample.node Sample.ipA Sample.fileA 100 5 FILE_CREATE], none)) ∧
    (Replaces (Sample.node Sample.ipA Sample.fileA 100 5 FILE_CREATE)
        (Sample.node Sample.ipB Sample.fileA 100 3 FILE_DELETE) ∧
      (compareNode Sample.ipA
          (Sample.node Sample.ipB Sample.fileA 100 3 FILE_DELETE)
          [Sample.node Sample.ipA Sample.fileA 100 5 FILE_CREATE]).2 =
        some (Effect.removeFile Sample.fileA)) := by
  unfold Replaces
  decide

end Peer
end DartSync
