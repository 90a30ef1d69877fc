import Mathlib.Data.List.Perm.Basic
import DartSync.Peer.Calls

/-!
# Running downloads

A running `ptp_download` is protected by the type `FILE_DOWNLOADING` of its
node alone.  As long as nothing deletes a file that is being downloaded, there
is one download per file, and each ends with the version it was started for.
-/

namespace DartSync
namespace Peer

open Foundation

/-- Every running download has a file, and the node of its file, to itself. -/
structure Marked (s : Shared) : Prop where
  distinct : (s.running.map DownloadArg.filename).Nodup
  downloading : forall arg, arg ∈ s.running ->
    exists n, s.node arg.filename = some n ∧ n.type = FILE_DOWNLOADING ∧
      n.timestamp = arg.timestamp ∧ n.size = arg.size

/-- The call does not delete a file that is being downloaded: it is no
tombstone at least as new as the download and no handled `IN_DELETE`. -/
def KeepsDownloads (s : Shared) : Call -> Prop
  | Call.compare seekNode =>
      seekNode.type = FILE_DELETE ->
        forall arg, arg ∈ s.running -> arg.filename = seekNode.name ->
          seekNode.timestamp < arg.timestamp
  | Call.event _ _ event =>
      event.kind = EventKind.delete -> passesFilter event = true ->
        forall arg, arg ∈ s.running -> arg.filename ≠ event.name
  | Call.complete _ => True

/-!
## Calls that leave a running download alone
-/

theorem compareEntry_of_downloading {myip : Ip} {seekNode n : Node}
    (htype : n.type = FILE_DOWNLOADING)
    (h : seekNode.type = FILE_DELETE -> seekNode.timestamp < n.timestamp) :
    compareEntry myip seekNode (some n) = (some n, none) := by
  apply compareEntry_of_neither
  · intro hwants
    exact (wantsDownload_iff.mp hwants).right.left htype
  · intro hremoval
    exact absurd (h hremoval.left) (UInt64.not_lt.mpr hremoval.right.right)

theorem notifyNode_of_downloading {myip : Ip} {now : UInt64}
    {stat? : Option FileStat} {event : Event} {n : Node}
    (htype : n.type = FILE_DOWNLOADING)
    (h : event.kind = EventKind.delete -> passesFilter event ≠ true) :
    notifyNode myip now stat? event (some n) = (some n, false) := by
  have hlive : n.type ≠ FILE_DELETE := by
    rw [htype]
    decide
  unfold notifyNode
  split
  · next hfilter =>
      cases hkind : event.kind with
      | create =>
          cases stat? with
          | none => rfl
          | some stat =>
              dsimp only
              rw [addedNode, if_pos hlive, if_pos htype]
      | modify =>
          cases stat? with
          | none => rfl
          | some stat =>
              dsimp only
              rw [modifiedNode, if_pos htype]
      | delete => exact absurd hfilter (h hkind)
  · rfl

namespace Marked

variable {myip : Ip} {s s' : Shared}

theorem fresh : Marked Shared.fresh where
  distinct := List.nodup_nil
  downloading := by
    intro arg harg
    cases harg

theorem compare_of_running (h : Marked s) {seekNode : Node}
    (hguard : KeepsDownloads s (Call.compare seekNode)) {arg : DownloadArg}
    (harg : arg ∈ s.running) (hname : arg.filename = seekNode.name) :
    (compareNode myip seekNode s.table).2 = none ∧
      (s.compare myip seekNode).node seekNode.name =
        s.node seekNode.name := by
  rcases h.downloading arg harg with ⟨n, hn, htype, htime, _⟩
  have hentry := @Shared.compare_node_self myip s seekNode
  rw [hname] at hn
  rw [hn, compareEntry_of_downloading htype] at hentry
  · rw [Prod.mk.injEq] at hentry
    exact ⟨hentry.right, hentry.left.trans hn.symm⟩
  · intro hdelete
    rw [htime]
    exact hguard hdelete arg harg hname

theorem compare (h : Marked s) {seekNode : Node}
    (hguard : KeepsDownloads s (Call.compare seekNode)) :
    Marked (s.compare myip seekNode) := by
  -- a node of a running download's file stays as it is
  have hold : forall arg, arg ∈ s.running ->
      exists n, (s.compare myip seekNode).node arg.filename = some n ∧
        n.type = FILE_DOWNLOADING ∧ n.timestamp = arg.timestamp ∧
        n.size = arg.size := by
    intro arg harg
    rcases h.downloading arg harg with ⟨n, hn, hrest⟩
    refine ⟨n, ?_, hrest⟩
    cases Classical.em (arg.filename = seekNode.name) with
    | inl hname =>
        rw [hname, (h.compare_of_running hguard harg hname).right, ← hname]
        exact hn
    | inr hname =>
        rw [Shared.compare_node_of_ne hname]
        exact hn
  rcases @Shared.compare_running_cases myip s seekNode with
    hrunning | ⟨started, heffect⟩
  · constructor
    · rw [hrunning]
      exact h.distinct
    · rw [hrunning]
      exact hold
  · rcases Shared.compare_started heffect with ⟨rfl, hrunning, n, hn, hnew⟩
    have hother : forall arg, arg ∈ s.running ->
        arg.filename ≠ seekNode.name := by
      intro arg harg hname
      rw [(h.compare_of_running hguard harg hname).left] at heffect
      cases heffect
    constructor
    · rw [hrunning, List.map_append, List.map_singleton]
      apply nodup_concat h.distinct
      intro hmem
      rcases List.mem_map.mp hmem with ⟨arg, harg, hname⟩
      exact hother arg harg hname
    · intro arg harg
      rw [hrunning, List.mem_append, List.mem_singleton] at harg
      rcases harg with harg | rfl
      · exact hold arg harg
      · exact ⟨n, hn, hnew⟩

theorem handle (h : Marked s) {now : UInt64} {stat? : Option FileStat}
    {event : Event} (hguard : KeepsDownloads s (Call.event now stat? event)) :
    Marked (s.handle myip now stat? event) where
  distinct := h.distinct
  downloading := by
    intro arg harg
    rcases h.downloading arg harg with ⟨n, hn, hrest⟩
    refine ⟨n, ?_, hrest⟩
    cases Classical.em (arg.filename = event.name) with
    | inl hname =>
        have hnode := @Shared.handle_node_self myip s now stat? event
        rw [← hname, hn, notifyNode_of_downloading hrest.left] at hnode
        · exact congrArg Prod.fst hnode
        · intro hkind hfilter
          exact hguard hkind hfilter arg harg hname
    | inr hname =>
        rw [Shared.handle_node_of_ne hname]
        exact hn

theorem complete (h : Marked s) {index : Nat}
    (hcomplete : s.complete index = some s') : Marked s' := by
  rcases Shared.complete_eq_some_iff.mp hcomplete with ⟨arg, harg, heq⟩
  have hrunning : s'.running = s.running.eraseIdx index := by
    rw [← heq]
  rcases List.getElem?_eq_some_iff.mp harg with ⟨hindex, hget⟩
  have hperm := List.getElem_cons_eraseIdx_perm hindex
  rw [hget] at hperm
  have hnodup : (arg.filename ::
      (s.running.eraseIdx index).map DownloadArg.filename).Nodup := by
    rw [← List.map_cons]
    exact (hperm.map _).nodup_iff.mpr h.distinct
  rw [List.nodup_cons] at hnodup
  constructor
  · rw [hrunning]
    exact hnodup.right
  · intro other hother
    rw [hrunning] at hother
    rcases h.downloading other (List.mem_of_mem_eraseIdx hother) with
      ⟨n, hn, hrest⟩
    refine ⟨n, ?_, hrest⟩
    rw [Shared.complete_node_of_ne harg hcomplete]
    · exact hn
    · intro hname
      exact hnodup.left (hname ▸ List.mem_map_of_mem hother)

theorem call (h : Marked s) {a : Call} (hguard : KeepsDownloads s a)
    (hcall : Peer.call myip s a = some s') : Marked s' := by
  cases a with
  | compare seekNode =>
      cases hcall
      exact h.compare hguard
  | event now stat? event =>
      rcases call_event_eq_some_iff.mp hcall with ⟨_, rfl⟩
      exact h.handle hguard
  | complete index => exact h.complete hcall

theorem of_reachable {myip : Ip} {s : Shared}
    (h : Reachable (Peer.call myip) KeepsDownloads Shared.fresh s) :
    Marked s :=
  h.invariant fresh fun _ _ _ hs hguard hcall => hs.call hguard hcall

end Marked

/-!
## One download per file
-/

/-- No file is downloaded twice at a time, and a download that ends now marks
a node with the version it was started for. -/
structure Exclusive (s : Shared) : Prop where
  distinct : (s.running.map DownloadArg.filename).Nodup
  version : forall index arg s', s.running[index]? = some arg ->
    s.complete index = some s' ->
      exists n, s'.node arg.filename = some n ∧ n.type = FILE_DOWNLOAD ∧
        n.timestamp = arg.timestamp ∧ n.size = arg.size

theorem Marked.exclusive {s : Shared} (h : Marked s) : Exclusive s where
  distinct := h.distinct
  version := by
    intro index arg s' harg hcomplete
    rcases h.downloading arg (List.mem_of_getElem? harg) with
      ⟨n, hn, _, htime, _⟩
    refine ⟨{ n with type := FILE_DOWNLOAD, size := arg.size }, ?_, rfl,
      htime, rfl⟩
    rw [Shared.complete_node_self harg hcomplete, hn]
    rfl

/-- In every run that deletes no file while it is being downloaded. -/
theorem reachable_exclusive {myip : Ip} {s : Shared}
    (h : Reachable (call myip) KeepsDownloads Shared.fresh s) :
    Exclusive s :=
  (Marked.of_reachable h).exclusive

theorem downloads_exclusive_again :
    exists s, Reachable (call Sample.ipA) KeepsDownloads Shared.fresh s ∧
      s.running.map (fun arg => (arg.filename, arg.timestamp)) =
        [(Sample.fileB, 100), (Sample.fileA, 200)] ∧ Exclusive s := by
  have hkeeps : forall (s : Shared) (seekNode : Node),
      seekNode.type ≠ FILE_DELETE ->
        KeepsDownloads s (Call.compare seekNode) := by
    intro s seekNode htype hdelete
    exact absurd hdelete htype
  have hboth : Reachable (call Sample.ipA) KeepsDownloads Shared.fresh _ :=
    Reachable.step (a := Call.compare
        (Sample.node Sample.ipB Sample.fileB 100 1 FILE_CREATE))
      (Reachable.step (a := Call.compare
          (Sample.node Sample.ipB Sample.fileA 100 5 FILE_CREATE))
        Reachable.start (hkeeps _ _ (by decide)) rfl)
      (hkeeps _ _ (by decide)) rfl
  have hended := Reachable.step (a := Call.complete 0) hboth trivial rfl
  have hdeleted := Reachable.step (a := Call.event 150 none
      { kind := EventKind.delete, name := Sample.fileA }) hended (by
    intro _ _ arg harg
    rw [List.mem_singleton.mp harg]
    decide) rfl
  have hagain := Reachable.step (a := Call.compare
      (Sample.node Sample.ipB Sample.fileA 200 6 FILE_MODIFY)) hdeleted
    (hkeeps _ _ (by decide)) rfl
  exact ⟨_, hagain, by decide, reachable_exclusive hagain⟩

/-- The user deletes a file that is being downloaded.  If a newer version is
announced then, two downloads write to the same file; if not, the download
marks a node that has the time of the deletion. -/
theorem overlapping_downloads_reachable :
    (exists s, Reachable (call Sample.ipA) unguarded Shared.fresh s ∧
      ¬ (s.running.map DownloadArg.filename).Nodup) ∧
    exists s, Reachable (call Sample.ipA) unguarded Shared.fresh s ∧
      s.running.map DownloadArg.timestamp = [100] ∧
      ((s.complete 0).bind fun s' => s'.node Sample.fileA).map
          (fun n => (n.type, n.timestamp)) = some (FILE_DOWNLOAD, 150) := by
  constructor
  · exact exists_reachable_of_check (call Sample.ipA) Shared.fresh
      [Call.compare (Sample.node Sample.ipB Sample.fileA 100 5 FILE_CREATE),
        Call.event 150 none { kind := EventKind.delete, name := Sample.fileA },
        Call.compare (Sample.node Sample.ipB Sample.fileA 200 6 FILE_MODIFY)]
      (fun s => ¬ (s.running.map DownloadArg.filename).Nodup) (by decide)
  · exact exists_reachable_of_check (call Sample.ipA) Shared.fresh
      [Call.compare (Sample.node Sample.ipB Sample.fileA 100 5 FILE_CREATE),
        Call.event 150 none { kind := EventKind.delete, name := Sample.fileA }]
      (fun s => s.running.map DownloadArg.timestamp = [100] ∧
        ((s.complete 0).bind fun s' => s'.node Sample.fileA).map
          (fun n => (n.type, n.timestamp)) = some (FILE_DOWNLOAD, 150))
      (by decide)

end Peer
end DartSync
