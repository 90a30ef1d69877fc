import DartSync.Peer.Echo

/-!
# Deletions

What keeps a deleted file deleted: the end of a download that was running when
the file was deleted, and the monitor's view of a file that `compareNode` has
removed.
-/

namespace DartSync
namespace Peer

open Foundation

/-!
## A deletion and a running download
-/

/-- The node of `f` becomes `FILE_DELETE`: `compareNode` finds a tombstone that
is not older, or an `IN_DELETE` is handled. -/
def Deletes (f : FileName) (s : Shared) : Call -> Prop
  | Call.compare seekNode =>
      seekNode.name = f ∧ seekNode.type = FILE_DELETE ∧
        forall n, s.node f = some n -> n.timestamp ≤ seekNode.timestamp
  | Call.event _ _ event =>
      event.name = f ∧ event.kind = EventKind.delete ∧
        passesFilter event = true
  | Call.complete _ => False

/-- The node of `f` is not left `FILE_DELETE`: `compareNode` starts a download,
an event of a file that is there is handled, or a download ends. -/
def Restores (f : FileName) (s : Shared) : Call -> Prop
  | Call.compare seekNode =>
      seekNode.name = f ∧
        exists n, s.node f = some n ∧ wantsDownload n seekNode = true
  | Call.event _ stat? event =>
      event.name = f ∧ event.kind ≠ EventKind.delete ∧
        passesFilter event = true ∧ stat? ≠ none
  | Call.complete index =>
      exists arg, s.running[index]? = some arg ∧ arg.filename = f

def Deleted (f : FileName) (s : Shared) : Prop :=
  exists n, s.node f = some n ∧ n.type = FILE_DELETE

theorem compareEntry_deleted_iff (myip : Ip) (seekNode n : Node) :
    exists n', (compareEntry myip seekNode (some n)).1 = some n' ∧
      (n'.type = FILE_DELETE <->
        (seekNode.type = FILE_DELETE ∧ n.timestamp ≤ seekNode.timestamp) ∨
          (n.type = FILE_DELETE ∧ wantsDownload n seekNode ≠ true)) := by
  cases Classical.em (wantsDownload n seekNode = true) with
  | inl hwants =>
      have hlive := (wantsDownload_iff.mp hwants).right.right.left
      rw [compareEntry_of_wantsDownload hwants]
      refine ⟨_, rfl, ?_⟩
      constructor
      · intro htype
        exact absurd (show FILE_DOWNLOADING = FILE_DELETE from htype)
          (by decide)
      · intro h
        rcases h with h | h
        · exact absurd h.left hlive
        · exact absurd hwants h.right
  | inr hwants =>
      cases Classical.em (WantsRemoval n seekNode) with
      | inl hremoval =>
          rw [compareEntry_of_wantsRemoval hremoval]
          exact ⟨_, rfl, by simp [hremoval.left, hremoval.right.right]⟩
      | inr hremoval =>
          rw [compareEntry_of_neither hwants hremoval]
          refine ⟨n, rfl, ?_⟩
          unfold WantsRemoval at hremoval
          tauto

theorem addedNode_live (fileInfo : FileInfo) (n : Node) :
    (addedNode fileInfo n).1.type ≠ FILE_DELETE := by
  unfold addedNode
  split
  · next hlive =>
      repeat' split
      · exact hlive
      · change FILE_MODIFY ≠ FILE_DELETE
        decide
      · exact hlive
  · change FILE_CREATE ≠ FILE_DELETE
    decide

theorem modifiedNode_live (fileInfo : FileInfo) (n : Node) :
    (modifiedNode fileInfo n).1.type ≠ FILE_DELETE := by
  unfold modifiedNode
  repeat' split
  · next htype =>
      rw [htype]
      decide
  · change FILE_MODIFY ≠ FILE_DELETE
    decide
  · change FILE_MODIFY ≠ FILE_DELETE
    decide

theorem notifyNode_deleted_iff {myip : Ip} {now : UInt64}
    {stat? : Option FileStat} {event : Event} {n : Node} :
    exists n', (notifyNode myip now stat? event (some n)).1 = some n' ∧
      (n'.type = FILE_DELETE <->
        (event.kind = EventKind.delete ∧ passesFilter event = true) ∨
          (n.type = FILE_DELETE ∧ ¬ (event.kind ≠ EventKind.delete ∧
            passesFilter event = true ∧ stat? ≠ none))) := by
  cases event with
  | mk kind f =>
      cases hpasses : passesFilter { kind := kind, name := f } with
      | false =>
          rw [notifyNode_of_filtered hpasses]
          exact ⟨n, rfl, by simp⟩
      | true =>
          cases kind with
          | delete =>
              rw [notifyNode_delete hpasses]
              exact ⟨_, rfl, by simp [deletedNode]⟩
          | create =>
              cases stat? with
              | none =>
                  refine ⟨n, ?_, by simp⟩
                  simp [notifyNode]
              | some stat =>
                  rw [notifyNode_create hpasses]
                  exact ⟨_, rfl, by simp [addedNode_live]⟩
          | modify =>
              cases stat? with
              | none =>
                  refine ⟨n, ?_, by simp⟩
                  simp [notifyNode]
              | some stat =>
                  rw [notifyNode_modify hpasses]
                  exact ⟨_, rfl, by simp [modifiedNode_live]⟩

theorem call_deleted_iff {myip : Ip} {s s' : Shared} {f : FileName}
    {a : Call} (hnode : s.node f ≠ none) (hcall : call myip s a = some s') :
    s'.node f ≠ none ∧
      (Deleted f s' <-> Deletes f s a ∨ (Deleted f s ∧ ¬ Restores f s a)) := by
  rcases Option.ne_none_iff_exists'.mp hnode with ⟨n, hn⟩
  -- it is enough to follow the type of the node
  have hfollow : forall n', s'.node f = some n' ->
      (n'.type = FILE_DELETE <->
        Deletes f s a ∨ (n.type = FILE_DELETE ∧ ¬ Restores f s a)) ->
      s'.node f ≠ none ∧
        (Deleted f s' <-> Deletes f s a ∨ (Deleted f s ∧ ¬ Restores f s a)) := by
    intro n' hn' htype
    have hbefore : Deleted f s <-> n.type = FILE_DELETE := by
      simp [Deleted, hn]
    have hafter : Deleted f s' <-> n'.type = FILE_DELETE := by
      simp [Deleted, hn']
    rw [hbefore, hafter]
    exact ⟨by simp [hn'], htype⟩
  cases a with
  | compare seekNode =>
      cases hcall
      cases Classical.em (seekNode.name = f) with
      | inl hname =>
          subst hname
          have hself := congrArg Prod.fst
            (@Shared.compare_node_self myip s seekNode)
          rw [hn] at hself
          rcases compareEntry_deleted_iff myip seekNode n with
            ⟨n', hn', htype⟩
          apply hfollow n' (hself.trans hn')
          rw [htype]
          simp [Deletes, Restores, hn]
      | inr hname =>
          apply hfollow n
          · rw [Shared.compare_node_of_ne (Ne.symm hname)]
            exact hn
          · simp [Deletes, Restores, hname]
  | event now stat? event =>
      rcases call_event_eq_some_iff.mp hcall with ⟨_, rfl⟩
      cases Classical.em (event.name = f) with
      | inl hname =>
          subst hname
          have hself := congrArg Prod.fst
            (@Shared.handle_node_self myip s now stat? event)
          rw [hn] at hself
          rcases @notifyNode_deleted_iff myip now stat? event n with
            ⟨n', hn', htype⟩
          apply hfollow n' (hself.trans hn')
          rw [htype]
          simp [Deletes, Restores]
      | inr hname =>
          apply hfollow n
          · rw [Shared.handle_node_of_ne (Ne.symm hname)]
            exact hn
          · simp [Deletes, Restores, hname]
  | complete index =>
      rcases Shared.complete_eq_some_iff.mp hcall with ⟨arg, harg, _⟩
      cases Classical.em (arg.filename = f) with
      | inl hname =>
          subst hname
          have hself := Shared.complete_node_self harg hcall
          rw [hn] at hself
          apply hfollow _ hself
          simp [Deletes, Restores, harg, FILE_DOWNLOAD, FILE_DELETE]
      | inr hname =>
          apply hfollow n
          · rw [Shared.complete_node_of_ne harg hcall (Ne.symm hname)]
            exact hn
          · simp [Deletes, Restores, harg, hname]

theorem running_node {myip : Ip} {s : Shared}
    (h : Reachable (call myip) unguarded Shared.fresh s) {arg : DownloadArg}
    (harg : arg ∈ s.running) : s.node arg.filename ≠ none := by
  refine h.invariant (P := fun s : Shared => forall arg, arg ∈ s.running ->
    s.node arg.filename ≠ none) ?_ ?_ arg harg
  · intro arg harg
    cases harg
  · intro s a s' hs _ hcall arg harg
    cases Classical.em (arg ∈ s.running) with
    | inl hmem => exact (call_deleted_iff (hs arg hmem) hcall).left
    | inr hmem =>
        cases a with
        | compare seekNode =>
            cases hcall
            rcases @Shared.compare_running_cases myip s seekNode with
              hrunning | ⟨started, heffect⟩
            · rw [hrunning] at harg
              exact absurd harg hmem
            · rcases Shared.compare_started heffect with
                ⟨rfl, hrunning, n, hn, _⟩
              rw [hrunning, List.mem_append, List.mem_singleton] at harg
              rcases harg with harg | rfl
              · exact absurd harg hmem
              · rw [show (downloadArg seekNode.name seekNode).filename =
                  seekNode.name from rfl, hn]
                simp
        | event now stat? event =>
            rcases call_event_eq_some_iff.mp hcall with ⟨_, rfl⟩
            exact absurd harg hmem
        | complete index =>
            rcases Shared.complete_eq_some_iff.mp hcall with ⟨_, _, rfl⟩
            exact absurd (List.mem_of_mem_eraseIdx harg) hmem

/-- Whatever happened to the node of a file while a download of it was
running, some time after the download has ended the node is `FILE_DELETE`
exactly when the file has been deleted once more. -/
theorem deleted_after_download_iff {myip : Ip} {s s1 s2 : Shared}
    {index : Nat} {arg : DownloadArg} {later : List Call}
    (hreach : Reachable (call myip) unguarded Shared.fresh s)
    (harg : s.running[index]? = some arg)
    (hend : call myip s (Call.complete index) = some s1)
    (hrun : runFrom (call myip) s1 later = some s2) :
    Deleted arg.filename s2 <->
      SetLast (call myip) (Deletes arg.filename) (Restores arg.filename) s1
        later := by
  have hnode := running_node hreach (List.mem_of_getElem? harg)
  rcases call_deleted_iff hnode hend with ⟨hnode1, hdeleted1⟩
  apply holds_iff_setLast (I := fun s : Shared => s.node arg.filename ≠ none)
    _ hnode1 hrun
  · rw [hdeleted1]
    intro h
    rcases h with h | h
    · exact h
    · exact h.right ⟨arg, harg, rfl⟩
  · intro s a s' hs hcall
    exact call_deleted_iff hs hcall

theorem second_deletion_deleted :
    exists s s2,
      runFrom (call Sample.ipA) Shared.fresh
          [Call.compare (Sample.node Sample.ipB Sample.fileA 100 5 FILE_CREATE),
            Call.compare
              (Sample.node Sample.ipB Sample.fileA 200 5 FILE_DELETE)] =
        some s ∧
      s.running.length = 1 ∧ Deleted Sample.fileA s ∧
      runFrom (call Sample.ipA) s
          [Call.complete 0,
            Call.event 210 (some { size := 5, mtime := 210 })
              { kind := EventKind.modify, name := Sample.fileA },
            Call.event 250 none
              { kind := EventKind.delete, name := Sample.fileA }] = some s2 ∧
        Deleted Sample.fileA s2 := by
  have hrun : runFrom (call Sample.ipA) Shared.fresh
      [Call.compare (Sample.node Sample.ipB Sample.fileA 100 5 FILE_CREATE),
        Call.compare (Sample.node Sample.ipB Sample.fileA 200 5 FILE_DELETE)] =
      some _ := rfl
  refine ⟨_, _, hrun, by decide, ⟨_, rfl, by decide⟩, rfl, ?_⟩
  refine (@deleted_after_download_iff Sample.ipA _ _ _ 0
    (downloadArg Sample.fileA
      (Sample.node Sample.ipB Sample.fileA 100 5 FILE_CREATE))
    [Call.event 210 (some { size := 5, mtime := 210 })
        { kind := EventKind.modify, name := Sample.fileA },
      Call.event 250 none { kind := EventKind.delete, name := Sample.fileA }]
    (reachable_of_runFrom hrun) rfl rfl rfl).mpr ?_
  exact ⟨[_], _, [], _, _, rfl, rfl, ⟨rfl, rfl, by decide⟩, rfl, trivial⟩

/-- A tombstone is applied while the download runs.  The end of the download
and the events of its writes make the node live again. -/
theorem deletion_undone_by_download :
    exists s s2,
      runFrom (call Sample.ipA) Shared.fresh
          [Call.compare (Sample.node Sample.ipB Sample.fileA 100 5 FILE_CREATE),
            Call.compare
              (Sample.node Sample.ipB Sample.fileA 200 5 FILE_DELETE)] =
        some s ∧
      s.running.length = 1 ∧ Deleted Sample.fileA s ∧
      runFrom (call Sample.ipA) s
          [Call.complete 0,
            Call.event 210 (some { size := 5, mtime := 210 })
              { kind := EventKind.create, name := Sample.fileA },
            Call.event 210 (some { size := 5, mtime := 210 })
              { kind := EventKind.modify, name := Sample.fileA }] =
        some s2 ∧
      s2.running = [] ∧ ¬ Deleted Sample.fileA s2 := by
  refine ⟨_, _, rfl, by decide, ⟨_, rfl, by decide⟩, rfl, by decide, ?_⟩
  intro h
  rcases h with ⟨n, hn, htype⟩
  cases hn
  exact absurd htype (by decide)

/-!
## A deletion taken over from the tracker
-/

/-- Since `s` the peer has deleted the file of the tombstone `seekNode`: its
node has the time of the tombstone, and no table it has sent replaces the
tombstone in the tracker's table. -/
def TakenOver (ft : FileTable) (seekNode : Node) (s s' : Shared) : Prop :=
  (exists n, s'.node seekNode.name = some n ∧ n.type = FILE_DELETE ∧
    n.timestamp = seekNode.timestamp) ∧
  forall report, report ∈ s'.sent.drop s.sent.length ->
    forall ft', Tracker.updateFiletable ft report = some ft' ->
      exists e, Tracker.entry seekNode.name ft' = some e ∧
        e.version = seekNode.version

theorem compare_removed {myip : Ip} {s : Shared} {seekNode n : Node}
    (hn : s.node seekNode.name = some n)
    (h : (compareNode myip seekNode s.table).2 =
      some (Effect.removeFile seekNode.name)) :
    (s.compare myip seekNode).node seekNode.name =
      some { n with type := FILE_DELETE } := by
  have hentry := @Shared.compare_node_self myip s seekNode
  have hcompared := compareEntry_compared myip seekNode
    (s.node seekNode.name)
  rw [← hentry, h, hn] at hcompared
  generalize hnode : (s.compare myip seekNode).node seekNode.name = node?
    at hcompared
  cases hcompared with
  | remove _ _ _ => rfl

theorem merged_version_iff {ft : FileTable} {f : FileName} {t n : Node}
    {report : List Node} (hft : Tracker.entry f ft = some t)
    (hnames : (report.map Node.name).Nodup)
    (hn : lookup Node.name f report = some n) :
    (forall ft', Tracker.updateFiletable ft report = some ft' ->
      exists e, Tracker.entry f ft' = some e ∧ e.version = t.version) <->
      n.version ≤ t.version := by
  have hentry := Tracker.entry_foldl_mergeNode (f := f) hnames ft
  rw [hn, hft] at hentry
  have hversion : (Tracker.mergeEntry n (some t)).version =
      max t.version n.version := Tracker.updateEntry_version n t
  constructor
  · intro h
    cases hupdate : Tracker.updateFiletable ft report with
    | none =>
        rw [(Tracker.updateFiletable_eq_none_iff.mp hupdate).left] at hft
        cases hft
    | some ft' =>
        rcases h ft' hupdate with ⟨e, he, heq⟩
        rw [← (Tracker.updateFiletable_eq_some_iff.mp hupdate).left, hentry]
          at he
        cases he
        rw [hversion] at heq
        exact max_eq_left_iff.mp heq
  · intro hle ft' hupdate
    rw [← (Tracker.updateFiletable_eq_some_iff.mp hupdate).left, hentry]
    exact ⟨_, rfl, hversion.trans (max_eq_left hle)⟩

section TakenOver

variable {myip : Ip} {ft : FileTable} {s s' : Shared} {seekNode n : Node}

theorem takenOver_of_sent
    (hft : Tracker.entry seekNode.name ft = some seekNode)
    (hnames : (s'.table.map Node.name).Nodup)
    (hn : s'.node seekNode.name = some n)
    (hsent : s'.sent = s.sent ++ [s'.table]) :
    TakenOver ft seekNode s s' <->
      n.type = FILE_DELETE ∧ n.timestamp = seekNode.timestamp ∧
        n.version ≤ seekNode.version := by
  have hmerged := merged_version_iff hft hnames hn
  have hdrop : s'.sent.drop s.sent.length = [s'.table] := by
    rw [hsent, List.drop_left]
  rw [TakenOver, hn, hdrop]
  constructor
  · intro h
    rcases h with ⟨⟨n', hn', htype, htime⟩, hreport⟩
    cases hn'
    refine ⟨htype, htime, hmerged.mp ?_⟩
    exact hreport s'.table (List.mem_singleton.mpr rfl)
  · intro h
    rcases h with ⟨htype, htime, hversion⟩
    refine ⟨⟨n, rfl, htype, htime⟩, ?_⟩
    intro report hreport
    rw [List.mem_singleton.mp hreport]
    exact hmerged.mpr hversion

theorem takenOver_of_not_sent (hn : s'.node seekNode.name = some n)
    (hsent : s'.sent = s.sent) :
    TakenOver ft seekNode s s' <->
      n.type = FILE_DELETE ∧ n.timestamp = seekNode.timestamp := by
  have hdrop : s'.sent.drop s.sent.length = [] := by
    rw [hsent, List.drop_length]
  rw [TakenOver, hn, hdrop]
  simp

end TakenOver

/-- A deletion from the tracker is taken over as it is exactly when the
`IN_DELETE` it causes is handled in the second of the tombstone and the deleted
file was no larger; where the monitor does not read the event, when the node
had the time of the tombstone before. -/
theorem takenOver_iff {myip : Ip} {ft : FileTable} {s s1 s2 : Shared}
    {seekNode n : Node} {now : UInt64} {stat? : Option FileStat}
    (hnames : (s.table.map Node.name).Nodup)
    (hft : Tracker.entry seekNode.name ft = some seekNode)
    (hn : s.node seekNode.name = some n)
    (hremove : (compareNode myip seekNode s.table).2 =
      some (Effect.removeFile seekNode.name))
    (hcompare : call myip s (Call.compare seekNode) = some s1)
    (hdelete : call myip s1 (Call.event now stat?
      { kind := EventKind.delete, name := seekNode.name }) = some s2) :
    TakenOver ft seekNode s s2 <->
      if passesFilter { kind := EventKind.delete, name := seekNode.name } then
        now = seekNode.timestamp ∧ n.size ≤ seekNode.size
      else n.timestamp = seekNode.timestamp := by
  cases hcompare
  rcases call_event_eq_some_iff.mp hdelete with ⟨_, rfl⟩
  have hself := @Shared.handle_node_self myip (s.compare myip seekNode) now
    stat? { kind := EventKind.delete, name := seekNode.name }
  rw [compare_removed hn hremove] at hself
  cases hpasses : passesFilter
      { kind := EventKind.delete, name := seekNode.name } with
  | false =>
      rw [notifyNode_of_filtered hpasses, Prod.mk.injEq] at hself
      rw [if_neg (by simp), takenOver_of_not_sent hself.left]
      · exact and_iff_right rfl
      · rw [Shared.handle, hself.right]
        rfl
  | true =>
      rw [notifyNode_delete hpasses, Prod.mk.injEq] at hself
      rw [if_pos rfl, takenOver_of_sent hft _ hself.left]
      · change FILE_DELETE = FILE_DELETE ∧ now = seekNode.timestamp ∧
          versionOf now n.size ≤ versionOf seekNode.timestamp seekNode.size <-> _
        rw [and_iff_right rfl]
        constructor
        · intro h
          rcases h with ⟨rfl, hversion⟩
          exact ⟨rfl, versionOf_le_iff_of_time.mp hversion⟩
        · intro h
          rcases h with ⟨rfl, hsize⟩
          exact ⟨rfl, versionOf_le_iff_of_time.mpr hsize⟩
      · rw [Shared.handle, hself.right]
        rfl
      · exact nodup_names_notifyEvent (nodup_names_compareNode hnames)

theorem same_second_takenOver :
    exists s1 s2,
      call Sample.ipA
          { Shared.fresh with
            table := [Sample.node Sample.ipA Sample.fileA 100 5 FILE_CREATE] }
          (Call.compare
            (Sample.node Sample.ipB Sample.fileA 200 5 FILE_DELETE)) =
        some s1 ∧
      call Sample.ipA s1 (Call.event 200 none
          { kind := EventKind.delete, name := Sample.fileA }) = some s2 ∧
      TakenOver
          (some [Sample.node Sample.ipB Sample.fileA 200 5 FILE_DELETE])
          (Sample.node Sample.ipB Sample.fileA 200 5 FILE_DELETE)
          { Shared.fresh with
            table := [Sample.node Sample.ipA Sample.fileA 100 5 FILE_CREATE] }
          s2 :=
  ⟨_, _, rfl, rfl, (takenOver_iff (by decide) rfl rfl rfl rfl rfl).mpr
    (by decide)⟩

/-- One second later the peer reports a deletion of its own, and the tracker's
tombstone is replaced. -/
theorem next_second_not_takenOver :
    exists s1 s2,
      call Sample.ipA
          { Shared.fresh with
            table := [Sample.node Sample.ipA Sample.fileA 100 5 FILE_CREATE] }
          (Call.compare
            (Sample.node Sample.ipB Sample.fileA 200 5 FILE_DELETE)) =
        some s1 ∧
      call Sample.ipA s1 (Call.event 201 none
          { kind := EventKind.delete, name := Sample.fileA }) = some s2 ∧
      ((s2.sent.map (Tracker.updateFiletable
          (some [Sample.node Sample.ipB Sample.fileA 200 5 FILE_DELETE]))).map
        fun ft? => ft?.bind fun ft =>
          (Tracker.entry Sample.fileA ft).map Node.timestamp) = [some 201] ∧
      ¬ TakenOver
          (some [Sample.node Sample.ipB Sample.fileA 200 5 FILE_DELETE])
          (Sample.node Sample.ipB Sample.fileA 200 5 FILE_DELETE)
          { Shared.fresh with
            table := [Sample.node Sample.ipA Sample.fileA 100 5 FILE_CREATE] }
          s2 := by
  refine ⟨_, _, rfl, rfl, by decide, ?_⟩
  intro h
  rcases h.left with ⟨n, hn, _, htime⟩
  cases hn
  exact absurd htime (by decide)

end Peer
end DartSync
