import DartSync.Peer.Downloads

/-!
# The echo of a download

The monitor sees the writes of a download as it sees those of a user.  It
ignores them while the node is `FILE_DOWNLOADING`, and takes the first one
after `setNodeType` for the end of the download; any later one is a new version
to it.
-/

namespace DartSync
namespace Peer

open Foundation

def Writes (f : FileName) (kind : EventKind) (a : Call) : Prop :=
  exists now stat, a = Call.event now (some stat) { kind := kind, name := f }

/-- The events of a download's writes: an `IN_CREATE` if the file is new, and
then any number of `IN_MODIFY`. -/
def OwnEvents (f : FileName) (calls : List Call) : Prop :=
  (forall a, a ∈ calls -> Writes f EventKind.modify a) ∨
    exists a rest, calls = a :: rest ∧ Writes f EventKind.create a ∧
      forall b, b ∈ rest -> Writes f EventKind.modify b

def passes : Call -> Bool
  | Call.event _ _ event => passesFilter event
  | _ => false

theorem OwnEvents.of_append {f : FileName} {pre post : List Call}
    (h : OwnEvents f (pre ++ post)) : OwnEvents f pre ∧ OwnEvents f post := by
  rcases h with hmodify | ⟨a, rest, heq, hcreate, hmodify⟩
  · constructor
    · exact Or.inl fun a ha => hmodify a (List.mem_append_left post ha)
    · exact Or.inl fun a ha => hmodify a (List.mem_append_right pre ha)
  · cases pre with
    | nil =>
        constructor
        · exact Or.inl fun b hb => by cases hb
        · exact Or.inr ⟨a, rest, heq, hcreate, hmodify⟩
    | cons b pre =>
        rw [List.cons_append, List.cons.injEq] at heq
        rcases heq with ⟨rfl, rfl⟩
        constructor
        · exact Or.inr ⟨b, pre, rfl, hcreate, fun c hc =>
            hmodify c (List.mem_append_left post hc)⟩
        · exact Or.inl fun c hc => hmodify c (List.mem_append_right pre hc)

theorem OwnEvents.cons {f : FileName} {a : Call} {rest : List Call}
    (h : OwnEvents f (a :: rest)) :
    (exists kind, kind ≠ EventKind.delete ∧ Writes f kind a) ∧
      forall b, b ∈ rest -> Writes f EventKind.modify b := by
  rcases h with hmodify | ⟨b, rest', heq, hcreate, hmodify⟩
  · constructor
    · exact ⟨EventKind.modify, by simp, hmodify a List.mem_cons_self⟩
    · exact fun b hb => hmodify b (List.mem_cons_of_mem a hb)
  · cases heq
    exact ⟨⟨EventKind.create, by simp, hcreate⟩, hmodify⟩

/-!
## One write
-/

section Write

variable {myip : Ip} {s s' : Shared} {f : FileName} {kind : EventKind}
  {a : Call} {n : Node}

theorem node_write (ha : Writes f kind a) (hcall : call myip s a = some s')
    (hn : s.node f = some n) :
    exists now stat,
      s'.running = s.running ∧
      s'.node f = (notifyNode myip now (some stat)
        { kind := kind, name := f } (some n)).1 ∧
      s'.sent.length = s.sent.length + (if (notifyNode myip now (some stat)
        { kind := kind, name := f } (some n)).2 then 1 else 0) := by
  rcases ha with ⟨now, stat, rfl⟩
  rcases call_event_eq_some_iff.mp hcall with ⟨_, rfl⟩
  have hnode := @Shared.handle_node_self myip s now (some stat)
    { kind := kind, name := f }
  rw [show s.node _ = some n from hn, Prod.mk.injEq] at hnode
  refine ⟨now, stat, rfl, hnode.left, ?_⟩
  rw [← hnode.right]
  unfold Shared.handle
  dsimp only
  split <;> simp

theorem passes_write (ha : Writes f kind a) :
    passes a = passesFilter { kind := kind, name := f } := by
  rcases ha with ⟨now, stat, rfl⟩
  rfl

theorem write_filtered (ha : Writes f kind a)
    (hcall : call myip s a = some s') (hn : s.node f = some n)
    (hpasses : passes a = false) :
    s'.node f = some n ∧ s'.sent.length = s.sent.length := by
  rcases node_write ha hcall hn with ⟨now, stat, _, hnode, hsent⟩
  rw [passes_write ha] at hpasses
  rw [notifyNode_of_filtered hpasses] at hnode hsent
  exact ⟨hnode, hsent⟩

theorem write_downloading (ha : Writes f kind a) (hkind : kind ≠ EventKind.delete)
    (hcall : call myip s a = some s') (hn : s.node f = some n)
    (htype : n.type = FILE_DOWNLOADING) :
    s'.running = s.running ∧ s'.node f = some n ∧
      s'.sent.length = s.sent.length := by
  rcases node_write ha hcall hn with ⟨now, stat, hrunning, hnode, hsent⟩
  rw [notifyNode_of_downloading htype fun h => absurd h hkind] at hnode hsent
  exact ⟨hrunning, hnode, hsent⟩

theorem write_downloaded (ha : Writes f kind a) (hkind : kind ≠ EventKind.delete)
    (hcall : call myip s a = some s') (hn : s.node f = some n)
    (htype : n.type = FILE_DOWNLOAD) (hpasses : passes a = true) :
    s'.node f = some { n with type := FILE_MODIFY } ∧
      s'.sent.length = s.sent.length + 1 := by
  rcases node_write ha hcall hn with ⟨now, stat, _, hnode, hsent⟩
  have hlive : n.type ≠ FILE_DELETE := by
    rw [htype]
    decide
  have hdownloading : n.type ≠ FILE_DOWNLOADING := by
    rw [htype]
    decide
  rw [passes_write ha] at hpasses
  cases kind with
  | create =>
      rw [notifyNode_create hpasses] at hnode hsent
      rw [addedNode, if_pos hlive, if_neg hdownloading, if_pos htype]
        at hnode hsent
      exact ⟨hnode, hsent⟩
  | modify =>
      rw [notifyNode_modify hpasses] at hnode hsent
      rw [modifiedNode, if_neg hdownloading, if_pos htype] at hnode hsent
      exact ⟨hnode, hsent⟩
  | delete => exact absurd rfl hkind

theorem write_modified (ha : Writes f EventKind.modify a)
    (hcall : call myip s a = some s') (hn : s.node f = some n)
    (htype : n.type = FILE_MODIFY) (hpasses : passes a = true) :
    (exists n', s'.node f = some n' ∧ n'.type = FILE_MODIFY) ∧
      s'.sent.length = s.sent.length + 1 := by
  rcases node_write ha hcall hn with ⟨now, stat, _, hnode, hsent⟩
  have hdownloading : n.type ≠ FILE_DOWNLOADING := by
    rw [htype]
    decide
  have hdownload : n.type ≠ FILE_DOWNLOAD := by
    rw [htype]
    decide
  rw [passes_write ha] at hpasses
  rw [notifyNode_modify hpasses] at hnode hsent
  rw [modifiedNode, if_neg hdownloading, if_neg hdownload] at hnode hsent
  exact ⟨⟨_, hnode, rfl⟩, hsent⟩

end Write

/-!
## The writes before and after `setNodeType`
-/

section Run

variable {myip : Ip} {s s' : Shared} {f : FileName} {calls : List Call}
  {n : Node}

theorem run_downloading (hcalls : OwnEvents f calls)
    (hrun : runFrom (call myip) s calls = some s')
    (hn : s.node f = some n) (htype : n.type = FILE_DOWNLOADING) :
    s'.running = s.running ∧ s'.node f = some n ∧
      s'.sent.length = s.sent.length := by
  induction calls generalizing s with
  | nil =>
      cases hrun
      exact ⟨rfl, hn, rfl⟩
  | cons a rest ih =>
      rcases hcalls.cons with ⟨⟨kind, hkind, ha⟩, hrest⟩
      rcases runFrom_cons_eq_some_iff.mp hrun with ⟨t, hcall, hrun⟩
      rcases write_downloading ha hkind hcall hn htype with
        ⟨hrunning, hnode, hsent⟩
      rcases ih (Or.inl hrest) hrun hnode with ⟨hrunning', hnode', hsent'⟩
      exact ⟨hrunning'.trans hrunning, hnode', hsent'.trans hsent⟩

theorem run_modified
    (hcalls : forall a, a ∈ calls -> Writes f EventKind.modify a)
    (hrun : runFrom (call myip) s calls = some s')
    (hn : s.node f = some n) (htype : n.type = FILE_MODIFY) :
    s'.sent.length = s.sent.length + (calls.filter passes).length ∧
      ((calls.filter passes).length = 0 -> s'.node f = some n) := by
  induction calls generalizing s n with
  | nil =>
      cases hrun
      exact ⟨rfl, fun _ => hn⟩
  | cons a rest ih =>
      have ha := hcalls a List.mem_cons_self
      have hrest := fun b hb => hcalls b (List.mem_cons_of_mem a hb)
      rcases runFrom_cons_eq_some_iff.mp hrun with ⟨t, hcall, hrun⟩
      cases hpasses : passes a with
      | false =>
          rcases write_filtered ha hcall hn hpasses with ⟨hnode, hsent⟩
          have hfuture := ih hrest hrun hnode htype
          rw [hsent] at hfuture
          rw [List.filter_cons_of_neg (by simp [hpasses])]
          exact hfuture
      | true =>
          rcases write_modified ha hcall hn htype hpasses with
            ⟨⟨n', hnode, htype'⟩, hsent⟩
          have hfuture := ih hrest hrun hnode htype'
          rw [hsent] at hfuture
          rw [List.filter_cons_of_pos hpasses, List.length_cons]
          constructor
          · rw [hfuture.left]
            omega
          · intro hzero
            cases hzero

theorem run_downloaded (hcalls : OwnEvents f calls)
    (hrun : runFrom (call myip) s calls = some s')
    (hn : s.node f = some n) (htype : n.type = FILE_DOWNLOAD) :
    s'.sent.length = s.sent.length + (calls.filter passes).length ∧
      ((calls.filter passes).length ≤ 1 ->
        exists n', s'.node f = some n' ∧ n'.timestamp = n.timestamp ∧
          n'.size = n.size) := by
  induction calls generalizing s with
  | nil =>
      cases hrun
      exact ⟨rfl, fun _ => ⟨n, hn, rfl, rfl⟩⟩
  | cons a rest ih =>
      rcases hcalls.cons with ⟨⟨kind, hkind, ha⟩, hrest⟩
      rcases runFrom_cons_eq_some_iff.mp hrun with ⟨t, hcall, hrun⟩
      cases hpasses : passes a with
      | false =>
          rcases write_filtered ha hcall hn hpasses with ⟨hnode, hsent⟩
          have hfuture := ih (Or.inl hrest) hrun hnode
          rw [hsent] at hfuture
          rw [List.filter_cons_of_neg (by simp [hpasses])]
          exact hfuture
      | true =>
          rcases write_downloaded ha hkind hcall hn htype hpasses with
            ⟨hnode, hsent⟩
          rcases run_modified hrest hrun hnode rfl with ⟨hlength, hkept⟩
          rw [List.filter_cons_of_pos hpasses, List.length_cons]
          constructor
          · rw [hlength, hsent]
            omega
          · intro hone
            exact ⟨_, hkept (by omega), rfl, rfl⟩

end Run

/-!
## One download
-/

/-- After the download of `seekNode`, its node has the announced version, and
one table has been sent since `s`. -/
def AnnouncedOnce (seekNode : Node) (s s' : Shared) : Prop :=
  (exists n, s'.node seekNode.name = some n ∧
    n.timestamp = seekNode.timestamp ∧ n.size = seekNode.size) ∧
  s'.sent.length = s.sent.length + 1

/-- A download is announced once, as the version it was started for, exactly
when the monitor handles one of its writes after `setNodeType`. -/
theorem announcedOnce_iff {myip : Ip} {s s1 s2 : Shared} {seekNode : Node}
    {arg : DownloadArg} {pre post : List Call}
    (hdownload : (compareNode myip seekNode s.table).2 =
      some (Effect.startDownload arg))
    (hstart : call myip s (Call.compare seekNode) = some s1)
    (hevents : OwnEvents seekNode.name (pre ++ post))
    (hrun : runFrom (call myip) s1
      (pre ++ Call.complete s.running.length :: post) = some s2) :
    AnnouncedOnce seekNode s1 s2 <-> (post.filter passes).length = 1 := by
  rcases hevents.of_append with ⟨hpre, hpost⟩
  rcases runFrom_append_eq_some_iff.mp hrun with ⟨t, hbefore, hrun⟩
  rcases runFrom_cons_eq_some_iff.mp hrun with ⟨u, hcomplete, hafter⟩
  rcases Shared.compare_started hdownload with
    ⟨rfl, hrunning, n, hn, htype, htime, hsize⟩
  cases hstart
  rcases run_downloading hpre hbefore hn htype with
    ⟨hrunning', hn', hsent⟩
  have hindex : t.running[s.running.length]? =
      some (downloadArg seekNode.name seekNode) := by
    rw [hrunning', hrunning]
    simp
  have hnode : u.node seekNode.name = some { n with
      type := FILE_DOWNLOAD
      size := seekNode.size } := by
    have hself := Shared.complete_node_self hindex hcomplete
    change u.node seekNode.name = (t.node seekNode.name).map _ at hself
    rw [hself, hn']
    rfl
  have hsent' : u.sent = t.sent := by
    rcases Shared.complete_eq_some_iff.mp hcomplete with ⟨_, _, rfl⟩
    rfl
  rcases run_downloaded hpost hafter hnode rfl with ⟨hlength, hkept⟩
  rw [hsent', hsent] at hlength
  constructor
  · intro h
    have hone := h.right
    omega
  · intro hone
    rcases hkept (Nat.le_of_eq hone) with ⟨n', hn', htime', hsize'⟩
    constructor
    · exact ⟨n', hn', htime'.trans htime, hsize'⟩
    · omega

theorem one_late_write_announcedOnce :
    exists s2,
      runFrom (call Sample.ipA)
          (Shared.fresh.compare Sample.ipA
            (Sample.node Sample.ipB Sample.fileA 100 5 FILE_CREATE))
          [Call.event 130 (some { size := 0, mtime := 130 })
              { kind := EventKind.create, name := Sample.fileA },
            Call.complete 0,
            Call.event 130 (some { size := 5, mtime := 130 })
              { kind := EventKind.modify, name := Sample.fileA }] = some s2 ∧
        AnnouncedOnce (Sample.node Sample.ipB Sample.fileA 100 5 FILE_CREATE)
          (Shared.fresh.compare Sample.ipA
            (Sample.node Sample.ipB Sample.fileA 100 5 FILE_CREATE)) s2 := by
  refine ⟨_, rfl, (@announcedOnce_iff Sample.ipA Shared.fresh _ _ _
    (downloadArg Sample.fileA
      (Sample.node Sample.ipB Sample.fileA 100 5 FILE_CREATE))
    [Call.event 130 (some { size := 0, mtime := 130 })
      { kind := EventKind.create, name := Sample.fileA }]
    [Call.event 130 (some { size := 5, mtime := 130 })
      { kind := EventKind.modify, name := Sample.fileA }]
    rfl rfl ?_ rfl).mpr (by decide)⟩
  refine Or.inr ⟨_, _, rfl, ⟨130, _, rfl⟩, ?_⟩
  intro b hb
  rw [List.mem_singleton.mp hb]
  exact ⟨130, _, rfl⟩

/-- Both events of a new file are handled after `setNodeType`: the second one
makes a new version of the download. -/
theorem late_writes_not_announcedOnce :
    exists post s2, OwnEvents Sample.fileA post ∧
      runFrom (call Sample.ipA)
          (Shared.fresh.compare Sample.ipA
            (Sample.node Sample.ipB Sample.fileA 100 5 FILE_CREATE))
          (Call.complete 0 :: post) = some s2 ∧
      (s2.node Sample.fileA).map Node.timestamp = some 130 ∧
      s2.sent.length = 2 ∧
      ¬ AnnouncedOnce (Sample.node Sample.ipB Sample.fileA 100 5 FILE_CREATE)
          (Shared.fresh.compare Sample.ipA
            (Sample.node Sample.ipB Sample.fileA 100 5 FILE_CREATE)) s2 := by
  refine ⟨[Call.event 130 (some { size := 0, mtime := 130 })
      { kind := EventKind.create, name := Sample.fileA },
    Call.event 130 (some { size := 5, mtime := 130 })
      { kind := EventKind.modify, name := Sample.fileA }], _, ?_, rfl,
    by decide, by decide, ?_⟩
  · refine Or.inr ⟨_, _, rfl, ⟨130, _, rfl⟩, ?_⟩
    intro b hb
    rw [List.mem_singleton.mp hb]
    exact ⟨130, _, rfl⟩
  · intro h
    exact absurd h.right (by decide)

end Peer
end DartSync
