import DartSync.Tracker.FileTable

/-!
# Comparing with the tracker's table

`compareNode` of `peer/peer.c` with the table functions it calls, and
`setNodeType`, through which a finished download reports to the table.
-/

namespace DartSync
namespace Peer

open Foundation

/-- The arguments handed to a `ptp_download` thread. -/
structure DownloadArg where
  filename : FileName
  size : UInt64
  peerNum : Nat
  timestamp : UInt64
  addrList : List Ip
deriving DecidableEq

inductive Effect where
  | startDownload (arg : DownloadArg)
  | removeFile (name : FileName)
deriving DecidableEq

def addedDownload (myip : Ip) (down : DownloadArg) : Node where
  status := 0
  size := down.size
  name := down.filename
  timestamp := down.timestamp
  type := FILE_DOWNLOADING
  newpeerip := onlyPeer myip

def add (myip : Ip) (down : DownloadArg) (table : List Node) : List Node :=
  table ++ [addedDownload myip down]

def modify (down : DownloadArg) (table : List Node) : List Node :=
  modifyFirst Node.name down.filename
    (fun current => { current with
      size := down.size
      timestamp := down.timestamp
      type := FILE_DOWNLOADING }) table

/-- `delete` on the first node with the name. -/
def delete (name : FileName) (table : List Node) : List Node :=
  modifyFirst Node.name name
    (fun find => { find with type := FILE_DELETE }) table

def setNodeType (filename : FileName) (type : Int32) (size : UInt64)
    (table : List Node) : List Node :=
  modifyFirst Node.name filename
    (fun current => { current with type := type, size := size }) table

def downloadArg (filename : FileName) (seekNode : Node) : DownloadArg where
  filename := filename
  size := seekNode.size
  peerNum := seekNode.peers.length
  timestamp := seekNode.timestamp
  addrList := seekNode.peers

def wantsDownload (current seekNode : Node) : Bool :=
  seekNode.size > 0 && current.type ≠ FILE_DOWNLOADING &&
    seekNode.type ≠ FILE_DELETE &&
    (current.timestamp < seekNode.timestamp ||
      (current.timestamp = seekNode.timestamp &&
        current.size < seekNode.size))

def compareNode (myip : Ip) (seekNode : Node) (table : List Node) :
    List Node × Option Effect :=
  match lookup Node.name seekNode.name table with
  | some current =>
      if current.timestamp ≤ seekNode.timestamp then
        if wantsDownload current seekNode then
          let arg := downloadArg current.name seekNode
          (modify arg table, some (Effect.startDownload arg))
        else if seekNode.type = FILE_DELETE ∧ current.type ≠ FILE_DELETE then
          (delete current.name table, some (Effect.removeFile current.name))
        else (table, none)
      else (table, none)
  | none =>
      if seekNode.size > 0 then
        let arg := downloadArg seekNode.name seekNode
        (add myip arg table, some (Effect.startDownload arg))
      else (table, none)

/-!
## One name at a time
-/

def compareEntry (myip : Ip) (seekNode : Node) :
    Option Node -> Option Node × Option Effect
  | some current =>
      let arg := downloadArg seekNode.name seekNode
      if current.timestamp ≤ seekNode.timestamp then
        if wantsDownload current seekNode then
          (some { current with
            size := seekNode.size
            timestamp := seekNode.timestamp
            type := FILE_DOWNLOADING }, some (Effect.startDownload arg))
        else if seekNode.type = FILE_DELETE ∧ current.type ≠ FILE_DELETE then
          (some { current with type := FILE_DELETE },
            some (Effect.removeFile seekNode.name))
        else (some current, none)
      else (some current, none)
  | none =>
      let arg := downloadArg seekNode.name seekNode
      if seekNode.size > 0 then
        (some (addedDownload myip arg), some (Effect.startDownload arg))
      else (none, none)

/-- What `compareNode` can do to the node of the entry's file. -/
inductive Compared (seekNode : Node) :
    Option Node -> Option Node × Option Effect -> Prop where
  | download {node? : Option Node} {n' : Node} :
      n'.type = FILE_DOWNLOADING -> n'.version = seekNode.version ->
      (forall n, node? = some n -> n.version < seekNode.version) ->
      Compared seekNode node?
        (some n', some (Effect.startDownload
          (downloadArg seekNode.name seekNode)))
  | remove {n : Node} : seekNode.type = FILE_DELETE ->
      n.type ≠ FILE_DELETE -> n.timestamp ≤ seekNode.timestamp ->
      Compared seekNode (some n)
        (some { n with type := FILE_DELETE },
          some (Effect.removeFile seekNode.name))
  | absent : seekNode.size = 0 -> Compared seekNode none (none, none)
  | keep {n : Node} :
      (n.timestamp ≤ seekNode.timestamp ->
        (seekNode.type = FILE_DELETE -> n.type = FILE_DELETE) ∧
        (seekNode.type ≠ FILE_DELETE -> seekNode.size ≠ 0 ->
          n.type = FILE_DOWNLOADING ∨ seekNode.version ≤ n.version)) ->
      Compared seekNode (some n) (some n, none)

theorem wantsDownload_iff {current seekNode : Node} :
    wantsDownload current seekNode = true <->
      seekNode.size ≠ 0 ∧ current.type ≠ FILE_DOWNLOADING ∧
        seekNode.type ≠ FILE_DELETE ∧
        current.version < seekNode.version := by
  rw [Node.version_lt_iff]
  simp only [wantsDownload, Bool.and_eq_true, Bool.or_eq_true,
    decide_eq_true_eq, gt_iff_lt, UInt64.pos_iff_ne_zero]
  tauto

theorem compareEntry_compared (myip : Ip) (seekNode : Node)
    (node? : Option Node) :
    Compared seekNode node? (compareEntry myip seekNode node?) := by
  unfold compareEntry
  cases node? with
  | none =>
      dsimp only
      split
      · exact Compared.download rfl rfl fun n hn => by cases hn
      · next hsize =>
          apply Compared.absent
          simpa [UInt64.pos_iff_ne_zero] using hsize
  | some n =>
      dsimp only
      split
      · next hle =>
          split
          · next hwants =>
              refine Compared.download rfl rfl ?_
              intro m hm
              cases hm
              exact (wantsDownload_iff.mp hwants).right.right.right
          · next hwants =>
              split
              · next hdelete =>
                  exact Compared.remove hdelete.left hdelete.right hle
              · next hdelete =>
                  apply Compared.keep
                  intro _
                  constructor
                  · intro htype
                    by_contra hlive
                    exact hdelete ⟨htype, hlive⟩
                  · intro htype hsize
                    rw [or_iff_not_imp_left]
                    intro hidle
                    by_contra hnewer
                    exact hwants (wantsDownload_iff.mpr
                      ⟨hsize, hidle, htype, not_le.mp hnewer⟩)
      · next hle => exact Compared.keep fun h => absurd h hle

theorem Compared.kept {seekNode n : Node}
    (h : Compared seekNode (some n) (some n, none)) :
    n.timestamp ≤ seekNode.timestamp ->
      (seekNode.type = FILE_DELETE -> n.type = FILE_DELETE) ∧
      (seekNode.type ≠ FILE_DELETE -> seekNode.size ≠ 0 ->
        n.type = FILE_DOWNLOADING ∨ seekNode.version ≤ n.version) := by
  generalize hresult : (some n, (none : Option Effect)) = result at h
  have heffect := congrArg Prod.snd hresult
  cases h with
  | download htype hversion hnewer => cases heffect
  | remove htype hlive hle => cases heffect
  | keep hkeep => exact hkeep

theorem lookup_modify (down : DownloadArg) (table : List Node) :
    lookup Node.name down.filename (modify down table) =
      (lookup Node.name down.filename table).map fun current =>
        { current with
          size := down.size
          timestamp := down.timestamp
          type := FILE_DOWNLOADING } :=
  lookup_modifyFirst_self fun _ hn => hn

theorem lookup_delete (name : FileName) (table : List Node) :
    lookup Node.name name (delete name table) =
      (lookup Node.name name table).map fun find =>
        { find with type := FILE_DELETE } :=
  lookup_modifyFirst_self fun _ hn => hn

theorem lookup_setNodeType (name : FileName) (type : Int32) (size : UInt64)
    (table : List Node) :
    lookup Node.name name (setNodeType name type size table) =
      (lookup Node.name name table).map fun current =>
        { current with type := type, size := size } :=
  lookup_modifyFirst_self fun _ hn => hn

theorem lookup_setNodeType_of_ne {name f : FileName} {type : Int32}
    {size : UInt64} {table : List Node} (h : f ≠ name) :
    lookup Node.name f (setNodeType name type size table) =
      lookup Node.name f table :=
  lookup_modifyFirst_of_ne (fun _ hn => hn) h

section CompareNode

variable {myip : Ip} {seekNode : Node} {table : List Node} {f : FileName}

theorem compareNode_self :
    (lookup Node.name seekNode.name (compareNode myip seekNode table).1,
      (compareNode myip seekNode table).2) =
    compareEntry myip seekNode (lookup Node.name seekNode.name table) := by
  unfold compareNode compareEntry
  cases hlookup : lookup Node.name seekNode.name table with
  | none =>
      dsimp only
      split
      · unfold add
        rw [lookup_append, hlookup, lookup_cons]
        simp [addedDownload, downloadArg]
      · rw [hlookup]
  | some current =>
      have hname : current.name = seekNode.name := key_of_lookup hlookup
      dsimp only
      rw [hname]
      repeat' split
      · have hmodify := lookup_modify (downloadArg seekNode.name seekNode) table
        change lookup Node.name seekNode.name _ = _ at hmodify
        rw [hmodify]
        simp [downloadArg, hlookup, hname]
      · rw [lookup_delete, hlookup]
        simp [hname]
      · rw [hlookup]
      · rw [hlookup]

theorem compareNode_of_ne (h : f ≠ seekNode.name) :
    lookup Node.name f (compareNode myip seekNode table).1 =
      lookup Node.name f table := by
  unfold compareNode
  cases hlookup : lookup Node.name seekNode.name table with
  | none =>
      dsimp only
      split
      · unfold add
        rw [lookup_append, lookup_cons]
        simp [addedDownload, downloadArg, h.symm]
      · rfl
  | some current =>
      have hname : current.name = seekNode.name := key_of_lookup hlookup
      dsimp only
      rw [hname]
      repeat' split
      · exact lookup_modifyFirst_of_ne (fun n hn => hn) h
      · exact lookup_modifyFirst_of_ne (fun n hn => hn) h
      · rfl
      · rfl

theorem names_compareNode :
    (compareNode myip seekNode table).1.map Node.name =
        table.map Node.name ∨
      (seekNode.name ∉ table.map Node.name ∧
        (compareNode myip seekNode table).1.map Node.name =
          table.map Node.name ++ [seekNode.name]) := by
  unfold compareNode
  cases hlookup : lookup Node.name seekNode.name table with
  | none =>
      dsimp only
      split
      · refine Or.inr ⟨lookup_eq_none_iff.mp hlookup, ?_⟩
        simp [add, addedDownload, downloadArg]
      · exact Or.inl rfl
  | some current =>
      dsimp only
      repeat' split
      · exact Or.inl (keys_modifyFirst fun n hn => hn)
      · exact Or.inl (keys_modifyFirst fun n hn => hn)
      · exact Or.inl rfl
      · exact Or.inl rfl

theorem nodup_names_compareNode (h : (table.map Node.name).Nodup) :
    ((compareNode myip seekNode table).1.map Node.name).Nodup := by
  rcases @names_compareNode myip seekNode table with hnames | ⟨hnew, hnames⟩
  · rw [hnames]
    exact h
  · rw [hnames]
    exact nodup_concat h hnew

theorem compareEntry_effect {node? : Option Node} {e : Effect}
    (h : (compareEntry myip seekNode node?).2 = some e) :
    e = Effect.startDownload (downloadArg seekNode.name seekNode) ∨
      e = Effect.removeFile seekNode.name := by
  have hcompared := compareEntry_compared myip seekNode node?
  generalize compareEntry myip seekNode node? = result at h hcompared
  cases hcompared with
  | download _ _ _ => exact Or.inl (Option.some.inj h).symm
  | remove _ _ _ => exact Or.inr (Option.some.inj h).symm
  | absent _ => cases h
  | keep _ => cases h

theorem compareNode_effect {e : Effect}
    (h : (compareNode myip seekNode table).2 = some e) :
    e = Effect.startDownload (downloadArg seekNode.name seekNode) ∨
      e = Effect.removeFile seekNode.name :=
  compareEntry_effect ((congrArg Prod.snd compareNode_self).symm.trans h)

end CompareNode

/-!
## Known files, by what the entry wants
-/

def WantsRemoval (current seekNode : Node) : Prop :=
  seekNode.type = FILE_DELETE ∧ current.type ≠ FILE_DELETE ∧
    current.timestamp ≤ seekNode.timestamp

section Known

variable {myip : Ip} {table : List Node} {current seekNode : Node}

theorem compareEntry_of_wantsDownload
    (h : wantsDownload current seekNode = true) :
    compareEntry myip seekNode (some current) =
      (some { current with
          size := seekNode.size
          timestamp := seekNode.timestamp
          type := FILE_DOWNLOADING },
        some (Effect.startDownload
          (downloadArg seekNode.name seekNode))) := by
  have hle := versionOf_timestamp_le
    (wantsDownload_iff.mp h).right.right.right.le
  unfold compareEntry
  dsimp only
  rw [if_pos hle, if_pos h]

theorem compareEntry_of_wantsRemoval (h : WantsRemoval current seekNode) :
    compareEntry myip seekNode (some current) =
      (some { current with type := FILE_DELETE },
        some (Effect.removeFile seekNode.name)) := by
  rcases h with ⟨hdelete, hlive, hle⟩
  have hwants : wantsDownload current seekNode ≠ true := by
    intro hwants
    exact (wantsDownload_iff.mp hwants).right.right.left hdelete
  unfold compareEntry
  dsimp only
  rw [if_pos hle, if_neg hwants, if_pos ⟨hdelete, hlive⟩]

theorem compareEntry_of_neither (hwants : wantsDownload current seekNode ≠ true)
    (h : ¬ WantsRemoval current seekNode) :
    compareEntry myip seekNode (some current) = (some current, none) := by
  unfold compareEntry
  dsimp only
  split
  · next hle =>
      rw [if_neg]
      intro hdelete
      exact h ⟨hdelete.left, hdelete.right, hle⟩
  · rfl

theorem compareNode_effect_eq
    (h : lookup Node.name seekNode.name table = some current) :
    (compareNode myip seekNode table).2 =
      (compareEntry myip seekNode (some current)).2 := by
  have hself := congrArg Prod.snd (@compareNode_self myip seekNode table)
  rw [h] at hself
  exact hself

theorem compareNode_of_no_effect
    (h : (compareNode myip seekNode table).2 = none) :
    (compareNode myip seekNode table).1 = table := by
  unfold compareNode at h ⊢
  cases hlookup : lookup Node.name seekNode.name table with
  | none =>
      rw [hlookup] at h
      dsimp only at h ⊢
      split at h
      · cases h
      · next hsize => rw [if_neg hsize]
  | some found =>
      rw [hlookup] at h
      dsimp only at h ⊢
      repeat' split at h
      · cases h
      · cases h
      · next hle hwants hdelete => rw [if_pos hle, if_neg hwants, if_neg hdelete]
      · next hle => rw [if_neg hle]

end Known

theorem newpeerip_compareNode {myip : Ip} {seekNode : Node}
    {table : List Node}
    (h : forall n, n ∈ table -> n.newpeerip = onlyPeer myip) {n : Node}
    (hn : n ∈ (compareNode myip seekNode table).1) :
    n.newpeerip = onlyPeer myip := by
  unfold compareNode at hn
  cases hlookup : lookup Node.name seekNode.name table with
  | none =>
      rw [hlookup] at hn
      dsimp only at hn
      split at hn
      · rcases List.mem_append.mp hn with hn | hn
        · exact h n hn
        · rw [List.mem_singleton.mp hn]
          rfl
      · exact h n hn
  | some current =>
      rw [hlookup] at hn
      dsimp only at hn
      repeat' split at hn
      · rcases mem_modifyFirst hn with hn | ⟨m, hm, rfl⟩
        · exact h n hn
        · exact h m hm
      · rcases mem_modifyFirst hn with hn | ⟨m, hm, rfl⟩
        · exact h n hn
        · exact h m hm
      · exact h n hn
      · exact h n hn

end Peer
end DartSync
