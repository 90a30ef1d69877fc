import DartSync.Peer.Compare
import DartSync.Peer.Monitor

/-!
# How a peer's table grows

All functions that change the table of a peer, called with any arguments in any
order: nodes only get new types, sizes and timestamps, and a new node comes at
the end, with a new name and the address of the peer.
-/

namespace DartSync
namespace Peer

open Foundation

inductive TableCall where
  | fileAdded (fileInfo : FileInfo)
  | fileModified (fileInfo : FileInfo)
  | fileDeleted (filepath : FileName) (now : UInt64)
  | compareNode (seekNode : Node)
  | setNodeType (filename : FileName) (type : Int32) (size : UInt64)

def perform (myip : Ip) (table : List Node) : TableCall -> List Node
  | TableCall.fileAdded fileInfo => (fileAdded myip fileInfo table).1
  | TableCall.fileModified fileInfo => (fileModified fileInfo table).1
  | TableCall.fileDeleted filepath now => (fileDeleted filepath now table).1
  | TableCall.compareNode seekNode => (compareNode myip seekNode table).1
  | TableCall.setNodeType filename type size =>
      setNodeType filename type size table

/-- Each name has one node, and each node has the address of the peer in its
first slot and nothing else. -/
structure Tidy (myip : Ip) (table : List Node) : Prop where
  names : (table.map Node.name).Nodup
  newpeerip : forall n, n ∈ table -> n.newpeerip = onlyPeer myip

def fixed (n : Node) : FileName × Int16 × Vector Ip MAX_PEER_NUM :=
  (n.name, n.status, n.newpeerip)

/-- The nodes of the old table have kept their places, and all but type, size
and timestamp. -/
def Extends (table table' : List Node) : Prop :=
  table.map fixed <+: table'.map fixed

/-!
## One call
-/

/-- The nodes stay as they are but for type, size and timestamp, or one with a
new name and the address of the peer is added. -/
def Grows (myip : Ip) (table table' : List Node) : Prop :=
  table'.map fixed = table.map fixed ∨
    exists n, n.name ∉ table.map Node.name ∧ n.newpeerip = onlyPeer myip ∧
      table'.map fixed = table.map fixed ++ [fixed n]

section Calls

variable {myip : Ip} {table table' : List Node}

theorem grows_fileAdded (fileInfo : FileInfo) :
    Grows myip table (fileAdded myip fileInfo table).1 := by
  have hmap := @map_searchTable fileInfo.filepath (addedNode fileInfo)
    ([createdNode myip fileInfo], true) table _ fixed
    fun n _ => addedNode_keeps (fun _ _ _ _ => rfl) fileInfo n
  split at hmap
  · exact Or.inl hmap
  · next hnew => exact Or.inr ⟨createdNode myip fileInfo, hnew, rfl, hmap⟩

theorem grows_searchTable {name : FileName} {found : Node -> Node × Bool}
    {sends : Bool} (hfound : forall n, fixed (found n).1 = fixed n) :
    Grows myip table (searchTable name found ([], sends) table).1 := by
  have hmap := @map_searchTable name found ([], sends) table _ fixed
    fun n _ => hfound n
  left
  split at hmap
  · exact hmap
  · rw [hmap]
    exact List.append_nil _

theorem grows_modifyFirst {name : FileName} {found : Node -> Node}
    (hfound : forall n, fixed (found n) = fixed n) :
    Grows myip table (modifyFirst Node.name name found table) :=
  Or.inl (map_modifyFirst fun n _ => hfound n)

theorem grows_compareNode (seekNode : Node) :
    Grows myip table (compareNode myip seekNode table).1 := by
  unfold compareNode
  cases hlookup : lookup Node.name seekNode.name table with
  | some current =>
      dsimp only
      repeat' split
      · exact grows_modifyFirst fun _ => rfl
      · exact grows_modifyFirst fun _ => rfl
      · exact Or.inl rfl
      · exact Or.inl rfl
  | none =>
      dsimp only
      split
      · refine Or.inr ⟨addedDownload myip (downloadArg seekNode.name seekNode),
          lookup_eq_none_iff.mp hlookup, rfl, ?_⟩
        exact List.map_append
      · exact Or.inl rfl

theorem grows_perform (c : TableCall) :
    Grows myip table (perform myip table c) := by
  cases c with
  | fileAdded fileInfo => exact grows_fileAdded fileInfo
  | fileModified fileInfo =>
      exact grows_searchTable
        (modifiedNode_keeps (fun _ _ _ _ => rfl) fileInfo)
  | fileDeleted filepath now => exact grows_searchTable fun _ => rfl
  | compareNode seekNode => exact grows_compareNode seekNode
  | setNodeType filename type size => exact grows_modifyFirst fun _ => rfl

theorem Grows.extends (h : Grows myip table table') :
    Extends table table' := by
  rcases h with hsame | ⟨n, _, _, hadded⟩
  · exact ⟨[], (List.append_nil _).trans hsame.symm⟩
  · exact ⟨[fixed n], hadded.symm⟩

theorem map_name_of_fixed (table : List Node) :
    (table.map fixed).map Prod.fst = table.map Node.name := by
  rw [List.map_map]
  rfl

theorem tidy_iff_fixed :
    Tidy myip table <->
      ((table.map fixed).map Prod.fst).Nodup ∧
        forall x, x ∈ table.map fixed -> x.2.2 = onlyPeer myip := by
  rw [map_name_of_fixed, List.forall_mem_map]
  constructor
  · intro h
    exact ⟨h.names, h.newpeerip⟩
  · intro h
    exact ⟨h.left, h.right⟩

theorem Grows.tidy (h : Grows myip table table') (htidy : Tidy myip table) :
    Tidy myip table' := by
  rw [tidy_iff_fixed] at htidy ⊢
  rcases h with hsame | ⟨n, hnew, hown, hadded⟩
  · rw [hsame]
    exact htidy
  · rw [hadded]
    constructor
    · rw [List.map_append]
      apply nodup_concat htidy.left
      rw [map_name_of_fixed]
      exact hnew
    · intro x hx
      rcases List.mem_append.mp hx with hx | hx
      · exact htidy.right x hx
      · rw [List.mem_singleton.mp hx]
        exact hown

end Calls

/-!
## Runs
-/

theorem tidy_foldl {myip : Ip} {table : List Node} (h : Tidy myip table)
    (calls : List TableCall) : Tidy myip (calls.foldl (perform myip) table) := by
  induction calls generalizing table with
  | nil => exact h
  | cons c rest ih => exact ih ((grows_perform c).tidy h)

theorem extends_foldl (myip : Ip) (table : List Node)
    (calls : List TableCall) :
    Extends table (calls.foldl (perform myip) table) := by
  induction calls generalizing table with
  | nil => exact List.prefix_refl _
  | cons c rest ih =>
      exact List.IsPrefix.trans (grows_perform c).extends (ih _)

/-- In every run from the empty table, every state is tidy and extends all
states before it. -/
theorem table_only_grows (myip : Ip) (before after : List TableCall) :
    Tidy myip ((before ++ after).foldl (perform myip) []) ∧
      Extends (before.foldl (perform myip) [])
        ((before ++ after).foldl (perform myip) []) := by
  constructor
  · apply tidy_foldl
    refine ⟨List.nodup_nil, ?_⟩
    intro n hn
    cases hn
  · rw [List.foldl_append]
    exact extends_foldl myip _ after

end Peer
end DartSync
