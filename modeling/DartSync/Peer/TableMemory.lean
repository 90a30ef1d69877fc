import DartSync.Foundation.ListLoops
import DartSync.Peer.Calls
import DartSync.Tracker.TableMemory

/-!
# A peer's tables in memory

The functions on a peer's table over a heap, and the loop of `main` in
`peer/peer.c`, which receives a table of the tracker node by node, compares each
node and then frees the first of them.  A step is `none` where it follows a null
pointer or one to a freed cell, overruns a path or does not end.
-/

namespace DartSync
namespace Peer

open Foundation

/-!
## The functions on the table
-/

section Functions

variable (calloc : Tracker.Calloc) (heap : Heap (Cell Node))
  (head : Option Nat)

def linkAt (prev : Option Nat) (node : Node) :
    Option (Heap (Cell Node) × Option Nat) :=
  let cell : Cell Node := { value := node, next := none }
  match prev with
  | none => some (heap.alloc (calloc heap) cell, some (calloc heap))
  | some prev =>
      (heap.read prev).map fun last =>
        ((heap.write prev { last with next := some (calloc heap) }).alloc
          (calloc heap) cell, head)

/-- The search loop of the handlers: change the first node with the name, or
add a node, if there is one to be added. -/
def searchAt (name : FileName) (found : Node -> Node × Bool)
    (missing : Option Node) :
    Option (Heap (Cell Node) × Option Nat × Bool) :=
  match find (fun n => n.name = name) heap heap.length none head with
  | none => none
  | some (_, some node) =>
      (heap.read node).map fun cell =>
        (heap.write node { cell with value := (found cell.value).1 }, head,
          (found cell.value).2)
  | some (prev, none) =>
      match missing with
      | none => some (heap, head, false)
      | some filenode =>
          (linkAt calloc heap head prev filenode).map fun result =>
            (result.1, result.2, true)

def fileAddedAt (myip : Ip) (fileInfo : FileInfo) :
    Option (Heap (Cell Node) × Option Nat × Bool) :=
  searchAt calloc heap head fileInfo.filepath (addedNode fileInfo)
    (some (createdNode myip fileInfo))

def fileDeletedAt (filepath : FileName) (now : UInt64) :
    Option (Heap (Cell Node) × Option Nat × Bool) :=
  searchAt calloc heap head filepath (deletedNode now) none

def fileModifiedAt (fileInfo : FileInfo) :
    Option (Heap (Cell Node) × Option Nat × Bool) :=
  searchAt calloc heap head fileInfo.filepath (modifiedNode fileInfo) none

/-- `notify` looks whether the file is there, and `getFileInfo` looks again: it
returns `NULL` for a file that has gone in between, and the handlers read it. -/
def notifyAt (myip : Ip) (now : UInt64) (stat? info? : Option FileStat)
    (event : Event) : Option (Heap (Cell Node) × Option Nat × Bool) :=
  if overruns event then none
  else if passesFilter event then
    match event.kind, stat?, info? with
    | EventKind.create, some _, some info =>
        fileAddedAt calloc heap head myip (getFileInfo event.name info)
    | EventKind.modify, some _, some info =>
        fileModifiedAt calloc heap head (getFileInfo event.name info)
    | EventKind.delete, _, _ => fileDeletedAt calloc heap head event.name now
    | _, some _, none => none
    | _, none, _ => some (heap, head, false)
  else some (heap, head, false)

/-- `add` walks to the end. -/
def addAt (myip : Ip) (down : DownloadArg) :
    Option (Heap (Cell Node) × Option Nat) :=
  match find (fun _ => false) heap heap.length none head with
  | none => none
  | some (prev, _) => linkAt calloc heap head prev (addedDownload myip down)

/-- `modify` does not look for the end: where there is no node with the name, it
reads the name of `NULL`. -/
def modifyAt (down : DownloadArg) : Option (Heap (Cell Node)) :=
  match find (fun n => n.name = down.filename) heap heap.length none head with
  | some (_, some current) =>
      (heap.read current).map fun cell =>
        heap.write current { cell with
          value := { cell.value with
            size := down.size
            timestamp := down.timestamp
            type := FILE_DOWNLOADING } }
  | _ => none

/-- `delete(find)` -/
def deleteAt (node : Nat) : Option (Heap (Cell Node)) :=
  (heap.read node).map fun cell =>
    heap.write node { cell with
      value := { cell.value with type := FILE_DELETE } }

def setNodeTypeAt (filename : FileName) (type : Int32) (size : UInt64) :
    Option (Heap (Cell Node)) :=
  match find (fun n => n.name = filename) heap heap.length none head with
  | none => none
  | some (_, none) => some heap
  | some (_, some current) =>
      (heap.read current).map fun cell =>
        heap.write current { cell with
          value := { cell.value with type := type, size := size } }

def compareNodeAt (myip : Ip) (seekNode : Node) :
    Option (Heap (Cell Node) × Option Nat × Option Effect) :=
  match find (fun n => n.name = seekNode.name) heap heap.length none head with
  | none => none
  | some (_, some node) =>
      match heap.read node with
      | none => none
      | some cell =>
          let current := cell.value
          if current.timestamp ≤ seekNode.timestamp then
            if wantsDownload current seekNode then
              let arg := downloadArg current.name seekNode
              (modifyAt heap head arg).map fun heap' =>
                (heap', head, some (Effect.startDownload arg))
            else if seekNode.type = FILE_DELETE ∧
                current.type ≠ FILE_DELETE then
              (deleteAt heap node).map fun heap' =>
                (heap', head, some (Effect.removeFile current.name))
            else some (heap, head, none)
          else some (heap, head, none)
  | some (_, none) =>
      if seekNode.size > 0 then
        let arg := downloadArg seekNode.name seekNode
        (addAt calloc heap head myip arg).map fun result =>
          (result.1, result.2, some (Effect.startDownload arg))
      else some (heap, head, none)

end Functions

/-!
## `main`
-/

/-- The rest of the loop in `peer_recvpkt`: each node comes behind `temp`, with
the link it had in the tracker's memory. -/
def recvRest (calloc : Tracker.Calloc) : List (Linked Node) -> Nat ->
    Heap (Cell Node) -> Option (Heap (Cell Node))
  | [], _, heap => some heap
  | file :: rest, temp, heap =>
      match heap.read temp with
      | none => none
      | some last =>
          recvRest calloc rest (calloc heap)
            ((heap.write temp { last with next := some (calloc heap) }).alloc
              (calloc heap)
              { value := file.value
                next := Tracker.pointerOf file.pNext })

/-- `peer_recvpkt` with the nodes that it receives. -/
def recvTable (calloc : Tracker.Calloc) (files : List (Linked Node))
    (heap : Heap (Cell Node)) : Option (Heap (Cell Node) × Option Nat) :=
  match files with
  | [] => some (heap, none)
  | file :: rest =>
      (recvRest calloc rest (calloc heap) (heap.alloc (calloc heap)
        { value := file.value
          next := Tracker.pointerOf file.pNext })).map fun heap' =>
        (heap', some (calloc heap))

/-- All nodes, the table with its head, the head of the received table and
`current`, the running downloads, and the tables sent. -/
structure PeerMemory where
  heap : Heap (Cell Node)
  head : Option Nat
  received : Option (Option Nat × Option Nat)
  running : List DownloadArg
  sent : List (List Node)

/-- What reads or writes the tables: `main` receives a table, compares its next
node or ends its loop, the monitor handles an event, or a download ends. -/
inductive PeerAction where
  | receive (files : List (Linked Node))
  | compareNext (config? : Option (List UInt8))
  | finish
  | event (now : UInt64) (stat? info? : Option FileStat) (event : Event)
  | complete (index : Nat)

/-- `compareNode` puts the path of a file to be removed behind what
`readConfigFile` returns. -/
def canRemove (config? : Option (List UInt8)) : Option Effect -> Bool
  | some (Effect.removeFile name) =>
      config?.any fun dir => dir.length + name.bytes.length < FILE_NAME_LEN
  | _ => true

namespace PeerMemory

def start : PeerMemory where
  heap := []
  head := none
  received := none
  running := []
  sent := []

/-- A table of the tracker ends with a null pointer. -/
def receive (calloc : Tracker.Calloc) (s : PeerMemory)
    (files : List (Linked Node)) : Option PeerMemory :=
  match s.received with
  | some _ => none
  | none =>
      if nullTerminated files then
        (recvTable calloc files s.heap).map fun result =>
          { s with
            heap := result.1
            received := some (result.2, result.2) }
      else none

def compareNext (calloc : Tracker.Calloc) (myip : Ip)
    (config? : Option (List UInt8)) (s : PeerMemory) : Option PeerMemory :=
  match s.received with
  | some (first, some current) =>
      match s.heap.read current with
      | none => none
      | some seekNode =>
          match compareNodeAt calloc s.heap s.head myip seekNode.value with
          | none => none
          | some (heap', head', effect) =>
              if canRemove config? effect then
                (heap'.read current).map fun cell =>
                  { s with
                    heap := heap'
                    head := head'
                    received := some (first, cell.next)
                    running := Shared.create s.running effect }
              else none
  | _ => none

def finish (s : PeerMemory) : Option PeerMemory :=
  match s.received with
  | some (none, none) => some { s with received := none }
  | some (some ptr, none) =>
      (s.heap.read ptr).map fun _ =>
        { s with heap := s.heap.free ptr, received := none }
  | _ => none

def handle (calloc : Tracker.Calloc) (myip : Ip) (now : UInt64)
    (stat? info? : Option FileStat) (event : Event) (s : PeerMemory) :
    Option PeerMemory :=
  match notifyAt calloc s.heap s.head myip now stat? info? event with
  | none => none
  | some (heap', head', sends) =>
      if sends then
        (contents heap' heap'.length head').map fun table =>
          { s with heap := heap', head := head', sent := s.sent ++ [table] }
      else some { s with heap := heap', head := head' }

def complete (index : Nat) (s : PeerMemory) : Option PeerMemory :=
  match s.running[index]? with
  | none => none
  | some arg =>
      (setNodeTypeAt s.heap s.head arg.filename FILE_DOWNLOAD arg.size).map
        fun heap' =>
          { s with heap := heap', running := s.running.eraseIdx index }

def step (calloc : Tracker.Calloc) (myip : Ip) (s : PeerMemory) :
    PeerAction -> Option PeerMemory
  | PeerAction.receive files => s.receive calloc files
  | PeerAction.compareNext config? => s.compareNext calloc myip config?
  | PeerAction.finish => s.finish
  | PeerAction.event now stat? info? event =>
      s.handle calloc myip now stat? info? event
  | PeerAction.complete index => s.complete index

/-- `ft_destroy` -/
def ftDestroy (s : PeerMemory) : Option (Heap (Cell Node)) :=
  match s.head with
  | none => some s.heap
  | some ptr => (s.heap.read ptr).map fun _ => s.heap.free ptr

/-- `main` stops when `peer_recvpkt` fails, which may be inside a table. -/
def stop (calloc : Tracker.Calloc) (files : List (Linked Node))
    (s : PeerMemory) : Option (Heap (Cell Node)) :=
  match recvTable calloc files s.heap with
  | none => none
  | some (heap', _) => { s with heap := heap' }.ftDestroy

end PeerMemory

/-!
## The tables themselves
-/

/-- The received table is divided into the nodes that have been compared and the
others; `finished` has the tables `main` is done with. -/
structure PeerTables where
  shared : Shared
  received : Option (List Node × List Node)
  finished : List (List Node)

namespace PeerTables

def start : PeerTables where
  shared := Shared.fresh
  received := none
  finished := []

def step (myip : Ip) (t : PeerTables) : PeerAction -> Option PeerTables
  | PeerAction.receive files =>
      match t.received with
      | some _ => none
      | none =>
          if nullTerminated files then
            some { t with received := some ([], files.map Linked.value) }
          else none
  | PeerAction.compareNext config? =>
      match t.received with
      | some (done, seekNode :: rest) =>
          if canRemove config?
              (compareNode myip seekNode t.shared.table).2 then
            some { t with
              shared := t.shared.compare myip seekNode
              received := some (done ++ [seekNode], rest) }
          else none
      | _ => none
  | PeerAction.finish =>
      match t.received with
      | some (done, []) =>
          some { t with received := none, finished := t.finished ++ [done] }
      | _ => none
  | PeerAction.event now stat? info? event =>
      if overruns event ∨ vanishes stat? info? event then none
      else
        some { t with
          shared := t.shared.handle myip now (stat?.bind fun _ => info?) event }
  | PeerAction.complete index =>
      (t.shared.complete index).map fun shared => { t with shared := shared }

end PeerTables

/-!
## How the memory holds them
-/

/-- The lists that are allocated: the table, the table that `main` is reading,
and what is left of the tables it is done with. -/
inductive Owner where
  | table
  | received
  | finished (k : Nat)
deriving DecidableEq

inductive ReceivedStored : Option (Option Nat × Option Nat) ->
    Option (List Node × List Node) -> Option Nat -> List (Nat × Node) ->
    Prop where
  | idle : ReceivedStored none none none []
  | reading {first : Option Nat} {done rest : List (Nat × Node)} :
      ReceivedStored (some (first, (rest.map Prod.fst).head?))
        (some (done.map Prod.snd, rest.map Prod.snd)) first (done ++ rest)

structure Stored (s : PeerMemory) (t : PeerTables)
    (head : Owner -> Option Nat) (cells : Owner -> List (Nat × Node)) :
    Prop where
  inventory : Inventory s.heap head (fun _ => none) cells
  first : head Owner.table = s.head
  table : (cells Owner.table).map Prod.snd = t.shared.table
  received : ReceivedStored s.received t.received (head Owner.received)
    (cells Owner.received)
  finished : forall k, (cells (Owner.finished k)).map Prod.snd =
    (t.finished[k]?.getD []).tail
  running : s.running = t.shared.running
  sent : s.sent = t.shared.sent

/-!
## One function
-/

section Table

variable {calloc : Tracker.Calloc} {heap : Heap (Cell Node)}
  {head : Owner -> Option Nat} {cells : Owner -> List (Nat × Node)}
  {pre post : List (Nat × Node)} {a : Nat} {v : Node} {name : FileName}

def Edited (head : Owner -> Option Nat) (cells : Owner -> List (Nat × Node))
    (heap : Heap (Cell Node)) (first : Option Nat) (nodes : List Node) :
    Prop :=
  exists l, Inventory heap (Function.update head Owner.table first)
      (fun _ => none) (Function.update cells Owner.table l) ∧
    l.map Prod.snd = nodes

theorem edited_self (h : Inventory heap head (fun _ => none) cells) :
    Edited head cells heap (head Owner.table)
      ((cells Owner.table).map Prod.snd) := by
  refine ⟨cells Owner.table, ?_, rfl⟩
  rw [Function.update_eq_self, Function.update_eq_self]
  exact h

theorem edited_write (h : Inventory heap head (fun _ => none) cells)
    (hl : cells Owner.table = pre ++ (a, v) :: post) (w : Node) :
    exists next, heap.read a = some { value := v, next := next } ∧
      Edited head cells (heap.write a { value := w, next := next })
        (head Owner.table) (pre.map Prod.snd ++ w :: post.map Prod.snd) := by
  rcases h.change hl w with ⟨next, hread, hchanged⟩
  refine ⟨next, hread, pre ++ (a, w) :: post, ?_, ?_⟩
  · rw [Function.update_eq_self]
    exact hchanged
  · rw [List.map_append, List.map_cons]

theorem linkAt_of_stored (hfresh : calloc.Fresh)
    (h : Inventory heap head (fun _ => none) cells) (node : Node) :
    exists heap' first, linkAt calloc heap (head Owner.table)
        (lastPlace none (cells Owner.table)) node = some (heap', first) ∧
      Edited head cells heap' first
        ((cells Owner.table).map Prod.snd ++ [node]) := by
  have htail : Function.update (fun _ => none) Owner.table none =
      fun _ : Owner => (none : Option Nat) :=
    Function.update_eq_self Owner.table _
  rcases List.eq_nil_or_concat (cells Owner.table) with
    hnil | ⟨pre, x, hconcat⟩
  · have hstart := h.start hnil (hfresh heap) node none
    rw [htail] at hstart
    rw [hnil]
    exact ⟨_, _, rfl, _, hstart, rfl⟩
  · have hsplit : cells Owner.table = pre ++ [(x.1, x.2)] := by
      rw [hconcat, List.concat_eq_append]
    rcases h.extend hsplit (hfresh heap) node none with ⟨hread, hextended⟩
    rw [htail] at hextended
    have hlast : lastPlace none (cells Owner.table) = some x.1 := by
      unfold lastPlace
      rw [hsplit, List.getLast?_concat]
      rfl
    refine ⟨(heap.write x.1 { value := x.2, next := some (calloc heap) }).alloc
      (calloc heap) { value := node, next := none }, head Owner.table, ?_,
      pre ++ [(x.1, x.2), (calloc heap, node)], ?_, ?_⟩
    · unfold linkAt
      rw [hlast]
      dsimp only
      rw [hread]
      rfl
    · rw [Function.update_eq_self]
      exact hextended
    · rw [hsplit]
      simp

theorem notMem_names {l : List (Nat × Node)}
    (h : forall x, x ∈ l -> decide (x.2.name = name) = false) :
    name ∉ (l.map Prod.snd).map Node.name := by
  intro hmem
  rw [List.map_map] at hmem
  rcases List.mem_map.mp hmem with ⟨x, hx, hname⟩
  exact of_decide_eq_false (h x hx) hname

theorem searchTable_of_first {found : Node -> Node × Bool}
    {missing : List Node × Bool} {front back : List Node}
    (hfront : name ∉ front.map Node.name) (hv : v.name = name) :
    searchTable name found missing (front ++ v :: back) =
      (front ++ (found v).1 :: back, (found v).2) := by
  induction front with
  | nil =>
      rw [List.nil_append, searchTable, if_pos hv]
      rfl
  | cons n rest ih =>
      rw [List.map_cons, List.mem_cons, not_or] at hfront
      rw [List.cons_append, searchTable, if_neg (Ne.symm hfront.left),
        ih hfront.right]
      rfl

theorem searchTable_of_notMem {found : Node -> Node × Bool}
    {missing : List Node × Bool} {nodes : List Node}
    (h : name ∉ nodes.map Node.name) :
    searchTable name found missing nodes =
      (nodes ++ missing.1, missing.2) := by
  induction nodes with
  | nil => rfl
  | cons n rest ih =>
      rw [List.map_cons, List.mem_cons, not_or] at h
      rw [searchTable, if_neg (Ne.symm h.left), ih h.right]
      rfl

theorem searchAt_of_stored (hfresh : calloc.Fresh)
    (h : Inventory heap head (fun _ => none) cells)
    (found : Node -> Node × Bool) (missing : Option Node) {nodes : List Node}
    (hnodes : (cells Owner.table).map Prod.snd = nodes) :
    exists heap' first, searchAt calloc heap (head Owner.table) name found
        missing = some (heap', first, (searchTable name found
          (missing.toList, missing.isSome) nodes).2) ∧
      Edited head cells heap' first (searchTable name found
        (missing.toList, missing.isSome) nodes).1 := by
  rw [← hnodes]
  unfold searchAt
  cases h.find_cases (i := Owner.table) rfl
    (fun n => decide (n.name = name)) with
  | inl hfirst =>
      rcases hfirst with ⟨pre, a, v, post, hl, hpre, hv, hfind⟩
      rcases edited_write h hl (found v).1 with ⟨next, hread, hedited⟩
      have hsearch := @searchTable_of_first v name found
        (missing.toList, missing.isSome) (pre.map Prod.snd)
        (post.map Prod.snd) (notMem_names hpre) (of_decide_eq_true hv)
      rw [hfind, hl, List.map_append, List.map_cons, hsearch]
      dsimp only
      rw [hread]
      exact ⟨_, _, rfl, hedited⟩
  | inr hnone =>
      rcases hnone with ⟨hall, hfind⟩
      rw [hfind, searchTable_of_notMem (notMem_names hall)]
      cases missing with
      | none =>
          refine ⟨heap, head Owner.table, rfl, ?_⟩
          rw [Option.toList_none, List.append_nil]
          exact edited_self h
      | some filenode =>
          rcases linkAt_of_stored hfresh h filenode with
            ⟨heap', first, hlink, hedited⟩
          refine ⟨heap', first, ?_, hedited⟩
          dsimp only
          rw [hlink]
          rfl

theorem notifyAt_of_stored (hfresh : calloc.Fresh)
    (h : Inventory heap head (fun _ => none) cells) {myip : Ip}
    {now : UInt64} {stat? info? : Option FileStat} {event : Event}
    {nodes : List Node}
    (hnodes : (cells Owner.table).map Prod.snd = nodes)
    (hgoes : ¬ (overruns event = true ∨ vanishes stat? info? event = true)) :
    exists heap' first, notifyAt calloc heap (head Owner.table) myip now stat?
        info? event = some (heap', first,
          (notifyEvent myip now (stat?.bind fun _ => info?) event nodes).2) ∧
      Edited head cells heap' first
        (notifyEvent myip now (stat?.bind fun _ => info?) event nodes).1 := by
  rw [not_or] at hgoes
  have hself : exists heap' first, some (heap, head Owner.table, false) =
      some (heap', first, false) ∧ Edited head cells heap' first nodes := by
    refine ⟨heap, head Owner.table, rfl, ?_⟩
    rw [← hnodes]
    exact edited_self h
  unfold notifyAt notifyEvent
  rw [if_neg hgoes.left]
  unfold vanishes at hgoes
  cases hpass : passesFilter event with
  | false => exact hself
  | true =>
      rw [hpass] at hgoes
      rw [if_pos rfl, if_pos rfl]
      cases hkind : event.kind with
      | create =>
          rw [hkind] at hgoes
          cases stat? with
          | none => exact hself
          | some stat =>
              cases info? with
              | none => exact absurd rfl hgoes.right
              | some info =>
                  exact searchAt_of_stored hfresh h _ (some _) hnodes
      | modify =>
          rw [hkind] at hgoes
          cases stat? with
          | none => exact hself
          | some stat =>
              cases info? with
              | none => exact absurd rfl hgoes.right
              | some info => exact searchAt_of_stored hfresh h _ none hnodes
      | delete => exact searchAt_of_stored hfresh h _ none hnodes

theorem addAt_of_stored (hfresh : calloc.Fresh)
    (h : Inventory heap head (fun _ => none) cells) (myip : Ip)
    (down : DownloadArg) {nodes : List Node}
    (hnodes : (cells Owner.table).map Prod.snd = nodes) :
    exists heap' first, addAt calloc heap (head Owner.table) myip down =
        some (heap', first) ∧
      Edited head cells heap' first (add myip down nodes) := by
  have hfind : find (fun _ => false) heap heap.length none
      (head Owner.table) =
        some (lastPlace none (cells Owner.table), none) :=
    find_of_none (h.segment Owner.table) (fun _ _ => rfl)
      (h.length_le Owner.table) none
  unfold addAt add
  rw [hfind, ← hnodes]
  exact linkAt_of_stored hfresh h (addedDownload myip down)

theorem modifyAt_of_first (h : Inventory heap head (fun _ => none) cells)
    (hl : cells Owner.table = pre ++ (a, v) :: post)
    {down : DownloadArg}
    (hfind : find (fun n => decide (n.name = down.filename)) heap heap.length
      none (head Owner.table) = some (lastPlace none pre, some a))
    (hpre : down.filename ∉ (pre.map Prod.snd).map Node.name)
    (hv : v.name = down.filename) :
    exists heap', modifyAt heap (head Owner.table) down = some heap' ∧
      Edited head cells heap' (head Owner.table)
        (modify down ((cells Owner.table).map Prod.snd)) := by
  rcases edited_write h hl { v with
    size := down.size
    timestamp := down.timestamp
    type := FILE_DOWNLOADING } with ⟨next, hread, hedited⟩
  unfold modifyAt modify
  rw [hfind, hl, List.map_append, List.map_cons,
    modifyFirst_of_first hpre hv]
  dsimp only
  rw [hread]
  exact ⟨_, rfl, hedited⟩

theorem deleteAt_of_first (h : Inventory heap head (fun _ => none) cells)
    (hl : cells Owner.table = pre ++ (a, v) :: post)
    (hpre : v.name ∉ (pre.map Prod.snd).map Node.name) :
    exists heap', deleteAt heap a = some heap' ∧
      Edited head cells heap' (head Owner.table)
        (delete v.name ((cells Owner.table).map Prod.snd)) := by
  rcases edited_write h hl { v with type := FILE_DELETE } with
    ⟨next, hread, hedited⟩
  unfold deleteAt delete
  rw [hl, List.map_append, List.map_cons, modifyFirst_of_first hpre rfl,
    hread]
  exact ⟨_, rfl, hedited⟩

theorem setNodeTypeAt_of_stored
    (h : Inventory heap head (fun _ => none) cells) (type : Int32)
    (size : UInt64) {nodes : List Node}
    (hnodes : (cells Owner.table).map Prod.snd = nodes) :
    exists heap', setNodeTypeAt heap (head Owner.table) name type size =
        some heap' ∧
      Edited head cells heap' (head Owner.table)
        (setNodeType name type size nodes) := by
  rw [← hnodes]
  unfold setNodeTypeAt setNodeType
  cases h.find_cases (i := Owner.table) rfl
    (fun n => decide (n.name = name)) with
  | inl hfirst =>
      rcases hfirst with ⟨pre, a, v, post, hl, hpre, hv, hfind⟩
      rcases edited_write h hl { v with type := type, size := size } with
        ⟨next, hread, hedited⟩
      rw [hfind, hl, List.map_append, List.map_cons,
        modifyFirst_of_first (notMem_names hpre) (of_decide_eq_true hv)]
      dsimp only
      rw [hread]
      exact ⟨_, rfl, hedited⟩
  | inr hnone =>
      rcases hnone with ⟨hall, hfind⟩
      rw [hfind, modifyFirst_of_notMem (notMem_names hall)]
      exact ⟨heap, rfl, edited_self h⟩

theorem compareNodeAt_of_stored (hfresh : calloc.Fresh)
    (h : Inventory heap head (fun _ => none) cells) {myip : Ip}
    {seekNode : Node} {nodes : List Node}
    (hnodes : (cells Owner.table).map Prod.snd = nodes) :
    exists heap' first, compareNodeAt calloc heap (head Owner.table) myip
        seekNode = some (heap', first,
          (compareNode myip seekNode nodes).2) ∧
      Edited head cells heap' first (compareNode myip seekNode nodes).1 := by
  have hself : Edited head cells heap (head Owner.table) nodes := by
    rw [← hnodes]
    exact edited_self h
  unfold compareNodeAt compareNode
  cases h.find_cases (i := Owner.table) rfl
    (fun n => decide (n.name = seekNode.name)) with
  | inl hfirst =>
      rcases hfirst with ⟨pre, a, v, post, hl, hpre, hv, hfind⟩
      have hname : v.name = seekNode.name := of_decide_eq_true hv
      have hbefore : v.name ∉ (pre.map Prod.snd).map Node.name := by
        rw [hname]
        exact notMem_names hpre
      have hread := h.segment Owner.table
      rw [hl] at hread
      have hlookup : lookup Node.name seekNode.name nodes = some v := by
        rw [← hnodes, hl, List.map_append, List.map_cons, lookup_append,
          lookup_eq_none_iff.mpr (notMem_names hpre), lookup_cons,
          if_pos hname]
        rfl
      rw [hfind, hlookup]
      dsimp only
      rw [hread.read_cell]
      dsimp only
      split
      · split
        · have hfound := hfind
          rw [← hname] at hfound
          rcases @modifyAt_of_first _ _ _ _ _ _ _ h hl
            (downloadArg v.name seekNode) hfound hbefore rfl with
            ⟨heap', hmodify, hedited⟩
          rw [hmodify]
          rw [hnodes] at hedited
          exact ⟨heap', head Owner.table, rfl, hedited⟩
        · split
          · rcases deleteAt_of_first h hl hbefore with
              ⟨heap', hdelete, hedited⟩
            rw [hdelete]
            rw [hnodes] at hedited
            exact ⟨heap', head Owner.table, rfl, hedited⟩
          · exact ⟨heap, head Owner.table, rfl, hself⟩
      · exact ⟨heap, head Owner.table, rfl, hself⟩
  | inr hnone =>
      rcases hnone with ⟨hall, hfind⟩
      have hlookup : lookup Node.name seekNode.name nodes = none := by
        rw [← hnodes]
        exact lookup_eq_none_iff.mpr (notMem_names hall)
      rw [hfind, hlookup]
      dsimp only
      split
      · rcases addAt_of_stored hfresh h myip
          (downloadArg seekNode.name seekNode) hnodes with
          ⟨heap', first, hadd, hedited⟩
        rw [hadd]
        exact ⟨heap', first, rfl, hedited⟩
      · exact ⟨heap, head Owner.table, rfl, hself⟩

/-!
## A received table
-/

theorem recvRest_of_stored (hfresh : calloc.Fresh)
    {tail : Owner -> Option Nat} {sofar files : List (Linked Node)}
    (h : Inventory heap head tail cells)
    (hl : cells Owner.received = pre ++ [(a, v)])
    (htail : tail Owner.received = Tracker.lastPointer sofar)
    (hvalues : (cells Owner.received).map Prod.snd =
      sofar.map Linked.value) :
    exists heap' l, recvRest calloc files a heap = some heap' ∧
      Inventory heap' head
        (Function.update tail Owner.received
          (Tracker.lastPointer (sofar ++ files)))
        (Function.update cells Owner.received l) ∧
      l.map Prod.snd = (sofar ++ files).map Linked.value := by
  induction files generalizing heap tail cells sofar pre a v with
  | nil =>
      refine ⟨heap, cells Owner.received, rfl, ?_, ?_⟩
      · rw [List.append_nil, ← htail, Function.update_eq_self,
          Function.update_eq_self]
        exact h
      · rw [List.append_nil]
        exact hvalues
  | cons file rest ih =>
      rcases h.extend hl (hfresh heap) file.value
        (Tracker.pointerOf file.pNext) with ⟨hread, hextended⟩
      have hcells : Function.update cells Owner.received
          (pre ++ [(a, v), (calloc heap, file.value)]) Owner.received =
            (pre ++ [(a, v)]) ++ [(calloc heap, file.value)] := by
        rw [Function.update_self, List.append_assoc, List.singleton_append]
      have hlast : Function.update tail Owner.received
          (Tracker.pointerOf file.pNext) Owner.received =
            Tracker.lastPointer (sofar ++ [file]) := by
        rw [Function.update_self, Tracker.lastPointer_concat]
      have hmore : (Function.update cells Owner.received
          (pre ++ [(a, v), (calloc heap, file.value)])
            Owner.received).map Prod.snd =
              (sofar ++ [file]).map Linked.value := by
        rw [hcells, ← hl, List.map_append, List.map_append, hvalues]
        rfl
      rcases ih hextended hcells hlast hmore with
        ⟨heap', l, hrest, hinventory, hl'⟩
      rw [Function.update_idem, Function.update_idem, List.append_assoc,
        List.singleton_append] at hinventory
      rw [List.append_assoc, List.singleton_append] at hl'
      refine ⟨heap', l, ?_, hinventory, hl'⟩
      unfold recvRest
      rw [hread]
      exact hrest

theorem recvTable_of_stored (hfresh : calloc.Fresh)
    (h : Inventory heap head (fun _ => none) cells)
    (hhead : head Owner.received = none) (hl : cells Owner.received = [])
    (files : List (Linked Node)) :
    exists heap' first l, recvTable calloc files heap =
        some (heap', first) ∧
      Inventory heap' (Function.update head Owner.received first)
        (Function.update (fun _ => none) Owner.received
          (Tracker.lastPointer files))
        (Function.update cells Owner.received l) ∧
      l.map Prod.snd = files.map Linked.value := by
  cases files with
  | nil =>
      have hfirst := Function.update_eq_self Owner.received head
      have hsame := Function.update_eq_self Owner.received cells
      have hlast : Function.update (fun _ => none) Owner.received
          (Tracker.lastPointer []) = fun _ : Owner => (none : Option Nat) :=
        Function.update_eq_self Owner.received _
      rw [hhead] at hfirst
      rw [hl] at hsame
      refine ⟨heap, none, [], rfl, ?_, rfl⟩
      rw [hfirst, hsame, hlast]
      exact h
  | cons file rest =>
      have hstart := h.start hl (hfresh heap) file.value
        (Tracker.pointerOf file.pNext)
      have hcells : Function.update cells Owner.received
          [(calloc heap, file.value)] Owner.received =
            [] ++ [(calloc heap, file.value)] := by
        rw [Function.update_self, List.nil_append]
      have hlast : Function.update (fun _ => none) Owner.received
          (Tracker.pointerOf file.pNext) Owner.received =
            Tracker.lastPointer [file] := by
        rw [Function.update_self, Tracker.pointerOf_eq]
      have hvalues : (Function.update cells Owner.received
          [(calloc heap, file.value)] Owner.received).map Prod.snd =
            [file].map Linked.value := by
        rw [Function.update_self]
        rfl
      rcases recvRest_of_stored hfresh hstart hcells hlast
        hvalues with ⟨heap', l, hrest, hinventory, hl'⟩
      rw [Function.update_idem, Function.update_idem, List.singleton_append]
        at hinventory
      refine ⟨heap', some (calloc heap), l, ?_, hinventory, hl'⟩
      unfold recvTable
      dsimp only
      rw [hrest]
      rfl

end Table

/-!
## Whole runs
-/

section Runs

variable {calloc : Tracker.Calloc} {myip : Ip} {s : PeerMemory}
  {t t' : PeerTables} {head : Owner -> Option Nat}
  {cells : Owner -> List (Nat × Node)}

def Holds (t : PeerTables) (s : PeerMemory) : Prop :=
  exists head cells, Stored s t head cells

theorem holds_start : Holds PeerTables.start PeerMemory.start :=
  ⟨fun _ => none, fun _ => [], inventory_empty Owner, rfl, rfl,
    ReceivedStored.idle, fun _ => rfl, rfl, rfl⟩

theorem Stored.edit (h : Stored s t head cells) {heap' : Heap (Cell Node)}
    {first : Option Nat} {shared : Shared}
    (hedited : Edited head cells heap' first shared.table) :
    exists head' cells',
      Stored { s with
          heap := heap'
          head := first
          running := shared.running
          sent := shared.sent } { t with shared := shared } head' cells' ∧
        head' Owner.received = head Owner.received ∧
        cells' Owner.received = cells Owner.received := by
  rcases hedited with ⟨l, hinventory, hl⟩
  have hreceived : Owner.received ≠ Owner.table := Owner.noConfusion
  refine ⟨_, _, ⟨hinventory, ?_, ?_, ?_, ?_, rfl, rfl⟩, ?_, ?_⟩
  · exact Function.update_self Owner.table first head
  · rw [Function.update_self]
    exact hl
  · rw [Function.update_of_ne hreceived, Function.update_of_ne hreceived]
    exact h.received
  · intro k
    have hk : Owner.finished k ≠ Owner.table := Owner.noConfusion
    rw [Function.update_of_ne hk]
    exact h.finished k
  · exact Function.update_of_ne hreceived _ _
  · exact Function.update_of_ne hreceived _ _

theorem Stored.receive (hfresh : calloc.Fresh) (h : Stored s t head cells)
    {files : List (Linked Node)}
    (hstep : t.step myip (PeerAction.receive files) = some t') :
    exists s', s.receive calloc files = some s' ∧ Holds t' s' := by
  unfold PeerTables.step at hstep
  dsimp only at hstep
  have hreceived := h.received
  unfold PeerMemory.receive
  cases htable : t.received with
  | some reading =>
      rw [htable] at hstep
      cases hstep
  | none =>
      rw [htable] at hstep hreceived
      dsimp only at hstep
      split at hstep
      · next hend =>
          cases hstep
          generalize hhead : head Owner.received = first at hreceived
          generalize hl : cells Owner.received = l at hreceived
          generalize s.received = reading at hreceived
          cases hreceived
          rcases recvTable_of_stored hfresh h.inventory hhead hl files with
            ⟨heap', first, l, hrecv, hinventory, hvalues⟩
          rw [Tracker.lastPointer_of_terminated hend,
            Function.update_eq_self Owner.received (fun _ => none)]
            at hinventory
          have htableowner : Owner.table ≠ Owner.received :=
            Owner.noConfusion
          have hsegment := hinventory.segment Owner.received
          rw [Function.update_self, Function.update_self] at hsegment
          dsimp only
          rw [if_pos hend, hrecv]
          refine ⟨_, rfl, _, _, hinventory, ?_, ?_, ?_, ?_, h.running,
            h.sent⟩
          · rw [Function.update_of_ne htableowner]
            exact h.first
          · rw [Function.update_of_ne htableowner]
            exact h.table
          · rw [Function.update_self, Function.update_self, ← hvalues]
            dsimp only
            rw [hsegment.head_eq]
            exact @ReceivedStored.reading _ [] l
          · intro k
            have hk : Owner.finished k ≠ Owner.received := Owner.noConfusion
            rw [Function.update_of_ne hk]
            exact h.finished k
      · cases hstep

theorem Stored.compareNext (hfresh : calloc.Fresh)
    (h : Stored s t head cells) {config? : Option (List UInt8)}
    (hstep : t.step myip (PeerAction.compareNext config?) = some t') :
    exists s', s.compareNext calloc myip config? = some s' ∧
      Holds t' s' := by
  unfold PeerTables.step at hstep
  dsimp only at hstep
  have hreceived := h.received
  generalize hreading : s.received = reading at hreceived
  generalize hparts : t.received = parts at hreceived hstep
  generalize hfirst : head Owner.received = first at hreceived
  generalize hl : cells Owner.received = l at hreceived
  cases hreceived with
  | idle => cases hstep
  | @reading first done rest =>
      cases rest with
      | nil => cases hstep
      | cons x rest =>
          rcases Option.ite_none_right_eq_some.mp hstep with ⟨hremove, heq⟩
          cases heq
          have hread := h.inventory.segment Owner.received
          rw [hl] at hread
          rcases @compareNodeAt_of_stored calloc s.heap head cells hfresh
            h.inventory myip x.2 _ h.table with
            ⟨heap', first', hcompare, hedited⟩
          rcases @Stored.edit s t head cells h heap' first'
            (t.shared.compare myip x.2) hedited with
            ⟨head', cells', h', hsamehead, hsamecells⟩
          have hread' := h'.inventory.segment Owner.received
          rw [hsamecells, hl] at hread'
          unfold PeerMemory.compareNext
          rw [hreading, List.map_cons, List.head?_cons]
          dsimp only
          rw [hread.read_cell]
          dsimp only
          rw [← h.first, hcompare]
          dsimp only
          rw [if_pos hremove, hread'.read_cell]
          refine ⟨_, rfl, head', cells', h'.inventory, h'.first, h'.table, ?_,
            h'.finished, ?_, ?_⟩
          · rw [hsamehead, hsamecells, hfirst, hl]
            have hlater := @ReceivedStored.reading first (done ++ [x]) rest
            rw [List.append_assoc, List.singleton_append, List.map_append]
              at hlater
            exact hlater
          · rw [h.running]
            rfl
          · exact h.sent

theorem getD_concat (finished : List (List Node)) (nodes : List Node)
    (k : Nat) :
    (finished ++ [nodes])[k]?.getD [] =
      if k = finished.length then nodes else finished[k]?.getD [] := by
  split
  · next hk => rw [hk, List.getElem?_concat_length, Option.getD_some]
  · next hk =>
      rw [List.getElem?_append]
      split
      · rfl
      · next hlength =>
          rw [List.getElem?_eq_none (by simp; omega),
            List.getElem?_eq_none (by omega)]

theorem Stored.finish (h : Stored s t head cells)
    (hstep : t.step myip PeerAction.finish = some t') :
    exists s', s.finish = some s' ∧ Holds t' s' := by
  unfold PeerTables.step at hstep
  dsimp only at hstep
  have hreceived := h.received
  have hsegment := h.inventory.segment Owner.received
  have hempty : cells (Owner.finished t.finished.length) = [] := by
    have hfinished := h.finished t.finished.length
    rw [List.getElem?_eq_none (Nat.le_refl _)] at hfinished
    exact List.map_eq_nil_iff.mp hfinished
  have hnowhere : head (Owner.finished t.finished.length) = none := by
    have hend := h.inventory.segment (Owner.finished t.finished.length)
    rw [hempty] at hend
    exact hend
  generalize hreading : s.received = reading at hreceived
  generalize hparts : t.received = parts at hreceived hstep
  generalize hfirst : head Owner.received = first at hreceived hsegment
  generalize hl : cells Owner.received = l at hreceived hsegment
  cases hreceived with
  | idle => cases hstep
  | @reading first done rest =>
      cases rest with
      | cons x rest => cases hstep
      | nil =>
          cases hstep
          rw [List.append_nil] at hl hsegment
          unfold PeerMemory.finish
          rw [hreading]
          cases done with
          | nil =>
              change first = none at hsegment
              rw [hsegment] at hfirst ⊢
              refine ⟨_, rfl, head, cells, h.inventory, h.first, h.table, ?_,
                ?_, h.running, h.sent⟩
              · rw [hfirst, hl]
                exact ReceivedStored.idle
              · intro k
                rw [h.finished k]
                dsimp only
                rw [getD_concat]
                split
                · next hk =>
                    rw [hk, List.getElem?_eq_none (Nat.le_refl _)]
                    rfl
                · rfl
          | cons x rest =>
              rcases h.inventory.dropFirst hl with ⟨next, hread, hdropped⟩
              have hmoved := hdropped.permute (Equiv.swap Owner.received
                (Owner.finished t.finished.length))
              have htable : Owner.table ≠ Owner.received := Owner.noConfusion
              have hother : forall k,
                  Owner.finished k ≠ Owner.received :=
                fun k => Owner.noConfusion
              have hkept : Equiv.swap Owner.received
                  (Owner.finished t.finished.length) Owner.table =
                    Owner.table :=
                Equiv.swap_apply_of_ne_of_ne htable Owner.noConfusion
              rw [hsegment.left]
              rw [List.map_nil, List.head?_nil]
              dsimp only
              rw [hread]
              refine ⟨_, rfl, _, _, hmoved, ?_, ?_, ?_, ?_, h.running,
                h.sent⟩
              · dsimp only [Function.comp]
                rw [hkept, Function.update_of_ne htable]
                exact h.first
              · dsimp only [Function.comp]
                rw [hkept, Function.update_of_ne htable]
                exact h.table
              · dsimp only [Function.comp]
                rw [Equiv.swap_apply_left,
                  Function.update_of_ne (hother _), hnowhere,
                  Function.update_of_ne (hother _), hempty]
                exact ReceivedStored.idle
              · intro k
                dsimp only [Function.comp]
                rw [getD_concat]
                split
                · next hk =>
                    rw [hk, Equiv.swap_apply_right, Function.update_self]
                    rfl
                · next hk =>
                    have hne : Owner.finished k ≠
                        Owner.finished t.finished.length :=
                      fun heq => hk (Owner.finished.inj heq)
                    rw [Equiv.swap_apply_of_ne_of_ne (hother k) hne,
                      Function.update_of_ne (hother k)]
                    exact h.finished k

theorem Stored.handle (hfresh : calloc.Fresh) (h : Stored s t head cells)
    (now : UInt64) {stat? info? : Option FileStat} {event : Event}
    (hgoes : ¬ (overruns event = true ∨ vanishes stat? info? event = true)) :
    exists s', s.handle calloc myip now stat? info? event = some s' ∧
      Holds { t with
        shared := t.shared.handle myip now (stat?.bind fun _ => info?) event }
        s' := by
  rcases @notifyAt_of_stored calloc s.heap head cells hfresh h.inventory myip
    now stat? info? event _ h.table hgoes with
    ⟨heap', first, hnotify, hedited⟩
  generalize (stat?.bind fun _ => info?) = seen? at hnotify hedited ⊢
  rcases @Stored.edit s t head cells h heap' first
    (t.shared.handle myip now seen? event) hedited with
    ⟨head', cells', h', _, _⟩
  have hread : contents heap' heap'.length first =
      some (notifyEvent myip now seen? event t.shared.table).1 := by
    have hcontents := contents_of_segment
      (h'.inventory.segment Owner.table) (h'.inventory.length_le Owner.table)
    rw [h'.table, h'.first] at hcontents
    exact hcontents
  rw [h.first] at hnotify
  unfold PeerMemory.handle
  rw [hnotify]
  dsimp only
  cases hsends : (notifyEvent myip now seen? event t.shared.table).2 with
  | true =>
      rw [if_pos rfl, hread]
      refine ⟨_, rfl, head', cells', h'.inventory, h'.first, h'.table,
        h'.received, h'.finished, ?_, ?_⟩
      · exact h.running
      · unfold Shared.handle
        dsimp only
        rw [if_pos hsends, h.sent]
  | false =>
      rw [if_neg Bool.false_ne_true]
      refine ⟨_, rfl, head', cells', h'.inventory, h'.first, h'.table,
        h'.received, h'.finished, ?_, ?_⟩
      · exact h.running
      · unfold Shared.handle
        dsimp only
        rw [if_neg (by rw [hsends]; exact Bool.false_ne_true)]
        exact h.sent

theorem Stored.complete (h : Stored s t head cells) {index : Nat}
    {shared : Shared} (hcomplete : t.shared.complete index = some shared) :
    exists s', s.complete index = some s' ∧
      Holds { t with shared := shared } s' := by
  rcases Shared.complete_eq_some_iff.mp hcomplete with ⟨arg, harg, hshared⟩
  rcases @setNodeTypeAt_of_stored s.heap head cells arg.filename h.inventory
    FILE_DOWNLOAD arg.size _ h.table with ⟨heap', hset, hedited⟩
  rw [h.first] at hset
  have hrunning := harg
  rw [← h.running] at hrunning
  rcases @Stored.edit s t head cells h heap' (head Owner.table) shared
    (hshared ▸ hedited) with ⟨head', cells', h', _, _⟩
  unfold PeerMemory.complete
  rw [hrunning]
  dsimp only
  rw [hset]
  refine ⟨_, rfl, head', cells', h'.inventory, ?_, h'.table, h'.received,
    h'.finished, ?_, ?_⟩
  · exact h'.first.trans h.first
  · dsimp only
    rw [h.running, ← hshared]
  · dsimp only
    rw [h.sent, ← hshared]

theorem holds_step (hfresh : calloc.Fresh) {a : PeerAction}
    (h : Holds t s) (hstep : t.step myip a = some t') :
    exists s', s.step calloc myip a = some s' ∧ Holds t' s' := by
  rcases h with ⟨head, cells, h⟩
  cases a with
  | receive files => exact h.receive hfresh hstep
  | compareNext config? => exact h.compareNext hfresh hstep
  | finish => exact h.finish hstep
  | event now stat? info? event =>
      rcases Option.ite_none_left_eq_some.mp hstep with ⟨hgoes, heq⟩
      cases heq
      exact h.handle hfresh now hgoes
  | complete index =>
      rcases Option.map_eq_some_iff.mp hstep with ⟨shared, hcomplete, rfl⟩
      exact h.complete hcomplete

theorem holds_of_run (hfresh : calloc.Fresh) {actions : List PeerAction}
    (hrun : runFrom (PeerTables.step myip) PeerTables.start actions =
      some t) :
    exists s, runFrom (PeerMemory.step calloc myip) PeerMemory.start
        actions = some s ∧ Holds t s := by
  apply runFrom_simulation _ holds_start hrun
  intro t a t' s h hstep
  exact holds_step hfresh h hstep

def PeerTables.reading (t : PeerTables) : List Node :=
  t.received.elim [] fun parts => parts.1 ++ parts.2

theorem Stored.reading (h : Stored s t head cells) :
    (cells Owner.received).map Prod.snd = t.reading := by
  have hreceived := h.received
  unfold PeerTables.reading
  generalize s.received = pointers at hreceived
  generalize t.received = parts at hreceived
  generalize head Owner.received = first at hreceived
  generalize cells Owner.received = l at hreceived
  cases hreceived with
  | idle => rfl
  | reading => exact List.map_append

/-- The allocated nodes, each once: those of the table and of the received
table, and all but the first of every table that `main` is done with. -/
def Allocated (heap : Heap (Cell Node)) (table reading : List Node)
    (finished : List (List Node)) : Prop :=
  exists head tail cells, Inventory heap head tail cells ∧
    (cells Owner.table).map Prod.snd = table ∧
    (cells Owner.received).map Prod.snd = reading ∧
    forall k, (cells (Owner.finished k)).map Prod.snd =
      (finished[k]?.getD []).tail

/-- A run on the tables is a run in memory: no call follows a null pointer or
reads memory that is not allocated, and the list from `head` on is the table.
Of every table that `main` is done with, all nodes but the first stay
allocated. -/
theorem peer_run_in_memory (hfresh : calloc.Fresh)
    {actions : List PeerAction}
    (hrun : runFrom (PeerTables.step myip) PeerTables.start actions =
      some t) :
    exists s, runFrom (PeerMemory.step calloc myip) PeerMemory.start
        actions = some s ∧
      contents s.heap s.heap.length s.head = some t.shared.table ∧
      s.running = t.shared.running ∧ s.sent = t.shared.sent ∧
      Allocated s.heap t.shared.table t.reading t.finished := by
  rcases holds_of_run hfresh hrun with ⟨s, hmemory, head, cells, h⟩
  have hcontents := contents_of_segment (h.inventory.segment Owner.table)
    (h.inventory.length_le Owner.table)
  rw [h.table, h.first] at hcontents
  exact ⟨s, hmemory, hcontents, h.running, h.sent, head, _, cells,
    h.inventory, h.table, h.reading, h.finished⟩

def Sample.twoFiles : List PeerAction :=
  [PeerAction.receive
      [⟨Sample.node Sample.ipB Sample.fileA 100 5 FILE_CREATE, 1⟩,
        ⟨Sample.node Sample.ipB Sample.fileB 100 5 FILE_CREATE, 0⟩],
    PeerAction.compareNext none, PeerAction.compareNext none,
    PeerAction.finish,
    PeerAction.receive
      [⟨Sample.node Sample.ipB Sample.fileA 101 5 FILE_DELETE, 0⟩],
    PeerAction.compareNext (some [115, 47]), PeerAction.finish,
    PeerAction.complete 1,
    PeerAction.event 102 (some { size := 5, mtime := 102 })
      (some { size := 5, mtime := 102 })
      { kind := EventKind.modify, name := Sample.fileB }]

theorem peer_run_in_memory_twoFiles :
    exists s table, runFrom (PeerMemory.step Heap.fresh Sample.ipA)
        PeerMemory.start Sample.twoFiles = some s ∧
      contents s.heap s.heap.length s.head = some table ∧
      s.sent = [table] ∧ table.length = 2 ∧
      Allocated s.heap table []
        [[Sample.node Sample.ipB Sample.fileA 100 5 FILE_CREATE,
          Sample.node Sample.ipB Sample.fileB 100 5 FILE_CREATE],
          [Sample.node Sample.ipB Sample.fileA 101 5 FILE_DELETE]] := by
  rcases @peer_run_in_memory Heap.fresh Sample.ipA _
    (fun heap => heap.read_fresh) Sample.twoFiles rfl with
    ⟨s, hrun, hcontents, _, hsent, hallocated⟩
  exact ⟨s, _, hrun, hcontents, hsent, rfl, hallocated⟩

theorem ftDestroy_of_inventory {heap : Heap (Cell Node)}
    {tail : Owner -> Option Nat}
    (h : Inventory heap head tail cells) (hend : tail Owner.table = none)
    (hfirst : head Owner.table = s.head) :
    exists heap', { s with heap := heap }.ftDestroy = some heap' ∧
      exists first, Inventory heap' (Function.update head Owner.table first)
        tail (Function.update cells Owner.table (cells Owner.table).tail) := by
  have hsegment := h.segment Owner.table
  unfold PeerMemory.ftDestroy
  dsimp only
  cases hl : cells Owner.table with
  | nil =>
      rw [hl, hend] at hsegment
      have hnone : s.head = none := hfirst.symm.trans hsegment
      refine ⟨heap, by rw [hnone], head Owner.table, ?_⟩
      rw [List.tail_nil, ← hl, Function.update_eq_self,
        Function.update_eq_self]
      exact h
  | cons x rest =>
      rw [hl] at hsegment
      have hhead : s.head = some x.1 := hfirst.symm.trans hsegment.left
      rcases h.dropFirst hl with ⟨next, hread, hdropped⟩
      refine ⟨heap.free x.1, ?_, next, hdropped⟩
      rw [hhead]
      dsimp only
      rw [hread]
      rfl

/-- When `peer_recvpkt` fails, or the peer is stopped between two tables or while
it compares one, all nodes stay allocated but the first of its table. -/
theorem ftDestroy_of_run (hfresh : calloc.Fresh) {actions : List PeerAction}
    (hrun : runFrom (PeerTables.step myip) PeerTables.start actions =
      some t) {files : List (Linked Node)}
    (hidle : t.received = none ∨ files = []) :
    exists s heap, runFrom (PeerMemory.step calloc myip) PeerMemory.start
        actions = some s ∧
      s.stop calloc files = some heap ∧
      Allocated heap t.shared.table.tail
        (t.reading ++ files.map Linked.value) t.finished := by
  rcases holds_of_run hfresh hrun with ⟨s, hmemory, head, cells, h⟩
  have htable : Owner.table ≠ Owner.received := Owner.noConfusion
  have hfinished : forall k, Owner.finished k ≠ Owner.table :=
    fun k => Owner.noConfusion
  have hother : forall k, Owner.finished k ≠ Owner.received :=
    fun k => Owner.noConfusion
  cases hidle with
  | inr hnone =>
      subst hnone
      rcases ftDestroy_of_inventory h.inventory rfl h.first with
        ⟨heap', hdestroyed, first, hleft⟩
      refine ⟨s, heap', hmemory, hdestroyed, _, _, _, hleft, ?_, ?_, ?_⟩
      · rw [Function.update_self, List.map_tail, h.table]
      · rw [Function.update_of_ne htable.symm, h.reading, List.map_nil,
          List.append_nil]
      · intro k
        rw [Function.update_of_ne (hfinished k)]
        exact h.finished k
  | inl hnone =>
      have hreceived := h.received
      have hreading : t.reading = [] := by
        unfold PeerTables.reading
        rw [hnone]
        rfl
      have hnothing : head Owner.received = none ∧
          cells Owner.received = [] := by
        rw [hnone] at hreceived
        generalize head Owner.received = first at hreceived
        generalize cells Owner.received = l at hreceived
        generalize s.received = reading at hreceived
        cases hreceived
        exact ⟨rfl, rfl⟩
      rcases recvTable_of_stored hfresh h.inventory hnothing.left
        hnothing.right files with
        ⟨heap1, first, l, hrecv, hinventory, hvalues⟩
      have hhead : Function.update head Owner.received first Owner.table =
          s.head := by
        rw [Function.update_of_ne htable]
        exact h.first
      rcases ftDestroy_of_inventory hinventory
        (Function.update_of_ne htable _ _) hhead with
        ⟨heap', hdestroyed, _, hleft⟩
      refine ⟨s, heap', hmemory, ?_, _, _, _, hleft, ?_, ?_, ?_⟩
      · unfold PeerMemory.stop
        rw [hrecv]
        exact hdestroyed
      · rw [Function.update_self, Function.update_of_ne htable, List.map_tail,
          h.table]
      · rw [Function.update_of_ne htable.symm, Function.update_self, hvalues,
          hreading, List.nil_append]
      · intro k
        rw [Function.update_of_ne (hfinished k),
          Function.update_of_ne (hother k)]
        exact h.finished k

theorem ftDestroy_of_run_twoFiles :
    exists s heap table, runFrom (PeerMemory.step Heap.fresh Sample.ipA)
        PeerMemory.start Sample.twoFiles = some s ∧
      s.stop Heap.fresh [⟨Sample.node Sample.ipB Sample.fileB 102 5
        FILE_MODIFY, 1⟩] = some heap ∧
      table.length = 1 ∧
      Allocated heap table
        [Sample.node Sample.ipB Sample.fileB 102 5 FILE_MODIFY]
        [[Sample.node Sample.ipB Sample.fileA 100 5 FILE_CREATE,
          Sample.node Sample.ipB Sample.fileB 100 5 FILE_CREATE],
          [Sample.node Sample.ipB Sample.fileA 101 5 FILE_DELETE]] := by
  rcases @ftDestroy_of_run Heap.fresh Sample.ipA _
    (fun heap => heap.read_fresh) Sample.twoFiles rfl
    [⟨Sample.node Sample.ipB Sample.fileB 102 5 FILE_MODIFY, 1⟩]
    (Or.inl rfl) with ⟨s, heap, hrun, hstop, hallocated⟩
  exact ⟨s, heap, _, hrun, hstop, rfl, hallocated⟩

end Runs

end Peer
end DartSync
