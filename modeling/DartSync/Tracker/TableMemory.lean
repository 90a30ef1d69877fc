import DartSync.Foundation.ListLoops
import DartSync.Tracker.ConcurrentMerge
import DartSync.Tracker.Reassembly

/-!
# The tracker's tables in memory

`update_filetable`, `free_ft`, the handshake loop and the file-table part of
`delete_peer` over a heap: the tracker's table is one linked list, and every
handshake thread builds the table of its peer as another.  A received node is
copied with the link it had in the peer's memory, which the next node or the
end of the table has to replace.  A step is `none` where it follows a null
pointer or one to a freed cell, or does not end.  A thread that ends inside a
table leaves its nodes behind.
-/

namespace DartSync
namespace Tracker

open Foundation

/-- What `calloc` returns on a heap. -/
abbrev Calloc := Heap (Cell Node) -> Nat

def Calloc.Fresh (calloc : Calloc) : Prop :=
  forall heap : Heap (Cell Node), heap.read (calloc heap) = none

/-- Where `peer_ft` points: nowhere yet, to a table with this head, or to one
that has been freed. -/
inductive PeerFtPointer where
  | uninitialised
  | live (head : Option Nat)
  | freed

structure ThreadMemory where
  counter : Int32
  file_table_size : Int32
  peer_ft : PeerFtPointer
  temp : Option Nat

/-- The nodes of all tables, the tracker's `ft` with its head, and the variables
of each thread. -/
structure TrackerMemory (ι : Type) where
  heap : Heap (Cell Node)
  ft : Option (Option Nat)
  threads : ι -> ThreadMemory
  ended : ι -> Bool

def pointerOf (pNext : UInt64) : Option Nat :=
  if pNext = 0 then none else some pNext.toNat

/-!
## `update_filetable`
-/

def updateNodeAt (calloc : Calloc) (peerNode : Node)
    (heap : Heap (Cell Node)) (ft : Option (Option Nat)) :
    Option (Heap (Cell Node) × Option (Option Nat)) :=
  match ft with
  | some (some head) =>
      match seek (fun n => n.name = peerNode.name) heap heap.length head with
      | none => none
      | some (tracker_ftemp, file_found) =>
          (heap.read tracker_ftemp).map fun cell =>
            if file_found then
              (heap.write tracker_ftemp
                { cell with value := updateEntry peerNode cell.value }, ft)
            else
              ((heap.write tracker_ftemp
                  { cell with next := some (calloc heap) }).alloc (calloc heap)
                { value := addFile peerNode, next := none }, ft)
  | _ =>
      -- the search leaves `tracker_ftemp` at `NULL`
      some (heap.alloc (calloc heap)
          { value := addFile peerNode, next := none },
        some (some (calloc heap)))

def updateLoop (calloc : Calloc) : Nat -> Option Nat ->
    Heap (Cell Node) -> Option (Option Nat) ->
    Option (Heap (Cell Node) × Option (Option Nat))
  | _, none, heap, ft => some (heap, ft)
  | 0, some _, _, _ => none
  | turns + 1, some peer_ftemp, heap, ft =>
      match heap.read peer_ftemp with
      | none => none
      | some peerCell =>
          match updateNodeAt calloc peerCell.value heap ft with
          | none => none
          | some (heap', ft') =>
              match heap'.read peer_ftemp with
              | none => none
              | some cell => updateLoop calloc turns cell.next heap' ft'

/-- `display_filetable` walks to the first deleted file. -/
def displayTable (heap : Heap (Cell Node)) :
    Option (Option Nat) -> Option (Option Nat × Option Nat)
  | none => none
  | some head => find (fun n => n.type = FILE_DELETE) heap heap.length none head

def updateTable (calloc : Calloc) (peerHead : Option Nat)
    (heap : Heap (Cell Node)) (ft : Option (Option Nat)) :
    Option (Heap (Cell Node) × Option (Option Nat)) :=
  match updateLoop calloc heap.length peerHead heap ft with
  | none => none
  | some (heap', ft') => (displayTable heap' ft').map fun _ => (heap', ft')

/-- What `tracker_sendpkt` reads. -/
def readTable (heap : Heap (Cell Node)) :
    Option (Option Nat) -> Option (List Node)
  | none => some []
  | some head => contents heap heap.length head

/-- The file-table part of `delete_peer`. -/
def forgetPeer (peerIp : Ip) (heap : Heap (Cell Node)) :
    Option (Option Nat) -> Option (Heap (Cell Node))
  | none => some heap
  | some head =>
      changeAll
        (fun n => { n with
          newpeerip := deletePeerSlots peerIp MAX_PEER_NUM 0 n.newpeerip })
        heap.length head heap

/-!
## The handshake loop
-/

def addNodeAt (calloc : Calloc) (m : ThreadMemory) (file : Linked Node)
    (heap : Heap (Cell Node)) : Option (Heap (Cell Node) × ThreadMemory) :=
  let address := calloc heap
  let cell : Cell Node :=
    { value := file.value, next := pointerOf file.pNext }
  if m.counter = 0 then
    match m.peer_ft with
    | PeerFtPointer.live _ =>
        some (heap.alloc address cell,
          { m with
            counter := m.counter + 1
            peer_ft := PeerFtPointer.live (some address)
            temp := some address })
    | _ => none
  else
    match m.temp with
    | none => none
    | some temp =>
        (heap.read temp).map fun last =>
          ((heap.write temp { last with next := some address }).alloc address
              cell,
            { m with counter := m.counter + 1, temp := some address })

def storeAt (calloc : Calloc) (m : ThreadMemory) (pkt : PtpPeer)
    (heap : Heap (Cell Node)) : Option (Heap (Cell Node) × ThreadMemory) :=
  if m.counter = -1 ∧ pkt.file_table_size ≠ -1 then
    some (heap,
      { m with
        counter := m.counter + 1
        file_table_size := pkt.file_table_size
        peer_ft := PeerFtPointer.live none })
  else if m.counter < m.file_table_size ∧ pkt.file_table_size = -1 then
    addNodeAt calloc m pkt.file heap
  else some (heap, m)

def finishAt (calloc : Calloc) (m : ThreadMemory) (broadcastFails : Option Ip)
    (heap : Heap (Cell Node)) (ft : Option (Option Nat)) :
    Option (Heap (Cell Node) × Option (Option Nat) × ThreadMemory) :=
  match m.peer_ft with
  | PeerFtPointer.live peerHead =>
      match updateTable calloc peerHead heap ft with
      | none => none
      | some (heap1, ft') =>
          match readTable heap1 ft' with
          | none => none
          | some _ =>
              match broadcastFails.elim (some heap1)
                (fun ip => forgetPeer ip heap1 ft') with
              | none => none
              | some heap2 =>
                  (freeAll heap2.length peerHead heap2).map fun heap3 =>
                    (heap3, ft',
                      { m with
                        counter := -1
                        file_table_size := -1
                        peer_ft := PeerFtPointer.freed })
  | _ => none

def receiveAt (calloc : Calloc) (m : ThreadMemory) (a : Arrival)
    (heap : Heap (Cell Node)) (ft : Option (Option Nat)) :
    Option (Heap (Cell Node) × Option (Option Nat) × ThreadMemory) :=
  if a.recv_pkt.type = REGISTER then
    match readTable heap ft with
    | none => none
    | some _ =>
        if a.replyFails then
          let ip := a.recv_pkt.peer_ip.widen (Nat.le_succ IP_LEN)
          (forgetPeer ip heap ft).map fun heap' => (heap', ft, m)
        else some (heap, ft, m)
  else if a.recv_pkt.type = FILE_UPDATE then
    match storeAt calloc m a.recv_pkt heap with
    | none => none
    | some (heap', m') =>
        if m'.counter = m'.file_table_size then
          finishAt calloc m' a.broadcastFails heap' ft
        else some (heap', ft, m')
  else some (heap, ft, m)

/-- What changes the tables: a packet for one of the threads, its end, when
nothing more can be received, or a `delete_peer` of another one. -/
inductive MemoryAction (ι : Type) where
  | packet (p : ι) (a : Arrival)
  | exit (p : ι) (peerIp : Ip)
  | forget (peerIp : Ip)

variable {ι : Type} [DecidableEq ι]

def memoryStep (calloc : Calloc) (s : TrackerMemory ι) :
    MemoryAction ι -> Option (TrackerMemory ι)
  | MemoryAction.packet p a =>
      if s.ended p then none
      else
        (receiveAt calloc (s.threads p) a s.heap s.ft).map fun result =>
          { s with
            heap := result.1
            ft := result.2.1
            threads := Function.update s.threads p result.2.2 }
  | MemoryAction.exit p peerIp =>
      if s.ended p then none
      else
        (forgetPeer peerIp s.heap s.ft).map fun heap =>
          { s with heap := heap, ended := Function.update s.ended p true }
  | MemoryAction.forget peerIp =>
      (forgetPeer peerIp s.heap s.ft).map fun heap => { s with heap := heap }

/-- Before the first connection. -/
def TrackerMemory.start : TrackerMemory ι where
  heap := []
  ft := none
  threads := fun _ =>
    { counter := -1
      file_table_size := -1
      peer_ft := PeerFtPointer.uninitialised
      temp := none }
  ended := fun _ => false

/-- `free_ft(ft)` in `tracker_stop`. -/
def trackerStop (s : TrackerMemory ι) : Option (Heap (Cell Node)) :=
  match s.ft with
  | none => none
  | some head => freeAll s.heap.length head s.heap

/-!
## The tables themselves
-/

/-- The tracker with tables as lists; the `ft` of a thread is not used. -/
structure TrackerTables (ι : Type) where
  ft : FileTable
  threads : ι -> Handshake
  ended : ι -> Bool

/-- A thread with the tracker's table as it is now. -/
def TrackerTables.handshake (t : TrackerTables ι) (p : ι) : Handshake where
  counter := (t.threads p).counter
  file_table_size := (t.threads p).file_table_size
  peer_ft := (t.threads p).peer_ft
  ft := t.ft

def tablesStep (t : TrackerTables ι) :
    MemoryAction ι -> Option (TrackerTables ι)
  | MemoryAction.packet p a =>
      if t.ended p then none
      else
        match ((t.handshake p).receive a).2 with
        | none => none
        | some s' =>
            some { t with
              ft := s'.ft
              threads := Function.update t.threads p s' }
  | MemoryAction.exit p peerIp =>
      if t.ended p then none
      else
        some { t with
          ft := deletePeer peerIp t.ft
          ended := Function.update t.ended p true }
  | MemoryAction.forget peerIp => some { t with ft := deletePeer peerIp t.ft }

def TrackerTables.start : TrackerTables ι where
  ft := none
  threads := fun _ => Handshake.start none
  ended := fun _ => false

/-!
## How the memory holds them
-/

def lastPointer (nodes : List (Linked Node)) : Option Nat :=
  nodes.getLast?.bind fun last => pointerOf last.pNext

inductive FtStored : Option (Option Nat) -> FileTable -> Option Nat ->
    List (Nat × Node) -> Prop where
  | null : FtStored none none none []
  | table {head : Option Nat} {l : List (Nat × Node)} : l ≠ [] ->
      FtStored (some head) (some (l.map Prod.snd)) head l

inductive PeerFtStored (counter : Int32) (temp : Option Nat) :
    PeerFtPointer -> PeerFt -> Option Nat -> Option Nat ->
    List (Nat × Node) -> Prop where
  | uninitialised : PeerFtStored counter temp PeerFtPointer.uninitialised
      PeerFt.uninitialised none none []
  | freed : PeerFtStored counter temp PeerFtPointer.freed PeerFt.freed none
      none []
  | live {head : Option Nat} {nodes : List (Linked Node)}
      {l : List (Nat × Node)} : l.map Prod.snd = nodes.map Linked.value ->
      counter.toInt = nodes.length ->
      (forall a, (l.map Prod.fst).getLast? = some a -> temp = some a) ->
      PeerFtStored counter temp (PeerFtPointer.live head) (PeerFt.live nodes)
        head (lastPointer nodes) l

structure ThreadStored (m : ThreadMemory) (h : Handshake)
    (head tail : Option Nat) (l : List (Nat × Node)) : Prop where
  counter : m.counter = h.counter
  file_table_size : m.file_table_size = h.file_table_size
  peer_ft : PeerFtStored m.counter m.temp m.peer_ft h.peer_ft head tail l

/-- The lists in memory are the tracker's table and the threads' tables, and
every allocated node is in one of them. -/
structure Stored {ι : Type} (s : TrackerMemory ι) (t : TrackerTables ι)
    (head tail : Option ι -> Option Nat)
    (cells : Option ι -> List (Nat × Node)) : Prop where
  inventory : Inventory s.heap head tail cells
  ends : tail none = none
  ft : FtStored s.ft t.ft (head none) (cells none)
  threads : forall p, ThreadStored (s.threads p) (t.threads p) (head (some p))
    (tail (some p)) (cells (some p))
  ended : s.ended = t.ended

/-!
## `update_filetable` in memory
-/

section Update

variable {peerNode : Node}

theorem name_notMem {l : List (Nat × Node)}
    (h : forall x, x ∈ l -> decide (x.2.name = peerNode.name) = false) :
    peerNode.name ∉ (l.map Prod.snd).map Node.name := by
  intro hmem
  rw [List.map_map] at hmem
  rcases List.mem_map.mp hmem with ⟨x, hx, hname⟩
  exact of_decide_eq_false (h x hx) hname

variable {κ : Type} [DecidableEq κ] {calloc : Calloc}
  {heap : Heap (Cell Node)} {head tail : Option κ -> Option Nat}
  {cells : Option κ -> List (Nat × Node)} {ft : Option (Option Nat)}
  {t : FileTable}

def Updated (head tail : Option κ -> Option Nat)
    (cells : Option κ -> List (Nat × Node)) (heap : Heap (Cell Node))
    (ft : Option (Option Nat)) (t : FileTable) : Prop :=
  exists first l, Inventory heap (Function.update head none first) tail
    (Function.update cells none l) ∧ FtStored ft t first l

theorem updated_of_inventory {l : List (Nat × Node)}
    (h : Inventory heap head tail (Function.update cells none l))
    (hft : FtStored ft t (head none) l) :
    Updated head tail cells heap ft t := by
  refine ⟨head none, l, ?_, hft⟩
  rw [Function.update_eq_self]
  exact h

theorem updated_self (h : Inventory heap head tail cells)
    (hft : FtStored ft t (head none) (cells none)) :
    Updated head tail cells heap ft t := by
  apply updated_of_inventory _ hft
  rw [Function.update_eq_self]
  exact h

theorem updateNodeAt_of_found {first a : Nat} {v : Node} {next : Option Nat}
    (hseek : seek (fun n => n.name = peerNode.name) heap heap.length first =
      some (a, true))
    (hread : heap.read a = some { value := v, next := next }) :
    updateNodeAt calloc peerNode heap (some (some first)) =
      some (heap.write a { value := updateEntry peerNode v, next := next },
        some (some first)) := by
  unfold updateNodeAt
  dsimp only
  rw [hseek]
  dsimp only
  rw [hread]
  rfl

theorem updateNodeAt_of_missing {first a : Nat} {v : Node} {next : Option Nat}
    (hseek : seek (fun n => n.name = peerNode.name) heap heap.length first =
      some (a, false))
    (hread : heap.read a = some { value := v, next := next }) :
    updateNodeAt calloc peerNode heap (some (some first)) =
      some ((heap.write a { value := v, next := some (calloc heap) }).alloc
          (calloc heap) { value := addFile peerNode, next := none },
        some (some first)) := by
  unfold updateNodeAt
  dsimp only
  rw [hseek]
  dsimp only
  rw [hread]
  rfl

theorem mergeNode_of_first {pre post : List (Nat × Node)} {a : Nat} {v : Node}
    (hpre : forall x, x ∈ pre -> decide (x.2.name = peerNode.name) = false)
    (hv : decide (v.name = peerNode.name) = true) :
    mergeNode (some ((pre ++ (a, v) :: post).map Prod.snd)) peerNode =
      some ((pre ++ (a, updateEntry peerNode v) :: post).map Prod.snd) := by
  unfold mergeNode
  rw [List.map_append, List.map_append, List.map_cons, List.map_cons]
  exact congrArg some
    (updateNode_of_first (name_notMem hpre) (of_decide_eq_true hv))

theorem mergeNode_of_none {l : List (Nat × Node)} (a : Nat)
    (h : forall x, x ∈ l -> decide (x.2.name = peerNode.name) = false) :
    mergeNode (some (l.map Prod.snd)) peerNode =
      some ((l ++ [(a, addFile peerNode)]).map Prod.snd) := by
  unfold mergeNode
  rw [List.map_append, List.map_singleton]
  exact congrArg some (updateNode_of_notMem (name_notMem h))

theorem updateNodeAt_of_stored (hfresh : calloc.Fresh)
    (h : Inventory heap head tail cells) (hend : tail none = none)
    (hft : FtStored ft t (head none) (cells none)) :
    exists heap' ft', updateNodeAt calloc peerNode heap ft =
        some (heap', ft') ∧
      Updated head tail cells heap' ft' (mergeNode t peerNode) := by
  have hkeep := Function.update_eq_self none tail
  rw [hend] at hkeep
  generalize hfirst : head none = first at hft
  generalize hl : cells none = l at hft
  cases hft with
  | null =>
      have hstart := h.start hl (hfresh heap) (addFile peerNode) none
      rw [hkeep] at hstart
      exact ⟨_, _, rfl, _, _, hstart,
        @FtStored.table _ [(calloc heap, addFile peerNode)]
          (List.cons_ne_nil _ _)⟩
  | table hne =>
      have hturns := h.length_le none
      have hsegment := h.segment none
      rw [hend, hfirst, hl] at hsegment
      rw [hl] at hturns
      have hhead : exists b, first = some b := by
        cases l with
        | nil => exact absurd rfl hne
        | cons x rest => exact ⟨x.1, hsegment.left⟩
      rcases hhead with ⟨b, hb⟩
      cases first_or_none (fun n => decide (n.name = peerNode.name)) l with
      | inl hfound =>
          rcases hfound with ⟨pre, a, v, post, hsplit, hpre, hv⟩
          rcases h.change (hl.trans hsplit) (updateEntry peerNode v) with
            ⟨next, hread, hchanged⟩
          rw [hsplit] at hsegment hturns
          rw [List.length_append, List.length_cons] at hturns
          have hseek := @seek_of_first _ heap first pre post a v
            (fun n => decide (n.name = peerNode.name)) heap.length hsegment
            hpre hv (by omega) b hb
          have hupdated := @updateNodeAt_of_found _ calloc _ _ _ _ _ hseek hread
          rw [hb]
          refine ⟨_, _, hupdated, updated_of_inventory hchanged ?_⟩
          rw [hsplit, mergeNode_of_first hpre hv, hfirst, hb]
          apply FtStored.table
          intro hnil
          exact absurd (List.append_eq_nil_iff.mp hnil).right
            (List.cons_ne_nil _ _)
      | inr hnone =>
          rcases List.eq_nil_or_concat l with hnil | ⟨pre, x, hconcat⟩
          · exact absurd hnil hne
          · have hsplit : l = pre ++ [(x.1, x.2)] := by
              rw [hconcat, List.concat_eq_append]
            rcases h.extend (hl.trans hsplit) (hfresh heap) (addFile peerNode)
              none with ⟨hread, hextended⟩
            rw [hkeep] at hextended
            have hmerged := mergeNode_of_none (calloc heap) hnone
            rw [hsplit] at hsegment hturns hnone
            rw [List.length_append, List.length_singleton] at hturns
            rw [List.forall_mem_append] at hnone
            have hseek := @seek_of_none _ heap first pre x.1 x.2
              (fun n => decide (n.name = peerNode.name)) heap.length hsegment
              hnone.left (hnone.right _ List.mem_cons_self) (by omega) b hb
            have hupdated := @updateNodeAt_of_missing _ calloc _ _ _ _ _ hseek
              hread
            rw [hb]
            refine ⟨_, _, hupdated, updated_of_inventory hextended ?_⟩
            rw [hmerged, hfirst, hb, hsplit, List.append_assoc,
              List.singleton_append]
            apply FtStored.table
            intro hnil
            exact absurd (List.append_eq_nil_iff.mp hnil).right
              (List.cons_ne_nil _ _)

theorem updateLoop_of_stored (hfresh : calloc.Fresh)
    (h : Inventory heap head tail cells) (hend : tail none = none)
    (hft : FtStored ft t (head none) (cells none)) {q : κ}
    (hterminated : tail (some q) = none) {pre rest : List (Nat × Node)}
    (hcells : cells (some q) = pre ++ rest) {turns : Nat}
    (hturns : rest.length ≤ turns) :
    exists heap' ft', updateLoop calloc turns (rest.map Prod.fst).head? heap
        ft = some (heap', ft') ∧
      Updated head tail cells heap' ft'
        ((rest.map Prod.snd).foldl mergeNode t) := by
  induction rest generalizing heap head cells ft t turns pre with
  | nil =>
      refine ⟨heap, ft, ?_, updated_self h hft⟩
      cases turns <;> rfl
  | cons x rest ih =>
      cases turns with
      | zero => cases hturns
      | succ turns =>
          have hread := h.segment (some q)
          rw [hterminated, hcells] at hread
          rcases @updateNodeAt_of_stored x.2 _ _ _ _ _ _ _ _ _ hfresh h hend
            hft with ⟨heap1, ft1, hupdate, first, l, h1, hft1⟩
          have hother : some q ≠ none := Option.some_ne_none q
          have hcells1 : Function.update cells none l (some q) =
              (pre ++ [x]) ++ rest := by
            rw [Function.update_of_ne hother, hcells, List.append_assoc,
              List.singleton_append]
          have hread1 := h1.segment (some q)
          rw [hterminated, Function.update_of_ne hother,
            Function.update_of_ne hother, hcells] at hread1
          have hft1' : FtStored ft1 (mergeNode t x.2)
              (Function.update head none first none)
              (Function.update cells none l none) := by
            rw [Function.update_self, Function.update_self]
            exact hft1
          rcases ih h1 hft1' hcells1 (Nat.le_of_succ_le_succ hturns) with
            ⟨heap', ft', hloop, first', l', h', hft'⟩
          rw [Function.update_idem, Function.update_idem] at h'
          refine ⟨heap', ft', ?_, first', l', h', hft'⟩
          rw [List.map_cons, List.head?_cons, updateLoop, hread.read_cell]
          dsimp only
          rw [hupdate]
          dsimp only
          rw [hread1.read_cell]
          exact hloop

omit [DecidableEq κ] in
theorem displayTable_of_stored (h : Inventory heap head tail cells)
    (hend : tail none = none) {nodes : List Node}
    (hft : FtStored ft (some nodes) (head none) (cells none)) :
    exists result, displayTable heap ft = some result := by
  have hsegment := h.segment none
  have hturns := h.length_le none
  rw [hend] at hsegment
  generalize head none = first at hsegment hft
  generalize cells none = l at hsegment hft hturns
  cases hft with
  | table hne =>
      unfold displayTable
      cases first_or_none (fun n => decide (n.type = FILE_DELETE)) l with
      | inl hfound =>
          rcases hfound with ⟨pre, a, v, post, hsplit, hpre, hv⟩
          rw [hsplit] at hsegment hturns
          rw [List.length_append, List.length_cons] at hturns
          exact ⟨_, @find_of_first _ heap first pre post a v
            (fun n => decide (n.type = FILE_DELETE)) heap.length hsegment hpre
            hv (by omega) none⟩
      | inr hnone => exact ⟨_, find_of_none hsegment hnone hturns none⟩

theorem updateTable_of_stored (hfresh : calloc.Fresh)
    (h : Inventory heap head tail cells) (hend : tail none = none)
    (hft : FtStored ft t (head none) (cells none)) {q : κ}
    (hterminated : tail (some q) = none) {merged : List Node}
    (hmerged : ((cells (some q)).map Prod.snd).foldl mergeNode t =
      some merged) :
    exists heap' ft', updateTable calloc (head (some q)) heap ft =
        some (heap', ft') ∧
      Updated head tail cells heap' ft' (some merged) := by
  have hsegment := h.segment (some q)
  rw [hterminated] at hsegment
  rcases updateLoop_of_stored hfresh h hend hft hterminated
    (List.nil_append (cells (some q))).symm (h.length_le (some q)) with
    ⟨heap', ft', hloop, first, l, h', hft'⟩
  rw [hmerged] at hft'
  rw [← hsegment.head_eq] at hloop
  have hshown : FtStored ft' (some merged)
      (Function.update head none first none)
      (Function.update cells none l none) := by
    rw [Function.update_self, Function.update_self]
    exact hft'
  rcases displayTable_of_stored h' hend hshown with ⟨result, hdisplay⟩
  refine ⟨heap', ft', ?_, first, l, h', hft'⟩
  unfold updateTable
  rw [hloop]
  dsimp only
  rw [hdisplay]
  rfl

omit [DecidableEq κ] in
theorem readTable_of_stored (h : Inventory heap head tail cells)
    (hend : tail none = none)
    (hft : FtStored ft t (head none) (cells none)) :
    readTable heap ft = some t.nodes := by
  have hsegment := h.segment none
  have hturns := h.length_le none
  rw [hend] at hsegment
  generalize head none = first at hsegment hft
  generalize cells none = l at hsegment hft hturns
  cases hft with
  | null => rfl
  | table hne => exact contents_of_segment hsegment hturns

theorem forgetPeer_of_stored (peerIp : Ip) (h : Inventory heap head tail cells)
    (hend : tail none = none)
    (hft : FtStored ft t (head none) (cells none)) :
    exists heap', forgetPeer peerIp heap ft = some heap' ∧
      Updated head tail cells heap' ft (deletePeer peerIp t) := by
  cases hfirst : ft with
  | none =>
      rw [hfirst] at hft
      refine ⟨heap, rfl, updated_self h ?_⟩
      generalize head none = first at hft
      generalize cells none = l at hft
      cases hft with
      | null => exact FtStored.null
  | some first =>
      rw [hfirst] at hft
      rcases h.changeAll hend (fun n => { n with
        newpeerip := deletePeerSlots peerIp MAX_PEER_NUM 0 n.newpeerip }) with
        ⟨heap', hchanged, h'⟩
      have hhead : first = head none := by
        generalize head none = first' at hft
        generalize cells none = l at hft
        cases hft with
        | table hne => rfl
      rw [← hhead] at hchanged
      refine ⟨heap', hchanged, updated_of_inventory h' ?_⟩
      rw [← hhead]
      generalize head none = first' at hft hhead
      generalize cells none = l at hft
      cases hft with
      | table hne =>
          unfold deletePeer
          rw [Option.map_some, List.map_map]
          have hstored := @FtStored.table first (l.map fun x =>
            (x.1, { x.2 with
              newpeerip :=
                deletePeerSlots peerIp MAX_PEER_NUM 0 x.2.newpeerip }))
            (fun hnil => hne (List.map_eq_nil_iff.mp hnil))
          rw [List.map_map] at hstored
          exact hstored

/-!
## The handshake loop in memory
-/

theorem lastPointer_concat (nodes : List (Linked Node)) (file : Linked Node) :
    lastPointer (nodes ++ [file]) = pointerOf file.pNext := by
  unfold lastPointer
  rw [List.getLast?_concat]
  rfl

theorem lastPointer_of_terminated {nodes : List (Linked Node)}
    (h : nullTerminated nodes = true) : lastPointer nodes = none := by
  unfold nullTerminated at h
  unfold lastPointer
  cases hlast : nodes.getLast? with
  | none => rfl
  | some last =>
      rw [hlast] at h
      have hnull : last.pNext = 0 := of_decide_eq_true h
      exact if_pos hnull

theorem pointerOf_eq (file : Linked Node) :
    lastPointer [file] = pointerOf file.pNext := rfl

variable {m : ThreadMemory} {s s' : Handshake} {p : κ}

def StoredBy (head tail : Option κ -> Option Nat)
    (cells : Option κ -> List (Nat × Node)) (p : κ) (heap : Heap (Cell Node))
    (m : ThreadMemory) (s : Handshake) : Prop :=
  exists first last l,
    Inventory heap (Function.update head (some p) first)
      (Function.update tail (some p) last)
      (Function.update cells (some p) l) ∧
    ThreadStored m s first last l

theorem addNodeAt_of_stored {file : Linked Node} (hfresh : calloc.Fresh)
    (h : Inventory heap head tail cells)
    (hthread : ThreadStored m s (head (some p)) (tail (some p))
      (cells (some p)))
    (hroom : s.counter < s.file_table_size) (hadd : s.addNode file = some s') :
    exists heap' m', addNodeAt calloc m file heap = some (heap', m') ∧
      StoredBy head tail cells p heap' m' s' ∧ s'.ft = s.ft := by
  unfold Handshake.addNode at hadd
  cases hpeer : s.peer_ft with
  | uninitialised =>
      rw [hpeer] at hadd
      cases hadd
  | freed =>
      rw [hpeer] at hadd
      cases hadd
  | live nodes =>
      rw [hpeer] at hadd
      cases hadd
      have hstored := hthread.peer_ft
      rw [hpeer] at hstored
      have hnext := int32_succ (Int32.lt_iff_toInt_lt.mp hroom)
      generalize hfirst : head (some p) = first at hstored
      generalize hlast : tail (some p) = last at hstored
      generalize hl : cells (some p) = l at hstored
      generalize hpointer : m.peer_ft = pointer at hstored
      cases hstored with
      | live hvalues hcounter htemp =>
          have hcount := hcounter
          rw [hthread.counter] at hcount
          cases Classical.em (s.counter = 0) with
          | inl hzero =>
              have hnone : nodes = [] := by
                rw [hzero, Int32.toInt_zero] at hcount
                exact List.length_eq_zero_iff.mp
                  (Int.natCast_eq_zero.mp hcount.symm)
              rw [hnone, List.map_nil, List.map_eq_nil_iff] at hvalues
              rw [hvalues] at hl
              have hstart := h.start hl (hfresh heap) file.value
                (pointerOf file.pNext)
              refine ⟨heap.alloc (calloc heap)
                  { value := file.value, next := pointerOf file.pNext },
                { m with
                  counter := m.counter + 1
                  peer_ft := PeerFtPointer.live (some (calloc heap))
                  temp := some (calloc heap) }, ?_, ?_, rfl⟩
              · unfold addNodeAt
                dsimp only
                rw [if_pos (hthread.counter.trans hzero), hpointer]
              · refine ⟨_, _, _, hstart, ?_, hthread.file_table_size, ?_⟩
                · exact congrArg (fun c => c + 1) hthread.counter
                · dsimp only
                  rw [if_pos hzero, ← pointerOf_eq]
                  apply PeerFtStored.live
                  · rfl
                  · rw [hthread.counter, hnext, hcount, hnone]
                    rfl
                  · intro a ha
                    exact ha
          | inr hmore =>
              have hne : nodes ≠ [] := by
                intro hnil
                rw [hnil] at hcount
                apply hmore
                apply Int32.toInt_inj.mp
                exact hcount
              have hcellsne : l ≠ [] := by
                intro hnil
                rw [hnil, List.map_nil, eq_comm,
                  List.map_eq_nil_iff] at hvalues
                exact hne hvalues
              rcases List.eq_nil_or_concat l with hnil | ⟨pre, x, hconcat⟩
              · exact absurd hnil hcellsne
              · have hsplit : l = pre ++ [(x.1, x.2)] := by
                  rw [hconcat, List.concat_eq_append]
                have hlasttemp : m.temp = some x.1 := by
                  apply htemp
                  rw [hsplit, List.map_append, List.map_singleton,
                    List.getLast?_concat]
                rcases h.extend (hl.trans hsplit) (hfresh heap) file.value
                  (pointerOf file.pNext) with ⟨hread, hextended⟩
                refine ⟨(heap.write x.1
                    { value := x.2, next := some (calloc heap) }).alloc
                    (calloc heap)
                    { value := file.value, next := pointerOf file.pNext },
                  { m with
                    counter := m.counter + 1, temp := some (calloc heap) },
                  ?_, ?_, rfl⟩
                · unfold addNodeAt
                  dsimp only
                  rw [if_neg (fun hzero => hmore
                    (hthread.counter.symm.trans hzero)), hlasttemp]
                  dsimp only
                  rw [hread]
                  rfl
                · refine ⟨head (some p), pointerOf file.pNext,
                    pre ++ [(x.1, x.2), (calloc heap, file.value)], ?_, ?_,
                    hthread.file_table_size, ?_⟩
                  · rw [Function.update_eq_self]
                    exact hextended
                  · exact congrArg (fun c => c + 1) hthread.counter
                  · dsimp only
                    rw [if_neg hmore, hpointer, hfirst,
                      ← lastPointer_concat nodes file]
                    apply PeerFtStored.live
                    · rw [List.map_append, List.map_append, ← hvalues, hsplit,
                        List.map_append]
                      simp
                    · rw [hthread.counter, hnext, hcount, List.length_append,
                        List.length_singleton]
                      rfl
                    · intro a ha
                      rw [← ha]
                      simp

theorem storeAt_of_stored {pkt : PtpPeer} (hfresh : calloc.Fresh)
    (h : Inventory heap head tail cells)
    (hthread : ThreadStored m s (head (some p)) (tail (some p))
      (cells (some p)))
    (hstore : s.store pkt = some s') :
    exists heap' m', storeAt calloc m pkt heap = some (heap', m') ∧
      StoredBy head tail cells p heap' m' s' ∧ s'.ft = s.ft := by
  unfold Handshake.store at hstore
  unfold storeAt
  rw [hthread.counter, hthread.file_table_size]
  cases Classical.em (s.counter = -1 ∧ pkt.file_table_size ≠ -1) with
  | inl hheader =>
      rw [if_pos hheader, Option.some_inj] at hstore
      rw [if_pos hheader, ← hstore]
      have hstored := hthread.peer_ft
      generalize hfirst : head (some p) = first at hstored
      generalize hlast : tail (some p) = last at hstored
      generalize hl : cells (some p) = l at hstored
      generalize m.peer_ft = pointer at hstored
      generalize s.peer_ft = peer_ft at hstored
      have hempty : first = none ∧ last = none ∧ l = [] := by
        cases hstored with
        | uninitialised => exact ⟨rfl, rfl, rfl⟩
        | freed => exact ⟨rfl, rfl, rfl⟩
        | live _ hcounter _ =>
            -- a table in progress has a count, and -1 is none
            rw [hthread.counter, hheader.left] at hcounter
            have hminus : (-1 : Int32).toInt = -1 := rfl
            omega
      rw [hempty.left] at hfirst
      rw [hempty.right.left] at hlast
      rw [hempty.right.right] at hl
      refine ⟨heap, _, rfl, ⟨none, none, [], ?_, ?_, rfl, ?_⟩, rfl⟩
      · rw [← hfirst, Function.update_eq_self, hfirst, ← hlast,
          Function.update_eq_self, ← hl, Function.update_eq_self]
        exact h
      · rfl
      · apply PeerFtStored.live
        · rfl
        · dsimp only
          rw [hheader.left]
          rfl
        · intro a ha
          cases ha
  | inr hheader =>
      rw [if_neg hheader] at hstore
      rw [if_neg hheader]
      cases Classical.em (s.counter < s.file_table_size ∧
          pkt.file_table_size = -1) with
      | inl hnode =>
          rw [if_pos hnode] at hstore
          rw [if_pos hnode]
          exact addNodeAt_of_stored hfresh h hthread hnode.left hstore
      | inr hnode =>
          rw [if_neg hnode, Option.some_inj] at hstore
          rw [if_neg hnode, ← hstore]
          refine ⟨heap, m, rfl, ⟨head (some p), tail (some p),
            cells (some p), ?_, hthread⟩, rfl⟩
          rw [Function.update_eq_self, Function.update_eq_self,
            Function.update_eq_self]
          exact h

structure SteppedBy (head tail : Option κ -> Option Nat)
    (cells : Option κ -> List (Nat × Node)) (p : κ) (heap : Heap (Cell Node))
    (ft : Option (Option Nat)) (m : ThreadMemory) (s : Handshake)
    (head' tail' : Option κ -> Option Nat)
    (cells' : Option κ -> List (Nat × Node)) : Prop where
  inventory : Inventory heap head' tail' cells'
  ends : tail' none = none
  ft : FtStored ft s.ft (head' none) (cells' none)
  thread : ThreadStored m s (head' (some p)) (tail' (some p))
    (cells' (some p))
  others : forall q, q ≠ p -> head' (some q) = head (some q) ∧
    tail' (some q) = tail (some q) ∧ cells' (some q) = cells (some q)

omit [DecidableEq κ] in
theorem PeerFtStored.of_live {counter : Int32} {temp first last : Option Nat}
    {pointer : PeerFtPointer} {nodes : List (Linked Node)}
    {l : List (Nat × Node)}
    (h : PeerFtStored counter temp pointer (PeerFt.live nodes) first last l) :
    pointer = PeerFtPointer.live first ∧
      l.map Prod.snd = nodes.map Linked.value ∧ last = lastPointer nodes := by
  cases h with
  | live hvalues _ _ => exact ⟨rfl, hvalues, rfl⟩

theorem of_finish {broadcastFails : Option Ip} {calls : List Call}
    (h : s.finish broadcastFails = (calls, some s')) :
    exists nodes merged, s.peer_ft = PeerFt.live nodes ∧
      nullTerminated nodes = true ∧
      (nodes.map Linked.value).foldl mergeNode s.ft = some merged ∧
      s' = {
        counter := -1
        file_table_size := -1
        peer_ft := PeerFt.freed
        ft := broadcastFails.elim (some merged) fun ip =>
          deletePeer ip (some merged) } := by
  unfold Handshake.finish at h
  cases hmerge : s.peer_ft.nodes.bind (updateFiletable s.ft) with
  | none =>
      rw [hmerge] at h
      cases (Prod.mk.inj h).right
  | some t =>
      rw [hmerge] at h
      rcases Option.bind_eq_some_iff.mp hmerge with ⟨values, hvisited, hupdate⟩
      rcases updateFiletable_eq_some_iff.mp hupdate with ⟨hmerged, hshown⟩
      rcases Option.ne_none_iff_exists'.mp hshown with ⟨merged, ht⟩
      rw [ht] at hmerged h
      cases hpeer : s.peer_ft with
      | uninitialised =>
          rw [hpeer] at hvisited
          cases hvisited
      | freed =>
          rw [hpeer] at hvisited
          cases hvisited
      | live nodes =>
          rw [hpeer] at hvisited
          change traverse nodes = some values at hvisited
          unfold traverse at hvisited
          split at hvisited
          · next hterminated =>
              rw [Option.some_inj] at hvisited
              rw [← hvisited] at hmerged
              refine ⟨nodes, merged, rfl, hterminated, hmerged, ?_⟩
              exact (Option.some_inj.mp (Prod.mk.inj h).right).symm
          · cases hvisited

theorem finishAt_of_stored {broadcastFails : Option Ip} {calls : List Call}
    (hfresh : calloc.Fresh) (h : Inventory heap head tail cells)
    (hend : tail none = none)
    (hft : FtStored ft s.ft (head none) (cells none))
    (hthread : ThreadStored m s (head (some p)) (tail (some p))
      (cells (some p)))
    (hfinish : s.finish broadcastFails = (calls, some s')) :
    exists heap' ft' m' head' tail' cells',
      finishAt calloc m broadcastFails heap ft = some (heap', ft', m') ∧
        SteppedBy head tail cells p heap' ft' m' s' head' tail' cells' := by
  have hother : some p ≠ none := Option.some_ne_none p
  rcases of_finish hfinish with ⟨nodes, merged, hlive, hterminated, hmerged, hs'⟩
  have hstored := hthread.peer_ft
  rw [hlive] at hstored
  rcases hstored.of_live with ⟨hpointer, hvalues, hlast⟩
  rw [lastPointer_of_terminated hterminated] at hlast
  rw [← hvalues] at hmerged
  rcases updateTable_of_stored hfresh h hend hft hlast hmerged with
    ⟨heap1, ft1, hupdate, first1, l1, h1, hft1⟩
  have hft1' : FtStored ft1 (some merged)
      (Function.update head none first1 none)
      (Function.update cells none l1 none) := by
    rw [Function.update_self, Function.update_self]
    exact hft1
  have hread := readTable_of_stored h1 hend hft1'
  have hforget : exists heap2 first2 l2,
      broadcastFails.elim (some heap1) (fun ip => forgetPeer ip heap1 ft1) =
        some heap2 ∧
      Inventory heap2 (Function.update head none first2) tail
        (Function.update cells none l2) ∧
      FtStored ft1 s'.ft first2 l2 := by
    rw [hs']
    cases broadcastFails with
    | none => exact ⟨heap1, first1, l1, rfl, h1, hft1⟩
    | some ip =>
        rcases forgetPeer_of_stored ip h1 hend hft1' with
          ⟨heap2, hforgotten, first2, l2, h2, hft2⟩
        rw [Function.update_idem, Function.update_idem] at h2
        exact ⟨heap2, first2, l2, hforgotten, h2, hft2⟩
  rcases hforget with ⟨heap2, first2, l2, hforgotten, h2, hft2⟩
  rcases h2.freeAll (i := some p) hlast with ⟨heap3, hfreed, h3⟩
  rw [Function.update_of_ne hother] at hfreed
  refine ⟨heap3, ft1,
    { m with
      counter := -1
      file_table_size := -1
      peer_ft := PeerFtPointer.freed }, _, _, _, ?_, h3, ?_, ?_, ?_, ?_⟩
  · unfold finishAt
    rw [hpointer]
    dsimp only
    rw [hupdate]
    dsimp only
    rw [hread]
    dsimp only
    rw [hforgotten]
    dsimp only
    rw [hfreed]
    rfl
  · rw [Function.update_of_ne hother.symm]
    exact hend
  · rw [Function.update_of_ne hother.symm, Function.update_of_ne hother.symm,
      Function.update_self, Function.update_self]
    exact hft2
  · rw [Function.update_self, Function.update_self, Function.update_self, hs']
    exact ⟨rfl, rfl, PeerFtStored.freed⟩
  · intro q hq
    have hqp : some q ≠ some p := fun heq => hq (Option.some_inj.mp heq)
    have hqnone : some q ≠ none := Option.some_ne_none q
    rw [Function.update_of_ne hqp, Function.update_of_ne hqp,
      Function.update_of_ne hqp, Function.update_of_ne hqnone,
      Function.update_of_ne hqnone]
    exact ⟨rfl, rfl, rfl⟩

omit [DecidableEq κ] in
theorem steppedBy_self (h : Inventory heap head tail cells)
    (hend : tail none = none)
    (hft : FtStored ft s.ft (head none) (cells none))
    (hthread : ThreadStored m s (head (some p)) (tail (some p))
      (cells (some p))) :
    SteppedBy head tail cells p heap ft m s head tail cells :=
  ⟨h, hend, hft, hthread, fun _ _ => ⟨rfl, rfl, rfl⟩⟩

theorem steppedBy_of_stored {first last : Option Nat} {l : List (Nat × Node)}
    {heap' : Heap (Cell Node)} {head' tail' : Option κ -> Option Nat}
    {cells' : Option κ -> List (Nat × Node)}
    (h : SteppedBy (Function.update head (some p) first)
      (Function.update tail (some p) last) (Function.update cells (some p) l)
      p heap' ft m s head' tail' cells') :
    SteppedBy head tail cells p heap' ft m s head' tail' cells' := by
  refine { h with others := ?_ }
  intro q hq
  have hqp : some q ≠ some p := fun heq => hq (Option.some_inj.mp heq)
  have hothers := h.others q hq
  rw [Function.update_of_ne hqp, Function.update_of_ne hqp,
    Function.update_of_ne hqp] at hothers
  exact hothers

theorem receiveAt_of_stored {a : Arrival} (hfresh : calloc.Fresh)
    (h : Inventory heap head tail cells) (hend : tail none = none)
    (hft : FtStored ft s.ft (head none) (cells none))
    (hthread : ThreadStored m s (head (some p)) (tail (some p))
      (cells (some p)))
    (hreceive : (s.receive a).2 = some s') :
    exists heap' ft' m' head' tail' cells',
      receiveAt calloc m a heap ft = some (heap', ft', m') ∧
        SteppedBy head tail cells p heap' ft' m' s' head' tail' cells' := by
  have hother : some p ≠ none := Option.some_ne_none p
  unfold Handshake.receive at hreceive
  unfold receiveAt
  cases Classical.em (a.recv_pkt.type = REGISTER) with
  | inl hregister =>
      rw [if_pos hregister] at hreceive
      rw [if_pos hregister, readTable_of_stored h hend hft]
      cases hfails : a.replyFails with
      | false =>
          rw [hfails] at hreceive
          cases hreceive
          exact ⟨heap, ft, m, head, tail, cells, rfl,
            steppedBy_self h hend hft hthread⟩
      | true =>
          rw [hfails] at hreceive
          cases hreceive
          rcases forgetPeer_of_stored
            (a.recv_pkt.peer_ip.widen (Nat.le_succ IP_LEN)) h hend hft with
            ⟨heap', hforgotten, first, l, h', hft'⟩
          refine ⟨heap', ft, m, _, _, _, ?_, h', hend, ?_, ?_, ?_⟩
          · dsimp only
            rw [if_pos rfl, hforgotten]
            rfl
          · rw [Function.update_self, Function.update_self]
            exact hft'
          · rw [Function.update_of_ne hother, Function.update_of_ne hother]
            exact ⟨hthread.counter, hthread.file_table_size,
              hthread.peer_ft⟩
          · intro q _
            have hq : some q ≠ none := Option.some_ne_none q
            rw [Function.update_of_ne hq, Function.update_of_ne hq]
            exact ⟨rfl, rfl, rfl⟩
  | inr hregister =>
      rw [if_neg hregister] at hreceive
      rw [if_neg hregister]
      cases Classical.em (a.recv_pkt.type = FILE_UPDATE) with
      | inl hupdate =>
          rw [if_pos hupdate] at hreceive
          rw [if_pos hupdate]
          unfold Handshake.fileUpdate at hreceive
          cases hstore : s.store a.recv_pkt with
          | none =>
              rw [hstore] at hreceive
              cases hreceive
          | some s1 =>
              rw [hstore] at hreceive
              dsimp only at hreceive
              rcases storeAt_of_stored hfresh h hthread hstore with
                ⟨heap1, m1, hstored, ⟨first, last, l, h1, hthread1⟩, hsame⟩
              rw [hstored]
              dsimp only
              rw [hthread1.counter, hthread1.file_table_size]
              have hend1 :
                  Function.update tail (some p) last none = none := by
                rw [Function.update_of_ne hother.symm]
                exact hend
              have hft1 : FtStored ft s1.ft
                  (Function.update head (some p) first none)
                  (Function.update cells (some p) l none) := by
                rw [Function.update_of_ne hother.symm,
                  Function.update_of_ne hother.symm, hsame]
                exact hft
              have hown : ThreadStored m1 s1
                  (Function.update head (some p) first (some p))
                  (Function.update tail (some p) last (some p))
                  (Function.update cells (some p) l (some p)) := by
                rw [Function.update_self, Function.update_self,
                  Function.update_self]
                exact hthread1
              split at hreceive
              · next hall =>
                  rw [if_pos hall]
                  rcases @finishAt_of_stored _ _ _ _ _ _ _ _ _ _ _ _ _
                    (s1.finish a.broadcastFails).1 hfresh h1 hend1 hft1 hown
                    (Prod.ext rfl hreceive) with
                    ⟨heap', ft', m', head', tail', cells', hfinished, hstep⟩
                  exact ⟨heap', ft', m', head', tail', cells', hfinished,
                    steppedBy_of_stored hstep⟩
              · next hall =>
                  rw [if_neg hall]
                  cases hreceive
                  exact ⟨heap1, ft, m1, _, _, _, rfl, steppedBy_of_stored
                    (steppedBy_self h1 hend1 hft1 hown)⟩
      | inr hupdate =>
          rw [if_neg hupdate] at hreceive
          rw [if_neg hupdate]
          cases hreceive
          exact ⟨heap, ft, m, head, tail, cells, rfl,
            steppedBy_self h hend hft hthread⟩

end Update

/-!
## Whole runs
-/

section Runs

variable {κ : Type} {calloc : Calloc}

def PeerFt.received : PeerFt -> List Node
  | live nodes => nodes.map Linked.value
  | _ => []

def Holds (t : TrackerTables κ) (s : TrackerMemory κ) : Prop :=
  exists head tail cells, Stored s t head tail cells

theorem holds_start : Holds (TrackerTables.start (ι := κ))
    TrackerMemory.start :=
  ⟨fun _ => none, fun _ => none, fun _ => [], inventory_empty (Option κ), rfl,
    FtStored.null, fun _ => ⟨rfl, rfl, PeerFtStored.uninitialised⟩, rfl⟩

variable [DecidableEq κ]

theorem holds_forgotten {t : TrackerTables κ} {s : TrackerMemory κ}
    {head tail : Option κ -> Option Nat}
    {cells : Option κ -> List (Nat × Node)} (peerIp : Ip)
    (h : Stored s t head tail cells) (ended : κ -> Bool) :
    exists heap, forgetPeer peerIp s.heap s.ft = some heap ∧
      Holds { t with ft := deletePeer peerIp t.ft, ended := ended }
        { s with heap := heap, ended := ended } := by
  rcases forgetPeer_of_stored peerIp h.inventory h.ends h.ft with
    ⟨heap', hforgotten, first, l, h', hft'⟩
  refine ⟨heap', hforgotten, _, _, _, h', h.ends, ?_, ?_, rfl⟩
  · rw [Function.update_self, Function.update_self]
    exact hft'
  · intro q
    have hq : some q ≠ none := Option.some_ne_none q
    rw [Function.update_of_ne hq, Function.update_of_ne hq]
    exact h.threads q

theorem holds_step (hfresh : calloc.Fresh) {t t' : TrackerTables κ}
    {s : TrackerMemory κ} {action : MemoryAction κ} (h : Holds t s)
    (hstep : tablesStep t action = some t') :
    exists s', memoryStep calloc s action = some s' ∧ Holds t' s' := by
  rcases h with ⟨head, tail, cells, h⟩
  cases action with
  | packet p a =>
      unfold tablesStep at hstep
      dsimp only at hstep
      rcases Option.ite_none_left_eq_some.mp hstep with ⟨hrunning, hstep⟩
      cases hreceive : ((t.handshake p).receive a).2 with
      | none =>
          rw [hreceive] at hstep
          cases hstep
      | some h' =>
          rw [hreceive] at hstep
          cases hstep
          have hthread : ThreadStored (s.threads p) (t.handshake p)
              (head (some p)) (tail (some p)) (cells (some p)) :=
            ⟨(h.threads p).counter, (h.threads p).file_table_size,
              (h.threads p).peer_ft⟩
          rcases receiveAt_of_stored hfresh h.inventory h.ends h.ft hthread
            hreceive with
            ⟨heap', ft', m', head', tail', cells', hreceived, hstepped⟩
          refine ⟨{ s with
                    heap := heap'
                    ft := ft'
                    threads := Function.update s.threads p m' }, ?_, head',
            tail', cells', hstepped.inventory, hstepped.ends, hstepped.ft, ?_,
            h.ended⟩
          · unfold memoryStep
            dsimp only
            rw [h.ended, if_neg hrunning, hreceived]
            rfl
          · intro q
            dsimp only
            cases Classical.em (q = p) with
            | inl hq =>
                rw [hq, Function.update_self, Function.update_self]
                exact hstepped.thread
            | inr hq =>
                rcases hstepped.others q hq with ⟨hhead, htail, hcells⟩
                rw [Function.update_of_ne hq, Function.update_of_ne hq, hhead,
                  htail, hcells]
                exact h.threads q
  | exit p peerIp =>
      rcases Option.ite_none_left_eq_some.mp hstep with ⟨hrunning, hstep⟩
      cases hstep
      rcases holds_forgotten peerIp h (Function.update t.ended p true) with
        ⟨heap', hforgotten, hholds⟩
      refine ⟨_, ?_, hholds⟩
      unfold memoryStep
      dsimp only
      rw [h.ended, if_neg hrunning, hforgotten]
      rfl
  | forget peerIp =>
      cases hstep
      rcases holds_forgotten peerIp h t.ended with ⟨heap', hforgotten, hholds⟩
      refine ⟨_, ?_, hholds⟩
      unfold memoryStep
      dsimp only
      rw [← h.ended, hforgotten]
      rfl

theorem holds_of_run (hfresh : calloc.Fresh)
    {actions : List (MemoryAction κ)} {t : TrackerTables κ}
    (hrun : runFrom tablesStep TrackerTables.start actions = some t) :
    exists s, runFrom (memoryStep calloc) TrackerMemory.start actions =
        some s ∧ Holds t s := by
  apply runFrom_simulation _ holds_start hrun
  intro t action t' s h hstep
  exact holds_step hfresh h hstep

/-- A run that the tables survive is a run in memory: no step reads memory that
is not allocated, a traversal reads the tracker's table, and every allocated
node belongs to it, to a table that is still being received, or to one that a
thread has left unfinished at its end. -/
theorem run_in_memory (hfresh : calloc.Fresh)
    {actions : List (MemoryAction κ)} {t : TrackerTables κ}
    (hrun : runFrom tablesStep TrackerTables.start actions = some t) :
    exists s, runFrom (memoryStep calloc) TrackerMemory.start actions =
        some s ∧
      Holds t s ∧ readTable s.heap s.ft = some t.ft.nodes := by
  rcases holds_of_run hfresh hrun with ⟨s, hmemory, head, tail, cells, h⟩
  exact ⟨s, hmemory, ⟨head, tail, cells, h⟩,
    readTable_of_stored h.inventory h.ends h.ft⟩

def Sample.leavingThread : List (MemoryAction Bool) :=
  [MemoryAction.packet true Sample.header,
    MemoryAction.packet false (Sample.arrival
      (headerPacket CString.empty
        [Sample.placed zeroNode, Sample.placed zeroNode])),
    MemoryAction.packet true Sample.last,
    MemoryAction.packet false (Sample.arrival
      (nodePacket CString.empty { value := zeroNode, pNext := 1 })),
    MemoryAction.exit false (CString.empty.widen (Nat.le_succ IP_LEN))]

theorem run_in_memory_merged :
    exists s, runFrom (memoryStep Heap.fresh) TrackerMemory.start
        Sample.leavingThread = some s ∧
      readTable s.heap s.ft = some [addFile zeroNode] := by
  rcases @run_in_memory Bool Heap.fresh _ (fun heap => heap.read_fresh)
    Sample.leavingThread _ rfl with ⟨s, hrun, _, hread⟩
  exact ⟨s, hrun, hread⟩

theorem trackerStop_of_stored {t : TrackerTables κ} {s : TrackerMemory κ}
    {head tail : Option κ -> Option Nat}
    {cells : Option κ -> List (Nat × Node)} (h : Stored s t head tail cells)
    {heap : Heap (Cell Node)} (hstop : trackerStop s = some heap) :
    Inventory heap (Function.update head none none)
      (Function.update tail none none) (Function.update cells none []) := by
  rcases h.inventory.freeAll h.ends with ⟨heap', hfreed, h'⟩
  unfold trackerStop at hstop
  have hft := h.ft
  generalize s.ft = ft at hft hstop
  generalize t.ft = table at hft
  have hhead : ft = none ∨ ft = some (head none) := by
    generalize head none = first at hft
    generalize cells none = l at hft
    cases hft with
    | null => exact Or.inl rfl
    | table _ => exact Or.inr rfl
  cases hhead with
  | inl hnone =>
      rw [hnone] at hstop
      cases hstop
  | inr hsome =>
      rw [hsome] at hstop
      dsimp only at hstop
      rw [hfreed, Option.some_inj] at hstop
      rw [← hstop]
      exact h'

omit [DecidableEq κ] in
theorem ThreadStored.received {m : ThreadMemory} {h : Handshake}
    {head tail : Option Nat} {l : List (Nat × Node)}
    (hstored : ThreadStored m h head tail l) :
    l.map Prod.snd = h.peer_ft.received := by
  have hpeer := hstored.peer_ft
  generalize m.peer_ft = pointer at hpeer
  generalize h.peer_ft = peer_ft at hpeer
  cases hpeer with
  | uninitialised => rfl
  | freed => rfl
  | live hvalues _ _ => exact hvalues

/-- `tracker_stop` follows a null pointer exactly while no table has been
merged.  What it does not free are the nodes received of tables that are not
complete, each once, whether their threads still run or not. -/
theorem trackerStop_of_run (hfresh : calloc.Fresh)
    {actions : List (MemoryAction κ)} {t : TrackerTables κ}
    (hrun : runFrom tablesStep TrackerTables.start actions = some t) :
    exists s, runFrom (memoryStep calloc) TrackerMemory.start actions =
        some s ∧
      (trackerStop s = none <-> t.ft = none) ∧
      forall heap, trackerStop s = some heap ->
        exists head tail cells, Inventory heap head tail cells ∧
          forall p, (cells p).map Prod.snd =
            (t.threads p).peer_ft.received := by
  rcases holds_of_run hfresh hrun with ⟨s, hmemory, head, tail, cells, h⟩
  refine ⟨s, hmemory, ?_, ?_⟩
  · rcases h.inventory.freeAll h.ends with ⟨heap', hfreed, _⟩
    have hft := h.ft
    unfold trackerStop
    generalize s.ft = ft at hft
    generalize t.ft = table at hft
    generalize head none = first at hft hfreed
    generalize cells none = l at hft
    cases hft with
    | null => exact iff_of_true rfl rfl
    | table _ =>
        apply iff_of_false
        · dsimp only
          rw [hfreed]
          exact Option.some_ne_none heap'
        · exact Option.some_ne_none _
  · intro heap hstop
    refine ⟨_, _, _, (trackerStop_of_stored h hstop).of_option
      (Function.update_self _ _ _), ?_⟩
    intro p
    rw [Function.update_of_ne (Option.some_ne_none p)]
    exact (h.threads p).received

theorem trackerStop_of_run_merged :
    exists s heap, runFrom (memoryStep Heap.fresh) TrackerMemory.start
        Sample.leavingThread = some s ∧ trackerStop s = some heap ∧
      exists (head tail : Bool -> Option Nat)
        (cells : Bool -> List (Nat × Node)), Inventory heap head tail cells ∧
          (cells true).map Prod.snd = [] ∧
          (cells false).map Prod.snd = [zeroNode] := by
  rcases @trackerStop_of_run Bool Heap.fresh _ (fun heap => heap.read_fresh)
    Sample.leavingThread _ rfl with ⟨s, hrun, hnull, hleft⟩
  cases hstop : trackerStop s with
  | none => cases hnull.mp hstop
  | some heap =>
      rcases hleft heap hstop with ⟨head, tail, cells, hcells, hreceived⟩
      exact ⟨s, heap, hrun, hstop, head, tail, cells, hcells, hreceived true,
        hreceived false⟩

end Runs

end Tracker
end DartSync
