import DartSync.Foundation.LinkedList
import DartSync.Foundation.Transition
import DartSync.Tracker.FileTable

/-!
# Concurrent merges

`update_filetable` of `tracker/tracker.c` in several `handshake` threads.  For
each reported node a thread searches the list behind `ft` in one step and
writes at the place found in another; nothing keeps the steps of the other
threads out from between them.
-/

namespace DartSync
namespace Tracker

open Foundation

inductive Place where
  | entry (address : Nat)
  | tail (address : Nat)
  | noTable
deriving DecidableEq

inductive MergeThread where
  /-- At the loop condition, with the nodes from `peer_ftemp` on. -/
  | searching (remaining : List Node)
  | writing (peerNode : Node) (rest : List Node) (place : Place)
  | returned
deriving DecidableEq

structure Merging where
  heap : Heap (Cell Node)
  /-- `ft->head`; there is no table without a node, so null stands for a null
  `ft`. -/
  head : Option Nat
  threads : List MergeThread

inductive MergeAction where
  | search (index : Nat)
  /-- `address` is what `calloc` returns, if it is called. -/
  | write (index address : Nat)
  | display (index : Nat)

def MergeThread.remaining : MergeThread -> List Node
  | searching remaining => remaining
  | writing peerNode rest _ => peerNode :: rest
  | returned => []

namespace Merging

def searchLoop (heap : Heap (Cell Node)) (name : FileName) :
    Nat -> Nat -> Option Place
  | 0, _ => none
  | turns + 1, tracker_ftemp =>
      match heap.read tracker_ftemp with
      | none => none
      | some cell =>
          if cell.value.name = name then some (Place.entry tracker_ftemp)
          else
            match cell.next with
            | none => some (Place.tail tracker_ftemp)
            | some next => searchLoop heap name turns next

def search (s : Merging) (name : FileName) : Option Place :=
  match s.head with
  | none => some Place.noTable
  | some head => searchLoop s.heap name s.heap.length head

def write (s : Merging) (peerNode : Node) (address : Nat) :
    Place -> Option Merging
  | Place.entry a =>
      (s.heap.read a).map fun cell =>
        { s with
          heap := s.heap.write a
            { cell with value := updateEntry peerNode cell.value } }
  | Place.tail a =>
      (s.heap.read a).map fun cell =>
        { s with
          heap := (s.heap.write a { cell with next := some address }).alloc
            address { value := addFile peerNode, next := none } }
  | Place.noTable =>
      some { s with
        heap := s.heap.alloc address { value := addFile peerNode, next := none }
        head := some address }

def step (s : Merging) : MergeAction -> Option Merging
  | MergeAction.search index =>
      match s.threads[index]? with
      | some (MergeThread.searching (peerNode :: rest)) =>
          (s.search peerNode.name).map fun place =>
            { s with
              threads := s.threads.set index
                (MergeThread.writing peerNode rest place) }
      | _ => none
  | MergeAction.write index address =>
      match s.threads[index]? with
      | some (MergeThread.writing peerNode rest place) =>
          if s.heap.read address = none then
            (s.write peerNode address place).map fun t =>
              { t with
                threads := t.threads.set index (MergeThread.searching rest) }
          else none
      | _ => none
  | MergeAction.display index =>
      match s.threads[index]? with
      | some (MergeThread.searching []) =>
          -- `display_filetable` dereferences `ft`.
          if s.head = none then none
          else
            some { s with
              threads := s.threads.set index MergeThread.returned }
      | _ => none

/-- The list behind `ft` has these nodes at these places. -/
structure Holds (s : Merging) (places : List (Nat × Node)) : Prop where
  segment : Segment s.heap none s.head places
  nodup : (places.map Prod.fst).Nodup

structure Starts (s : Merging) (initial : List Node)
    (tables : List (List Node)) : Prop where
  table : exists places, s.Holds places ∧ places.map Prod.snd = initial
  threads : s.threads = tables.map MergeThread.searching

/-- Each reported name is in the table exactly once, in a version at least as
new as the reported one. -/
def Lossless (reports nodes : List Node) : Prop :=
  forall n, n ∈ reports -> (nodes.map Node.name).count n.name = 1 ∧
    exists m, m ∈ nodes ∧ m.name = n.name ∧ n.version ≤ m.version

def Current (s : Merging) : Place -> Prop
  | Place.entry _ => True
  | Place.tail a => exists v, s.heap.read a = some { value := v, next := none }
  | Place.noTable => s.head = none

/-- A thread appends behind a node that has got a successor since its search, or
creates a table where there is one by now. -/
def Stale (s : Merging) (a : MergeAction) : Prop :=
  exists index address peerNode rest place,
    a = MergeAction.write index address ∧
      s.threads[index]? = some (MergeThread.writing peerNode rest place) ∧
      ¬ s.Current place

end Merging

/-!
## What a search has found
-/

def labels (places : List (Nat × Node)) : List (Nat × FileName) :=
  places.map fun x => (x.1, x.2.name)

/-- What can be relied on later: the entry has the name, or no entry had it up
to the tail. -/
def Place.Valid (known : List (Nat × FileName)) (name : FileName) :
    Place -> Prop
  | Place.entry a => (a, name) ∈ known
  | Place.tail a => a ∈ known.map Prod.fst ∧
      ((known.map Prod.fst).getLast? = some a -> name ∉ known.map Prod.snd)
  | Place.noTable => True

theorem Place.Valid.cons {known : List (Nat × FileName)} {name : FileName}
    {place : Place} {x : Nat × FileName} (h : place.Valid known name)
    (hx : x.2 ≠ name) : place.Valid (x :: known) name := by
  cases place with
  | entry a => exact List.mem_cons_of_mem x h
  | tail a =>
      refine ⟨List.mem_cons_of_mem x.1 h.left, ?_⟩
      intro hlast hname
      have hne : known.map Prod.fst ≠ [] := List.ne_nil_of_mem h.left
      rw [List.map_cons, List.getLast?_cons_of_ne_nil hne] at hlast
      rw [List.map_cons, List.mem_cons] at hname
      rcases hname with hname | hname
      · exact hx hname.symm
      · exact h.right hlast hname
  | noTable => trivial

/-- Behind a node appended by another thread nothing is known, so the tail found
before must not be used. -/
theorem Place.Valid.append {known : List (Nat × FileName)} {name : FileName}
    {place : Place} {x : Nat × FileName} (h : place.Valid known name)
    (hx : x.1 ∉ known.map Prod.fst) : place.Valid (known ++ [x]) name := by
  cases place with
  | entry a => exact List.mem_append_left [x] h
  | tail a =>
      constructor
      · rw [List.map_append]
        exact List.mem_append_left _ h.left
      · intro hlast
        rw [List.map_append, List.map_singleton, List.getLast?_concat] at hlast
        cases hlast
        exact absurd h.left hx
  | noTable => trivial

theorem valid_of_searchLoop {heap : Heap (Cell Node)} {name : FileName}
    {turns temp : Nat} {places : List (Nat × Node)} {place : Place}
    (h : Segment heap none (some temp) places)
    (hsearch : Merging.searchLoop heap name turns temp = some place) :
    place.Valid (labels places) name := by
  induction places generalizing turns temp with
  | nil => cases h
  | cons x rest ih =>
      rcases h with ⟨htemp, next, hread, hrest⟩
      cases htemp
      cases turns with
      | zero => cases hsearch
      | succ turns =>
          rw [Merging.searchLoop, hread] at hsearch
          dsimp only at hsearch
          split at hsearch
          · next hname =>
              cases hsearch
              exact List.mem_cons.mpr (Or.inl (Prod.ext rfl hname.symm))
          · next hname =>
              cases next with
              | some b => exact (ih hrest hsearch).cons hname
              | none =>
                  cases hsearch
                  cases rest with
                  | cons y rest => cases hrest.left
                  | nil =>
                      refine ⟨List.mem_singleton_self x.1, ?_⟩
                      intro _ hmem
                      exact hname (List.mem_singleton.mp hmem).symm

/-!
## One write is one merge
-/

theorem updateNode_of_first {p v : Node} {pre post : List Node}
    (hpre : p.name ∉ pre.map Node.name) (hv : v.name = p.name) :
    updateNode p (pre ++ v :: post) = pre ++ updateEntry p v :: post := by
  induction pre with
  | nil => exact if_pos hv
  | cons n rest ih =>
      rw [List.map_cons, List.mem_cons, not_or] at hpre
      rw [List.cons_append, updateNode, if_neg (Ne.symm hpre.left),
        ih hpre.right]
      rfl

theorem updateNode_of_notMem {p : Node} {nodes : List Node}
    (h : p.name ∉ nodes.map Node.name) :
    updateNode p nodes = nodes ++ [addFile p] := by
  induction nodes with
  | nil => rfl
  | cons n rest ih =>
      rw [List.map_cons, List.mem_cons, not_or] at h
      rw [updateNode, if_neg (Ne.symm h.left), ih h.right]
      rfl

namespace Merging

variable {s t : Merging} {places : List (Nat × Node)} {p : Node}
  {place : Place} {address : Nat}

theorem names_labels :
    (labels places).map Prod.snd = (places.map Prod.snd).map Node.name := by
  simp [labels]

theorem addresses_labels :
    (labels places).map Prod.fst = places.map Prod.fst := by
  simp [labels]

def Merged (s t : Merging) (places places' : List (Nat × Node)) (p : Node) :
    Prop :=
  t.Holds places' ∧ t.threads = s.threads ∧
    places'.map Prod.snd = updateNode p (places.map Prod.snd) ∧
    (labels places' = labels places ∨
      exists x, x.1 ∉ (labels places).map Prod.fst ∧
        labels places' = labels places ++ [x])

theorem merged_of_entry {a : Nat} (h : s.Holds places)
    (hnames : ((places.map Prod.snd).map Node.name).Nodup)
    (hvalid : (a, p.name) ∈ labels places)
    (hwrite : s.write p address (Place.entry a) = some t) :
    exists places', Merged s t places places' p := by
  rcases List.mem_map.mp hvalid with ⟨⟨b, v⟩, hmem, hlabel⟩
  rw [Prod.mk.injEq] at hlabel
  rcases hlabel with ⟨rfl, hv⟩
  rcases List.append_of_mem hmem with ⟨pre, post, rfl⟩
  rcases h.segment.write_value h.nodup (updateEntry p v) with
    ⟨next, hread, hsegment⟩
  rw [write, hread] at hwrite
  cases hwrite
  refine ⟨pre ++ (b, updateEntry p v) :: post, ⟨hsegment, ?_⟩, rfl, ?_,
    Or.inl ?_⟩
  · have hnodup := h.nodup
    rw [List.map_append] at hnodup ⊢
    exact hnodup
  · rw [List.map_append, List.map_append]
    refine (updateNode_of_first ?_ hv).symm
    intro hpre
    rw [List.map_append, List.map_append, List.nodup_append] at hnames
    exact hnames.right.right _ hpre _ List.mem_cons_self hv.symm
  · simp [labels]

theorem merged_of_tail {a : Nat} (h : s.Holds places)
    (hvalid : (Place.tail a).Valid (labels places) p.name)
    (hcurrent : s.Current (Place.tail a))
    (hfresh : s.heap.read address = none)
    (hwrite : s.write p address (Place.tail a) = some t) :
    exists places', Merged s t places places' p := by
  rcases hvalid with ⟨ha, hnew⟩
  rcases hcurrent with ⟨v, hread⟩
  rw [addresses_labels] at ha hnew
  rcases List.mem_map.mp ha with ⟨⟨b, w⟩, hmem, rfl⟩
  rcases List.append_of_mem hmem with ⟨pre, post, rfl⟩
  have hend : w = v ∧ post = [] := by
    rcases segment_append.mp h.segment with ⟨m, _, _, next, hlink, hpost⟩
    rw [hread] at hlink
    cases hlink
    cases post with
    | nil => exact ⟨rfl, rfl⟩
    | cons x rest => cases hpost.left
  rcases hend with ⟨rfl, rfl⟩
  have hname : p.name ∉ ((pre ++ [(b, w)]).map Prod.snd).map Node.name := by
    rw [← names_labels]
    apply hnew
    rw [List.map_append]
    exact List.getLast?_concat
  have haddress : address ∉ (pre ++ [(b, w)]).map Prod.fst := fun hmem =>
    h.segment.read_ne_none hmem hfresh
  have hsegment := (h.segment.concat h.nodup hfresh (addFile p)).right
  rw [write, hread] at hwrite
  cases hwrite
  refine ⟨(pre ++ [(b, w)]) ++ [(address, addFile p)], ⟨?_, ?_⟩, rfl, ?_,
    Or.inr ⟨(address, p.name), ?_, ?_⟩⟩
  · rw [List.append_assoc]
    exact hsegment
  · rw [List.map_append]
    exact nodup_concat h.nodup haddress
  · rw [updateNode_of_notMem hname]
    exact List.map_append
  · rw [addresses_labels]
    exact haddress
  · exact List.map_append

theorem merged_of_noTable (h : s.Holds places)
    (hcurrent : s.Current Place.noTable)
    (hwrite : s.write p address Place.noTable = some t) :
    exists places', Merged s t places places' p := by
  have hnil : places = [] := by
    cases places with
    | nil => rfl
    | cons x rest =>
        have hhead := h.segment.left
        rw [hcurrent] at hhead
        cases hhead
  subst hnil
  cases hwrite
  refine ⟨[(address, addFile p)], ⟨⟨rfl, none, Heap.read_alloc_self, rfl⟩,
    List.nodup_singleton address⟩, rfl, rfl, Or.inr ⟨_, ?_, rfl⟩⟩
  exact List.not_mem_nil

theorem merged_of_write (h : s.Holds places)
    (hnames : ((places.map Prod.snd).map Node.name).Nodup)
    (hvalid : place.Valid (labels places) p.name) (hcurrent : s.Current place)
    (hfresh : s.heap.read address = none)
    (hwrite : s.write p address place = some t) :
    exists places', Merged s t places places' p := by
  cases place with
  | entry a => exact merged_of_entry h hnames hvalid hwrite
  | tail a => exact merged_of_tail h hvalid hcurrent hfresh hwrite
  | noTable => exact merged_of_noTable h hcurrent hwrite

/-!
## What the table covers
-/

/-- The table has the file in this version or a newer one. -/
def Covered (nodes : List Node) (n : Node) : Prop :=
  exists m, entry n.name (some nodes) = some m ∧ n.version ≤ m.version

theorem covered_updateNode_self (nodes : List Node) (p : Node) :
    Covered (updateNode p nodes) p := by
  refine ⟨_, entry_mergeNode_self (some nodes) p, ?_⟩
  cases entry p.name (some nodes) with
  | none => exact le_refl p.version
  | some m =>
      change p.version ≤ (updateEntry p m).version
      rw [updateEntry_version]
      exact le_max_right _ _

theorem Covered.updateNode {nodes : List Node} {n : Node}
    (h : Covered nodes n) (p : Node) : Covered (updateNode p nodes) n := by
  rcases h with ⟨m, hm, hversion⟩
  cases Classical.em (n.name = p.name) with
  | inl heq =>
      refine ⟨_, heq ▸ entry_mergeNode_self (some nodes) p, ?_⟩
      rw [hm]
      change n.version ≤ (updateEntry p m).version
      rw [updateEntry_version]
      exact le_trans hversion (le_max_left _ _)
  | inr hne =>
      exact ⟨m, (entry_mergeNode_of_ne (some nodes) hne).trans hm, hversion⟩

theorem covered_of_mem {nodes : List Node} {n : Node}
    (hnames : (nodes.map Node.name).Nodup) (h : n ∈ nodes) :
    Covered nodes n :=
  ⟨n, lookup_of_mem hnames h, le_refl n.version⟩

theorem lossless_of_covered {reports nodes : List Node}
    (hnames : (nodes.map Node.name).Nodup)
    (h : forall n, n ∈ reports -> Covered nodes n) :
    Lossless reports nodes := by
  intro n hn
  rcases h n hn with ⟨m, hm, hversion⟩
  have hmem := mem_of_lookup hm
  have hname := key_of_lookup hm
  refine ⟨?_, m, hmem, hname, hversion⟩
  rw [← hname]
  exact List.count_eq_one_of_mem hnames (List.mem_map_of_mem hmem)

/-!
## Runs
-/

def Pending (threads : List MergeThread) (n : Node) : Prop :=
  exists (i : Nat) (thread : MergeThread), threads[i]? = some thread ∧
    n ∈ thread.remaining

/-- What was reported is in the table or is still to be merged, and the threads
can rely on what their searches have found. -/
structure Consistent (reports : List Node) (s : Merging)
    (places : List (Nat × Node)) : Prop where
  holds : s.Holds places
  names : ((places.map Prod.snd).map Node.name).Nodup
  pending : forall n, n ∈ reports ->
    Covered (places.map Prod.snd) n ∨ Pending s.threads n
  valid : forall (i : Nat) (p : Node) (rest : List Node) (place : Place),
    s.threads[i]? = some (MergeThread.writing p rest place) ->
      place.Valid (labels places) p.name

section Step

variable {s' : Merging} {reports : List Node} {index : Nat}
  {a : MergeAction}

theorem step_search (hstep : s.step (MergeAction.search index) = some s') :
    exists p rest place,
      s.threads[index]? = some (MergeThread.searching (p :: rest)) ∧
        s.search p.name = some place ∧
        s' = { s with
          threads := s.threads.set index (MergeThread.writing p rest place) } := by
  dsimp only [step] at hstep
  split at hstep
  · next p rest hthread =>
      rcases Option.map_eq_some_iff.mp hstep with ⟨place, hplace, rfl⟩
      exact ⟨p, rest, place, hthread, hplace, rfl⟩
  · cases hstep

theorem step_write
    (hstep : s.step (MergeAction.write index address) = some s') :
    exists p rest place t,
      s.threads[index]? = some (MergeThread.writing p rest place) ∧
        s.heap.read address = none ∧ s.write p address place = some t ∧
        s' = { t with
          threads := t.threads.set index (MergeThread.searching rest) } := by
  dsimp only [step] at hstep
  split at hstep
  · next p rest place hthread =>
      split at hstep
      · next hfresh =>
          rcases Option.map_eq_some_iff.mp hstep with ⟨t, ht, rfl⟩
          exact ⟨p, rest, place, t, hthread, hfresh, ht, rfl⟩
      · cases hstep
  · cases hstep

theorem step_display (hstep : s.step (MergeAction.display index) = some s') :
    s.threads[index]? = some (MergeThread.searching []) ∧
      s' = { s with
        threads := s.threads.set index MergeThread.returned } := by
  dsimp only [step] at hstep
  split at hstep
  · next hthread =>
      split at hstep
      · cases hstep
      · exact ⟨hthread, (Option.some.inj hstep).symm⟩
  · cases hstep

theorem pending_set {threads : List MergeThread} {old new : MergeThread}
    {n : Node} (hold : threads[index]? = some old)
    (hkeep : n ∈ old.remaining -> n ∈ new.remaining)
    (h : Pending threads n) : Pending (threads.set index new) n := by
  rcases h with ⟨i, thread, hthread, hn⟩
  cases Classical.em (i = index) with
  | inl heq =>
      subst heq
      rw [hold] at hthread
      cases hthread
      refine ⟨i, new, ?_, hkeep hn⟩
      exact List.getElem?_set_self (List.getElem?_eq_some_iff.mp hold).1
  | inr hne =>
      refine ⟨i, thread, ?_, hn⟩
      rw [List.getElem?_set_ne (Ne.symm hne)]
      exact hthread

theorem valid_of_search {name : FileName} (h : s.Holds places)
    (hsearch : s.search name = some place) :
    place.Valid (labels places) name := by
  have hsegment := h.segment
  unfold search at hsearch
  cases hhead : s.head with
  | none =>
      rw [hhead] at hsearch
      cases hsearch
      trivial
  | some head =>
      rw [hhead] at hsearch hsegment
      exact valid_of_searchLoop hsegment hsearch

theorem Consistent.search (h : Consistent reports s places)
    (hstep : s.step (MergeAction.search index) = some s') :
    Consistent reports s' places := by
  rcases step_search hstep with ⟨p, rest, place, hthread, hplace, rfl⟩
  refine ⟨⟨h.holds.segment, h.holds.nodup⟩, h.names, ?_, ?_⟩
  · intro n hn
    apply (h.pending n hn).imp_right
    exact pending_set hthread fun hmem => hmem
  · intro i q rest' place' hwriting
    rcases getElem?_set_cases hwriting with ⟨_, heq⟩ | ⟨_, hwriting⟩
    · cases heq
      exact valid_of_search h.holds hplace
    · exact h.valid i q rest' place' hwriting

theorem Consistent.write (h : Consistent reports s places)
    (hcurrent : ¬ Stale s (MergeAction.write index address))
    (hstep : s.step (MergeAction.write index address) = some s') :
    exists places', Consistent reports s' places' := by
  rcases step_write hstep with ⟨p, rest, place, t, hthread, hfresh, ht, rfl⟩
  have hplace : s.Current place := by
    by_contra hstale
    exact hcurrent ⟨index, address, p, rest, place, rfl, hthread, hstale⟩
  rcases merged_of_write h.holds h.names (h.valid index p rest place hthread)
    hplace hfresh ht with ⟨places', hholds, hthreads, hnodes, hlabels⟩
  refine ⟨places', ⟨hholds.segment, hholds.nodup⟩, ?_, ?_, ?_⟩
  · rw [hnodes]
    exact @nodup_names_mergeNode (some _) p h.names
  · intro n hn
    rw [hnodes, hthreads]
    rcases h.pending n hn with hcovered | ⟨i, thread, hi, hmem⟩
    · exact Or.inl (hcovered.updateNode p)
    · cases Classical.em (n = p) with
      | inl heq =>
          rw [heq]
          exact Or.inl (covered_updateNode_self _ p)
      | inr hne =>
          right
          apply pending_set hthread _ ⟨i, thread, hi, hmem⟩
          intro hrest
          exact (List.mem_cons.mp hrest).resolve_left hne
  · intro i q rest' place' hwriting
    rw [hthreads] at hwriting
    rcases getElem?_set_cases hwriting with ⟨_, heq⟩ | ⟨_, hwriting⟩
    · cases heq
    · have hvalid := h.valid i q rest' place' hwriting
      rcases hlabels with hsame | ⟨x, hx, hadded⟩
      · rw [hsame]
        exact hvalid
      · rw [hadded]
        exact hvalid.append hx

theorem Consistent.display (h : Consistent reports s places)
    (hstep : s.step (MergeAction.display index) = some s') :
    Consistent reports s' places := by
  rcases step_display hstep with ⟨hthread, rfl⟩
  refine ⟨⟨h.holds.segment, h.holds.nodup⟩, h.names, ?_, ?_⟩
  · intro n hn
    apply (h.pending n hn).imp_right
    exact pending_set hthread fun hmem => hmem
  · intro i q rest' place' hwriting
    rcases getElem?_set_cases hwriting with ⟨_, heq⟩ | ⟨_, hwriting⟩
    · cases heq
    · exact h.valid i q rest' place' hwriting

theorem Consistent.step (h : Consistent reports s places)
    (hcurrent : ¬ Stale s a) (hstep : s.step a = some s') :
    exists places', Consistent reports s' places' := by
  cases a with
  | search index => exact ⟨places, h.search hstep⟩
  | write index address => exact h.write hcurrent hstep
  | display index => exact ⟨places, h.display hstep⟩

end Step

theorem consistent_of_starts {initial : List Node} {tables : List (List Node)}
    (h : s.Starts initial tables) (hinitial : (initial.map Node.name).Nodup) :
    exists places, Consistent (initial ++ tables.flatten) s places := by
  rcases h with ⟨⟨places, hholds, rfl⟩, hthreads⟩
  refine ⟨places, hholds, hinitial, ?_, ?_⟩
  · intro n hn
    rcases List.mem_append.mp hn with hn | hn
    · exact Or.inl (covered_of_mem hinitial hn)
    · right
      rcases List.mem_flatten.mp hn with ⟨table, htable, hn⟩
      rcases List.mem_iff_getElem?.mp htable with ⟨i, hi⟩
      refine ⟨i, MergeThread.searching table, ?_, hn⟩
      rw [hthreads, List.getElem?_map, hi]
      rfl
  · intro i p rest place hwriting
    rw [hthreads, List.getElem?_map] at hwriting
    rcases Option.map_eq_some_iff.mp hwriting with ⟨_, _, heq⟩
    cases heq

/-- Without stale writes, merges at the same time lose nothing. -/
theorem reachable_lossless {s₀ s : Merging} {initial : List Node}
    {tables : List (List Node)} (hstarts : s₀.Starts initial tables)
    (hinitial : (initial.map Node.name).Nodup)
    (h : Reachable step (fun s a => ¬ Stale s a) s₀ s)
    (hreturned : forall thread, thread ∈ s.threads ->
      thread = MergeThread.returned) :
    exists places, s.Holds places ∧
      Lossless (initial ++ tables.flatten) (places.map Prod.snd) := by
  have hconsistent := h.invariant
    (P := fun t => exists places, Consistent (initial ++ tables.flatten) t places)
    (consistent_of_starts hstarts hinitial) (by
      intro t a u ht hcurrent hstep
      rcases ht with ⟨places, ht⟩
      exact ht.step hcurrent hstep)
  rcases hconsistent with ⟨places, hconsistent⟩
  refine ⟨places, hconsistent.holds, ?_⟩
  apply lossless_of_covered hconsistent.names
  intro n hn
  rcases hconsistent.pending n hn with hcovered | ⟨i, thread, hi, hmem⟩
  · exact hcovered
  · rw [hreturned thread (List.mem_of_getElem? hi)] at hmem
    cases hmem

def Sample.noTable (tables : List (List Node)) : Merging where
  heap := []
  head := none
  threads := tables.map MergeThread.searching

def Sample.reportA : Node :=
  Sample.node Sample.ipA Sample.fileA 100 5 FILE_CREATE

def Sample.reportB : Node :=
  Sample.node Sample.ipB Sample.fileB 100 5 FILE_CREATE

def Sample.reportC : Node :=
  Sample.node Sample.ipB ⟨[99], by decide, by decide⟩ 100 5 FILE_CREATE

theorem starts_noTable (tables : List (List Node)) :
    (Sample.noTable tables).Starts [] tables :=
  ⟨⟨[], ⟨rfl, List.nodup_nil⟩, rfl⟩, rfl⟩

theorem not_stale_search {s : Merging} {index : Nat} :
    ¬ Stale s (MergeAction.search index) := by
  intro h
  rcases h with ⟨_, _, _, _, _, heq, _⟩
  cases heq

theorem not_stale_display {s : Merging} {index : Nat} :
    ¬ Stale s (MergeAction.display index) := by
  intro h
  rcases h with ⟨_, _, _, _, _, heq, _⟩
  cases heq

theorem not_stale_write {s : Merging} {index address : Nat} {p : Node}
    {rest : List Node} {place : Place}
    (hthread : s.threads[index]? = some (MergeThread.writing p rest place))
    (hcurrent : s.Current place) :
    ¬ Stale s (MergeAction.write index address) := by
  intro h
  rcases h with ⟨_, _, _, _, _, heq, hthread', hstale⟩
  cases heq
  rw [hthread] at hthread'
  cases hthread'
  exact hstale hcurrent

def Sample.merges : List MergeAction :=
  [MergeAction.search 0, MergeAction.write 0 1, MergeAction.search 1,
    MergeAction.write 1 2, MergeAction.display 0, MergeAction.display 1]

def Sample.bothMerged : Merging where
  heap := [(2, { value := addFile Sample.reportB, next := none }),
    (1, { value := addFile Sample.reportA, next := some 2 })]
  head := some 1
  threads := [MergeThread.returned, MergeThread.returned]

theorem two_merges_lossless :
    exists places, Sample.bothMerged.Holds places ∧
      Lossless ([] ++ [[Sample.reportA], [Sample.reportB]].flatten)
        (places.map Prod.snd) := by
  have hrun : runFrom step
      (Sample.noTable [[Sample.reportA], [Sample.reportB]]) Sample.merges =
        some Sample.bothMerged := by rfl
  have havoids : Avoids step Stale
      (Sample.noTable [[Sample.reportA], [Sample.reportB]]) Sample.merges :=
    (avoids_cons_iff rfl).mpr ⟨not_stale_search,
      (avoids_cons_iff rfl).mpr ⟨not_stale_write rfl (by rfl),
        (avoids_cons_iff rfl).mpr ⟨not_stale_search,
          (avoids_cons_iff rfl).mpr ⟨not_stale_write rfl (by exact ⟨_, rfl⟩),
            (avoids_cons_iff rfl).mpr ⟨not_stale_display,
              (avoids_cons_iff rfl).mpr ⟨not_stale_display, trivial⟩⟩⟩⟩⟩⟩
  exact reachable_lossless (starts_noTable _) List.nodup_nil
    (reachable_of_avoids hrun havoids Reachable.start) (by decide)

/-- (1) Both threads find no table, and each creates one.  (2) Both threads
append behind the only node. -/
theorem merges_at_once_lose_files :
    (exists s, Reachable step unguarded
        (Sample.noTable [[Sample.reportA], [Sample.reportB]]) s ∧
      (forall thread, thread ∈ s.threads -> thread = MergeThread.returned) ∧
      forall places, s.Holds places ->
        ¬ Lossless [Sample.reportA, Sample.reportB]
          (places.map Prod.snd)) ∧
    exists s₀ s, s₀.Starts [Sample.reportA]
        [[Sample.reportB], [Sample.reportC]] ∧
      Reachable step unguarded s₀ s ∧
      (forall thread, thread ∈ s.threads -> thread = MergeThread.returned) ∧
      forall places, s.Holds places ->
        ¬ Lossless [Sample.reportA, Sample.reportB, Sample.reportC]
          (places.map Prod.snd) := by
  constructor
  · let s : Merging :=
      { heap := [(2, { value := addFile Sample.reportB, next := none }),
          (1, { value := addFile Sample.reportA, next := none })]
        head := some 2
        threads := [MergeThread.returned, MergeThread.returned] }
    have hrun : runFrom step
        (Sample.noTable [[Sample.reportA], [Sample.reportB]])
        [MergeAction.search 0, MergeAction.search 1, MergeAction.write 0 1,
          MergeAction.write 1 2, MergeAction.display 0,
          MergeAction.display 1] = some s := by rfl
    have hlist : Segment s.heap none s.head
        [(2, addFile Sample.reportB)] := ⟨rfl, none, rfl, rfl⟩
    refine ⟨s, reachable_of_runFrom hrun, by decide, ?_⟩
    intro places hholds hlossless
    rw [hholds.segment.unique hlist] at hlossless
    exact absurd (hlossless Sample.reportA (by decide)).left (by decide)
  · let s₀ : Merging :=
      { heap := [(0, { value := Sample.reportA, next := none })]
        head := some 0
        threads := [[Sample.reportB], [Sample.reportC]].map
          MergeThread.searching }
    let s : Merging :=
      { heap := [(2, { value := addFile Sample.reportC, next := none }),
          (1, { value := addFile Sample.reportB, next := none }),
          (0, { value := Sample.reportA, next := some 2 })]
        head := some 0
        threads := [MergeThread.returned, MergeThread.returned] }
    have hrun : runFrom step s₀
        [MergeAction.search 0, MergeAction.search 1, MergeAction.write 0 1,
          MergeAction.write 1 2, MergeAction.display 0,
          MergeAction.display 1] = some s := by rfl
    have hlist : Segment s.heap none s.head
        [(0, Sample.reportA), (2, addFile Sample.reportC)] :=
      ⟨rfl, some 2, rfl, rfl, none, rfl, rfl⟩
    refine ⟨s₀, s, ⟨⟨[(0, Sample.reportA)], ⟨⟨rfl, none, rfl, rfl⟩,
      List.nodup_singleton 0⟩, rfl⟩, rfl⟩, reachable_of_runFrom hrun,
      by decide, ?_⟩
    intro places hholds hlossless
    rw [hholds.segment.unique hlist] at hlossless
    exact absurd (hlossless Sample.reportB (by decide)).left (by decide)

end Merging
end Tracker
end DartSync
