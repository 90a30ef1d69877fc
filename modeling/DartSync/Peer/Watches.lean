import DartSync.Foundation.LinkedList
import DartSync.Foundation.Transition
import DartSync.Peer.Monitor

/-!
# Watched directories

The directory tree of `peer/monitor.c` and the two arrays `folderArray` and `wd`
by which `notify` finds the directory of an event.  The entries of
`folderArray` are pointers: into the nodes of the tree, or to the array `abspath`
in which the path of each event is built.

`inotify_add_watch` returns 1, 2, 3 and so on.  The array `abspath` of one turn
of the loop lies where that of the next turn lies, and keeps what it holds.
-/

namespace DartSync
namespace Peer

open Foundation

abbrev MAX_SUBDIR_NUM : Nat := 50

abbrev Path := List UInt8

/-- `strstr(haystack, needle) != NULL`. -/
def strstr (haystack needle : Path) : Bool :=
  haystack.tails.any needle.isPrefixOf

/-- The nodes of the tree after `print_directory_tree`: where they are
allocated, and their `dirpath`, which has `FILE_NAME_LEN` bytes. -/
structure DirTree where
  nodes : List (Nat × Path)
  distinct : (nodes.map Prod.fst).Nodup
  fits : forall node, node ∈ nodes -> node.2.length < FILE_NAME_LEN

inductive Pointer where
  | dirpath (address : Nat)
  | abspath
deriving DecidableEq

/-- The local variables of `notify`, the tree, and the watches of the kernel.
Both arrays end at `count`. -/
structure Watching where
  /-- The addresses of the nodes in the tree. -/
  tree : List Nat
  heap : Heap Path
  folderArray : List (Option Pointer)
  wd : List Nat
  abspath : Path
  /-- The numbers of the watches that events may still be read of, and the
  directories they are on. -/
  watches : List (Nat × Path)

inductive WatchAction where
  /-- An event on a file. -/
  | file (w : Nat) (name : FileName)
  /-- `IN_CREATE` with `IN_ISDIR`; `address` is what `calloc` returns. -/
  | create (w : Nat) (name : FileName) (address : Nat)
  /-- `IN_DELETE` with `IN_ISDIR`; `freed` is what freed nodes read as. -/
  | delete (w : Nat) (name : FileName) (freed : Nat -> Path)

namespace Watching

/-- After the loop that adds all directories of the tree. -/
def start (dirTree : DirTree) : Watching where
  tree := dirTree.nodes.map Prod.fst
  heap := dirTree.nodes
  folderArray := dirTree.nodes.map fun node => some (Pointer.dirpath node.1)
  wd := List.range' 1 dirTree.nodes.length
  abspath := []
  watches := dirTree.nodes.mapIdx fun i node => (i + 1, node.2)

/-- What a pointer of `folderArray` points to; `none` in freed memory. -/
def deref (s : Watching) : Pointer -> Option Path
  | Pointer.dirpath address => s.heap.read address
  | Pointer.abspath => some s.abspath

/-- `sprintf(abspath, "%s%s", folderArray[(event->wd) - 1], event->name)`;
`none` if the entry is no string. -/
def builtPath (s : Watching) (w : Nat) (name : FileName) : Option Path :=
  match s.folderArray[w - 1]? with
  | some (some p) => (s.deref p).map fun folder => folder ++ name.bytes
  | _ => none

/-- The first node of the tree whose path contains another path. -/
def firstMatch (s : Watching) (dirpath : Path) : Option Nat :=
  s.tree.find? fun address =>
    match s.heap.read address with
    | none => false
    | some path => strstr path dirpath

/-- The predecessor of the first node of the tree is `NULL`. -/
def deleteDirNode (s : Watching) (dirpath : Path) : Option Watching :=
  match s.firstMatch dirpath with
  | none => some s
  | some address =>
      if s.tree.head? = some address then none
      else
        some { s with
          tree := s.tree.erase address
          heap := s.heap.free address }

/-- The loop that clears an entry of `folderArray` and removes its watch.  Events
of this watch that are in the queue will still be read. -/
def clearFolder (s : Watching) (freed : Nat -> Path) : Watching :=
  let contains : Option Pointer -> Bool
    | none => false
    | some Pointer.abspath => true
    | some (Pointer.dirpath address) =>
        strstr ((s.heap.read address).getD (freed address)) s.abspath
  match s.folderArray.findIdx? contains with
  | none => s
  | some i => { s with folderArray := s.folderArray.set i none }

/-- The path of an event, if it fits into `abspath`. -/
def turn (s : Watching) (w : Nat) (name : FileName) : Option Watching :=
  match s.builtPath w name with
  | none => none
  | some path =>
      if path.length < FILE_NAME_LEN then some { s with abspath := path }
      else none

/-- The branch for a directory that was created; `none` if its path does not fit
into `dirpath`. -/
def addDirectory (s : Watching) (address : Nat) : Option Watching :=
  let path := s.abspath ++ [47]
  if path.length < FILE_NAME_LEN then
    some { s with
      tree := s.tree ++ [address]
      heap := s.heap.alloc address path
      folderArray := s.folderArray ++ [some Pointer.abspath]
      wd := s.wd ++ [s.wd.length + 1]
      watches := s.watches ++ [(s.wd.length + 1, path)] }
  else none

/-- The kernel drops the watch of a directory that is gone; its last event has
been read before that of the deletion. -/
def forget (s : Watching) (path : Path) : Watching :=
  { s with watches := s.watches.filter fun watch => watch.2 ≠ path }

/-- One turn of the loop.  Events come from watched directories, and their names
have no slash. -/
def step (s : Watching) (a : WatchAction) : Option Watching :=
  match a with
  | WatchAction.file w name =>
      if w ∈ s.watches.map Prod.fst ∧ 47 ∉ name.bytes then s.turn w name
      else none
  | WatchAction.create w name address =>
      if w ∈ s.watches.map Prod.fst ∧ 47 ∉ name.bytes ∧
          (s.heap.read address).isNone then
        (s.turn w name).bind fun s' =>
          if passesFilter { kind := EventKind.create, name := name } then
            s'.addDirectory address
          else some s'
      else none
  | WatchAction.delete w name freed =>
      match lookup Prod.fst w s.watches with
      | none => none
      | some watch =>
          if 47 ∈ name.bytes ∨
              overruns { kind := EventKind.delete, name := name } then none
          else
            ((s.forget (watch.2 ++ name.bytes ++ [47])).turn w name).bind
              fun s' =>
                if passesFilter
                    { kind := EventKind.delete, name := name } then
                  (s'.deleteDirNode s'.abspath).map fun t =>
                    t.clearFolder freed
                else some s'

end Watching

/-- The arrays are long enough, and every event of a watched directory gets the
path of the directory and the name of the file. -/
structure Resolved (s : Watching) : Prop where
  bounds : s.folderArray.length ≤ MAX_SUBDIR_NUM ∧
    s.wd.length ≤ MAX_SUBDIR_NUM
  events : forall w d, (w, d) ∈ s.watches -> 1 ≤ w ∧ w ≤ MAX_SUBDIR_NUM ∧
    forall name, s.builtPath w name = some (d ++ name.bytes)

/-- No directory is added to the watched ones, and no path of another watched
directory contains that of a deleted one. -/
def KeepsFolders (s : Watching) : WatchAction -> Prop
  | WatchAction.file _ _ => True
  | WatchAction.create _ name _ =>
      passesFilter { kind := EventKind.create, name := name } = false
  | WatchAction.delete w name _ =>
      passesFilter { kind := EventKind.delete, name := name } = true ->
        forall d, (w, d) ∈ s.watches -> forall watch, watch ∈ s.watches ->
          watch.2 ≠ d ++ name.bytes ++ [47] ->
            strstr watch.2 (d ++ name.bytes) = false

structure Aligned (s : Watching) : Prop where
  numbers : s.wd = List.range' 1 s.folderArray.length
  bounds : s.folderArray.length ≤ MAX_SUBDIR_NUM
  folders : forall w d, (w, d) ∈ s.watches -> 1 ≤ w ∧ exists address,
    s.folderArray[w - 1]? = some (some (Pointer.dirpath address)) ∧
      s.heap.read address = some d

namespace Aligned

variable {s s' : Watching}

theorem builtPath (h : Aligned s) {w : Nat} {d : Path}
    (hwatch : (w, d) ∈ s.watches) (name : FileName) :
    s.builtPath w name = some (d ++ name.bytes) := by
  rcases h.folders w d hwatch with ⟨_, address, hentry, hread⟩
  unfold Watching.builtPath
  rw [hentry]
  dsimp only [Watching.deref]
  rw [hread]
  rfl

theorem resolved (h : Aligned s) : Resolved s where
  bounds := by
    refine ⟨h.bounds, ?_⟩
    rw [h.numbers, List.length_range']
    exact h.bounds
  events := by
    intro w d hwatch
    rcases h.folders w d hwatch with ⟨hw, address, hentry, _⟩
    have hlt := (List.getElem?_eq_some_iff.mp hentry).1
    have hbounds := h.bounds
    refine ⟨hw, ?_, h.builtPath hwatch⟩
    omega

theorem start {dirTree : DirTree}
    (hroom : dirTree.nodes.length ≤ MAX_SUBDIR_NUM) :
    Aligned (Watching.start dirTree) where
  numbers := by
    dsimp only [Watching.start]
    rw [List.length_map]
  bounds := by
    dsimp only [Watching.start]
    rw [List.length_map]
    exact hroom
  folders := by
    intro w d hwatch
    rcases List.mem_mapIdx.mp hwatch with ⟨i, hi, hnode⟩
    cases hnode
    refine ⟨Nat.succ_pos i, dirTree.nodes[i].1, ?_, ?_⟩
    · dsimp only [Watching.start]
      rw [Nat.add_sub_cancel, List.getElem?_map, List.getElem?_eq_getElem hi]
      rfl
    · dsimp only [Watching.start]
      unfold Heap.read
      rw [lookup_of_mem dirTree.distinct (List.getElem_mem hi)]
      rfl

theorem resolved_start_iff {dirTree : DirTree} :
    Resolved (Watching.start dirTree) <->
      dirTree.nodes.length ≤ MAX_SUBDIR_NUM := by
  constructor
  · intro h
    have hbounds := h.bounds.left
    dsimp only [Watching.start] at hbounds
    rw [List.length_map] at hbounds
    exact hbounds
  · intro hroom
    exact (start hroom).resolved

theorem turn (h : Aligned s) {w : Nat} {name : FileName}
    (hturn : s.turn w name = some s') :
    Aligned s' ∧ exists path, s.builtPath w name = some path ∧
      s' = { s with abspath := path } := by
  unfold Watching.turn at hturn
  split at hturn
  · cases hturn
  · next path hpath =>
      split at hturn
      · cases hturn
        exact ⟨⟨h.numbers, h.bounds, h.folders⟩, path, hpath, rfl⟩
      · cases hturn

theorem forget (h : Aligned s) (path : Path) : Aligned (s.forget path) where
  numbers := h.numbers
  bounds := h.bounds
  folders := by
    intro w d hwatch
    exact h.folders w d (List.mem_of_mem_filter hwatch)

theorem deleteDirNode (h : Aligned s) {dirpath : Path}
    (hapart : forall w d, (w, d) ∈ s.watches -> strstr d dirpath = false)
    (hdelete : s.deleteDirNode dirpath = some s') :
    Aligned s' ∧ s'.watches = s.watches ∧ s'.abspath = s.abspath := by
  unfold Watching.deleteDirNode at hdelete
  split at hdelete
  · cases hdelete
    exact ⟨h, rfl, rfl⟩
  · next address hmatch =>
      split at hdelete
      · cases hdelete
      · cases hdelete
        refine ⟨⟨h.numbers, h.bounds, ?_⟩, rfl, rfl⟩
        intro w d hwatch
        rcases h.folders w d hwatch with ⟨hw, address', hentry, hread⟩
        refine ⟨hw, address', hentry, ?_⟩
        dsimp only
        rw [Heap.read_free_of_ne]
        · exact hread
        · intro heq
          have hcontains := List.find?_some hmatch
          rw [← heq, hread] at hcontains
          dsimp only at hcontains
          rw [hapart w d hwatch] at hcontains
          cases hcontains

theorem clearFolder (h : Aligned s) (freed : Nat -> Path)
    (hapart : forall w d, (w, d) ∈ s.watches -> strstr d s.abspath = false) :
    Aligned (s.clearFolder freed) := by
  unfold Watching.clearFolder
  dsimp only
  split
  · exact h
  · next i hfound =>
      refine ⟨?_, ?_, ?_⟩
      · rw [List.length_set]
        exact h.numbers
      · rw [List.length_set]
        exact h.bounds
      · intro w d hwatch
        rcases h.folders w d hwatch with ⟨hw, address, hentry, hread⟩
        refine ⟨hw, address, ?_, hread⟩
        have hne : i ≠ w - 1 := by
          intro heq
          rw [List.findIdx?_eq_some_iff_getElem] at hfound
          rcases hfound with ⟨hlt, hcontains, _⟩
          subst heq
          rcases List.getElem?_eq_some_iff.mp hentry with ⟨_, hget⟩
          rw [hget] at hcontains
          dsimp only at hcontains
          rw [hread, Option.getD_some, hapart w d hwatch] at hcontains
          cases hcontains
        rw [List.getElem?_set_ne hne]
        exact hentry

theorem step (h : Aligned s) {a : WatchAction} (hguard : KeepsFolders s a)
    (hstep : s.step a = some s') : Aligned s' := by
  cases a with
  | file w name =>
      dsimp only [Watching.step] at hstep
      split at hstep
      · exact (h.turn hstep).left
      · cases hstep
  | create w name address =>
      dsimp only [Watching.step] at hstep
      split at hstep
      · rcases Option.bind_eq_some_iff.mp hstep with ⟨t, ht, hrest⟩
        have hfiltered : passesFilter
            { kind := EventKind.create, name := name } = false := hguard
        rw [hfiltered] at hrest
        cases hrest
        exact (h.turn ht).left
      · cases hstep
  | delete w name freed =>
      dsimp only [Watching.step] at hstep
      split at hstep
      · cases hstep
      · next watch hlookup =>
          split at hstep
          · cases hstep
          · rcases Option.bind_eq_some_iff.mp hstep with ⟨t, ht, hrest⟩
            have hwatch : (w, watch.2) ∈ s.watches := by
              have hkey : watch.1 = w := key_of_lookup hlookup
              rw [← hkey]
              exact mem_of_lookup hlookup
            rcases (h.forget _).turn ht with ⟨haligned, path, hpath, rfl⟩
            have hbuilt : path = watch.2 ++ name.bytes := by
              have hsame := h.builtPath hwatch name
              exact Option.some.inj (hpath.symm.trans hsame)
            split at hrest
            · next hpasses =>
                rcases Option.map_eq_some_iff.mp hrest with ⟨u, hu, rfl⟩
                -- the deleted directory itself is not watched any more
                have hapart : forall w' d', (w', d') ∈
                    (s.forget (watch.2 ++ name.bytes ++ [47])).watches ->
                      strstr d' path = false := by
                  intro w' d' hwatch'
                  rcases List.mem_filter.mp hwatch' with ⟨hmem, hother⟩
                  rw [hbuilt]
                  exact hguard hpasses watch.2 hwatch (w', d') hmem
                    (of_decide_eq_true hother)
                rcases haligned.deleteDirNode hapart hu with
                  ⟨hdeleted, hwatches, habspath⟩
                apply hdeleted.clearFolder
                rw [hwatches, habspath]
                exact hapart
            · cases hrest
              exact haligned

theorem not_resolved_create (h : Aligned s) {w address : Nat}
    {name : FileName}
    (hpasses : passesFilter
      { kind := EventKind.create, name := name } = true)
    (hstep : s.step (WatchAction.create w name address) = some s') :
    ¬ Resolved s' := by
  dsimp only [Watching.step] at hstep
  split at hstep
  · rcases Option.bind_eq_some_iff.mp hstep with ⟨t, ht, hrest⟩
    have haligned := (h.turn ht).left
    unfold Watching.addDirectory at hrest
    dsimp only at hrest
    split at hrest
    · cases hrest
      intro hresolved
      have hbuilt := (hresolved.events (t.wd.length + 1) (t.abspath ++ [47])
        (List.mem_append_right _ (List.mem_singleton_self _))).2.2 name
      have hlength : t.wd.length = t.folderArray.length := by
        rw [haligned.numbers, List.length_range']
      unfold Watching.builtPath at hbuilt
      rw [Nat.add_sub_cancel, hlength, List.getElem?_concat_length] at hbuilt
      have hsame : t.abspath ++ name.bytes =
          t.abspath ++ [47] ++ name.bytes := Option.some.inj hbuilt
      have hlengths := congrArg List.length hsame
      simp at hlengths
    · cases hrest
  · cases hstep

end Aligned

/-- A tree with room in the arrays, and a run that watches no new directory and
frees no watched one. -/
theorem reachable_resolved {dirTree : DirTree} {s : Watching}
    (hroom : dirTree.nodes.length ≤ MAX_SUBDIR_NUM)
    (h : Reachable Watching.step KeepsFolders (Watching.start dirTree) s) :
    Resolved s :=
  (h.invariant (Aligned.start hroom) fun _ _ _ hs hguard hstep =>
    hs.step hguard hstep).resolved

def Sample.dirTree : DirTree where
  nodes := [(1, [115, 47]), (2, [115, 47, 97, 98, 47]), (3, [115, 47, 97, 47])]
  distinct := by decide
  fits := by decide

def Sample.fileAB : FileName :=
  ⟨[97, 98], by decide, by decide⟩

theorem deleted_directory_resolved :
    exists s, Watching.step (Watching.start Sample.dirTree)
        (WatchAction.delete 1 Sample.fileAB fun _ => []) = some s ∧
      Resolved s := by
  have hreach : Reachable Watching.step KeepsFolders
      (Watching.start Sample.dirTree) _ :=
    Reachable.step (a := WatchAction.delete 1 Sample.fileAB fun _ => [])
      Reachable.start ?_ rfl
  · exact ⟨_, rfl, reachable_resolved (by decide) hreach⟩
  · intro _ d hd
    have hd' : d = [115, 47] := by
      revert hd
      simp [Watching.start, Sample.dirTree]
    subst hd'
    decide

def Sample.siblingTree : DirTree where
  nodes := [(1, [115, 47]), (2, [115, 47, 97, 47]), (3, [115, 47, 97, 98, 47])]
  distinct := by decide
  fits := by decide

/-- The path of a file in a new directory has no slash before the file.  When
"s/a/" is deleted, the node of "s/ab/" is freed, which stays watched; in the other
order the entry of "s/ab/" is cleared before its last events are read. -/
theorem misresolved_events_reachable :
    (exists s, Reachable Watching.step unguarded
        (Watching.start Sample.dirTree) s ∧
      (4, [115, 47, 98, 47]) ∈ s.watches ∧
      s.builtPath 4 Sample.fileA = some [115, 47, 98, 97] ∧ ¬ Resolved s) ∧
    (exists s, Reachable Watching.step unguarded
        (Watching.start Sample.dirTree) s ∧
      (2, [115, 47, 97, 98, 47]) ∈ s.watches ∧
      s.builtPath 2 Sample.fileA = none ∧ ¬ Resolved s) ∧
    exists s, Reachable Watching.step unguarded
        (Watching.start Sample.siblingTree) s ∧
      (3, [115, 47, 97, 98, 47]) ∈ s.watches ∧
      s.builtPath 3 Sample.fileA = none ∧ ¬ Resolved s := by
  refine ⟨?_, ?_, ?_⟩
  · have hstep : Watching.step (Watching.start Sample.dirTree)
        (WatchAction.create 1 Sample.fileB 4) = some _ := rfl
    refine ⟨_, Reachable.step Reachable.start trivial hstep, by decide, rfl,
      ?_⟩
    exact (Aligned.start (by decide)).not_resolved_create rfl hstep
  · have hstep : Watching.step (Watching.start Sample.dirTree)
        (WatchAction.delete 1 Sample.fileA fun _ => []) = some _ := rfl
    refine ⟨_, Reachable.step Reachable.start trivial hstep, by decide, rfl,
      ?_⟩
    intro hresolved
    have hbuilt := (hresolved.events 2 [115, 47, 97, 98, 47]
      (by decide)).2.2 Sample.fileA
    cases hbuilt
  · have hstep : Watching.step (Watching.start Sample.siblingTree)
        (WatchAction.delete 1 Sample.fileA fun _ => []) = some _ := rfl
    refine ⟨_, Reachable.step Reachable.start trivial hstep, by decide, rfl,
      ?_⟩
    intro hresolved
    have hbuilt := (hresolved.events 3 [115, 47, 97, 98, 47]
      (by decide)).2.2 Sample.fileA
    cases hbuilt

end Peer
end DartSync
