import DartSync.Peer.Watches
import Mathlib.Data.List.Infix

/-!
# The directory tree

`addDirNode` and `deleteDirNode` of `peer/monitor.c` over a heap, and the list of
directories that the nodes stand for.  A call is `none` where it writes outside
of `dirpath`, follows a null pointer or one to a freed node, counts beyond the
range of an `int`, or does not end.
-/

namespace DartSync
namespace Peer

open Foundation

/-- `dir_tree` and `dirNum`. -/
structure TreeMemory where
  heap : Heap (Cell Path)
  head : Option Nat
  tail : Option Nat
  dirNum : Int

def nodePath (dirpath : Path) : Path :=
  dirpath ++ [47]

namespace TreeMemory

/-- As `print_directory_tree` starts. -/
def empty : TreeMemory where
  heap := []
  head := none
  tail := none
  dirNum := 0

/-- `addDirNode`; `address` is what `calloc` returns. -/
def addDirNode (t : TreeMemory) (dirpath : Path) (address : Nat) :
    Option TreeMemory :=
  if FILE_NAME_LEN ≤ dirpath.length + 1 ∨ 2 ^ 31 ≤ t.dirNum + 1 then none
  else
    let node : Cell Path := { value := nodePath dirpath, next := none }
    if t.dirNum = 0 then
      some
        { heap := t.heap.alloc address node
          head := some address
          tail := some address
          dirNum := t.dirNum + 1 }
    else
      t.tail.bind fun last =>
        (t.heap.read last).map fun cell =>
          { t with
            heap := (t.heap.write last
              { cell with next := some address }).alloc address node
            tail := some address
            dirNum := t.dirNum + 1 }

def unlinkNode (t : TreeMemory) (prev : Option Nat) (node : Nat)
    (next : Option Nat) : Option (TreeMemory × Int32) :=
  prev.bind fun before =>
    (t.heap.read before).map fun cell =>
      ({ t with
          heap := (t.heap.write before { cell with next := next }).free node
          tail := if t.tail = some node then some before else t.tail
          dirNum := t.dirNum - 1 }, 0)

/-- The loop of `deleteDirNode`.  A loop that takes more turns than there are
nodes does not end. -/
def deleteLoop (t : TreeMemory) (dirpath : Path) :
    Nat -> Option Nat -> Option Nat -> Option (TreeMemory × Int32)
  | _, _, none => some (t, -1)
  | 0, _, some _ => none
  | turns + 1, prev, some node =>
      match t.heap.read node with
      | none => none
      | some cell =>
          if strstr cell.value dirpath then t.unlinkNode prev node cell.next
          else deleteLoop t dirpath turns (some node) cell.next

def deleteDirNode (t : TreeMemory) (dirpath : Path) :
    Option (TreeMemory × Int32) :=
  t.deleteLoop dirpath t.heap.length none t.head

end TreeMemory

inductive DirCall where
  | add (dirpath : Path) (address : Nat)
  | delete (dirpath : Path)

def TreeMemory.call (t : TreeMemory) : DirCall -> Option TreeMemory
  | DirCall.add dirpath address => t.addDirNode dirpath address
  | DirCall.delete dirpath => (t.deleteDirNode dirpath).map Prod.fst

/-!
## The directories
-/

/-- What the tree is for: the directories that were added and not deleted
since, in order of addition. -/
abbrev Directories := List Path

namespace Directories

def call (l : Directories) : DirCall -> Directories
  | DirCall.add dirpath _ => l ++ [dirpath]
  | DirCall.delete dirpath => l.erase dirpath

/-- No directory is added that is there, and the root, which was added first, is
not deleted. -/
def Admits (l : Directories) : DirCall -> Prop
  | DirCall.add dirpath _ => dirpath ∉ l
  | DirCall.delete dirpath => l.head? ≠ some dirpath

/-- The calls that go wrong: a path that leaves no room for the slash, a
directory beyond the range of `dirNum`, and the deletion of a directory whose
path is found in that of an earlier one. -/
def Spoils (l : Directories) : DirCall -> Prop
  | DirCall.add dirpath _ =>
      FILE_NAME_LEN ≤ dirpath.length + 1 ∨ 2 ^ 31 ≤ l.length + 1
  | DirCall.delete dirpath =>
      exists other, other ∈ l.takeWhile (fun path => path ≠ dirpath) ∧
        strstr (nodePath other) dirpath = true

instance decidableAdmits (l : Directories) (c : DirCall) :
    Decidable (l.Admits c) :=
  match c with
  | DirCall.add dirpath _ => inferInstanceAs (Decidable (dirpath ∉ l))
  | DirCall.delete dirpath =>
      inferInstanceAs (Decidable (l.head? ≠ some dirpath))

instance decidableSpoils (l : Directories) (c : DirCall) :
    Decidable (l.Spoils c) :=
  match c with
  | DirCall.add dirpath _ =>
      inferInstanceAs (Decidable
        (FILE_NAME_LEN ≤ dirpath.length + 1 ∨ 2 ^ 31 ≤ l.length + 1))
  | DirCall.delete dirpath =>
      inferInstanceAs (Decidable (exists other,
        other ∈ l.takeWhile (fun path => path ≠ dirpath) ∧
          strstr (nodePath other) dirpath = true))

end Directories

/-- The nodes from `head` on are those of the directories, `tail` is the last of
them, and `dirNum` their number. -/
def TreeMemory.Represents (t : TreeMemory) (l : Directories) : Prop :=
  exists places : List (Nat × Path), Segment t.heap none t.head places ∧
    (places.map Prod.fst).Nodup ∧ places.map Prod.snd = l.map nodePath ∧
    t.tail = (places.map Prod.fst).getLast? ∧ t.dirNum = l.length

/-- The tree, or `none` after a call that went wrong, and the directories. -/
abbrev TreeState := Option TreeMemory × Directories

namespace TreeState

def Fresh (x : TreeState) : DirCall -> Prop
  | DirCall.add _ address =>
      (x.1.bind fun t => t.heap.read address).isNone = true
  | DirCall.delete _ => True

instance decidableFresh (x : TreeState) (c : DirCall) :
    Decidable (Fresh x c) :=
  match c with
  | DirCall.add _ address =>
      inferInstanceAs (Decidable
        ((x.1.bind fun t => t.heap.read address).isNone = true))
  | DirCall.delete _ => inferInstanceAs (Decidable True)

/-- A call that the directories admit, beside the same call of the
directories. -/
def step (x : TreeState) (c : DirCall) : Option TreeState :=
  if x.2.Admits c ∧ Fresh x c then
    some (x.1.bind fun t => t.call c, x.2.call c)
  else none

def start : TreeState :=
  (some TreeMemory.empty, [])

def Holds (x : TreeState) : Prop :=
  exists t, x.1 = some t ∧ t.Represents x.2

end TreeState

section Loop

variable {t : TreeMemory} {heap : Heap (Cell Path)} {p prev : Option Nat}
  {dirpath w : Path} {turns b : Nat} {l l' pre post : Directories}
  {before after : List (Nat × Path)}

theorem strstr_nodePath (dirpath : Path) :
    strstr (nodePath dirpath) dirpath = true := by
  unfold strstr nodePath
  rw [List.any_eq_true]
  refine ⟨dirpath ++ [47], (List.mem_tails _ _).mpr List.suffix_rfl, ?_⟩
  rw [List.isPrefixOf_iff_prefix]
  exact List.prefix_append dirpath [47]

theorem deleteLoop_skip {node : Nat} {cell : Cell Path}
    (hread : t.heap.read node = some cell)
    (hno : strstr cell.value dirpath = false) :
    t.deleteLoop dirpath (turns + 1) prev (some node) =
      t.deleteLoop dirpath turns (some node) cell.next := by
  rw [TreeMemory.deleteLoop, hread]
  dsimp only
  rw [hno]
  rfl

theorem deleteLoop_of_none (h : Segment t.heap none p before)
    (hturns : before.length ≤ turns)
    (hno : forall x, x ∈ before -> strstr x.2 dirpath = false) :
    t.deleteLoop dirpath turns prev p = some (t, -1) := by
  induction before generalizing p prev turns with
  | nil =>
      change p = none at h
      rw [h]
      cases turns <;> rfl
  | cons x rest ih =>
      rcases h with ⟨rfl, next, hread, hrest⟩
      cases turns with
      | zero => cases hturns
      | succ turns =>
          rw [deleteLoop_skip hread (hno x List.mem_cons_self)]
          exact ih hrest (Nat.le_of_succ_le_succ hturns)
            fun y hy => hno y (List.mem_cons_of_mem _ hy)

theorem deleteLoop_of_first
    (h : Segment t.heap none p (before ++ (b, w) :: after))
    (hturns : before.length < turns)
    (hno : forall x, x ∈ before -> strstr x.2 dirpath = false)
    (hw : strstr w dirpath = true) :
    t.deleteLoop dirpath turns prev p =
      t.unlinkNode (before.foldl (fun _ x => some x.1) prev) b
        (after.map Prod.fst).head? := by
  induction before generalizing p prev turns with
  | nil =>
      rcases h with ⟨rfl, next, hread, hrest⟩
      cases turns with
      | zero => cases hturns
      | succ turns =>
          rw [TreeMemory.deleteLoop, hread]
          dsimp only
          rw [if_pos hw, hrest.head_eq]
          rfl
  | cons x rest ih =>
      rcases h with ⟨rfl, next, hread, hrest⟩
      cases turns with
      | zero => cases hturns
      | succ turns =>
          rw [deleteLoop_skip hread (hno x List.mem_cons_self)]
          exact ih hrest (Nat.lt_of_succ_lt_succ hturns)
            fun y hy => hno y (List.mem_cons_of_mem _ hy)

end Loop

/-!
## The nodes stand for the directories
-/

section Refinement

variable {t t' : TreeMemory} {dirpath q : Path} {address : Nat}
  {l l' pre post : Directories}

theorem nodePath_injective : Function.Injective nodePath :=
  fun _ _ h => List.append_cancel_right h

theorem represents_empty : TreeMemory.empty.Represents [] :=
  ⟨[], rfl, List.nodup_nil, rfl, rfl, rfl⟩

theorem TreeMemory.Represents.unique (h : t.Represents l)
    (h' : t.Represents l') : l = l' := by
  rcases h with ⟨places, hsegment, _, hvalues, _⟩
  rcases h' with ⟨places', hsegment', _, hvalues', _⟩
  rw [hsegment.unique hsegment', hvalues'] at hvalues
  exact ((List.map_injective_iff.mpr nodePath_injective) hvalues).symm

theorem addDirNode_represents (h : t.Represents l)
    (hfresh : t.heap.read address = none)
    (hguard : ¬ l.Spoils (DirCall.add dirpath address)) :
    exists t', t.addDirNode dirpath address = some t' ∧
      t'.Represents (l ++ [dirpath]) := by
  rcases h with ⟨places, hsegment, hnodup, hvalues, htail, hdirNum⟩
  have hbounds : ¬ (FILE_NAME_LEN ≤ dirpath.length + 1 ∨
      2 ^ 31 ≤ t.dirNum + 1) := by
    intro h
    apply hguard
    rw [hdirNum] at h
    exact h.imp_right fun hlarge => by omega
  have hlength := congrArg List.length hvalues
  rw [List.length_map, List.length_map] at hlength
  unfold TreeMemory.addDirNode
  dsimp only
  rw [if_neg hbounds]
  rcases List.eq_nil_or_concat' places with rfl | ⟨init, ⟨a, v⟩, rfl⟩
  · have hnil : l = [] := List.eq_nil_of_length_eq_zero hlength.symm
    have hzero : t.dirNum = 0 := by
      rw [hdirNum, hnil]
      rfl
    rw [if_pos hzero, hzero, hnil]
    refine ⟨_, rfl, [(address, nodePath dirpath)], ⟨rfl, none, ?_, rfl⟩,
      List.nodup_singleton address, rfl, rfl, rfl⟩
    exact Heap.read_alloc_self
  · have hne : t.dirNum ≠ 0 := by
      rw [List.length_append, List.length_singleton] at hlength
      omega
    have hlast : t.tail = some a := by
      rw [htail, List.map_append]
      exact List.getLast?_concat
    rcases hsegment.concat hnodup hfresh (nodePath dirpath) with
      ⟨hread, hadded⟩
    rw [if_neg hne, hlast, Option.bind_some, hread, Option.map_some]
    refine ⟨_, rfl, _, hadded, ?_, ?_, ?_, ?_⟩
    · rw [List.append_cons, List.map_append]
      apply nodup_concat hnodup
      intro haddress
      exact hsegment.read_ne_none haddress hfresh
    · rw [List.append_cons, List.map_append, hvalues, List.map_append]
      rfl
    · rw [List.append_cons, List.map_append]
      exact List.getLast?_concat.symm
    · dsimp only
      rw [hdirNum, List.length_append]
      rfl

theorem addDirNode_none (h : t.Represents l)
    (hspoils : l.Spoils (DirCall.add dirpath address)) :
    t.addDirNode dirpath address = none := by
  rcases h with ⟨places, _, _, _, _, hdirNum⟩
  unfold TreeMemory.addDirNode
  apply if_pos
  rw [hdirNum]
  exact hspoils.imp_right fun hlarge => by omega

theorem no_match_places {places : List (Nat × Path)}
    (hvalues : places.map Prod.snd = l.map nodePath)
    (hno : forall path, path ∈ l -> strstr (nodePath path) dirpath = false) :
    forall x, x ∈ places -> strstr x.2 dirpath = false := by
  intro x hx
  have hmem := List.mem_map_of_mem (f := Prod.snd) hx
  rw [hvalues] at hmem
  rcases List.mem_map.mp hmem with ⟨path, hpath, heq⟩
  rw [← heq]
  exact hno path hpath

theorem deleteDirNode_of_none (h : t.Represents l)
    (hno : forall path, path ∈ l -> strstr (nodePath path) dirpath = false) :
    t.deleteDirNode dirpath = some (t, -1) := by
  rcases h with ⟨places, hsegment, hnodup, hvalues, _⟩
  exact deleteLoop_of_none hsegment (hsegment.length_le hnodup)
    (no_match_places hvalues hno)

theorem getLast?_unlinked {init after : List (Nat × Path)} {a b : Nat}
    {v w : Path}
    (hnodup : ((init ++ (a, v) :: (b, w) :: after).map Prod.fst).Nodup) :
    (if ((init ++ (a, v) :: (b, w) :: after).map Prod.fst).getLast? = some b
      then some a
      else ((init ++ (a, v) :: (b, w) :: after).map Prod.fst).getLast?) =
        ((init ++ (a, v) :: after).map Prod.fst).getLast? := by
  rcases List.eq_nil_or_concat' after with rfl | ⟨rest, ⟨c, u⟩, rfl⟩
  · simp
  · have hlast : forall xs : List (Nat × Path),
        ((init ++ (a, v) :: (xs ++ [(c, u)])).map Prod.fst).getLast? =
          some c := by
      intro xs
      rw [← List.cons_append, ← List.append_assoc, List.map_append]
      exact List.getLast?_concat
    have hc : c ≠ b := by
      rw [List.append_cons] at hnodup
      intro heq
      apply (nodup_split hnodup).right
      rw [← heq]
      simp
    rw [← List.cons_append, hlast, hlast, if_neg]
    intro heq
    exact hc (Option.some.inj heq)

theorem unlinkNode_represents {init after : List (Nat × Path)} {a b : Nat}
    {v w : Path}
    (hsegment : Segment t.heap none t.head
      (init ++ (a, v) :: (b, w) :: after))
    (hnodup : ((init ++ (a, v) :: (b, w) :: after).map Prod.fst).Nodup)
    (htail : t.tail =
      ((init ++ (a, v) :: (b, w) :: after).map Prod.fst).getLast?)
    (hvalues : (init ++ (a, v) :: after).map Prod.snd = l.map nodePath)
    (hdirNum : t.dirNum = l.length + 1) :
    exists t', t.unlinkNode (some a) b (after.map Prod.fst).head? =
        some (t', 0) ∧ t'.Represents l := by
  rcases hsegment.unlink hnodup with ⟨next, hreada, hreadb, hunlinked⟩
  have hnext : next = (after.map Prod.fst).head? := by
    rw [List.append_cons] at hsegment
    rw [hsegment.read_cell, Option.some.injEq, Cell.mk.injEq] at hreadb
    exact hreadb.right.symm
  unfold TreeMemory.unlinkNode
  rw [Option.bind_some, hreada, Option.map_some, ← hnext]
  refine ⟨_, rfl, _, hunlinked, ?_, hvalues, ?_, ?_⟩
  · refine List.Nodup.sublist ?_ hnodup
    apply List.Sublist.map
    apply List.Sublist.append_left
    exact (List.sublist_cons_self _ _).cons_cons _
  · rw [htail]
    exact getLast?_unlinked hnodup
  · dsimp only
    omega

theorem deleteDirNode_of_first (h : t.Represents (pre ++ q :: post))
    (hno : forall path, path ∈ pre -> strstr (nodePath path) dirpath = false)
    (hq : strstr (nodePath q) dirpath = true) :
    (pre = [] -> t.deleteDirNode dirpath = none) ∧
      (pre ≠ [] -> exists t', t.deleteDirNode dirpath = some (t', 0) ∧
        t'.Represents (pre ++ post)) := by
  rcases h with ⟨places, hsegment, hnodup, hvalues, htail, hdirNum⟩
  rw [List.map_append, List.map_cons] at hvalues
  rcases List.map_eq_append_iff.mp hvalues with
    ⟨before, found, rfl, hbefore, hfound⟩
  rcases List.map_eq_cons_iff.mp hfound with
    ⟨⟨b, w⟩, after, rfl, hw, hafter⟩
  have hturns : before.length < t.heap.length := by
    have hlength := hsegment.length_le hnodup
    rw [List.length_append, List.length_cons] at hlength
    omega
  have hloop : t.deleteDirNode dirpath =
      t.unlinkNode (before.foldl (fun _ x => some x.1) none) b
        (after.map Prod.fst).head? := by
    apply deleteLoop_of_first hsegment hturns (no_match_places hbefore hno)
    rw [← hw] at hq
    exact hq
  rw [hloop]
  rcases List.eq_nil_or_concat' before with rfl | ⟨init, ⟨a, v⟩, rfl⟩
  · have hpre : pre = [] := List.map_eq_nil_iff.mp hbefore.symm
    exact ⟨fun _ => rfl, fun hne => absurd hpre hne⟩
  · constructor
    · intro hpre
      rw [hpre, List.map_append] at hbefore
      exact absurd hbefore (by simp)
    · intro _
      rw [List.append_assoc, List.singleton_append] at hsegment hnodup htail
      rw [List.foldl_append, List.foldl_cons, List.foldl_nil]
      apply unlinkNode_represents hsegment hnodup htail
      · rw [List.append_cons, List.map_append, hbefore, hafter,
          List.map_append]
      · rw [hdirNum, List.length_append, List.length_cons, List.length_append]
        omega

theorem exists_first_match (l : Directories) (dirpath : Path) :
    (forall path, path ∈ l -> strstr (nodePath path) dirpath = false) ∨
      exists pre q post, l = pre ++ q :: post ∧
        (forall path, path ∈ pre ->
          strstr (nodePath path) dirpath = false) ∧
        strstr (nodePath q) dirpath = true := by
  cases hfind : l.find? (fun path => strstr (nodePath path) dirpath) with
  | none =>
      rw [List.find?_eq_none] at hfind
      exact Or.inl fun path hpath => Bool.eq_false_iff.mpr (hfind path hpath)
  | some q =>
      rw [List.find?_eq_some_iff_append] at hfind
      rcases hfind with ⟨hq, pre, post, hsplit, hno⟩
      refine Or.inr ⟨pre, q, post, hsplit, ?_, hq⟩
      intro path hpath
      have hpath := hno path hpath
      rw [Bool.not_eq_true'] at hpath
      exact hpath

theorem notMem_of_no_match
    (hno : forall path, path ∈ l -> strstr (nodePath path) dirpath = false) :
    dirpath ∉ l := by
  intro hmem
  have hself := hno dirpath hmem
  rw [strstr_nodePath] at hself
  cases hself

theorem not_spoils_of_none
    (hno : forall path, path ∈ l -> strstr (nodePath path) dirpath = false) :
    ¬ l.Spoils (DirCall.delete dirpath) := by
  intro h
  rcases h with ⟨other, hother, hmatch⟩
  rw [hno other ((List.takeWhile_sublist _).subset hother)] at hmatch
  cases hmatch

theorem spoils_iff_of_first
    (hno : forall path, path ∈ pre -> strstr (nodePath path) dirpath = false)
    (hq : strstr (nodePath q) dirpath = true) :
    Directories.Spoils (pre ++ q :: post) (DirCall.delete dirpath) <->
      q ≠ dirpath := by
  have hpre : forall path, path ∈ pre -> decide (path ≠ dirpath) = true := by
    intro path hpath
    apply decide_eq_true
    intro heq
    exact notMem_of_no_match hno (heq ▸ hpath)
  unfold Directories.Spoils
  dsimp only
  rw [List.takeWhile_append_of_pos hpre]
  constructor
  · intro h heq
    rcases h with ⟨other, hother, hmatch⟩
    rw [heq, List.takeWhile_cons_of_neg (by simp), List.append_nil] at hother
    rw [hno other hother] at hmatch
    cases hmatch
  · intro hne
    refine ⟨q, List.mem_append_right _ ?_, hq⟩
    have hkept : decide (q ≠ dirpath) = true := decide_eq_true hne
    rw [List.takeWhile_cons, if_pos hkept]
    exact List.mem_cons_self

theorem deleteDirNode_represents (h : t.Represents l)
    (hadmits : l.Admits (DirCall.delete dirpath))
    (hguard : ¬ l.Spoils (DirCall.delete dirpath)) :
    exists t' value, t.deleteDirNode dirpath = some (t', value) ∧
      t'.Represents (l.erase dirpath) := by
  rcases exists_first_match l dirpath with hno | ⟨pre, q, post, rfl, hno, hq⟩
  · rw [List.erase_of_not_mem (notMem_of_no_match hno)]
    exact ⟨t, _, deleteDirNode_of_none h hno, h⟩
  · rw [spoils_iff_of_first hno hq, not_not] at hguard
    subst hguard
    have hpre : pre ≠ [] := by
      intro hnil
      apply hadmits
      rw [hnil]
      rfl
    rw [List.erase_append_right _ (notMem_of_no_match hno),
      List.erase_cons_head]
    rcases (deleteDirNode_of_first h hno hq).right hpre with
      ⟨t', hdelete, ht'⟩
    exact ⟨t', _, hdelete, ht'⟩

theorem deleteDirNode_spoiled (h : t.Represents l) (hnodup : l.Nodup)
    (hspoils : l.Spoils (DirCall.delete dirpath)) {value : Int32}
    (hdelete : t.deleteDirNode dirpath = some (t', value)) :
    ¬ t'.Represents (l.erase dirpath) := by
  rcases exists_first_match l dirpath with hno | ⟨pre, q, post, rfl, hno, hq⟩
  · exact absurd hspoils (not_spoils_of_none hno)
  · rw [spoils_iff_of_first hno hq] at hspoils
    rcases deleteDirNode_of_first h hno hq with ⟨hfirst, hlater⟩
    cases Classical.em (pre = []) with
    | inl hpre =>
        rw [hfirst hpre] at hdelete
        cases hdelete
    | inr hpre =>
        rcases hlater hpre with ⟨t'', hdelete', ht''⟩
        rw [hdelete'] at hdelete
        cases hdelete
        intro ht
        have hmem : q ∈ (pre ++ q :: post).erase dirpath :=
          (List.mem_erase_of_ne hspoils).mpr (by simp)
        rw [← ht''.unique ht] at hmem
        have hsplit := List.nodup_middle.mp hnodup
        exact (List.nodup_cons.mp hsplit).left hmem

end Refinement

/-!
## Runs
-/

section Runs

variable {x x' : TreeState} {c : DirCall}

theorem TreeState.step_eq_some (h : TreeState.step x c = some x') :
    x.2.Admits c ∧ TreeState.Fresh x c ∧
      x' = (x.1.bind fun t => t.call c, x.2.call c) := by
  unfold TreeState.step at h
  split at h
  · next hboth =>
      cases h
      exact ⟨hboth.left, hboth.right, rfl⟩
  · cases h

theorem Directories.nodup_call {l : Directories} (h : l.Nodup)
    (hadmits : l.Admits c) : (l.call c).Nodup := by
  cases c with
  | add dirpath address => exact nodup_concat h hadmits
  | delete dirpath => exact h.erase dirpath

theorem TreeState.holds_step (h : x.Holds) (hguard : ¬ x.2.Spoils c)
    (hstep : TreeState.step x c = some x') : x'.Holds := by
  rcases TreeState.step_eq_some hstep with ⟨hadmits, hfresh, rfl⟩
  rcases h with ⟨t, ht, hrepresents⟩
  unfold TreeState.Holds
  dsimp only
  rw [ht, Option.bind_some]
  cases c with
  | add dirpath address =>
      unfold TreeState.Fresh at hfresh
      dsimp only at hfresh
      rw [ht, Option.bind_some, Option.isNone_iff_eq_none] at hfresh
      exact addDirNode_represents hrepresents hfresh hguard
  | delete dirpath =>
      rcases deleteDirNode_represents hrepresents hadmits hguard with
        ⟨t', value, hdelete, ht'⟩
      refine ⟨t', ?_, ht'⟩
      unfold TreeMemory.call
      dsimp only
      rw [hdelete]
      rfl

theorem TreeState.not_holds_step (h : x.Holds) (hnodup : x.2.Nodup)
    (hspoils : x.2.Spoils c) (hstep : TreeState.step x c = some x') :
    ¬ x'.Holds := by
  rcases TreeState.step_eq_some hstep with ⟨_, _, rfl⟩
  rcases h with ⟨t, ht, hrepresents⟩
  unfold TreeState.Holds
  dsimp only
  rw [ht, Option.bind_some]
  intro hafter
  rcases hafter with ⟨t', hcall, ht'⟩
  cases c with
  | add dirpath address =>
      change t.addDirNode dirpath address = some t' at hcall
      rw [addDirNode_none hrepresents hspoils] at hcall
      cases hcall
  | delete dirpath =>
      rcases Option.map_eq_some_iff.mp hcall with
        ⟨⟨t'', value⟩, hdelete, heq⟩
      cases heq
      exact deleteDirNode_spoiled hrepresents hnodup hspoils hdelete ht'

end Runs

/-- In a run the tree is that of the directories as long as no call is one of
those that go wrong. -/
theorem throughout_holds_iff {calls : List DirCall} {x : TreeState}
    (hrun : runFrom TreeState.step TreeState.start calls = some x) :
    Throughout TreeState.step TreeState.Holds TreeState.start calls <->
      Avoids TreeState.step (fun x c => x.2.Spoils c) TreeState.start
        calls := by
  refine throughout_iff_avoids_of_keeps
    (G := fun x : TreeState => x.Holds ∧ x.2.Nodup) ?_ ?_ ?_ ?_ hrun
  · intro x hx
    exact hx.left
  · intro x c x' hx hguard hstep
    refine ⟨TreeState.holds_step hx.left hguard hstep, ?_⟩
    rcases TreeState.step_eq_some hstep with ⟨hadmits, _, rfl⟩
    exact Directories.nodup_call hx.right hadmits
  · intro x c x' hx hspoils hstep
    exact TreeState.not_holds_step hx.left hx.right hspoils hstep
  · exact ⟨⟨TreeMemory.empty, rfl, represents_empty⟩, List.nodup_nil⟩

namespace Sample

def root : Path := [115]
def folder : Path := [115, 47, 97]
def subfolder : Path := [115, 47, 97, 47, 98]
def sibling : Path := [115, 47, 97, 98]

end Sample

theorem nested_holds_throughout :
    Throughout TreeState.step TreeState.Holds TreeState.start
      [DirCall.add Sample.root 1, DirCall.add Sample.folder 2,
        DirCall.add Sample.subfolder 3, DirCall.delete Sample.folder,
        DirCall.delete Sample.subfolder] := by
  refine (throughout_holds_iff rfl).mpr ?_
  repeat refine (avoids_cons_iff rfl).mpr ⟨by decide, ?_⟩
  exact trivial

/-- The folder was added behind its sibling. -/
theorem not_throughout_holds_sibling :
    ¬ forall (calls : List DirCall) (x : TreeState),
      runFrom TreeState.step TreeState.start calls = some x ->
        Throughout TreeState.step TreeState.Holds TreeState.start calls := by
  intro h
  have hrun := h
    [DirCall.add Sample.root 1, DirCall.add Sample.sibling 2,
      DirCall.add Sample.folder 3, DirCall.delete Sample.folder] _ rfl
  have hadded := ((hrun.right _ rfl).right _ rfl).right _ rfl
  have hspoils : Directories.Spoils
      [Sample.root, Sample.sibling, Sample.folder]
      (DirCall.delete Sample.folder) := by decide
  exact TreeState.not_holds_step hadded.left (by decide) hspoils rfl
    (hadded.right _ rfl)

end Peer
end DartSync
