import Mathlib.Logic.Function.Basic
import DartSync.Foundation.Transition
import DartSync.Peer.Monitor

/-!
# The table as a mirror of the folder

Changes to the regular files in the watched folder, each followed by the turns
of `notify` in `peer/monitor.c` for its events.  The watch mask also subscribes
to `IN_MOVED_FROM` and `IN_MOVED_TO`, for which `notify` has no branch.
-/

namespace DartSync
namespace Peer

open Foundation

inductive FolderChange where
  | create (f : FileName)
  | write (f : FileName) (size : UInt64)
  | delete (f : FileName)
  | rename (f g : FileName)
  | moveIn (f : FileName) (stat : FileStat)
  | moveOut (f : FileName)

namespace FolderChange

def names : FolderChange -> List FileName
  | create f | write f _ | delete f | moveIn f _ | moveOut f => [f]
  | rename f g => [f, g]

def event? : FolderChange -> Option Event
  | create f => some { kind := EventKind.create, name := f }
  | write f _ => some { kind := EventKind.modify, name := f }
  | delete f => some { kind := EventKind.delete, name := f }
  | rename _ _ | moveIn _ _ | moveOut _ => none

def apply (now : UInt64) (files : FileName -> Option FileStat) :
    FolderChange -> Option (FileName -> Option FileStat)
  | create f =>
      if (files f).isSome then none
      else some (Function.update files f (some { size := 0, mtime := now }))
  | write f size =>
      if (files f).isSome then
        some (Function.update files f (some { size := size, mtime := now }))
      else none
  | delete f | moveOut f =>
      if (files f).isSome then some (Function.update files f none) else none
  | rename f g =>
      if (files f).isSome then
        some (Function.update (Function.update files f none) g (files f))
      else none
  | moveIn f stat => some (Function.update files f (some stat))

end FolderChange

/-- The folder and the table; `none` once a path or a name did not fit into its
array. -/
structure Mirror where
  files : FileName -> Option FileStat
  table : Option (List Node)

def Fits (syncDir : CString FILE_NAME_LEN) (f : FileName) : Prop :=
  syncDir.strlen + f.strlen < FILE_NAME_LEN

instance decidableFits (syncDir : CString FILE_NAME_LEN) (f : FileName) :
    Decidable (Fits syncDir f) :=
  inferInstanceAs (Decidable (_ < _))

namespace Mirror

/-- An empty folder and an empty table. -/
def start : Mirror where
  files := fun _ => none
  table := some []

/-- The turns of `notify` for a change, with the files as they are after it. -/
def notifyChange (syncDir : CString FILE_NAME_LEN) (myip : Ip) (now : UInt64)
    (files : FileName -> Option FileStat) (c : FolderChange)
    (table : List Node) : Option (List Node) :=
  if forall f, f ∈ c.names -> Fits syncDir f then
    match c.event? with
    | none => some table
    | some event =>
        if overruns event then none
        else some (notifyEvent myip now (files event.name) event table).1
  else none

def step (syncDir : CString FILE_NAME_LEN) (myip : Ip) (s : Mirror)
    (a : UInt64 × FolderChange) : Option Mirror :=
  (a.2.apply a.1 s.files).map fun files =>
    { files := files
      table := s.table.bind (notifyChange syncDir myip a.1 files a.2) }

end Mirror

/-!
## Agreement
-/

def Accepted (f : FileName) : Prop :=
  passesFilter { kind := EventKind.create, name := f } = true

/-- For every accepted name, the table has a live node exactly if the file
exists, and that node has the size of the file. -/
structure Mirrors (files : FileName -> Option FileStat) (table : List Node) :
    Prop where
  live : forall f, Accepted f ->
    ((exists n, n ∈ table ∧ n.name = f ∧ n.type ≠ FILE_DELETE) <->
      files f ≠ none)
  size : forall n, n ∈ table -> Accepted n.name -> n.type ≠ FILE_DELETE ->
    forall stat, files n.name = some stat -> n.size = stat.size

def Mirror.Agrees (s : Mirror) : Prop :=
  exists table, s.table = some table ∧ Mirrors s.files table

def MirrorsNode (file? : Option FileStat) (node? : Option Node) : Prop :=
  (forall n, node? = some n -> n.type ≠ FILE_DELETE ->
    file?.map FileStat.size = some n.size) ∧
  (file? ≠ none -> exists n, node? = some n ∧ n.type ≠ FILE_DELETE)

theorem mirrors_iff {files : FileName -> Option FileStat} {table : List Node}
    (hnodup : (table.map Node.name).Nodup) :
    Mirrors files table <->
      forall f, Accepted f ->
        MirrorsNode (files f) (lookup Node.name f table) := by
  constructor
  · intro h f hf
    constructor
    · intro n hn hlive
      have hmem := mem_of_lookup hn
      have hname : n.name = f := key_of_lookup hn
      cases hfile : files f with
      | none =>
          exact absurd hfile ((h.live f hf).mp ⟨n, hmem, hname, hlive⟩)
      | some stat =>
          rw [h.size n hmem (hname.symm ▸ hf) hlive stat (hname.symm ▸ hfile)]
          rfl
    · intro hfile
      rcases (h.live f hf).mpr hfile with ⟨n, hmem, hname, hlive⟩
      exact ⟨n, hname ▸ lookup_of_mem hnodup hmem, hlive⟩
  · intro h
    constructor
    · intro f hf
      constructor
      · intro hnode
        rcases hnode with ⟨n, hmem, rfl, hlive⟩
        have hsize := (h n.name hf).left n (lookup_of_mem hnodup hmem) hlive
        intro hfile
        rw [hfile] at hsize
        cases hsize
      · intro hfile
        rcases (h f hf).right hfile with ⟨n, hn, hlive⟩
        exact ⟨n, mem_of_lookup hn, key_of_lookup hn, hlive⟩
    · intro n hmem hf hlive stat hfile
      have hsize := (h n.name hf).left n (lookup_of_mem hnodup hmem) hlive
      rw [hfile] at hsize
      exact (Option.some.inj hsize).symm

theorem mirrorsNode_congr_iff {file? file?' : Option FileStat}
    {node? : Option Node} (h : MirrorsNode file? node?) :
    MirrorsNode file?' node? <->
      file?.map FileStat.size = file?'.map FileStat.size := by
  constructor
  · intro h'
    cases hfile : file? with
    | none =>
        cases hfile' : file?' with
        | none => rfl
        | some stat =>
            rcases h'.right (by simp [hfile']) with ⟨n, hn, hlive⟩
            have hsize := h.left n hn hlive
            rw [hfile] at hsize
            cases hsize
    | some stat =>
        rcases h.right (by simp [hfile]) with ⟨n, hn, hlive⟩
        rw [← hfile, h.left n hn hlive, h'.left n hn hlive]
  · intro hsame
    constructor
    · intro n hn hlive
      rw [← hsame]
      exact h.left n hn hlive
    · intro hfile'
      apply h.right
      intro hfile
      rw [hfile] at hsame
      exact hfile' (Option.map_eq_none_iff.mp hsame.symm)

/-!
## Events that are handled
-/

def Raised (kind : EventKind) (file? file?' : Option FileStat) : Prop :=
  match kind with
  | EventKind.create => file? = none ∧ file?' ≠ none
  | EventKind.modify => file? ≠ none ∧ file?' ≠ none
  | EventKind.delete => file? ≠ none ∧ file?' = none

theorem FolderChange.apply_event {now : UInt64}
    {files files' : FileName -> Option FileStat} {c : FolderChange}
    {event : Event} (hevent : c.event? = some event)
    (h : c.apply now files = some files') :
    Raised event.kind (files event.name) (files' event.name) ∧
      forall f, f ≠ event.name -> files' f = files f := by
  cases c with
  | create f =>
      cases hevent
      dsimp only [apply] at h
      split at h
      · cases h
      · next hfile =>
          cases h
          rw [Option.not_isSome_iff_eq_none] at hfile
          refine ⟨⟨hfile, ?_⟩, fun g hg => Function.update_of_ne hg _ _⟩
          dsimp only
          rw [Function.update_self]
          exact Option.some_ne_none _
  | write f size =>
      cases hevent
      dsimp only [apply] at h
      split at h
      · next hfile =>
          cases h
          refine ⟨⟨Option.isSome_iff_ne_none.mp hfile, ?_⟩,
            fun g hg => Function.update_of_ne hg _ _⟩
          dsimp only
          rw [Function.update_self]
          exact Option.some_ne_none _
      · cases h
  | delete f =>
      cases hevent
      dsimp only [apply] at h
      split at h
      · next hfile =>
          cases h
          exact ⟨⟨Option.isSome_iff_ne_none.mp hfile, Function.update_self ..⟩,
            fun g hg => Function.update_of_ne hg _ _⟩
      · cases h
  | rename f g => cases hevent
  | moveIn f stat => cases hevent
  | moveOut f => cases hevent

structure Undisturbed (table : List Node) : Prop where
  names : (table.map Node.name).Nodup
  idle : forall n, n ∈ table ->
    n.type ≠ FILE_DOWNLOADING ∧ n.type ≠ FILE_DOWNLOAD

theorem mirrorsNode_notifyNode {myip : Ip} {now : UInt64}
    {file? file?' : Option FileStat} {event : Event} {node? : Option Node}
    (hidle : forall n, node? = some n ->
      n.type ≠ FILE_DOWNLOADING ∧ n.type ≠ FILE_DOWNLOAD)
    (h : MirrorsNode file? node?) (hpasses : passesFilter event = true)
    (hraised : Raised event.kind file? file?') :
    MirrorsNode file?' (notifyNode myip now file?' event node?).1 := by
  have hhandled := @notifyNode_handled myip now file?' event node?
  generalize notifyNode myip now file?' event node? = result at hhandled ⊢
  cases hhandled with
  | ignored hignored =>
      exfalso
      rcases hignored hpasses with ⟨hgone, hkind⟩ | ⟨hnone, hkind⟩ |
        ⟨n, rfl, hkind, hbusy⟩
      · cases hevent : event.kind with
        | create => exact (hevent ▸ hraised).right hgone
        | modify => exact (hevent ▸ hraised).right hgone
        | delete => exact hkind hevent
      · have hfile : file? ≠ none := by
          cases hevent : event.kind with
          | create => exact absurd hevent hkind
          | modify => exact (hevent ▸ hraised).left
          | delete => exact (hevent ▸ hraised).left
        rcases h.right hfile with ⟨n, hn, _⟩
        rw [hnone] at hn
        cases hn
      · rcases hbusy with hdownloading | ⟨hcreate, hlive, _⟩
        · exact (hidle n rfl).left hdownloading
        · have hsize := h.left n rfl hlive
          rw [hcreate] at hraised
          rw [hraised.left] at hsize
          cases hsize
  | removed hkind =>
      have hgone : file?' = none := (hkind ▸ hraised).right
      constructor
      · intro n hn hlive
        cases hn
        exact absurd rfl hlive
      · intro hfile
        exact absurd hgone hfile
  | downloaded _ htype _ => exact absurd htype (hidle _ rfl).right
  | seen hstat hversion htype _ _ =>
      rcases versionOf_eq_iff.mp hversion with ⟨_, hsize⟩
      constructor
      · intro n hn _
        cases hn
        rw [hstat, hsize]
        rfl
      · intro _
        refine ⟨_, rfl, ?_⟩
        rcases htype with htype | htype
        · rw [htype]
          decide
        · rw [htype]
          decide

theorem idle_notifyNode {myip : Ip} {now : UInt64} {stat? : Option FileStat}
    {event : Event} {node? : Option Node}
    (hidle : forall n, node? = some n ->
      n.type ≠ FILE_DOWNLOADING ∧ n.type ≠ FILE_DOWNLOAD) {n : Node}
    (hn : (notifyNode myip now stat? event node?).1 = some n) :
    n.type ≠ FILE_DOWNLOADING ∧ n.type ≠ FILE_DOWNLOAD := by
  have hhandled := @notifyNode_handled myip now stat? event node?
  generalize notifyNode myip now stat? event node? = result at hhandled hn
  cases hhandled with
  | ignored _ => exact hidle n hn
  | removed _ =>
      cases hn
      exact ⟨show FILE_DELETE ≠ FILE_DOWNLOADING by decide,
        show FILE_DELETE ≠ FILE_DOWNLOAD by decide⟩
  | downloaded _ _ _ =>
      cases hn
      exact ⟨show FILE_MODIFY ≠ FILE_DOWNLOADING by decide,
        show FILE_MODIFY ≠ FILE_DOWNLOAD by decide⟩
  | seen _ _ htype _ _ =>
      cases hn
      rcases htype with htype | htype
      · rw [htype]
        decide
      · rw [htype]
        decide

section NotifyEvent

variable {myip : Ip} {now : UInt64} {event : Event} {table : List Node}
  {files files' : FileName -> Option FileStat}

theorem Undisturbed.notifyEvent (h : Undisturbed table)
    (stat? : Option FileStat) :
    Undisturbed (Peer.notifyEvent myip now stat? event table).1 where
  names := nodup_names_notifyEvent h.names
  idle := by
    intro n hn
    have hlookup := lookup_of_mem (nodup_names_notifyEvent h.names) hn
    cases Classical.em (n.name = event.name) with
    | inl hname =>
        rw [hname] at hlookup
        rw [lookup_notifyEvent_self] at hlookup
        exact idle_notifyNode
          (fun m hm => h.idle m (mem_of_lookup hm)) hlookup
    | inr hname =>
        rw [notifyEvent_of_ne hname] at hlookup
        exact h.idle n (mem_of_lookup hlookup)

theorem Mirrors.notifyEvent (h : Mirrors files table)
    (htable : Undisturbed table) (hpasses : passesFilter event = true)
    (hraised : Raised event.kind (files event.name) (files' event.name))
    (hothers : forall f, f ≠ event.name -> files' f = files f) :
    Mirrors files'
      (Peer.notifyEvent myip now (files' event.name) event table).1 := by
  rw [mirrors_iff (nodup_names_notifyEvent htable.names)]
  rw [mirrors_iff htable.names] at h
  intro f hf
  cases Classical.em (f = event.name) with
  | inl hname =>
      subst hname
      rw [lookup_notifyEvent_self]
      exact mirrorsNode_notifyNode
        (fun m hm => htable.idle m (mem_of_lookup hm)) (h _ hf) hpasses hraised
  | inr hname =>
      rw [notifyEvent_of_ne hname, hothers f hname]
      exact h f hf

end NotifyEvent

/-!
## Runs
-/

def FolderChange.Seen (c : FolderChange) : Prop :=
  exists event, c.event? = some event ∧ passesFilter event = true

def SameFiles (files files' : FileName -> Option FileStat) : Prop :=
  forall f, Accepted f ->
    (files f).map FileStat.size = (files' f).map FileStat.size

def FolderChange.Overruns (c : FolderChange) : Prop :=
  exists event, c.event? = some event ∧ overruns event = true

/-- A path that does not fit, the deletion of a name that ends in a tilde, or an
unseen change to an accepted name. -/
def Missed (syncDir : CString FILE_NAME_LEN) (s : Mirror)
    (a : UInt64 × FolderChange) : Prop :=
  ¬ ((forall f, f ∈ a.2.names -> Fits syncDir f) ∧ ¬ a.2.Overruns ∧
    (a.2.Seen ∨ forall files', a.2.apply a.1 s.files = some files' ->
      SameFiles s.files files'))

section Steps

variable {syncDir : CString FILE_NAME_LEN} {myip : Ip} {s s' : Mirror}
  {a : UInt64 × FolderChange}

theorem notifyChange_unseen {now : UInt64}
    {files : FileName -> Option FileStat} {c : FolderChange}
    {table : List Node} (hfits : forall f, f ∈ c.names -> Fits syncDir f)
    (hroom : ¬ c.Overruns) (hunseen : ¬ c.Seen) :
    Mirror.notifyChange syncDir myip now files c table = some table := by
  unfold Mirror.notifyChange
  rw [if_pos hfits]
  cases hevent : c.event? with
  | none => rfl
  | some event =>
      have hfiltered : ¬ passesFilter event = true := fun hpasses =>
        hunseen ⟨event, hevent, hpasses⟩
      have hinside : ¬ overruns event = true := fun hoverruns =>
        hroom ⟨event, hevent, hoverruns⟩
      dsimp only
      rw [if_neg hinside]
      unfold notifyEvent
      rw [if_neg hfiltered]

theorem notifyChange_overruns {now : UInt64}
    {files : FileName -> Option FileStat} {c : FolderChange}
    {table : List Node} (h : c.Overruns) :
    Mirror.notifyChange syncDir myip now files c table = none := by
  rcases h with ⟨event, hevent, hoverruns⟩
  unfold Mirror.notifyChange
  rw [hevent]
  dsimp only
  rw [if_pos hoverruns, ite_self]

theorem FolderChange.Seen.not_overruns {c : FolderChange} (h : c.Seen) :
    ¬ c.Overruns := by
  intro hoverruns
  rcases h with ⟨event, hevent, hpasses⟩
  rcases hoverruns with ⟨event', hevent', htilde⟩
  rw [hevent, Option.some_inj] at hevent'
  rw [← hevent', overruns_of_passesFilter hpasses] at htilde
  cases htilde

theorem undisturbed_step
    (h : forall table, s.table = some table -> Undisturbed table)
    (hstep : s.step syncDir myip a = some s') {table : List Node}
    (htable : s'.table = some table) : Undisturbed table := by
  rcases Option.map_eq_some_iff.mp hstep with ⟨files, _, rfl⟩
  rcases Option.bind_eq_some_iff.mp htable with ⟨before, hbefore, hnotify⟩
  unfold Mirror.notifyChange at hnotify
  split at hnotify
  · split at hnotify
    · cases hnotify
      exact h _ hbefore
    · split at hnotify
      · cases hnotify
      · cases hnotify
        exact (h _ hbefore).notifyEvent _
  · cases hnotify

theorem agrees_step_iff
    (h : forall table, s.table = some table -> Undisturbed table)
    (hagrees : s.Agrees) (hstep : s.step syncDir myip a = some s') :
    s'.Agrees <-> ¬ Missed syncDir s a := by
  rcases hagrees with ⟨table, htable, hmirrors⟩
  rcases Option.map_eq_some_iff.mp hstep with ⟨files, hfiles, rfl⟩
  have hundisturbed := h table htable
  unfold Missed Mirror.Agrees
  rw [not_not]
  dsimp only
  rw [htable, Option.bind_some]
  cases Classical.em (forall f, f ∈ a.2.names -> Fits syncDir f) with
  | inr hlong =>
      apply iff_of_false
      · intro hagrees
        rcases hagrees with ⟨table', htable', _⟩
        unfold Mirror.notifyChange at htable'
        rw [if_neg hlong] at htable'
        cases htable'
      · exact fun hboth => hlong hboth.left
  | inl hfits =>
      cases Classical.em a.2.Seen with
      | inl hseen =>
          apply iff_of_true
          · rcases hseen with ⟨event, hevent, hpasses⟩
            rcases FolderChange.apply_event hevent hfiles with
              ⟨hraised, hothers⟩
            unfold Mirror.notifyChange
            rw [if_pos hfits, hevent]
            dsimp only
            rw [overruns_of_passesFilter hpasses]
            exact ⟨_, rfl,
              hmirrors.notifyEvent hundisturbed hpasses hraised hothers⟩
          · exact ⟨hfits, hseen.not_overruns, Or.inl hseen⟩
      | inr hunseen =>
          cases Classical.em a.2.Overruns with
          | inl hoverruns =>
              rw [notifyChange_overruns hoverruns]
              apply iff_of_false
              · intro hagrees
                rcases hagrees with ⟨table', htable', _⟩
                cases htable'
              · exact fun hcondition => hcondition.right.left hoverruns
          | inr hroom =>
              rw [notifyChange_unseen hfits hroom hunseen]
              rw [mirrors_iff hundisturbed.names] at hmirrors
              constructor
              · intro hagrees
                rcases hagrees with ⟨table', htable', hmirrors'⟩
                cases htable'
                rw [mirrors_iff hundisturbed.names] at hmirrors'
                refine ⟨hfits, hroom, Or.inr ?_⟩
                intro files' hfiles' f hf
                rw [hfiles] at hfiles'
                cases hfiles'
                exact (mirrorsNode_congr_iff (hmirrors f hf)).mp
                  (hmirrors' f hf)
              · intro hcondition
                rcases hcondition.right.right with hseen | hsame
                · exact absurd hseen hunseen
                · refine ⟨table, rfl, ?_⟩
                  rw [mirrors_iff hundisturbed.names]
                  intro f hf
                  exact (mirrorsNode_congr_iff (hmirrors f hf)).mpr
                    (hsame files hfiles f hf)

end Steps

def Sample.syncDir : CString FILE_NAME_LEN :=
  ⟨[115, 47], by decide, by decide⟩

def Sample.backup : FileName :=
  ⟨[97, 126], by decide, by decide⟩

theorem Sample.not_missed {s : Mirror} {a : UInt64 × FolderChange}
    (hseen : a.2.Seen) (hfits : forall f, f ∈ a.2.names -> Fits syncDir f) :
    ¬ Missed syncDir s a :=
  fun hmissed => hmissed ⟨hfits, hseen.not_overruns, Or.inl hseen⟩

end Peer
end DartSync
