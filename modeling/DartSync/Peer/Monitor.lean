import DartSync.Tracker.FileTable

/-!
# The file monitor

The handlers of `peer/monitor.c` and the part of `notify` that calls them for
regular files.  Each handler searches the peer's table, changes it, and tells
whether it went on to `peer_sendpkt(conn, filetable, FILE_UPDATE)`, which sends
the whole table as it is then.
-/

namespace DartSync
namespace Peer

open Foundation

/-- What `getFileInfo` reads with `stat`. -/
structure FileInfo where
  filepath : FileName
  size : UInt64
  lastModifyTime : UInt64

/-- The search loop the handlers share: act on the first node with the name,
or do something else at the end of the table. -/
def searchTable (name : FileName) (found : Node -> Node × Bool)
    (missing : List Node × Bool) : List Node -> List Node × Bool
  | [] => missing
  | node :: rest =>
      if node.name = name then ((found node).1 :: rest, (found node).2)
      else
        let result := searchTable name found missing rest
        (node :: result.1, result.2)

def createdNode (myip : Ip) (fileInfo : FileInfo) : Node where
  status := IS_FILE
  size := fileInfo.size
  name := fileInfo.filepath
  timestamp := fileInfo.lastModifyTime
  type := FILE_CREATE
  newpeerip := onlyPeer myip

def addedNode (fileInfo : FileInfo) (node : Node) : Node × Bool :=
  if node.type ≠ FILE_DELETE then
    if node.type = FILE_DOWNLOADING then (node, false)
    else if node.type = FILE_DOWNLOAD then
      ({ node with type := FILE_MODIFY }, true)
    else (node, false)
  else
    ({ node with
        type := FILE_CREATE
        size := fileInfo.size
        timestamp := fileInfo.lastModifyTime }, true)

def fileAdded (myip : Ip) (fileInfo : FileInfo) :
    List Node -> List Node × Bool :=
  searchTable fileInfo.filepath (addedNode fileInfo)
    ([createdNode myip fileInfo], true)

def deletedNode (now : UInt64) (node : Node) : Node × Bool :=
  ({ node with timestamp := now, type := FILE_DELETE }, true)

def fileDeleted (filepath : FileName) (now : UInt64) :
    List Node -> List Node × Bool :=
  searchTable filepath (deletedNode now) ([], false)

def modifiedNode (fileInfo : FileInfo) (node : Node) : Node × Bool :=
  if node.type = FILE_DOWNLOADING then (node, false)
  else if node.type = FILE_DOWNLOAD then
    ({ node with type := FILE_MODIFY }, true)
  else
    ({ node with
        size := fileInfo.size
        timestamp := fileInfo.lastModifyTime
        type := FILE_MODIFY }, true)

def fileModified (fileInfo : FileInfo) : List Node -> List Node × Bool :=
  searchTable fileInfo.filepath (modifiedNode fileInfo) ([], false)

/-!
## Events
-/

/-- The events on regular files that `notify` has a branch for. -/
inductive EventKind where
  | create
  | modify
  | delete
deriving DecidableEq

structure Event where
  kind : EventKind
  name : FileName
deriving DecidableEq

/-- `event->name`: the last component of the path. -/
def baseName (name : FileName) : List UInt8 :=
  (name.bytes.reverse.takeWhile (fun b => b ≠ 47)).reverse

/-- The name filters of the three branches: hidden files, editor backups and
the probe file `4913`. -/
def passesFilter (event : Event) : Bool :=
  let eventName := baseName event.name
  let hidden := eventName.head? = some 46
  let backup := eventName.getLast? = some 126
  let probe := eventName = [52, 57, 49, 51]
  match event.kind with
  | EventKind.create => !probe && !hidden
  | EventKind.delete => !backup && !probe && !hidden
  | EventKind.modify => !backup && !hidden

/-- The branch of `IN_DELETE` copies a name that ends in a tilde to arrays that
have no room for the zero. -/
def overruns (event : Event) : Bool :=
  event.kind = EventKind.delete ∧ (baseName event.name).getLast? = some 126

theorem overruns_of_passesFilter {event : Event}
    (h : passesFilter event = true) : overruns event = false := by
  unfold overruns
  unfold passesFilter at h
  cases hkind : event.kind with
  | create => rfl
  | modify => rfl
  | delete =>
      rw [hkind] at h
      simp only [Bool.and_eq_true, Bool.not_eq_true', decide_eq_false_iff_not]
        at h
      simp [h.left.left]

structure FileStat where
  size : UInt64
  mtime : UInt64
deriving DecidableEq

def getFileInfo (name : FileName) (stat : FileStat) : FileInfo where
  filepath := name
  size := stat.size
  lastModifyTime := stat.mtime

/-- One turn of the loop in `notify`; `stat?` is the result of `stat` on the
event's path. -/
def notifyEvent (myip : Ip) (now : UInt64) (stat? : Option FileStat)
    (event : Event) (table : List Node) : List Node × Bool :=
  if passesFilter event then
    match event.kind, stat? with
    | EventKind.create, some stat =>
        fileAdded myip (getFileInfo event.name stat) table
    | EventKind.modify, some stat =>
        fileModified (getFileInfo event.name stat) table
    | EventKind.delete, _ => fileDeleted event.name now table
    | _, none => (table, false)
  else (table, false)

/-- `notify` has found the file, but it has gone when `getFileInfo` looks at it:
the handlers read `NULL`. -/
def vanishes (stat? info? : Option FileStat) (event : Event) : Bool :=
  passesFilter event && event.kind ≠ EventKind.delete && stat?.isSome &&
    info?.isNone

theorem not_vanishes {stat? info? : Option FileStat} {event : Event}
    (h : stat? ≠ none -> info? ≠ none) :
    vanishes stat? info? event = false := by
  unfold vanishes
  cases stat? with
  | none => rw [Option.isSome_none, Bool.and_false, Bool.false_and]
  | some stat =>
      cases info? with
      | none => exact absurd rfl (h (Option.some_ne_none stat))
      | some info => exact Bool.and_false _

/-!
## One name at a time
-/

section Search

variable {name f : FileName} {found : Node -> Node × Bool}
  {missing : List Node × Bool} {table : List Node}

theorem lookup_searchTable_self
    (hfound : forall n, n.name = name -> (found n).1.name = name) :
    lookup Node.name name (searchTable name found missing table).1 =
      match lookup Node.name name table with
      | some n => some (found n).1
      | none => lookup Node.name name missing.1 := by
  induction table with
  | nil => rfl
  | cons node rest ih =>
      by_cases h : node.name = name
      · simp [searchTable, lookup_cons, h, hfound node h]
      · simp [searchTable, lookup_cons, h, ih]

theorem lookup_searchTable_of_ne
    (hfound : forall n, n.name = name -> (found n).1.name = name)
    (hmissing : lookup Node.name f missing.1 = none) (hne : f ≠ name) :
    lookup Node.name f (searchTable name found missing table).1 =
      lookup Node.name f table := by
  induction table with
  | nil => exact hmissing
  | cons node rest ih =>
      by_cases h : node.name = name
      · simp [searchTable, lookup_cons, h, hfound node h, hne.symm]
      · simp [searchTable, lookup_cons, h, ih]

theorem searchTable_sends :
    (searchTable name found missing table).2 =
      match lookup Node.name name table with
      | some n => (found n).2
      | none => missing.2 := by
  induction table with
  | nil => rfl
  | cons node rest ih =>
      by_cases h : node.name = name
      · simp [searchTable, lookup_cons, h]
      · simp [searchTable, lookup_cons, h, ih]

theorem map_searchTable {β : Type} {g : Node -> β}
    (hfound : forall n, n.name = name -> g (found n).1 = g n) :
    (searchTable name found missing table).1.map g =
      if name ∈ table.map Node.name then table.map g
      else table.map g ++ missing.1.map g := by
  induction table with
  | nil => rfl
  | cons node rest ih =>
      by_cases h : node.name = name
      · simp [searchTable, h, hfound node h]
      · by_cases hmem : name ∈ rest.map Node.name
        · have hmem' : name ∈ (node :: rest).map Node.name :=
            List.mem_cons_of_mem _ hmem
          rw [if_pos hmem] at ih
          rw [if_pos hmem']
          simp only [searchTable, if_neg h, List.map_cons, ih]
        · have hmem' : name ∉ (node :: rest).map Node.name := by
            rw [List.map_cons, List.mem_cons]
            exact not_or.mpr ⟨Ne.symm h, hmem⟩
          rw [if_neg hmem] at ih
          rw [if_neg hmem']
          simp only [searchTable, if_neg h, List.map_cons, ih,
            List.cons_append]

theorem names_searchTable
    (hfound : forall n, n.name = name -> (found n).1.name = name) :
    (searchTable name found missing table).1.map Node.name =
      if name ∈ table.map Node.name then table.map Node.name
      else table.map Node.name ++ missing.1.map Node.name :=
  map_searchTable fun n hn => (hfound n hn).trans hn.symm

theorem mem_searchTable {n : Node}
    (hn : n ∈ (searchTable name found missing table).1) :
    n ∈ table ∨ (exists m, m ∈ table ∧ n = (found m).1) ∨ n ∈ missing.1 := by
  induction table with
  | nil => exact Or.inr (Or.inr hn)
  | cons node rest ih =>
      by_cases h : node.name = name
      · simp only [searchTable, if_pos h, List.mem_cons] at hn
        rcases hn with hn | hn
        · exact Or.inr (Or.inl ⟨node, List.mem_cons_self, hn⟩)
        · exact Or.inl (List.mem_cons_of_mem node hn)
      · simp only [searchTable, if_neg h, List.mem_cons] at hn
        rcases hn with hn | hn
        · exact Or.inl (hn ▸ List.mem_cons_self)
        · rcases ih hn with hmem | ⟨m, hm, hnm⟩ | hmiss
          · exact Or.inl (List.mem_cons_of_mem node hmem)
          · exact Or.inr (Or.inl ⟨m, List.mem_cons_of_mem node hm, hnm⟩)
          · exact Or.inr (Or.inr hmiss)

end Search

section Keeps

variable {β : Type} {g : Node -> β}
  (hg : forall n type size timestamp,
    g { n with type := type, size := size, timestamp := timestamp } = g n)

include hg

theorem addedNode_keeps (fileInfo : FileInfo) (n : Node) :
    g (addedNode fileInfo n).1 = g n := by
  unfold addedNode
  repeat' split
  all_goals first
    | rfl
    | exact hg n _ _ _

theorem modifiedNode_keeps (fileInfo : FileInfo) (n : Node) :
    g (modifiedNode fileInfo n).1 = g n := by
  unfold modifiedNode
  repeat' split
  all_goals first
    | rfl
    | exact hg n _ _ _

end Keeps

theorem addedNode_name (fileInfo : FileInfo) (n : Node) :
    (addedNode fileInfo n).1.name = n.name :=
  addedNode_keeps (fun _ _ _ _ => rfl) fileInfo n

theorem modifiedNode_name (fileInfo : FileInfo) (n : Node) :
    (modifiedNode fileInfo n).1.name = n.name :=
  modifiedNode_keeps (fun _ _ _ _ => rfl) fileInfo n

def notifyNode (myip : Ip) (now : UInt64) (stat? : Option FileStat)
    (event : Event) (node? : Option Node) : Option Node × Bool :=
  if passesFilter event then
    match event.kind, stat?, node? with
    | EventKind.create, some stat, some node =>
        let result := addedNode (getFileInfo event.name stat) node
        (some result.1, result.2)
    | EventKind.create, some stat, none =>
        (some (createdNode myip (getFileInfo event.name stat)), true)
    | EventKind.modify, some stat, some node =>
        let result := modifiedNode (getFileInfo event.name stat) node
        (some result.1, result.2)
    | EventKind.delete, _, some node =>
        (some (deletedNode now node).1, true)
    | _, _, _ => (node?, false)
  else (node?, false)

theorem notifyNode_of_filtered {myip : Ip} {now : UInt64}
    {stat? : Option FileStat} {event : Event} {node? : Option Node}
    (h : passesFilter event = false) :
    notifyNode myip now stat? event node? = (node?, false) := by
  unfold notifyNode
  rw [h]
  rfl

theorem notifyNode_create {myip : Ip} {now : UInt64} {stat : FileStat}
    {f : FileName} {n : Node}
    (h : passesFilter { kind := EventKind.create, name := f } = true) :
    notifyNode myip now (some stat) { kind := EventKind.create, name := f }
        (some n) =
      (some (addedNode (getFileInfo f stat) n).1,
        (addedNode (getFileInfo f stat) n).2) := by
  unfold notifyNode
  rw [if_pos h]

theorem notifyNode_modify {myip : Ip} {now : UInt64} {stat : FileStat}
    {f : FileName} {n : Node}
    (h : passesFilter { kind := EventKind.modify, name := f } = true) :
    notifyNode myip now (some stat) { kind := EventKind.modify, name := f }
        (some n) =
      (some (modifiedNode (getFileInfo f stat) n).1,
        (modifiedNode (getFileInfo f stat) n).2) := by
  unfold notifyNode
  rw [if_pos h]

theorem notifyNode_delete {myip : Ip} {now : UInt64}
    {stat? : Option FileStat} {f : FileName} {n : Node}
    (h : passesFilter { kind := EventKind.delete, name := f } = true) :
    notifyNode myip now stat? { kind := EventKind.delete, name := f }
        (some n) = (some (deletedNode now n).1, true) := by
  unfold notifyNode
  rw [if_pos h]

/-- What one turn of `notify` can do to the node of the event's file, and
whether the table is sent. -/
inductive Handled (now : UInt64) (stat? : Option FileStat) (event : Event) :
    Option Node -> Option Node × Bool -> Prop where
  | ignored {node? : Option Node} :
      (passesFilter event = true ->
        (stat? = none ∧ event.kind ≠ EventKind.delete) ∨
        (node? = none ∧ event.kind ≠ EventKind.create) ∨
        exists n, node? = some n ∧ event.kind ≠ EventKind.delete ∧
          (n.type = FILE_DOWNLOADING ∨
            (event.kind = EventKind.create ∧ n.type ≠ FILE_DELETE ∧
              n.type ≠ FILE_DOWNLOAD))) ->
      Handled now stat? event node? (node?, false)
  | removed {n : Node} : event.kind = EventKind.delete ->
      Handled now stat? event (some n) (some (deletedNode now n).1, true)
  | downloaded {n : Node} : stat? ≠ none -> n.type = FILE_DOWNLOAD ->
      event.kind ≠ EventKind.delete ->
      Handled now stat? event (some n)
        (some { n with type := FILE_MODIFY }, true)
  | seen {node? : Option Node} {n' : Node} {stat : FileStat} :
      stat? = some stat ->
      n'.version = versionOf stat.mtime stat.size ->
      (n'.type = FILE_CREATE ∨ n'.type = FILE_MODIFY) ->
      (forall n, node? = some n ->
        n.type ≠ FILE_DOWNLOADING ∧ n.type ≠ FILE_DOWNLOAD) ->
      event.kind ≠ EventKind.delete ->
      Handled now stat? event node? (some n', true)

section Notify

variable {myip : Ip} {now : UInt64} {stat? : Option FileStat} {event : Event}
  {table : List Node}

theorem notifyEvent_self :
    (lookup Node.name event.name
        (notifyEvent myip now stat? event table).1,
      (notifyEvent myip now stat? event table).2) =
    notifyNode myip now stat? event (lookup Node.name event.name table) := by
  unfold notifyEvent notifyNode
  split
  · cases hkind : event.kind with
    | create =>
        cases stat? with
        | none => cases lookup Node.name event.name table <;> rfl
        | some stat =>
            dsimp only [fileAdded]
            rw [show (getFileInfo event.name stat).filepath = event.name from rfl,
              lookup_searchTable_self fun n hn =>
                (addedNode_name _ n).trans hn, searchTable_sends]
            cases lookup Node.name event.name table with
            | none => simp [lookup, createdNode, getFileInfo]
            | some node => rfl
    | modify =>
        cases stat? with
        | none => cases lookup Node.name event.name table <;> rfl
        | some stat =>
            dsimp only [fileModified]
            rw [show (getFileInfo event.name stat).filepath = event.name from rfl,
              lookup_searchTable_self fun n hn =>
                (modifiedNode_name _ n).trans hn, searchTable_sends]
            cases lookup Node.name event.name table <;> rfl
    | delete =>
        dsimp only [fileDeleted]
        rw [lookup_searchTable_self fun n hn => hn, searchTable_sends]
        cases lookup Node.name event.name table <;> rfl
  · rfl

theorem lookup_notifyEvent_self :
    lookup Node.name event.name (notifyEvent myip now stat? event table).1 =
      (notifyNode myip now stat? event
        (lookup Node.name event.name table)).1 :=
  congrArg Prod.fst notifyEvent_self

theorem notifyEvent_of_ne {f : FileName} (h : f ≠ event.name) :
    lookup Node.name f (notifyEvent myip now stat? event table).1 =
      lookup Node.name f table := by
  unfold notifyEvent
  split
  · cases hkind : event.kind with
    | create =>
        cases stat? with
        | none => rfl
        | some stat =>
            refine lookup_searchTable_of_ne
              (fun n hn => (addedNode_name _ n).trans hn) ?_ h
            simp [lookup, createdNode, getFileInfo, h.symm]
    | modify =>
        cases stat? with
        | none => rfl
        | some stat =>
            exact lookup_searchTable_of_ne
              (fun n hn => (modifiedNode_name _ n).trans hn) rfl h
    | delete => exact lookup_searchTable_of_ne (fun n hn => hn) rfl h
  · rfl

theorem handled_added {stat : FileStat} {n : Node}
    (hkind : event.kind = EventKind.create) :
    Handled now (some stat) event (some n)
      (some (addedNode (getFileInfo event.name stat) n).1,
        (addedNode (getFileInfo event.name stat) n).2) := by
  have hdelete : event.kind ≠ EventKind.delete := by simp [hkind]
  unfold addedNode
  split
  · next hlive =>
      split
      · next hdownloading =>
          exact Handled.ignored fun _ => Or.inr (Or.inr
            ⟨n, rfl, hdelete, Or.inl hdownloading⟩)
      · split
        · next hdownload => exact Handled.downloaded (by simp) hdownload hdelete
        · next hdownload =>
            exact Handled.ignored fun _ => Or.inr (Or.inr
              ⟨n, rfl, hdelete, Or.inr ⟨hkind, hlive, hdownload⟩⟩)
  · next hdeleted =>
      rw [not_not] at hdeleted
      refine Handled.seen rfl rfl (Or.inl rfl) ?_ hdelete
      intro m hm
      cases hm
      rw [hdeleted]
      decide

theorem handled_modified {stat : FileStat} {n : Node}
    (hkind : event.kind = EventKind.modify) :
    Handled now (some stat) event (some n)
      (some (modifiedNode (getFileInfo event.name stat) n).1,
        (modifiedNode (getFileInfo event.name stat) n).2) := by
  have hdelete : event.kind ≠ EventKind.delete := by simp [hkind]
  unfold modifiedNode
  split
  · next hdownloading =>
      exact Handled.ignored fun _ => Or.inr (Or.inr
        ⟨n, rfl, hdelete, Or.inl hdownloading⟩)
  · next hdownloading =>
      split
      · next hdownload => exact Handled.downloaded (by simp) hdownload hdelete
      · next hdownload =>
          refine Handled.seen rfl rfl (Or.inr rfl) ?_ hdelete
          intro m hm
          cases hm
          exact ⟨hdownloading, hdownload⟩

theorem notifyNode_handled (node? : Option Node) :
    Handled now stat? event node?
      (notifyNode myip now stat? event node?) := by
  unfold notifyNode
  split
  · cases hkind : event.kind with
    | create =>
        cases stat? with
        | none =>
            cases node? <;>
              exact Handled.ignored fun _ => Or.inl ⟨rfl, by simp [hkind]⟩
        | some stat =>
            cases node? with
            | none =>
                exact Handled.seen rfl rfl (Or.inl rfl)
                  (fun n hn => by cases hn) (by simp [hkind])
            | some n => exact handled_added hkind
    | modify =>
        cases stat? with
        | none =>
            cases node? <;>
              exact Handled.ignored fun _ => Or.inl ⟨rfl, by simp [hkind]⟩
        | some stat =>
            cases node? with
            | none =>
                exact Handled.ignored fun _ =>
                  Or.inr (Or.inl ⟨rfl, by simp [hkind]⟩)
            | some n => exact handled_modified hkind
    | delete =>
        cases node? with
        | none =>
            exact Handled.ignored fun _ =>
              Or.inr (Or.inl ⟨rfl, by simp [hkind]⟩)
        | some n => exact Handled.removed hkind
  · next hfilter => exact Handled.ignored fun h => absurd h hfilter

theorem Handled.idle {node? : Option Node} {result : Option Node × Bool}
    (h : Handled now stat? event node? result) :
    result = (node?, false) ∨
      (result.2 = true ∧
        forall n, result.1 = some n -> n.type ≠ FILE_DOWNLOADING) := by
  cases h with
  | ignored _ => exact Or.inl rfl
  | removed _ =>
      refine Or.inr ⟨rfl, ?_⟩
      intro n hn
      cases hn
      show FILE_DELETE ≠ FILE_DOWNLOADING
      decide
  | downloaded _ _ _ =>
      refine Or.inr ⟨rfl, ?_⟩
      intro n hn
      cases hn
      show FILE_MODIFY ≠ FILE_DOWNLOADING
      decide
  | seen _ _ htype _ _ =>
      refine Or.inr ⟨rfl, ?_⟩
      intro n hn
      cases hn
      rcases htype with htype | htype
      · rw [htype]
        decide
      · rw [htype]
        decide

theorem notifyEvent_search :
    (notifyEvent myip now stat? event table).1 = table ∨
      exists found missing,
        (notifyEvent myip now stat? event table).1 =
            (searchTable event.name found missing table).1 ∧
          (forall n, (found n).1.name = n.name ∧
            (found n).1.newpeerip = n.newpeerip) ∧
          (missing.1 = [] ∨ exists n, missing.1 = [n] ∧
            n.name = event.name ∧ n.newpeerip = onlyPeer myip) := by
  unfold notifyEvent
  split
  · cases hkind : event.kind with
    | create =>
        cases stat? with
        | none => exact Or.inl rfl
        | some stat =>
            refine Or.inr ⟨_, _, rfl, ?_, Or.inr ⟨_, rfl, rfl, rfl⟩⟩
            intro n
            exact ⟨addedNode_name _ n,
              addedNode_keeps (fun _ _ _ _ => rfl) _ n⟩
    | modify =>
        cases stat? with
        | none => exact Or.inl rfl
        | some stat =>
            refine Or.inr ⟨_, _, rfl, ?_, Or.inl rfl⟩
            intro n
            exact ⟨modifiedNode_name _ n,
              modifiedNode_keeps (fun _ _ _ _ => rfl) _ n⟩
    | delete =>
        exact Or.inr ⟨_, _, rfl, fun n => ⟨rfl, rfl⟩, Or.inl rfl⟩
  · exact Or.inl rfl

theorem nodup_names_notifyEvent (h : (table.map Node.name).Nodup) :
    ((notifyEvent myip now stat? event table).1.map Node.name).Nodup := by
  rcases @notifyEvent_search myip now stat? event table with
    heq | ⟨found, missing, heq, hfound, hmissing⟩
  · rw [heq]
    exact h
  · rw [heq, names_searchTable fun n hn => (hfound n).left.trans hn]
    split
    · exact h
    · next hnew =>
        rcases hmissing with hnil | ⟨n, hsingle, hname, _⟩
        · rw [hnil]
          simpa using h
        · rw [hsingle, List.map_singleton, hname]
          exact nodup_concat h hnew

theorem newpeerip_notifyEvent
    (h : forall n, n ∈ table -> n.newpeerip = onlyPeer myip) {n : Node}
    (hn : n ∈ (notifyEvent myip now stat? event table).1) :
    n.newpeerip = onlyPeer myip := by
  rcases @notifyEvent_search myip now stat? event table with
    heq | ⟨found, missing, heq, hfound, hmissing⟩
  · rw [heq] at hn
    exact h n hn
  · rw [heq] at hn
    rcases mem_searchTable hn with hmem | ⟨m, hm, rfl⟩ | hmiss
    · exact h n hmem
    · exact (hfound m).right.trans (h m hm)
    · rcases hmissing with hnil | ⟨m, hsingle, _, hm⟩
      · rw [hnil] at hmiss
        cases hmiss
      · rw [hsingle, List.mem_singleton] at hmiss
        rw [hmiss]
        exact hm

end Notify

end Peer
end DartSync
