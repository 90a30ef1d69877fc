import DartSync.System.Model

/-!
# One peer and one file

What the system holds about one file at one peer: the tracker's entry, the
peer's node, the file in its folder, and what is pending for it.  A step of the
system changes this view in one of a few ways, listed by `Change`; the
invariants of the system are proved over this list.
-/

namespace DartSync
namespace System

open Foundation Peer Tracker

structure View where
  clock : UInt64
  entry : Option Node
  node : Option Node
  file : Option FileStat
  events : List EventKind
  /-- What each table on its way to the tracker says about the file. -/
  outbox : List (Option Node)
  inbox : List Node
  /-- The downloads of the file that have not called `setNodeType` yet. -/
  fetches : List Download
  active : Bool

variable {ι : Type}

def eventsOf (f : FileName) (events : List Event) : List EventKind :=
  (events.filter (fun e => e.name = f)).map Event.kind

def inboxOf (f : FileName) (inbox : List Node) : List Node :=
  inbox.filter (fun n => n.name = f)

def Download.runs (f : FileName) (d : Download) : Bool :=
  d.arg.filename = f && d.stage ≠ Stage.closing

def Download.concerns (f : FileName) (d : Download) : Bool :=
  d.arg.filename = f

def viewOf (ft : FileTable) (x : PeerState) (f : FileName) : View where
  clock := x.clock
  entry := entry f ft
  node := lookup Node.name f x.table
  file := x.files f
  events := eventsOf f x.events
  outbox := x.outbox.map (lookup Node.name f)
  inbox := inboxOf f x.inbox
  fetches := x.downloads.filter (Download.runs f)
  active := x.downloads.any (Download.concerns f)

def view (s : State ι) (p : ι) (f : FileName) : View :=
  viewOf s.ft (s.peers p) f

namespace View

def touch (v : View) (kind : EventKind) (stat? : Option FileStat) : View :=
  { v with file := stat?, events := v.events ++ [kind] }

def written (v : View) (size : UInt64) : Option FileStat :=
  some { size := size, mtime := v.clock }

def perform (v : View) : Option Effect -> View
  | none => v
  | some (Effect.startDownload arg) =>
      { v with
        fetches := v.fetches ++ [{ arg := arg, stage := Stage.fetching }]
        active := true }
  | some (Effect.removeFile _) =>
      match v.file with
      | none => v
      | some _ => v.touch EventKind.delete none

theorem perform_removeFile_none {v : View} {f : FileName}
    (h : v.file = none) : v.perform (some (Effect.removeFile f)) = v := by
  unfold perform
  dsimp only
  rw [h]

theorem perform_removeFile_some {v : View} {f : FileName} {stat : FileStat}
    (h : v.file = some stat) :
    v.perform (some (Effect.removeFile f)) =
      v.touch EventKind.delete none := by
  unfold perform
  dsimp only
  rw [h]

def handle (v : View) (result : Option Node × Bool) (rest : List EventKind) :
    View :=
  { v with
    events := rest
    node := result.1
    outbox := if result.2 then v.outbox ++ [result.1] else v.outbox }

def resend (v : View) : View :=
  { v with outbox := v.outbox ++ [v.node] }

def broadcast (v : View) (report? : Option Node) : View :=
  { v with
    entry := mergeReport report? v.entry
    inbox := v.inbox ++ (mergeReport report? v.entry).toList }

end View

inductive Edit (v : View) : EventKind -> Option FileStat -> Prop where
  | create (size : UInt64) : v.file = none ->
      Edit v EventKind.create (v.written size)
  | modify (size : UInt64) : v.file ≠ none ->
      Edit v EventKind.modify (v.written size)
  | delete : v.file ≠ none -> Edit v EventKind.delete none

inductive Change (ip : ι -> Ip) (s : State ι) (p : ι) (f : FileName) :
    Action ι -> View -> Prop where
  | elsewhere (a : Action ι) : Change ip s p f a (view s p f)
  | clock (now : UInt64) :
      Change ip s p f (Action.peer p (LocalAction.setClock now))
        { view s p f with clock := now }
  | edited {a : LocalAction} {kind : EventKind} {stat? : Option FileStat} :
      Edit (view s p f) kind stat? ->
        Change ip s p f (Action.peer p a) ((view s p f).touch kind stat?)
  | opened {a : LocalAction} {kind : EventKind} {i : Nat}
      {arg : DownloadArg} :
      kind ≠ EventKind.delete ->
        (view s p f).fetches[i]? =
            some { arg := arg, stage := Stage.fetching } ->
          Change ip s p f (Action.peer p a)
            ({ view s p f with
                fetches := (view s p f).fetches.set i
                  { arg := arg, stage := Stage.writing }
              }.touch kind ((view s p f).written 0))
  | wrote {a : LocalAction} {size : UInt64} :
      (view s p f).fetches ≠ [] ->
        Change ip s p f (Action.peer p a)
          ((view s p f).touch EventKind.modify ((view s p f).written size))
  | handled {event : Event} {later : List Event} {rest : List EventKind} :
      (s.peers p).events = event :: later -> event.name = f ->
        (view s p f).events = event.kind :: rest ->
          Change ip s p f (Action.peer p LocalAction.notify)
            ((view s p f).handle
              (notifyNode (ip p) (view s p f).clock (view s p f).file event
                (view s p f).node) rest)
  | resent {event : Event} {later : List Event} :
      (s.peers p).events = event :: later -> event.name ≠ f ->
        (notifyEvent (ip p) (s.peers p).clock ((s.peers p).files event.name)
          event (s.peers p).table).2 = true ->
        Change ip s p f (Action.peer p LocalAction.notify) (view s p f).resend
  | compared {seekNode : Node} {later rest : List Node} :
      (s.peers p).inbox = seekNode :: later -> seekNode.name = f ->
        (view s p f).inbox = seekNode :: rest ->
          Change ip s p f (Action.peer p LocalAction.compare)
            ({ view s p f with
                inbox := rest
                node := (compareEntry (ip p) seekNode (view s p f).node).1
              }.perform (compareEntry (ip p) seekNode (view s p f).node).2)
  | finished {index i : Nat} {arg : DownloadArg} :
      (s.peers p).downloads[index]? =
          some { arg := arg, stage := Stage.writing } ->
        arg.filename = f ->
        (view s p f).fetches[i]? =
            some { arg := arg, stage := Stage.writing } ->
          Change ip s p f (Action.peer p (LocalAction.setNodeType index))
            { view s p f with
              fetches := (view s p f).fetches.eraseIdx i
              node := (view s p f).node.map fun n =>
                { n with type := FILE_DOWNLOAD, size := arg.size } }
  | closed {index : Nat} {flushed : Option UInt64} {arg : DownloadArg} :
      (s.peers p).downloads[index]? =
          some { arg := arg, stage := Stage.closing } ->
        arg.filename = f ->
        (flushed = none ∨ (view s p f).file = none) ->
          Change ip s p f (Action.peer p (LocalAction.closeFile index flushed))
            { view s p f with
              active := ((s.peers p).downloads.eraseIdx index).any
                (Download.concerns f) }
  | flushed {index : Nat} {size : UInt64} {active : Bool} :
      (view s p f).active = true ->
        Change ip s p f
          (Action.peer p (LocalAction.closeFile index (some size)))
          ({ view s p f with active := active }.touch EventKind.modify
            ((view s p f).written size))
  | merged {report? : Option Node} {rest : List (Option Node)} :
      (view s p f).outbox = report? :: rest ->
        Change ip s p f (Action.merge p)
          ({ view s p f with outbox := rest }.broadcast report?)
  | mergedOther {q : ι} {report? : Option Node} {rest : List (Option Node)} :
      q ≠ p -> (view s q f).outbox = report? :: rest ->
        Change ip s p f (Action.merge q) ((view s p f).broadcast report?)

/-!
## Views of the basic changes
-/

theorem eventsOf_concat_self {f : FileName} (events : List Event)
    (kind : EventKind) :
    eventsOf f (events ++ [{ kind := kind, name := f }]) =
      eventsOf f events ++ [kind] := by
  simp [eventsOf]

theorem eventsOf_concat_of_ne {f g : FileName} (events : List Event)
    (kind : EventKind) (h : g ≠ f) :
    eventsOf f (events ++ [{ kind := kind, name := g }]) =
      eventsOf f events := by
  simp [eventsOf, h]

theorem eventsOf_cons_self {f : FileName} {event : Event} (h : event.name = f)
    (later : List Event) :
    eventsOf f (event :: later) = event.kind :: eventsOf f later := by
  simp [eventsOf, h]

theorem eventsOf_cons_of_ne {f : FileName} {event : Event} (h : event.name ≠ f)
    (later : List Event) : eventsOf f (event :: later) = eventsOf f later := by
  simp [eventsOf, h]

theorem inboxOf_cons_self {f : FileName} {n : Node} (h : n.name = f)
    (later : List Node) : inboxOf f (n :: later) = n :: inboxOf f later := by
  simp [inboxOf, h]

theorem inboxOf_cons_of_ne {f : FileName} {n : Node} (h : n.name ≠ f)
    (later : List Node) : inboxOf f (n :: later) = inboxOf f later := by
  simp [inboxOf, h]

theorem inboxOf_append_nodes {f : FileName} {ft : FileTable}
    (h : (ft.nodes.map Node.name).Nodup) (inbox : List Node) :
    inboxOf f (inbox ++ ft.nodes) =
      inboxOf f inbox ++ (entry f ft).toList := by
  unfold inboxOf entry
  rw [List.filter_append, filter_key_eq_lookup h]

theorem any_set {α : Type} {P : α -> Bool} {l : List α} {i : Nat} {d d' : α}
    (h : l[i]? = some d) (hP : P d' = P d) : (l.set i d').any P = l.any P := by
  induction l generalizing i with
  | nil => simp at h
  | cons a rest ih =>
      cases i with
      | zero =>
          rw [List.getElem?_cons_zero, Option.some_inj] at h
          simp [h, hP]
      | succ i =>
          rw [List.getElem?_cons_succ] at h
          simp [ih h]

theorem any_eraseIdx {α : Type} {P : α -> Bool} {l : List α} {i : Nat} {d : α}
    (h : l[i]? = some d) (hP : P d = false) :
    (l.eraseIdx i).any P = l.any P := by
  induction l generalizing i with
  | nil => simp at h
  | cons a rest ih =>
      cases i with
      | zero =>
          rw [List.getElem?_cons_zero, Option.some_inj] at h
          simp [h, hP]
      | succ i =>
          rw [List.getElem?_cons_succ] at h
          simp [ih h]

section Filter

variable {α : Type} {P : α -> Bool} {l : List α} {i : Nat} {d d' : α}

theorem getElem?_filter (h : l[i]? = some d) (hP : P d = true) :
    (l.filter P)[((l.take i).filter P).length]? = some d := by
  have hsplit : l = l.take i ++ d :: l.drop (i + 1) := by
    rcases List.getElem?_eq_some_iff.mp h with ⟨hi, hd⟩
    rw [← hd, ← List.drop_eq_getElem_cons hi, List.take_append_drop]
  rw [congrArg (List.filter P) hsplit, List.filter_append,
    List.filter_cons_of_pos hP, List.getElem?_append_right (Nat.le_refl _),
    Nat.sub_self]
  rfl

theorem filter_set_of_pos (h : l[i]? = some d) (hP : P d = true)
    (hP' : P d' = true) :
    (l.set i d').filter P =
      (l.filter P).set ((l.take i).filter P).length d' := by
  induction l generalizing i with
  | nil => cases h
  | cons a rest ih =>
      cases i with
      | zero =>
          cases h
          rw [List.set_cons_zero, List.filter_cons_of_pos hP,
            List.filter_cons_of_pos hP']
          rfl
      | succ i =>
          have hrest := ih h
          cases ha : P a with
          | false => simp [ha, hrest]
          | true => simp [ha, hrest]

theorem filter_set_of_neg (h : l[i]? = some d) (hP : P d = true)
    (hP' : P d' = false) :
    (l.set i d').filter P =
      (l.filter P).eraseIdx ((l.take i).filter P).length := by
  induction l generalizing i with
  | nil => cases h
  | cons a rest ih =>
      cases i with
      | zero =>
          cases h
          rw [List.set_cons_zero, List.filter_cons_of_pos hP,
            List.filter_cons_of_neg (by simp [hP'])]
          rfl
      | succ i =>
          have hrest := ih h
          cases ha : P a with
          | false => simp [ha, hrest]
          | true => simp [ha, hrest]

theorem filter_set_of_both_neg (h : l[i]? = some d) (hP : P d = false)
    (hP' : P d' = false) : (l.set i d').filter P = l.filter P := by
  induction l generalizing i with
  | nil => cases h
  | cons a rest ih =>
      cases i with
      | zero =>
          cases h
          rw [List.set_cons_zero, List.filter_cons_of_neg (by simp [hP']),
            List.filter_cons_of_neg (by simp [hP])]
      | succ i =>
          have hrest := ih h
          cases ha : P a with
          | false => simp [ha, hrest]
          | true => simp [ha, hrest]

theorem filter_eraseIdx (h : l[i]? = some d) (hP : P d = false) :
    (l.eraseIdx i).filter P = l.filter P := by
  induction l generalizing i with
  | nil => cases h
  | cons a rest ih =>
      cases i with
      | zero =>
          cases h
          rw [List.eraseIdx_cons_zero,
            List.filter_cons_of_neg (by simp [hP])]
      | succ i =>
          have hrest := ih h
          cases ha : P a with
          | false => simp [ha, hrest]
          | true => simp [ha, hrest]

end Filter

theorem any_of_getElem? {α : Type} {P : α -> Bool} {l : List α} {i : Nat}
    {d : α} (h : l[i]? = some d) (hP : P d = true) : l.any P = true :=
  List.any_eq_true.mpr ⟨d, List.mem_of_getElem? h, hP⟩

section Local

variable {ft : FileTable} {x : PeerState} {f g : FileName}

theorem viewOf_touch_self (kind : EventKind) (stat? : Option FileStat) :
    viewOf ft (x.touch kind f stat?) f = (viewOf ft x f).touch kind stat? := by
  simp [viewOf, PeerState.touch, View.touch, eventsOf_concat_self]

theorem viewOf_touch_of_ne (kind : EventKind) (stat? : Option FileStat)
    (h : g ≠ f) : viewOf ft (x.touch kind g stat?) f = viewOf ft x f := by
  simp [viewOf, PeerState.touch, eventsOf_concat_of_ne _ _ h, h.symm]

end Local

/-!
## Tables name each file once and carry the address of their peer
-/

structure OwnTable (myip : Ip) (table : List Node) : Prop where
  names : (table.map Node.name).Nodup
  newpeerip : forall n, n ∈ table -> n.newpeerip = onlyPeer myip

structure Sane (ip : ι -> Ip) (s : State ι) : Prop where
  names : (s.ft.nodes.map Node.name).Nodup
  tables : forall p, OwnTable (ip p) (s.peers p).table
  bundles : forall p b, b ∈ (s.peers p).outbox -> OwnTable (ip p) b

end System
end DartSync
