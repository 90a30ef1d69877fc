import DartSync.Foundation.Memory
import DartSync.Foundation.Records
import DartSync.Peer.Watches

/-!
# The events of the monitor

The loop of `notify` in `peer/monitor.c` over what `read` returns: the events lie
one behind the other in a buffer, and the mask of each picks the branch that
handles it.
-/

namespace DartSync
namespace Peer

open Foundation

/-!
## Events in the buffer
-/

structure InotifyEvent where
  wd : Int32
  mask : UInt32
  cookie : UInt32
  len : UInt32
deriving DecidableEq

def inotifyCodec : Codec InotifyEvent :=
  (Codec.int32.prod
    (Codec.uint32.prod (Codec.uint32.prod Codec.uint32))).map
    (fun x =>
      { wd := x.1, mask := x.2.1, cookie := x.2.2.1, len := x.2.2.2 })
    (fun event => (event.wd, event.mask, event.cookie, event.len))
    (fun _ => rfl)

def eventFormat : RecordFormat InotifyEvent where
  header := inotifyCodec
  bodySize := fun event => event.len.toNat

abbrev EVENT_SIZE : Nat := 16
abbrev BUF_LEN : Nat := 1024 * (EVENT_SIZE + 16)

def IN_MODIFY : UInt32 := 0x2
def IN_OPEN : UInt32 := 0x20
def IN_CREATE : UInt32 := 0x100
def IN_DELETE : UInt32 := 0x200
def IN_ISDIR : UInt32 := 0x40000000

/-- What one `read` puts into `buffer`: whole events, whose names end with a
zero; behind them is what earlier reads have left. -/
structure Read where
  events : List eventFormat.Record
  stale : List UInt8
  named : forall event, event ∈ events ->
    event.head.len = 0 ∨ 0 ∈ event.body
  size : (RecordFormat.encodeAll events).length + stale.length = BUF_LEN

/-!
## One event
-/

inductive Branch where
  | create
  | open
  | delete
  | modify
  | other
deriving DecidableEq

def has (mask flag : UInt32) : Bool :=
  mask &&& flag ≠ 0

def branchOf (mask : UInt32) : Branch :=
  if has mask IN_CREATE then Branch.create
  else if has mask IN_OPEN then Branch.open
  else if has mask IN_DELETE then Branch.delete
  else if has mask IN_MODIFY then Branch.modify
  else Branch.other

/-- What the calls of an event find: the time, the results of `stat` in `notify`
and in `getFileInfo`, the address that `calloc` returns, and what freed nodes read
as. -/
structure Outside where
  now : UInt64
  stat? : Option FileStat
  info? : Option FileStat
  address : Nat
  freed : Nat -> Path

/-- The table, the tables sent, and the number of events so far. -/
structure Reported where
  table : List Node
  sent : List (List Node)
  events : Nat

structure Monitor where
  watching : Watching
  reported : Reported

/-- The handlers of a file, if the event is one for them.  They use what the second
`stat` has found. -/
def Reported.note (myip : Ip) (outside : Nat -> Outside) (s : Reported)
    (event? : Option Event) : Reported :=
  match event? with
  | none => { s with events := s.events + 1 }
  | some event =>
      let o := outside s.events
      let result := notifyEvent myip o.now (o.stat?.bind fun _ => o.info?)
        event s.table
      { table := result.1
        sent := if result.2 then s.sent ++ [result.1] else s.sent
        events := s.events + 1 }

/-- `&filepath[strlen(sync_dir)]` -/
def relative (syncDir path : Path) : Option FileName :=
  let rest := path.drop syncDir.length
  if h : syncDir.length ≤ path.length ∧ 0 ∉ rest ∧
      rest.length < FILE_NAME_LEN then
    some { bytes := rest, noNul := h.right.left, fits := h.right.right }
  else none

/-- `event->name`; `none` if no zero ends it. -/
def eventName (memory : List UInt8) : Option FileName :=
  if h : 0 ∈ memory ∧ (cstr memory).length < FILE_NAME_LEN then
    some
      { bytes := cstr memory
        noNul := zero_not_mem_cstr memory
        fits := h.right }
  else none

def isBackup (name : FileName) : Bool :=
  name.bytes.getLast? = some 126

def kindOf (mask : UInt32) : Option EventKind :=
  if has mask IN_ISDIR then none
  else
    match branchOf mask with
    | Branch.create => some EventKind.create
    | Branch.delete => some EventKind.delete
    | Branch.modify => some EventKind.modify
    | _ => none

namespace Monitor

section Turn

variable (myip : Ip) (syncDir : Path) (outside : Nat -> Outside)

/-- An event that leaves the directories alone.  The handlers fail on a file that
goes between the two looks at it. -/
def fileTurn (s : Monitor) (event : InotifyEvent) (name : FileName) :
    Option Monitor :=
  (s.watching.step (WatchAction.file event.wd.toInt.toNat name)).bind
    fun watching =>
      match kindOf event.mask with
      | none =>
          some
            { watching := watching
              reported := s.reported.note myip outside none }
      | some kind =>
          (relative syncDir watching.abspath).bind fun filepath =>
            let event := { kind := kind, name := filepath }
            let o := outside s.reported.events
            if vanishes o.stat? o.info? event then none
            else
              some
                { watching := watching
                  reported := s.reported.note myip outside (some event) }

/-- The branches.  That of `IN_DELETE` copies a name that ends in a tilde to an
array without room for the zero. -/
def namedTurn (s : Monitor) (event : InotifyEvent) (name : FileName) :
    Option Monitor :=
  let o := outside s.reported.events
  let done := s.reported.note myip outside none
  match branchOf event.mask, has event.mask IN_ISDIR with
  | Branch.create, true =>
      (s.watching.step
        (WatchAction.create event.wd.toInt.toNat name o.address)).map
        fun watching => { watching := watching, reported := done }
  | Branch.delete, true =>
      if isBackup name then none
      else
        (s.watching.step
          (WatchAction.delete event.wd.toInt.toNat name o.freed)).map
          fun watching => { watching := watching, reported := done }
  | Branch.delete, false =>
      if isBackup name then none
      else s.fileTurn myip syncDir outside event name
  | _, _ => s.fileTurn myip syncDir outside event name

/-- A turn of the loop; an event without a name is skipped. -/
def turn (s : Monitor) (event : InotifyEvent) (memory : List UInt8) :
    Option Monitor :=
  if event.len = 0 then
    some { s with reported := s.reported.note myip outside none }
  else (eventName memory).bind (s.namedTurn myip syncDir outside event)

/-- The turn, with the bytes of the event only. -/
def act (s : Monitor) (event : eventFormat.Record) : Option Monitor :=
  s.turn myip syncDir outside event.head event.body

/-- The loop over the events of one `read`. -/
def readTurn (s : Monitor) (r : Read) : Option Monitor :=
  eventFormat.walk (turn myip syncDir outside)
    (RecordFormat.encodeAll r.events ++ r.stale)
    (RecordFormat.encodeAll r.events).length BUF_LEN 0 s

end Turn

end Monitor

/-!
## Where the reads are cut
-/

section Cut

variable {myip : Ip} {syncDir : Path} {outside : Nat -> Outside}

theorem eventName_append {xs : List UInt8} (h : 0 ∈ xs) (ys : List UInt8) :
    eventName (xs ++ ys) = eventName xs := by
  have hmem : 0 ∈ xs ++ ys := List.mem_append_left ys h
  unfold eventName
  simp only [cstr_append_of_zero h, h, hmem, true_and]

theorem Monitor.turn_append {r : Read} {event : eventFormat.Record}
    (hevent : event ∈ r.events) (s : Monitor) (back : List UInt8) :
    s.turn myip syncDir outside event.head (event.body ++ back) =
      s.act myip syncDir outside event := by
  unfold Monitor.act Monitor.turn
  cases r.named event hevent with
  | inl hlen => rw [if_pos hlen, if_pos hlen]
  | inr hzero => rw [eventName_append hzero]

theorem Monitor.readTurn_eq (s : Monitor) (r : Read) :
    s.readTurn myip syncDir outside r =
      r.events.foldlM (Monitor.act myip syncDir outside) s := by
  have hpositive : 0 < eventFormat.header.size := by decide
  have hcount := RecordFormat.length_le_encodeAll hpositive r.events
  have hsize := r.size
  apply RecordFormat.walk_encodeAll
  · intro event hevent t back
    exact Monitor.turn_append hevent t back
  · exact hpositive
  · exact (List.nil_append _).symm
  · rfl
  · exact (Int.zero_add _).symm
  · omega

theorem Monitor.foldlM_readTurn (reads : List Read) (s : Monitor) :
    reads.foldlM (Monitor.readTurn myip syncDir outside) s =
      (reads.flatMap Read.events).foldlM
        (Monitor.act myip syncDir outside) s := by
  induction reads generalizing s with
  | nil => rfl
  | cons r rest ih =>
      rw [List.foldlM_cons, List.flatMap_cons, List.foldlM_append,
        Monitor.readTurn_eq]
      apply congrArg (Option.bind _)
      funext t
      exact ih t

/-- The loop handles the events that were read, each once and in order; so only
the events count, and not how many of them a `read` returns, nor what the reads
before it have left in the buffer. -/
theorem same_events_same_monitor {reads reads' : List Read}
    (h : reads.flatMap Read.events = reads'.flatMap Read.events)
    (s : Monitor) :
    reads.foldlM (Monitor.readTurn myip syncDir outside) s =
        (reads.flatMap Read.events).foldlM
          (Monitor.act myip syncDir outside) s ∧
      reads.foldlM (Monitor.readTurn myip syncDir outside) s =
        reads'.foldlM (Monitor.readTurn myip syncDir outside) s := by
  refine ⟨Monitor.foldlM_readTurn reads s, ?_⟩
  rw [Monitor.foldlM_readTurn, Monitor.foldlM_readTurn, h]

end Cut

/-!
## From the bytes to the table
-/

/-- The event of a file that the bytes stand for: the watch gives the directory,
of which the part below the sync folder counts. -/
def eventOf (watches : List (Nat × Path)) (syncDir : Path)
    (r : eventFormat.Record) : Option Event :=
  if r.head.len = 0 then none
  else
    match kindOf r.head.mask, eventName r.body,
        lookup Prod.fst r.head.wd.toInt.toNat watches with
    | some kind, some name, some watch =>
        (relative syncDir (watch.2 ++ name.bytes)).map fun filepath =>
          { kind := kind, name := filepath }
    | _, _, _ => none

/-- An event with a name, in a watched directory `d` of the sync folder.  No
directory comes or goes, and no backup file is deleted. -/
structure Ordinary (watches : List (Nat × Path)) (syncDir : Path)
    (r : eventFormat.Record) (d : Path) (name : FileName) : Prop where
  named : eventName r.body = some name
  watched : lookup Prod.fst r.head.wd.toInt.toNat watches =
    some (r.head.wd.toInt.toNat, d)
  inside : syncDir <+: d
  noSlash : 47 ∉ name.bytes
  fits : (d ++ name.bytes).length < FILE_NAME_LEN
  noZero : 0 ∉ d
  noFolder : branchOf r.head.mask = Branch.create ∨
    branchOf r.head.mask = Branch.delete -> has r.head.mask IN_ISDIR = false
  noBackup : branchOf r.head.mask = Branch.delete -> isBackup name = false

section Ordinary

variable {myip : Ip} {syncDir : Path} {outside : Nat -> Outside}
  {watches : List (Nat × Path)} {r : eventFormat.Record} {d : Path}
  {name : FileName}

theorem relative_eq_some {path : Path} (hinside : syncDir <+: path)
    (hfits : path.length < FILE_NAME_LEN) (hzero : 0 ∉ path) :
    exists filepath, relative syncDir path = some filepath ∧
      filepath.bytes = path.drop syncDir.length := by
  have hlength : (path.drop syncDir.length).length ≤ path.length := by
    rw [List.length_drop]
    exact Nat.sub_le _ _
  have hnone : 0 ∉ path.drop syncDir.length := by
    intro h
    exact hzero (List.mem_of_mem_drop h)
  refine ⟨⟨path.drop syncDir.length, hnone, Nat.lt_of_le_of_lt hlength hfits⟩,
    ?_, rfl⟩
  unfold relative
  exact dif_pos
    ⟨hinside.length_le, hnone, Nat.lt_of_le_of_lt hlength hfits⟩

namespace Ordinary

theorem path_noZero (h : Ordinary watches syncDir r d name) :
    0 ∉ d ++ name.bytes := by
  rw [List.mem_append]
  exact not_or.mpr ⟨h.noZero, name.noNul⟩

theorem relative_path (h : Ordinary watches syncDir r d name) :
    exists filepath, relative syncDir (d ++ name.bytes) = some filepath ∧
      filepath.bytes = (d ++ name.bytes).drop syncDir.length :=
  relative_eq_some (h.inside.trans (List.prefix_append _ _)) h.fits
    h.path_noZero

theorem step_file {s : Watching} (hs : Aligned s)
    (h : Ordinary s.watches syncDir r d name) :
    s.step (WatchAction.file r.head.wd.toInt.toNat name) =
      some { s with abspath := d ++ name.bytes } := by
  have hwatch : (r.head.wd.toInt.toNat, d) ∈ s.watches :=
    mem_of_lookup h.watched
  have hknown : r.head.wd.toInt.toNat ∈ s.watches.map Prod.fst :=
    List.mem_map_of_mem (f := Prod.fst) hwatch
  unfold Watching.step
  dsimp only
  rw [if_pos ⟨hknown, h.noSlash⟩]
  unfold Watching.turn
  rw [hs.builtPath hwatch name]
  dsimp only
  rw [if_pos h.fits]

theorem fileTurn {s : Monitor} (hs : Aligned s.watching)
    (hstays : forall n, (outside n).stat? ≠ none -> (outside n).info? ≠ none)
    (h : Ordinary s.watching.watches syncDir r d name)
    (hlen : r.head.len ≠ 0) :
    s.fileTurn myip syncDir outside r.head name =
      some
        { watching := { s.watching with abspath := d ++ name.bytes }
          reported := s.reported.note myip outside
            (eventOf s.watching.watches syncDir r) } := by
  rcases h.relative_path with ⟨filepath, hfilepath, _⟩
  unfold Monitor.fileTurn eventOf
  rw [h.step_file hs, if_neg hlen, h.named, h.watched]
  dsimp only [Option.bind]
  cases kindOf r.head.mask with
  | none => rfl
  | some kind =>
      have hgoes := fun event => @not_vanishes
        (outside s.reported.events).stat? (outside s.reported.events).info?
        event (hstays _)
      dsimp only
      rw [hfilepath]
      dsimp only
      rw [hgoes]
      rfl

theorem namedTurn_eq {s : Monitor}
    (h : Ordinary watches syncDir r d name) :
    s.namedTurn myip syncDir outside r.head name =
      s.fileTurn myip syncDir outside r.head name := by
  have hfolder := h.noFolder
  have hbackup := h.noBackup
  unfold Monitor.namedTurn
  dsimp only
  cases hbranch : branchOf r.head.mask with
  | create =>
      rw [hfolder (Or.inl hbranch)]
  | delete =>
      rw [hfolder (Or.inr hbranch), hbackup hbranch]
      rfl
  | «open» => rfl
  | modify => rfl
  | other => rfl

theorem eventOf_eq (h : Ordinary watches syncDir r d name)
    (hlen : r.head.len ≠ 0) {kind : EventKind}
    (hkind : kindOf r.head.mask = some kind) :
    exists filepath, syncDir ++ filepath.bytes = d ++ name.bytes ∧
      eventOf watches syncDir r =
        some { kind := kind, name := filepath } := by
  rcases h.relative_path with ⟨filepath, hfilepath, hbytes⟩
  have hprefix : syncDir <+: d ++ name.bytes :=
    h.inside.trans (List.prefix_append _ _)
  refine ⟨filepath, ?_, ?_⟩
  · rw [hbytes]
    exact List.prefix_iff_eq_append.mp hprefix
  · unfold eventOf
    rw [if_neg hlen, hkind, h.named, h.watched]
    dsimp only
    rw [hfilepath]
    rfl

end Ordinary

theorem Monitor.act_eq {s : Monitor} (hs : Aligned s.watching)
    (hstays : forall n, (outside n).stat? ≠ none -> (outside n).info? ≠ none)
    (h : r.head.len = 0 ∨
      exists d name, Ordinary s.watching.watches syncDir r d name) :
    exists watching, s.act myip syncDir outside r =
        some
          { watching := watching
            reported := s.reported.note myip outside
              (eventOf s.watching.watches syncDir r) } ∧
      Aligned watching ∧ watching.watches = s.watching.watches := by
  unfold Monitor.act Monitor.turn
  cases Classical.em (r.head.len = 0) with
  | inl hlen =>
      refine ⟨s.watching, ?_, hs, rfl⟩
      unfold eventOf
      rw [if_pos hlen, if_pos hlen]
  | inr hlen =>
      rcases h.resolve_left hlen with ⟨d, name, hordinary⟩
      refine ⟨{ s.watching with abspath := d ++ name.bytes }, ?_,
        ⟨hs.numbers, hs.bounds, hs.folders⟩, rfl⟩
      rw [if_neg hlen, hordinary.named]
      dsimp only [Option.bind]
      rw [hordinary.namedTurn_eq]
      exact hordinary.fileTurn hs hstays hlen

end Ordinary

section Reports

variable {myip : Ip} {syncDir : Path} {outside : Nat -> Outside}
  {watches : List (Nat × Path)}

def Reported.noteAll (myip : Ip) (syncDir : Path) (outside : Nat -> Outside)
    (watches : List (Nat × Path)) (s : Reported)
    (events : List eventFormat.Record) : Reported :=
  events.foldl
    (fun t event => t.note myip outside (eventOf watches syncDir event)) s

theorem Monitor.foldlM_act {events : List eventFormat.Record} {s : Monitor}
    (hs : Aligned s.watching)
    (hstays : forall n, (outside n).stat? ≠ none -> (outside n).info? ≠ none)
    (hevents : forall event, event ∈ events -> event.head.len = 0 ∨
      exists d name, Ordinary s.watching.watches syncDir event d name) :
    exists watching, events.foldlM (Monitor.act myip syncDir outside) s =
        some
          { watching := watching
            reported := s.reported.noteAll myip syncDir outside
              s.watching.watches events } ∧
      Aligned watching ∧ watching.watches = s.watching.watches := by
  induction events generalizing s with
  | nil => exact ⟨s.watching, rfl, hs, rfl⟩
  | cons event rest ih =>
      rw [List.forall_mem_cons] at hevents
      rcases @Monitor.act_eq myip syncDir outside event s hs
        hstays hevents.left with ⟨watching, hact, haligned, hsame⟩
      rw [← hsame] at hevents
      rcases ih (s := Monitor.mk watching _) haligned hevents.right with
        ⟨watching', hrest, haligned', hsame'⟩
      refine ⟨watching', ?_, haligned', hsame'.trans hsame⟩
      rw [List.foldlM_cons, hact]
      dsimp only [bind, Option.bind]
      rw [hrest]
      dsimp only
      rw [hsame]
      rfl

/-- Every event of a file below the sync folder reaches its handler once and in
its turn, wherever the reads are cut, if no file goes while it is looked at. -/
theorem reported_of_reads {dirTree : DirTree} {reads : List Read}
    (hroom : dirTree.nodes.length ≤ MAX_SUBDIR_NUM)
    (hstays : forall n, (outside n).stat? ≠ none -> (outside n).info? ≠ none)
    (hevents : forall r, r ∈ reads -> forall event, event ∈ r.events ->
      event.head.len = 0 ∨ exists d name,
        Ordinary (Watching.start dirTree).watches syncDir event d name)
    (reported : Reported) :
    exists watching, reads.foldlM (Monitor.readTurn myip syncDir outside)
        { watching := Watching.start dirTree, reported := reported } =
      some
        { watching := watching
          reported := reported.noteAll myip syncDir outside
            (Watching.start dirTree).watches
            (reads.flatMap Read.events) } := by
  have hall : forall event, event ∈ reads.flatMap Read.events ->
      event.head.len = 0 ∨ exists d name,
        Ordinary (Watching.start dirTree).watches syncDir event d name := by
    intro event hevent
    rcases List.mem_flatMap.mp hevent with ⟨r, hr, hmem⟩
    exact hevents r hr event hmem
  rcases @Monitor.foldlM_act myip syncDir outside _
    (Monitor.mk (Watching.start dirTree) reported) (Aligned.start hroom)
    hstays hall with ⟨watching, hrun, _, _⟩
  refine ⟨watching, ?_⟩
  rw [Monitor.foldlM_readTurn]
  exact hrun

end Reports

def Sample.fileEvent (mask : UInt32) : eventFormat.Record where
  head := { wd := 1, mask := mask, cookie := 0, len := 16 }
  body := 97 :: List.replicate 15 0
  sized := rfl

def Sample.oneEvent (mask : UInt32) : Read where
  events := [Sample.fileEvent mask]
  stale := List.replicate (BUF_LEN - 32) 0
  named := by
    intro event hevent
    rw [List.mem_singleton.mp hevent]
    exact Or.inr (List.mem_cons_of_mem _ List.mem_cons_self)
  size := by
    have hevents : (RecordFormat.encodeAll
      [Sample.fileEvent mask]).length = 32 := rfl
    rw [hevents, List.length_replicate]
    decide

def Sample.bothEvents : Read where
  events := [Sample.fileEvent IN_CREATE, Sample.fileEvent IN_MODIFY]
  stale := List.replicate (BUF_LEN - 64) 0
  named := by
    intro event hevent
    have hbody : event.body = 97 :: List.replicate 15 0 := by
      cases List.mem_cons.mp hevent with
      | inl hfirst => rw [hfirst]; rfl
      | inr hrest => rw [List.mem_singleton.mp hrest]; rfl
    rw [hbody]
    exact Or.inr (List.mem_cons_of_mem _ List.mem_cons_self)
  size := by
    have hevents : (RecordFormat.encodeAll [Sample.fileEvent IN_CREATE,
      Sample.fileEvent IN_MODIFY]).length = 64 := rfl
    rw [hevents, List.length_replicate]
    decide

theorem same_events_same_monitor_joined :
    [Sample.oneEvent IN_CREATE, Sample.oneEvent IN_MODIFY].foldlM
        (Monitor.readTurn Sample.ipA [115, 47]
          fun _ => ⟨7, some ⟨5, 6⟩, some ⟨5, 6⟩, 0, fun _ => []⟩)
        { watching := Watching.start Sample.dirTree
          reported := ⟨[], [], 0⟩ } =
      [Sample.bothEvents].foldlM
        (Monitor.readTurn Sample.ipA [115, 47]
          fun _ => ⟨7, some ⟨5, 6⟩, some ⟨5, 6⟩, 0, fun _ => []⟩)
        { watching := Watching.start Sample.dirTree
          reported := ⟨[], [], 0⟩ } := by
  have hsame :
      [Sample.oneEvent IN_CREATE, Sample.oneEvent IN_MODIFY].flatMap
        Read.events = [Sample.bothEvents].flatMap Read.events := rfl
  exact (same_events_same_monitor hsame _).right

theorem Sample.ordinary_fileEvent {mask : UInt32}
    (hfile : has mask IN_ISDIR = false) :
    Ordinary (Watching.start Sample.dirTree).watches [115, 47]
      (Sample.fileEvent mask) [115, 47] Sample.fileA where
  named := rfl
  watched := rfl
  inside := List.prefix_refl _
  noSlash := by decide
  fits := by decide
  noZero := by decide
  noFolder := fun _ => hfile
  noBackup := fun _ => rfl

theorem reported_of_reads_twice :
    exists watching,
      [Sample.oneEvent IN_CREATE, Sample.oneEvent IN_MODIFY].foldlM
        (Monitor.readTurn Sample.ipA [115, 47]
          fun _ => ⟨7, some ⟨5, 6⟩, some ⟨5, 6⟩, 0, fun _ => []⟩)
        { watching := Watching.start Sample.dirTree
          reported := ⟨[], [], 0⟩ } =
      some
        { watching := watching
          reported :=
            { table := [Sample.node Sample.ipA Sample.fileA 6 5 FILE_MODIFY]
              sent := [[Sample.node Sample.ipA Sample.fileA 6 5 FILE_CREATE],
                [Sample.node Sample.ipA Sample.fileA 6 5 FILE_MODIFY]]
              events := 2 } } := by
  have hevents : forall r,
      r ∈ [Sample.oneEvent IN_CREATE, Sample.oneEvent IN_MODIFY] ->
      forall event, event ∈ r.events -> event.head.len = 0 ∨ exists d name,
        Ordinary (Watching.start Sample.dirTree).watches [115, 47] event d
          name := by
    intro r hr event hevent
    have hsample : event = Sample.fileEvent IN_CREATE ∨
        event = Sample.fileEvent IN_MODIFY := by
      cases List.mem_cons.mp hr with
      | inl hfirst =>
          rw [hfirst] at hevent
          exact Or.inl (List.mem_singleton.mp hevent)
      | inr hrest =>
          rw [List.mem_singleton.mp hrest] at hevent
          exact Or.inr (List.mem_singleton.mp hevent)
    refine Or.inr ⟨[115, 47], Sample.fileA, ?_⟩
    cases hsample with
    | inl hcreate =>
        rw [hcreate]
        exact Sample.ordinary_fileEvent (by decide)
    | inr hmodify =>
        rw [hmodify]
        exact Sample.ordinary_fileEvent (by decide)
  rcases @reported_of_reads Sample.ipA [115, 47]
    (fun _ => ⟨7, some ⟨5, 6⟩, some ⟨5, 6⟩, 0, fun _ => []⟩) Sample.dirTree _
    (by decide) (fun _ _ => Option.some_ne_none _) hevents ⟨[], [], 0⟩ with ⟨watching, hrun⟩
  refine ⟨watching, hrun.trans ?_⟩
  rfl

end Peer
end DartSync
