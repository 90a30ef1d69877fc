import DartSync.System.Settling

/-!
# Agreement at quiescence

When nothing is in flight, every peer agrees with the tracker about a file.
Three things break this: a deletion reported under the very version the tracker
holds as live, an event that the monitor's name filters drop, and a download
that closes its file without a last write, so that nothing tells the monitor
that it is done.  Such an unseen end is harmless when no deletion came across
the download and the last broadcast of the file was not passed over meanwhile;
what came before is marked along the run.
-/

namespace DartSync
namespace System

open Foundation Peer Tracker

/-!
## What happened to a download
-/

structure Marks where
  /-- The last broadcast of the file was passed over by a running download, or
  is a deletion that is being downloaded. -/
  passed : Bool
  /-- Since the download began, a deletion was read by the monitor or taken
  over by `compareNode`. -/
  deleted : Bool
deriving DecidableEq

instance (n seekNode : Node) : Decidable (PassedOver n seekNode) :=
  inferInstanceAs (Decidable (n.type = FILE_DOWNLOADING ∧
    seekNode.type ≠ FILE_DELETE ∧ seekNode.size ≠ 0 ∧
    n.version < seekNode.version))

def startsDownload (seekNode : Node) : Option Node -> Bool
  | none => seekNode.size > 0
  | some n => wantsDownload n seekNode

def takesDeletion (seekNode : Node) : Option Node -> Bool
  | none => false
  | some n =>
      seekNode.type = FILE_DELETE ∧ n.type ≠ FILE_DELETE ∧
        n.timestamp ≤ seekNode.timestamp

def passesOver (seekNode : Node) : Option Node -> Bool
  | none => seekNode.type = FILE_DELETE ∧ seekNode.size ≠ 0
  | some n => PassedOver n seekNode

namespace Marks

def compared (m : Marks) (fetches : List Download) (seekNode : Node)
    (node? : Option Node) : Marks where
  passed := passesOver seekNode node?
  deleted :=
    if startsDownload seekNode node? then m.deleted && !fetches.isEmpty
    else m.deleted || (takesDeletion seekNode node? && !fetches.isEmpty)

def erased (m : Marks) (fetches : List Download) : Marks :=
  { m with deleted := m.deleted || !fetches.isEmpty }

def after (m : Marks) (f : FileName) (x : PeerState) : LocalAction -> Marks
  | LocalAction.notify =>
      match x.events with
      | [] => m
      | event :: _ =>
          if event.name = f ∧ event.kind = EventKind.delete then
            m.erased (x.downloads.filter (Download.runs f))
          else m
  | LocalAction.compare =>
      match x.inbox with
      | [] => m
      | seekNode :: _ =>
          if seekNode.name = f then
            m.compared (x.downloads.filter (Download.runs f)) seekNode
              (lookup Node.name f x.table)
          else m
  | _ => m

end Marks

variable {ι : Type} [DecidableEq ι]

structure Watched (ι : Type) where
  sys : State ι
  marks : ι -> Marks

def watched (s : State ι) : Watched ι where
  sys := s
  marks := fun _ => { passed := false, deleted := false }

def marksAfter (f : FileName) (w : Watched ι) : Action ι -> ι -> Marks
  | Action.peer p a =>
      Function.update w.marks p ((w.marks p).after f (w.sys.peers p) a)
  | Action.merge _ => w.marks

def watchStep (ip : ι -> Ip) (f : FileName) (w : Watched ι) (a : Action ι) :
    Option (Watched ι) :=
  (step ip w.sys a).map fun s => { sys := s, marks := marksAfter f w a }

theorem runFrom_watchStep {ip : ι -> Ip} {f : FileName} {w : Watched ι}
    {actions : List (Action ι)} {s : State ι}
    (h : runFrom (step ip) w.sys actions = some s) :
    exists w', runFrom (watchStep ip f) w actions = some w' ∧ w'.sys = s := by
  induction actions generalizing w with
  | nil =>
      cases h
      exact ⟨w, rfl, rfl⟩
  | cons a rest ih =>
      rcases runFrom_cons_eq_some_iff.mp h with ⟨t, ht, hrest⟩
      have hstep : watchStep ip f w a =
          some { sys := t, marks := marksAfter f w a } := by
        unfold watchStep
        rw [ht]
        rfl
      rcases ih (w := { sys := t, marks := marksAfter f w a }) hrest with
        ⟨w', hw', hsys⟩
      exact ⟨w', runFrom_cons_eq_some_iff.mpr ⟨_, hstep, hw'⟩, hsys⟩

def TellsChanges (f : FileName) (w : Watched ι) : Action ι -> Prop
  | Action.peer p LocalAction.notify =>
      forall event later, (w.sys.peers p).events = event :: later ->
        event.name = f -> passesFilter event = true
  | Action.peer p (LocalAction.closeFile index flushed) =>
      forall arg, (w.sys.peers p).downloads[index]? =
          some { arg := arg, stage := Stage.closing } ->
        arg.filename = f ->
        (flushed = none ∨ (view w.sys p f).file = none) ->
        (view w.sys p f).events = [] ->
        ((w.sys.peers p).downloads.eraseIdx index).any (Download.concerns f) =
            false ->
        (w.marks p).deleted = false ∧
          ((w.marks p).passed = true ->
            (view w.sys p f).outbox ≠ [] ∨ (view w.sys p f).inbox ≠ [])
  | Action.merge q =>
      forall r rest, (view w.sys q f).outbox = some r :: rest ->
        r.type = FILE_DELETE ->
        forall t, entry f w.sys.ft = some t -> t.version = r.version ->
          t.type = FILE_DELETE
  | _ => True

def Quiescent (s : State ι) : Prop :=
  forall p, (s.peers p).events = [] ∧ (s.peers p).outbox = [] ∧
    (s.peers p).inbox = [] ∧ (s.peers p).downloads = []

def AgreesOn (f : FileName) (s : State ι) : Prop :=
  forall p t, entry f s.ft = some t ->
    ((t.type = FILE_DELETE ∨ t.size ≠ 0) ->
      forall n, lookup Node.name f (s.peers p).table = some n ->
        (n.type = FILE_DELETE <-> t.type = FILE_DELETE) ∧
          (t.type ≠ FILE_DELETE ->
            n.timestamp = t.timestamp ∧ n.size = t.size)) ∧
    (t.type ≠ FILE_DELETE -> t.size ≠ 0 ->
      (lookup Node.name f (s.peers p).table).isSome = true ∧
        (s.peers p).files f ≠ none)

/-!
## A download that no deletion came across
-/

/-- What holds of a file at a peer as long as no deletion has come across a
download: a file being fetched is the one the node announces, and what is wrong
is told by an event that is still unread or by the mark. -/
structure Following (v : View) (passed : Bool) : Prop where
  fetch : v.fetches ≠ [] ->
    exists d n, v.fetches = [d] ∧ v.node = some n ∧
      n.type = FILE_DOWNLOADING ∧ n.size = d.arg.size
  told : forall n, v.node = some n ->
    EventKind.delete ∈ v.events ∨ Told v n
  agrees : v.inbox = [] -> forall n, v.node = some n ->
    EventKind.delete ∈ v.events ∨ v.outbox ≠ [] ∨ Agrees n v.entry ∨
      passed = true
  present : forall n, v.node = some n -> n.type ≠ FILE_DELETE ->
    v.file = none ->
      EventKind.delete ∈ v.events ∨
        exists d, d ∈ v.fetches ∧ d.stage = Stage.fetching

section Following

variable {v v' : View} {passed : Bool}

theorem Following.nothingToTell (h : Following v passed)
    (hevents : v.events = []) (hfetches : v.fetches = [])
    (hpassed : passed = true -> v.outbox ≠ [] ∨ v.inbox ≠ []) :
    NothingToTell v := by
  have hread : EventKind.delete ∉ v.events := by
    rw [hevents]
    exact List.not_mem_nil
  intro n hn
  refine ⟨?_, (h.told n hn).resolve_left hread, ?_⟩
  · intro hlive hgone
    rcases (h.present n hn hlive hgone).resolve_left hread with ⟨d, hd, _⟩
    rw [hfetches] at hd
    cases hd
  · cases Classical.em (v.inbox = []) with
    | inr hcoming => exact Or.inl hcoming
    | inl hempty =>
        apply Or.inr
        rcases (h.agrees hempty n hn).resolve_left hread with
          hsent | hagrees | hmark
        · exact Or.inl hsent
        · exact Or.inr hagrees
        · exact Or.inl ((hpassed hmark).resolve_right (not_not.mpr hempty))

theorem Following.keep (h : Following v passed) (hnode : v'.node = v.node)
    (hentry : v'.entry = v.entry) (houtbox : v'.outbox = v.outbox)
    (hinbox : v'.inbox = v.inbox)
    (hevents : EventKind.delete ∈ v.events -> EventKind.delete ∈ v'.events)
    (hfetch : v'.fetches ≠ [] -> exists d n, v'.fetches = [d] ∧
      v.node = some n ∧ n.type = FILE_DOWNLOADING ∧ n.size = d.arg.size)
    (hpresent : v'.file = none -> EventKind.delete ∈ v'.events ∨
      (v.file = none ∧ v'.fetches = v.fetches)) :
    Following v' passed where
  fetch := by
    rw [hnode]
    exact hfetch
  told := by
    intro n hn
    rw [hnode] at hn
    exact (h.told n hn).imp hevents fun htold => htold.congr hentry houtbox
  agrees := by
    intro hempty n hn
    rw [hnode] at hn
    rw [hinbox] at hempty
    rw [houtbox, hentry]
    exact (h.agrees hempty n hn).imp hevents id
  present := by
    intro n hn hlive hgone
    rw [hnode] at hn
    rcases hpresent hgone with hdelete | ⟨hfile, hfetches⟩
    · exact Or.inl hdelete
    · rw [hfetches]
      exact (h.present n hn hlive hfile).imp hevents id

theorem Following.congr (h : Following v passed) (hnode : v'.node = v.node)
    (hentry : v'.entry = v.entry) (houtbox : v'.outbox = v.outbox)
    (hinbox : v'.inbox = v.inbox)
    (hevents : EventKind.delete ∈ v.events -> EventKind.delete ∈ v'.events)
    (hfetches : v'.fetches = v.fetches) (hfile : v'.file = v.file) :
    Following v' passed := by
  refine h.keep hnode hentry houtbox hinbox hevents ?_ ?_
  · rw [hfetches]
    exact h.fetch
  · intro hgone
    exact Or.inr ⟨hfile.symm.trans hgone, hfetches⟩

theorem Following.touch (h : Following v passed) {kind : EventKind}
    {stat? : Option FileStat} (active : Bool)
    (hkind : stat? = none -> kind = EventKind.delete) :
    Following ({ v with active := active }.touch kind stat?) passed := by
  refine h.keep rfl rfl rfl rfl ?_ h.fetch ?_
  · exact fun hdelete => List.mem_append_left _ hdelete
  · intro hgone
    apply Or.inl
    apply List.mem_append_right
    rw [hkind hgone]
    exact List.mem_singleton_self _

theorem eq_of_getElem?_singleton {α : Type} {a b : α} {i : Nat}
    (h : [a][i]? = some b) : i = 0 ∧ a = b := by
  cases i with
  | zero =>
      cases h
      exact ⟨rfl, rfl⟩
  | succ i => cases h

theorem Following.open (h : Following v passed) {i : Nat} {arg : DownloadArg}
    {kind : EventKind} {stat : FileStat}
    (hfetching : v.fetches[i]? =
      some { arg := arg, stage := Stage.fetching }) :
    Following ({ v with
      fetches := v.fetches.set i { arg := arg, stage := Stage.writing }
      }.touch kind (some stat)) passed := by
  refine h.keep rfl rfl rfl rfl ?_ ?_ ?_
  · exact fun hdelete => List.mem_append_left _ hdelete
  · intro _
    have hne : v.fetches ≠ [] :=
      List.ne_nil_of_mem (List.mem_of_getElem? hfetching)
    rcases h.fetch hne with ⟨d, n, honly, hn, htype, hsize⟩
    rw [honly] at hfetching
    rcases eq_of_getElem?_singleton hfetching with ⟨rfl, rfl⟩
    refine ⟨{ arg := arg, stage := Stage.writing }, n, ?_, hn, htype, hsize⟩
    show v.fetches.set 0 _ = [_]
    rw [honly]
    rfl
  · intro hgone
    cases hgone

theorem Following.finish (h : Following v passed) {i : Nat} {arg : DownloadArg}
    (hwriting : v.fetches[i]? = some { arg := arg, stage := Stage.writing }) :
    Following { v with
      fetches := v.fetches.eraseIdx i
      node := v.node.map fun n =>
        { n with type := FILE_DOWNLOAD, size := arg.size } } passed := by
  have hne : v.fetches ≠ [] :=
    List.ne_nil_of_mem (List.mem_of_getElem? hwriting)
  rcases h.fetch hne with ⟨d, n, honly, hn, htype, hsize⟩
  have hfirst := hwriting
  rw [honly] at hfirst
  rcases eq_of_getElem?_singleton hfirst with ⟨rfl, rfl⟩
  have hlive : n.type ≠ FILE_DELETE := by
    rw [htype]
    decide
  have hsame : SameNews n { n with type := FILE_DOWNLOAD, size := arg.size } := by
    constructor
    · exact Node.version_eq_iff.mpr ⟨rfl, hsize⟩
    · constructor
      · exact fun hdelete => absurd hdelete hlive
      · intro hdelete
        change FILE_DOWNLOAD = FILE_DELETE at hdelete
        exact absurd hdelete (by decide)
  constructor
  · intro hrest
    dsimp only at hrest
    rw [honly] at hrest
    exact absurd rfl hrest
  · intro m hm
    dsimp only at hm
    rw [hn] at hm
    cases hm
    exact (h.told n hn).imp id fun htold =>
      (htold.sameNews hsame).congr rfl rfl
  · intro hempty m hm
    dsimp only at hm
    rw [hn] at hm
    cases hm
    rcases h.agrees hempty n hn with hdelete | hsent | hagrees | hmark
    · exact Or.inl hdelete
    · exact Or.inr (Or.inl hsent)
    · exact Or.inr (Or.inr (Or.inl (hagrees.sameNews hsame)))
    · exact Or.inr (Or.inr (Or.inr hmark))
  · intro m _ _ hgone
    rcases h.present n hn hlive hgone with hdelete | ⟨d, hd, hstage⟩
    · exact Or.inl hdelete
    · -- the file has been opened, so it was there
      rw [honly, List.mem_singleton] at hd
      subst hd
      cases hstage

/-!
### The monitor
-/

theorem following_sent {n' : Node} {rest : List EventKind}
    (hfetches : v.fetches = []) (hfile : n'.type ≠ FILE_DELETE -> v.file ≠ none) :
    Following (v.handle (some n', true) rest) passed := by
  constructor
  · intro hne
    exact absurd hfetches hne
  · intro n hn
    cases hn
    exact Or.inr (told_of_sent rfl)
  · intro _ n _
    apply Or.inr
    apply Or.inl
    exact List.append_ne_nil_of_right_ne_nil _ (List.cons_ne_nil _ _)
  · intro n hn hlive hgone
    cases hn
    exact absurd hgone (hfile hlive)

theorem Following.fetches_nil (h : Following v passed)
    (hidle : forall n, v.node = some n -> n.type ≠ FILE_DOWNLOADING) :
    v.fetches = [] := by
  by_contra hne
  rcases h.fetch hne with ⟨d, n, _, hn, htype, _⟩
  exact hidle n hn htype

theorem Following.handle (h : Following v passed) {now : UInt64}
    {event : Event} {rest : List EventKind} {result : Option Node × Bool}
    (hevents : v.events = event.kind :: rest)
    (hpass : passesFilter event = true)
    (hquiet : event.kind = EventKind.delete -> v.fetches = [])
    (hhandled : Handled now v.file event v.node result) :
    Following (v.handle result rest) passed := by
  generalize hfile? : v.file = file? at hhandled
  generalize hnode? : v.node = node? at hhandled
  cases hhandled with
  | removed hkind =>
      apply following_sent (hquiet hkind)
      intro hlive
      exact absurd rfl hlive
  | downloaded hfile htype _ =>
      refine following_sent (h.fetches_nil ?_) ?_
      · intro n hn
        rw [hnode?] at hn
        cases hn
        rw [htype]
        decide
      · intro _
        rw [hfile?]
        exact hfile
  | seen hstat _ _ hidle _ =>
      refine following_sent (h.fetches_nil ?_) ?_
      · intro n hn
        exact (hidle n (hnode?.symm.trans hn)).left
      · intro _
        rw [hfile?, hstat]
        exact Option.some_ne_none _
  | ignored hwhy =>
      cases Classical.em (v.node = none) with
      | inl hnone =>
          have hnever : forall n, node? ≠ some n := by
            intro n hn
            rw [← hnode?, hnone] at hn
            cases hn
          have hfetches : v.fetches = [] := by
            apply h.fetches_nil
            intro n hn
            exact absurd (hnode?.symm.trans hn) (hnever n)
          constructor
          · exact fun hne => absurd hfetches hne
          · exact fun n hn => absurd hn (hnever n)
          · exact fun _ n hn => absurd hn (hnever n)
          · exact fun n hn => absurd hn (hnever n)
      | inr hsome =>
          have hkind : event.kind ≠ EventKind.delete := by
            rcases hwhy hpass with ⟨_, hkind⟩ | ⟨hnone, _⟩ | ⟨_, _, hkind, _⟩
            · exact hkind
            · exact absurd (hnode?.trans hnone) hsome
            · exact hkind
          refine h.congr hnode?.symm rfl rfl rfl ?_ rfl rfl
          intro hdelete
          rw [hevents] at hdelete
          exact (List.mem_cons.mp hdelete).resolve_left (Ne.symm hkind)

theorem Following.resend (h : Following v passed) :
    Following v.resend passed where
  fetch := h.fetch
  told := by
    intro n hn
    apply Or.inr
    have hsent : v.resend.outbox = v.outbox ++ [some n] := by
      show v.outbox ++ [v.node] = v.outbox ++ [some n]
      rw [show v.node = some n from hn]
    exact told_of_sent hsent
  agrees := by
    intro _ n _
    apply Or.inr
    apply Or.inl
    exact List.append_ne_nil_of_right_ne_nil _ (List.cons_ne_nil _ _)
  present := h.present

/-!
### Comparing with a broadcast entry
-/

section Compare

variable {myip : Ip} {seekNode : Node} {node? : Option Node}

theorem compareEntry_of_starts (h : startsDownload seekNode node? = true) :
    exists n, compareEntry myip seekNode node? =
        (some n, some (Effect.startDownload
          (downloadArg seekNode.name seekNode))) ∧
      n.type = FILE_DOWNLOADING ∧ n.version = seekNode.version ∧
      n.size = seekNode.size := by
  cases node? with
  | none =>
      have hsize : seekNode.size > 0 := of_decide_eq_true h
      refine ⟨addedDownload myip (downloadArg seekNode.name seekNode), ?_, rfl,
        rfl, rfl⟩
      simp [compareEntry, hsize]
  | some n =>
      have hwants : wantsDownload n seekNode = true := h
      have hle : n.timestamp ≤ seekNode.timestamp :=
        versionOf_timestamp_le
          (le_of_lt (wantsDownload_iff.mp hwants).right.right.right)
      refine ⟨{ n with
        size := seekNode.size
        timestamp := seekNode.timestamp
        type := FILE_DOWNLOADING }, ?_, rfl, rfl, rfl⟩
      simp [compareEntry, hle, hwants]

theorem compareEntry_of_takes (hstarts : startsDownload seekNode node? = false)
    (h : takesDeletion seekNode node? = true) :
    seekNode.type = FILE_DELETE ∧
      exists n, node? = some n ∧ n.type ≠ FILE_DELETE ∧
        compareEntry myip seekNode node? =
          (some { n with type := FILE_DELETE },
            some (Effect.removeFile seekNode.name)) := by
  cases node? with
  | none => cases h
  | some n =>
      rcases of_decide_eq_true h with ⟨hdelete, hlive, hle⟩
      have hwants : wantsDownload n seekNode = false := hstarts
      refine ⟨hdelete, n, rfl, hlive, ?_⟩
      simp [compareEntry, hle, hwants, hdelete, hlive]

theorem compareEntry_of_keeps (hstarts : startsDownload seekNode node? = false)
    (h : takesDeletion seekNode node? = false) :
    compareEntry myip seekNode node? = (node?, none) := by
  cases node? with
  | none =>
      have hsize : ¬ seekNode.size > 0 := of_decide_eq_false hstarts
      simp [compareEntry, hsize]
  | some n =>
      have hwants : wantsDownload n seekNode = false := hstarts
      have hkeeps := of_decide_eq_false h
      unfold compareEntry
      dsimp only
      split
      · next hle =>
          rw [hwants, if_neg Bool.false_ne_true, if_neg]
          intro hdelete
          exact hkeeps ⟨hdelete.left, hdelete.right, hle⟩
      · rfl

end Compare

theorem following_begun {myip : Ip} {seekNode : Node} {rest : List Node}
    (horder : InOrder v) (hinbox : v.inbox = seekNode :: rest)
    (hfetches : v.fetches = [])
    (hstarts : startsDownload seekNode v.node = true) :
    Following (View.perform { v with
        inbox := rest
        node := (compareEntry myip seekNode v.node).1 }
      (compareEntry myip seekNode v.node).2) (passesOver seekNode v.node) := by
  rcases @compareEntry_of_starts myip seekNode v.node hstarts with
    ⟨n, hresult, htype, hversion, hsize⟩
  have hlive : n.type ≠ FILE_DELETE := by
    rw [htype]
    decide
  rw [hresult]
  constructor
  · intro _
    refine ⟨{ arg := downloadArg seekNode.name seekNode
              stage := Stage.fetching }, n, ?_, rfl, htype, hsize⟩
    show v.fetches ++ [_] = [_]
    rw [hfetches]
    rfl
  · intro m hm
    cases hm
    have hmem : seekNode ∈ v.inbox := by
      rw [hinbox]
      exact List.mem_cons_self
    rcases horder.bound hmem with ⟨t, ht, hle⟩
    exact Or.inr (told_of_version_le ht (hversion.trans_le hle) hlive)
  · intro hempty m hm
    cases hm
    change rest = [] at hempty
    rw [hempty] at hinbox
    have hentry := horder.only hinbox
    apply Or.inr
    apply Or.inr
    cases Classical.em (seekNode.type = FILE_DELETE) with
    | inl hdelete =>
        apply Or.inr
        cases hnode : v.node with
        | none =>
            rw [hnode] at hstarts
            have hpositive : seekNode.size > 0 := of_decide_eq_true hstarts
            exact decide_eq_true
              ⟨hdelete, UInt64.pos_iff_ne_zero.mp hpositive⟩
        | some n =>
            rw [hnode] at hstarts
            exact absurd hdelete (wantsDownload_iff.mp hstarts).right.right.left
    | inr hseek =>
        apply Or.inl
        intro t ht _
        change v.entry = some t at ht
        rw [hentry, Option.some_inj] at ht
        subst ht
        exact ⟨⟨fun h => absurd h hlive, fun h => absurd h hseek⟩,
          fun _ => hversion⟩
  · intro _ _ _ _
    apply Or.inr
    refine ⟨{ arg := downloadArg seekNode.name seekNode
              stage := Stage.fetching }, ?_, rfl⟩
    exact List.mem_append_right _ (List.mem_singleton_self _)

theorem following_removed {n : Node} {seekNode : Node}
    (hnode : v'.node = some n) (htype : n.type = FILE_DELETE)
    (hfetches : v'.fetches = []) (hevents : EventKind.delete ∈ v'.events) :
    Following v' (passesOver seekNode v.node) where
  fetch := fun hne => absurd hfetches hne
  told := fun _ _ => Or.inl hevents
  agrees := fun _ _ _ => Or.inl hevents
  present := by
    intro m hm hlive _
    rw [hnode] at hm
    cases hm
    exact absurd htype hlive

theorem Following.pass (h : Following v passed) {seekNode : Node}
    {rest : List Node} (horder : InOrder v)
    (hinbox : v.inbox = seekNode :: rest)
    (hcompared : Compared seekNode v.node (v.node, none)) :
    Following { v with inbox := rest } (passesOver seekNode v.node) where
  fetch := h.fetch
  told := h.told
  agrees := by
    intro hempty n hn
    change rest = [] at hempty
    change v.node = some n at hn
    rw [hempty] at hinbox
    rw [hn] at hcompared ⊢
    rcases h.told n hn with hdelete | htold
    · exact Or.inl hdelete
    · rcases htold.kept (horder.only hinbox) hcompared.kept with
        hsent | hlate | hagrees
      · exact Or.inr (Or.inl hsent)
      · exact Or.inr (Or.inr (Or.inr (decide_eq_true hlate)))
      · exact Or.inr (Or.inr (Or.inl hagrees))
  present := h.present

theorem Following.fetches_nil_of_starts (h : Following v passed)
    {seekNode : Node} (hstarts : startsDownload seekNode v.node = true) :
    v.fetches = [] := by
  apply h.fetches_nil
  intro n hn
  rw [hn] at hstarts
  exact (wantsDownload_iff.mp hstarts).right.left

theorem following_compared {m : Marks} {myip : Ip} {seekNode : Node}
    {rest : List Node} (h : m.deleted = false -> Following v m.passed)
    (horder : InOrder v) (hinbox : v.inbox = seekNode :: rest)
    (hkept : (m.compared v.fetches seekNode v.node).deleted = false) :
    Following (View.perform { v with
        inbox := rest
        node := (compareEntry myip seekNode v.node).1 }
      (compareEntry myip seekNode v.node).2)
      (m.compared v.fetches seekNode v.node).passed := by
  change Following _ (passesOver seekNode v.node)
  unfold Marks.compared at hkept
  dsimp only at hkept
  cases hstarts : startsDownload seekNode v.node with
  | true =>
      rw [hstarts, if_pos rfl, Bool.and_eq_false_iff] at hkept
      apply following_begun horder hinbox _ hstarts
      rcases hkept with hclean | hfetches
      · exact (h hclean).fetches_nil_of_starts hstarts
      · simpa using hfetches
  | false =>
      rw [hstarts, if_neg Bool.false_ne_true, Bool.or_eq_false_iff] at hkept
      have hv := h hkept.left
      cases htakes : takesDeletion seekNode v.node with
      | false =>
          have hresult :=
            @compareEntry_of_keeps myip seekNode v.node hstarts htakes
          have hcompared := compareEntry_compared myip seekNode v.node
          rw [hresult] at hcompared
          rw [hresult]
          exact hv.pass horder hinbox hcompared
      | true =>
          have hfetches : v.fetches = [] := by
            rw [htakes] at hkept
            simpa using hkept.right
          rcases @compareEntry_of_takes myip seekNode v.node hstarts htakes with
            ⟨_, n, hn, hlive, hresult⟩
          rw [hresult]
          rcases Option.eq_none_or_eq_some v.file with hfile | ⟨stat, hfile⟩
          · -- the event of the earlier removal has not been read yet
            rw [View.perform_removeFile_none (by exact hfile)]
            refine following_removed rfl rfl hfetches ?_
            rcases hv.present n hn hlive hfile with hdelete | ⟨d, hd, _⟩
            · exact hdelete
            · rw [hfetches] at hd
              cases hd
          · rw [View.perform_removeFile_some (by exact hfile)]
            refine following_removed rfl rfl hfetches ?_
            exact List.mem_append_right _ (List.mem_singleton_self _)

/-!
### Merging and broadcasting
-/

theorem Following.broadcast (h : Following v passed) {report? : Option Node}
    (hnode : v'.node = v.node) (hfile : v'.file = v.file)
    (hevents : v'.events = v.events) (hfetches : v'.fetches = v.fetches)
    (hentry : v'.entry = mergeReport report? v.entry)
    (hinbox : v'.inbox = v.inbox ++ (mergeReport report? v.entry).toList)
    (htold : forall n, Told v n -> Told v' n) : Following v' passed where
  fetch := by
    rw [hnode, hfetches]
    exact h.fetch
  told := by
    intro n hn
    rw [hnode] at hn
    rw [hevents]
    exact (h.told n hn).imp id (htold n)
  agrees := by
    intro hempty n _
    rw [hinbox, List.append_eq_nil_iff] at hempty
    apply Or.inr
    apply Or.inr
    apply Or.inl
    intro t ht
    rw [hentry, Option.toList_eq_nil_iff.mp hempty.right] at ht
    cases ht
  present := by
    rw [hnode, hfile, hevents, hfetches]
    exact h.present

end Following

/-!
## Steps
-/

theorem edit_none {v : View} {kind : EventKind} {stat? : Option FileStat}
    (h : Edit v kind stat?) : stat? = none -> kind = EventKind.delete := by
  intro hnone
  cases h with
  | create size hfile => cases hnone
  | modify size hfile => cases hnone
  | delete hfile => rfl

section Steps

variable {ip : ι -> Ip} {s s' : State ι} {p : ι} {f : FileName} {m : Marks}
  {x : PeerState}

theorem after_eq {a : LocalAction} (hnotify : a ≠ LocalAction.notify)
    (hcompare : a ≠ LocalAction.compare) : m.after f x a = m := by
  cases a with
  | notify => exact absurd rfl hnotify
  | compare => exact absurd rfl hcompare
  | _ => rfl

omit [DecidableEq ι] in
theorem Following.change {a : LocalAction} {v : View} {passed : Bool}
    (h : Following (view s p f) passed) (hnotify : a ≠ LocalAction.notify)
    (hcompare : a ≠ LocalAction.compare)
    (hchange : Change ip s p f (Action.peer p a) v) : Following v passed := by
  cases hchange with
  | elsewhere => exact h
  | clock now => exact h.congr rfl rfl rfl rfl id rfl rfl
  | edited hedit => exact h.touch _ (edit_none hedit)
  | opened hkind hfetching => exact h.open hfetching
  | wrote hfetching =>
      apply h.touch
      intro hnone
      cases hnone
  | handled hevents hname hview => exact absurd rfl hnotify
  | resent hevents hname hsent => exact absurd rfl hnotify
  | compared hinbox hname hview => exact absurd rfl hcompare
  | finished hdownload hname hwriting => exact h.finish hwriting
  | closed hdownload hname hquiet => exact h.congr rfl rfl rfl rfl id rfl rfl
  | flushed hactive =>
      apply h.touch
      intro hnone
      cases hnone

omit [DecidableEq ι] in
theorem following_notify (h : m.deleted = false ->
      Following (view s p f) m.passed)
    (hguard : forall event later, (s.peers p).events = event :: later ->
      event.name = f -> passesFilter event = true)
    (hnotify : (s.peers p).notify (ip p) = some x)
    (hkept : (m.after f (s.peers p) LocalAction.notify).deleted = false) :
    Following (viewOf s.ft x f)
      (m.after f (s.peers p) LocalAction.notify).passed := by
  unfold Marks.after at hkept ⊢
  dsimp only at hkept ⊢
  cases hevents : (s.peers p).events with
  | nil =>
      unfold PeerState.notify at hnotify
      rw [hevents] at hnotify
      cases hnotify
  | cons event later =>
      rw [hevents] at hkept
      dsimp only at hkept ⊢
      cases Classical.em (event.name = f) with
      | inr hname =>
          rw [if_neg fun hboth => hname hboth.left] at hkept ⊢
          rw [notify_view_of_ne hnotify hevents hname]
          split
          · exact (h hkept).resend
          · exact h hkept
      | inl hname =>
          subst hname
          have hview : (view s p event.name).events =
              event.kind :: eventsOf event.name later := by
            change eventsOf event.name (s.peers p).events = _
            rw [hevents, eventsOf_cons_self rfl]
          have hpass := hguard event later hevents rfl
          rw [notify_view hnotify hevents]
          cases Classical.em (event.kind = EventKind.delete) with
          | inl hkind =>
              rw [if_pos ⟨rfl, hkind⟩] at hkept ⊢
              unfold Marks.erased at hkept
              rw [Bool.or_eq_false_iff] at hkept
              refine (h hkept.left).handle hview hpass ?_
                (notifyNode_handled _)
              intro _
              change (s.peers p).downloads.filter _ = []
              simpa using hkept.right
          | inr hkind =>
              rw [if_neg fun hboth => hkind hboth.right] at hkept ⊢
              exact (h hkept).handle hview hpass
                (fun hdelete => absurd hdelete hkind) (notifyNode_handled _)

omit [DecidableEq ι] in
theorem following_compare (h : m.deleted = false ->
      Following (view s p f) m.passed) (horder : InOrder (view s p f))
    (hcompare : (s.peers p).compare (ip p) = some x)
    (hkept : (m.after f (s.peers p) LocalAction.compare).deleted = false) :
    Following (viewOf s.ft x f)
      (m.after f (s.peers p) LocalAction.compare).passed := by
  unfold Marks.after at hkept ⊢
  dsimp only at hkept ⊢
  cases hinbox : (s.peers p).inbox with
  | nil =>
      unfold PeerState.compare at hcompare
      rw [hinbox] at hcompare
      cases hcompare
  | cons seekNode rest =>
      rw [hinbox] at hkept
      dsimp only at hkept ⊢
      cases Classical.em (seekNode.name = f) with
      | inr hname =>
          rw [if_neg hname] at hkept ⊢
          rw [compare_view_of_ne hcompare hinbox hname]
          exact h hkept
      | inl hname =>
          subst hname
          have hview : (view s p seekNode.name).inbox =
              seekNode :: inboxOf seekNode.name rest := by
            change inboxOf seekNode.name (s.peers p).inbox = _
            rw [hinbox, inboxOf_cons_self rfl]
          rw [if_pos rfl] at hkept ⊢
          rw [compare_view hcompare hinbox]
          exact following_compared h horder hview hkept

theorem following_step (h : m.deleted = false ->
      Following (view s p f) m.passed) (horder : InOrder (view s p f))
    {a : LocalAction}
    (hguard : a = LocalAction.notify ->
      forall event later, (s.peers p).events = event :: later ->
        event.name = f -> passesFilter event = true)
    (hstep : step ip s (Action.peer p a) = some s')
    (hkept : (m.after f (s.peers p) a).deleted = false) :
    Following (view s' p f) (m.after f (s.peers p) a).passed := by
  rcases Option.map_eq_some_iff.mp hstep with ⟨x, hx, rfl⟩
  unfold view
  dsimp only
  rw [Function.update_self]
  cases Classical.em (a = LocalAction.notify) with
  | inl hnotify =>
      subst hnotify
      exact following_notify h (hguard rfl) hx hkept
  | inr hnotify =>
      cases Classical.em (a = LocalAction.compare) with
      | inl hcompare =>
          subst hcompare
          exact following_compare h horder hx hkept
      | inr hcompare =>
          rw [after_eq hnotify hcompare] at hkept ⊢
          exact (h hkept).change hnotify hcompare (localStep_change hx f)

end Steps

/-!
## Runs
-/

structure Attended (f : FileName) (w : Watched ι) : Prop where
  settling : forall p, Settling (view w.sys p f)
  inOrder : forall p, InOrder (view w.sys p f)
  following : forall p, (w.marks p).deleted = false ->
    Following (view w.sys p f) (w.marks p).passed

section Run

variable {ip : ι -> Ip} {f : FileName} {start : State ι} {w w' : Watched ι}

omit [DecidableEq ι] in
theorem fetches_of_last {s : State ι} {p : ι} {index : Nat}
    {arg : DownloadArg}
    (hclosing : (s.peers p).downloads[index]? =
      some { arg := arg, stage := Stage.closing })
    (hlast : ((s.peers p).downloads.eraseIdx index).any (Download.concerns f) =
      false) : (view s p f).fetches = [] := by
  change (s.peers p).downloads.filter (Download.runs f) = []
  rw [← filter_eraseIdx hclosing (by simp [Download.runs])]
  apply List.filter_eq_nil_iff.mpr
  intro d hd hruns
  have hconcerns := List.any_eq_false.mp hlast d hd
  simp only [Download.runs, Bool.and_eq_true] at hruns
  exact hconcerns hruns.left

omit [DecidableEq ι] in
theorem settling_step (h : Attended f w) {a : Action ι}
    (hguard : TellsChanges f w a) {p : ι} {v : View}
    (hchange : Change ip w.sys p f a v) : Settling v := by
  have hv := h.settling p
  cases hchange with
  | elsewhere a => exact hv
  | clock now =>
      exact ⟨hv.types, hv.told, hv.agrees, hv.unknown, hv.fetching, hv.removed,
        hv.present⟩
  | edited hedit => exact hv.touch _ _ id (edit_none hedit)
  | opened hkind hfetching =>
      refine hv.touch _ _ ?_ ?_
      · intro hne hnil
        exact hne ((List.set_eq_nil_iff _ _).mp hnil)
      · intro hnone
        cases hnone
  | wrote hfetching =>
      refine hv.touch _ _ id ?_
      intro hnone
      cases hnone
  | handled hevents hname hview =>
      exact hv.handle active_of_fetches hview (hguard _ _ hevents hname)
        (notifyNode_handled _)
  | resent hevents hname hsent => exact hv.resend
  | compared hinbox hname hview =>
      exact hv.compare (h.inOrder p) active_of_fetches hview
        (compareEntry_compared _ _ _)
  | finished hdownload hname hwriting =>
      exact hv.finish (active_of_fetches
        (List.ne_nil_of_mem (List.mem_of_getElem? hwriting)))
  | closed hdownload hname hquiet =>
      apply hv.close
      intro hevents hlast
      have hmarks := hguard _ hdownload hname hquiet hevents hlast
      exact (h.following p hmarks.left).nothingToTell hevents
        (fetches_of_last hdownload hlast) hmarks.right
  | flushed hactive =>
      refine hv.touch _ _ id ?_
      intro hnone
      cases hnone
  | merged houtbox =>
      apply hv.merged houtbox
      intro r hr
      rw [hr] at houtbox
      exact hguard r _ houtbox
  | mergedOther hne houtbox => exact hv.mergedOther _

omit [DecidableEq ι] in
theorem Following.merge {s : State ι} {p q : ι} {v : View} {passed : Bool}
    (h : Following (view s p f) passed)
    (hguard : forall r rest, (view s q f).outbox = some r :: rest ->
      r.type = FILE_DELETE ->
      forall t, entry f s.ft = some t -> t.version = r.version ->
        t.type = FILE_DELETE)
    (hchange : Change ip s p f (Action.merge q) v) : Following v passed := by
  cases hchange with
  | elsewhere => exact h
  | merged houtbox =>
      refine h.broadcast rfl rfl rfl rfl rfl rfl ?_
      intro n htold
      apply htold.merged houtbox
      intro r hr
      rw [hr] at houtbox
      exact hguard r _ houtbox
  | mergedOther hne houtbox =>
      refine h.broadcast rfl rfl rfl rfl rfl rfl ?_
      exact fun n htold => htold.mergedOther _

theorem attended_step (hs : Sane ip w.sys) (h : Attended f w) {a : Action ι}
    (hguard : TellsChanges f w a) (hstep : watchStep ip f w a = some w') :
    Attended f w' := by
  rcases Option.map_eq_some_iff.mp hstep with ⟨s, hs', rfl⟩
  refine ⟨?_, ?_, ?_⟩
  · intro p
    exact settling_step h hguard (step_change hs hs' p f)
  · intro p
    exact (step_change hs hs' p f).inOrder (h.inOrder p)
  · intro p hkept
    cases a with
    | merge q =>
        exact (h.following p hkept).merge hguard (step_change hs hs' p f)
    | peer q a =>
        cases Classical.em (p = q) with
        | inr hpq =>
            dsimp only [marksAfter] at hkept ⊢
            rw [Function.update_of_ne hpq] at hkept ⊢
            rw [step_view_of_ne hs' hpq f]
            exact h.following p hkept
        | inl hpq =>
            subst hpq
            dsimp only [marksAfter] at hkept ⊢
            rw [Function.update_self] at hkept ⊢
            refine following_step (h.following p) (h.inOrder p) ?_ hs' hkept
            intro hnotify
            subst hnotify
            exact hguard

omit [DecidableEq ι] in
theorem settling_of_started (h : Started start) (p : ι) (f : FileName) :
    Settling (view start p f) := by
  rcases h.peers p with ⟨clock, files, hp⟩
  have hnode : (view start p f).node = none := by
    change lookup Node.name f (start.peers p).table = none
    rw [hp]
    rfl
  have hevents : (view start p f).events = [] := by
    change eventsOf f (start.peers p).events = []
    rw [hp]
    rfl
  have hinbox : (view start p f).inbox = (view start p f).entry.toList := by
    change inboxOf f (start.peers p).inbox = (entry f start.ft).toList
    rw [hp]
    exact filter_key_eq_lookup h.names f
  have hnever : forall n, (view start p f).node ≠ some n := by
    intro n hn
    rw [hnode] at hn
    cases hn
  constructor
  · exact fun n hn => absurd hn (hnever n)
  · exact fun n hn => absurd hn (hnever n)
  · exact fun _ n hn => absurd hn (hnever n)
  · intro hempty _ t ht
    rw [hinbox, ht] at hempty
    cases hempty
  · exact fun n hn => absurd hn (hnever n)
  · intro _ hne
    exact absurd hevents hne
  · exact fun n hn => absurd hn (hnever n)

omit [DecidableEq ι] in
theorem attended_of_started (h : Started start) : Attended f (watched start) where
  settling := fun p => settling_of_started h p f
  inOrder := fun p => inOrder_of_started h p f
  following := by
    intro p _
    rcases h.peers p with ⟨clock, files, hp⟩
    have hnever : forall n, (view start p f).node ≠ some n := by
      intro n hn
      change lookup Node.name f (start.peers p).table = some n at hn
      rw [hp] at hn
      cases hn
    constructor
    · intro hne
      change (start.peers p).downloads.filter _ ≠ [] at hne
      rw [hp] at hne
      exact absurd rfl hne
    · exact fun n hn => absurd hn (hnever n)
    · exact fun _ n hn => absurd hn (hnever n)
    · exact fun n hn => absurd hn (hnever n)

omit [DecidableEq ι] in
theorem agreesOn_of_settling {s : State ι}
    (h : forall p, Settling (view s p f)) (hquiet : Quiescent s) : AgreesOn f s := by
  intro p t ht
  rcases hquiet p with ⟨hevents, houtbox, hinbox, hdownloads⟩
  have hinbox' : (view s p f).inbox = [] := by
    change inboxOf f (s.peers p).inbox = []
    rw [hinbox]
    rfl
  have houtbox' : (view s p f).outbox = [] := by
    change (s.peers p).outbox.map (lookup Node.name f) = []
    rw [houtbox]
    rfl
  have hidle : ¬ Busy (view s p f) := by
    intro hbusy
    rcases hbusy with hbusy | hbusy
    · apply hbusy
      change eventsOf f (s.peers p).events = []
      rw [hevents]
      rfl
    · change (s.peers p).downloads.any (Download.concerns f) = true at hbusy
      rw [hdownloads] at hbusy
      cases hbusy
  have hagrees : forall n, lookup Node.name f (s.peers p).table = some n ->
      Agrees n (entry f s.ft) := by
    intro n hn
    rcases (h p).agrees hinbox' n hn with hagrees | hsent | ⟨hbusy, _⟩
    · exact hagrees
    · exact absurd houtbox' hsent
    · exact absurd hbusy hidle
  constructor
  · intro hrelevant n hn
    rcases hagrees n hn t ht hrelevant with ⟨htype, hversion⟩
    exact ⟨htype, fun hlive => Node.version_eq_iff.mp (hversion hlive)⟩
  · intro hlive hsize
    cases hnode : lookup Node.name f (s.peers p).table with
    | none => exact absurd ((h p).unknown hinbox' hnode t ht) hsize
    | some n =>
        refine ⟨rfl, ?_⟩
        intro hgone
        have htype := (hagrees n hnode t ht (Or.inr hsize)).left
        exact hidle ((h p).present n hnode
          (fun hdelete => hlive (htype.mp hdelete)) hgone)

/-- In every run whose steps tell the changes of the file, the quiescent states
agree on it. -/
theorem reachable_quiescent_agreesOn (hstarted : Started start)
    (h : Reachable (watchStep ip f) (TellsChanges f) (watched start) w)
    (hquiet : Quiescent w.sys) : AgreesOn f w.sys := by
  have hboth : Sane ip w.sys ∧ Attended f w := by
    apply h.invariant (P := fun w => Sane ip w.sys ∧ Attended f w)
      ⟨sane_of_started hstarted, attended_of_started hstarted⟩
    intro w a w' hinv hguard hstep
    rcases Option.map_eq_some_iff.mp hstep with ⟨s, hs, hw⟩
    refine ⟨?_, attended_step hinv.left hinv.right hguard hstep⟩
    rw [← hw]
    exact sane_step hinv.left hs
  exact agreesOn_of_settling hboth.right.settling hquiet

end Run

/-!
## Runs that settle
-/

open DartSync.Sample Sample

theorem created_file_agreesOn :
    exists w, Reachable (watchStep ips fileA) (TellsChanges fileA)
        (watched twoPeers) w ∧
      Quiescent w.sys ∧ (entry fileA w.sys.ft).isSome = true ∧
      (lookup Node.name fileA (w.sys.peers false).table).isSome = true ∧
      AgreesOn fileA w.sys := by
  have h1 : Reachable (watchStep ips fileA) (TellsChanges fileA)
      (watched twoPeers) _ :=
    Reachable.step (a := Action.peer true (LocalAction.userCreate fileA 5))
      Reachable.start trivial rfl
  have h2 : Reachable (watchStep ips fileA) (TellsChanges fileA)
      (watched twoPeers) _ :=
    Reachable.step (a := Action.peer true LocalAction.notify) h1
      (by
        intro event later hevents _
        cases hevents
        decide) rfl
  have h3 : Reachable (watchStep ips fileA) (TellsChanges fileA)
      (watched twoPeers) _ :=
    Reachable.step (a := Action.merge true) h2
      (by
        intro r rest houtbox hdelete
        cases houtbox
        exact absurd hdelete (by decide)) rfl
  have h4 : Reachable (watchStep ips fileA) (TellsChanges fileA)
      (watched twoPeers) _ :=
    Reachable.step (a := Action.peer true LocalAction.compare) h3 trivial rfl
  have h5 : Reachable (watchStep ips fileA) (TellsChanges fileA)
      (watched twoPeers) _ :=
    Reachable.step (a := Action.peer false LocalAction.compare) h4 trivial rfl
  have h6 : Reachable (watchStep ips fileA) (TellsChanges fileA)
      (watched twoPeers) _ :=
    Reachable.step (a := Action.peer false (LocalAction.openFile 0)) h5
      trivial rfl
  have h7 : Reachable (watchStep ips fileA) (TellsChanges fileA)
      (watched twoPeers) _ :=
    Reachable.step (a := Action.peer false LocalAction.notify) h6
      (by
        intro event later hevents _
        cases hevents
        decide) rfl
  have h8 : Reachable (watchStep ips fileA) (TellsChanges fileA)
      (watched twoPeers) _ :=
    Reachable.step (a := Action.peer false (LocalAction.setNodeType 0)) h7
      trivial rfl
  have h9 : Reachable (watchStep ips fileA) (TellsChanges fileA)
      (watched twoPeers) _ :=
    Reachable.step (a := Action.peer false (LocalAction.closeFile 0 none)) h8
      (by
        intro _ _ _ _ _ _
        refine ⟨rfl, ?_⟩
        intro hpassed
        exact absurd hpassed (by decide)) rfl
  refine ⟨_, h9, ?_, rfl, rfl,
    reachable_quiescent_agreesOn twoPeers_started h9 ?_⟩
  · intro p
    cases p <;> exact ⟨rfl, rfl, rfl, rfl⟩
  · intro p
    cases p <;> exact ⟨rfl, rfl, rfl, rfl⟩

def deleteInSameSecond : List (Action Unit) :=
  [Action.peer () (LocalAction.userCreate fileA 5),
    Action.peer () LocalAction.notify, Action.merge (),
    Action.peer () LocalAction.compare,
    Action.peer () (LocalAction.userDelete fileA),
    Action.peer () LocalAction.notify, Action.merge (),
    Action.peer () LocalAction.compare]

/-- A newer version is broadcast while the older one is being downloaded, and
nothing tells of the end of the download. -/
def passedOverForGood : List (Action Bool) :=
  [Action.peer true (LocalAction.userCreate fileA 5),
    Action.peer true LocalAction.notify, Action.merge true,
    Action.peer true LocalAction.compare,
    Action.peer false LocalAction.compare,
    Action.peer true (LocalAction.userWrite fileA 7),
    Action.peer true LocalAction.notify, Action.merge true,
    Action.peer true LocalAction.compare,
    Action.peer false LocalAction.compare,
    Action.peer false (LocalAction.openFile 0),
    Action.peer false LocalAction.notify,
    Action.peer false (LocalAction.setNodeType 0),
    Action.peer false (LocalAction.closeFile 0 none)]

def atRest (x : PeerState) : Bool :=
  x.events = [] ∧ x.outbox = [] ∧ x.inbox = [] ∧ x.downloads = []

/-- The peer has another version than the tracker, or has deleted what is live
there. -/
def disagrees (ft : FileTable) (x : PeerState) : Bool :=
  (entry fileA ft).any fun t =>
    (lookup Node.name fileA x.table).any fun n =>
      t.type ≠ FILE_DELETE ∧ t.size ≠ 0 ∧
        (n.type = FILE_DELETE ∨ n.size ≠ t.size)

omit [DecidableEq ι] in
theorem not_agreesOn_of_disagrees {s : State ι} {p : ι}
    (h : disagrees s.ft (s.peers p) = true) : ¬ AgreesOn fileA s := by
  rcases (Option.any_eq_true _ _).mp h with ⟨t, ht, hcheck⟩
  rcases (Option.any_eq_true _ _).mp hcheck with ⟨n, hn, hcheck⟩
  rcases of_decide_eq_true hcheck with ⟨hlive, hsize, hdiffer⟩
  intro hagrees
  have hboth := (hagrees p t ht).left (Or.inr hsize) n hn
  rcases hdiffer with hdelete | hother
  · exact hlive (hboth.left.mp hdelete)
  · exact hother (hboth.right hlive).right

theorem lost_delete_reachable :
    (Started onePeer ∧
      exists s, runFrom (step onlyIp) onePeer deleteInSameSecond = some s ∧
        Quiescent s ∧ ¬ AgreesOn fileA s) ∧
    (Started twoPeers ∧
      exists s, runFrom (step ips) twoPeers passedOverForGood = some s ∧
        Quiescent s ∧ ¬ AgreesOn fileA s) := by
  refine ⟨⟨onePeer_started, ?_⟩, ⟨twoPeers_started, ?_⟩⟩
  · have hcheck : (runFrom (step onlyIp) onePeer deleteInSameSecond).any
        (fun s => atRest (s.peers ()) && disagrees s.ft (s.peers ())) =
          true := by decide
    rcases (Option.any_eq_true _ _).mp hcheck with ⟨s, hs, hboth⟩
    rw [Bool.and_eq_true] at hboth
    exact ⟨s, hs, fun p => of_decide_eq_true hboth.left,
      not_agreesOn_of_disagrees hboth.right⟩
  · have hcheck : (runFrom (step ips) twoPeers passedOverForGood).any
        (fun s => (atRest (s.peers true) && atRest (s.peers false)) &&
          disagrees s.ft (s.peers false)) = true := by decide
    rcases (Option.any_eq_true _ _).mp hcheck with ⟨s, hs, hboth⟩
    rw [Bool.and_eq_true, Bool.and_eq_true] at hboth
    refine ⟨s, hs, ?_, not_agreesOn_of_disagrees hboth.right⟩
    intro p
    cases p with
    | true => exact of_decide_eq_true hboth.left.left
    | false => exact of_decide_eq_true hboth.left.right

end System
end DartSync
