import DartSync.System.Change

/-!
# Who holds a listed version

The tracker lists an address under a live entry when that peer has reported the
entry's version.  A report can be premature: `compareNode` gives a node the
announced version before the download starts, and an event of any other file
sends the whole table.  Nor does a peer that has reported a version always keep
it: a file that shrinks within a second takes its node to an older version,
from which `compareNode` starts to download the reported one again.  The lists
are sound in the runs without such a report and without such a step back.
-/

namespace DartSync
namespace System

open Foundation Peer Tracker

variable {ι : Type}

/-- Every address listed for a live entry belongs to a peer that is not still
downloading the version of the entry. -/
def SourcesHold (ip : ι -> Ip) (f : FileName) (s : State ι) : Prop :=
  forall e, entry f s.ft = some e -> e.type ≠ FILE_DELETE ->
    forall i, i ∈ e.ipSet ->
      exists p, ip p = i ∧
        ¬ exists n, lookup Node.name f (s.peers p).table = some n ∧
          n.type = FILE_DOWNLOADING ∧ n.version = e.version

/-- What is read of a file is not older than its node. -/
def NoStepBack (now : UInt64) (stat? : Option FileStat) (n : Node) :
    EventKind -> Prop
  | EventKind.delete => n.timestamp ≤ now
  | EventKind.create =>
      n.type = FILE_DELETE -> forall stat, stat? = some stat ->
        n.version ≤ versionOf stat.mtime stat.size
  | EventKind.modify =>
      n.type ≠ FILE_DOWNLOADING -> n.type ≠ FILE_DOWNLOAD ->
        forall stat, stat? = some stat ->
          n.version ≤ versionOf stat.mtime stat.size

/-- No table is sent for another file while `f` is being downloaded, and no
event and no end of a download takes the node of `f` to an older version. -/
def ReportsWhatItHas (ip : ι -> Ip) (f : FileName) (s : State ι) :
    Action ι -> Prop
  | Action.peer p LocalAction.notify =>
      forall event later, (s.peers p).events = event :: later ->
        forall n, lookup Node.name f (s.peers p).table = some n ->
          (event.name ≠ f ->
            (notifyEvent (ip p) (s.peers p).clock
              ((s.peers p).files event.name) event (s.peers p).table).2 =
                true ->
              n.type ≠ FILE_DOWNLOADING) ∧
          (event.name = f -> passesFilter event = true ->
            NoStepBack (s.peers p).clock ((s.peers p).files f) n event.kind)
  | Action.peer p (LocalAction.setNodeType index) =>
      forall arg, (s.peers p).downloads[index]? =
          some { arg := arg, stage := Stage.writing } ->
        arg.filename = f ->
        forall n, lookup Node.name f (s.peers p).table = some n ->
          n.size ≤ arg.size
  | _ => True

/-!
## The invariant
-/

/-- The peer is listed for the version, or has said so in a table that is still
on its way. -/
def Reported (myip : Ip) (v : View) (version : Version) : Prop :=
  (exists e, v.entry = some e ∧ e.type ≠ FILE_DELETE ∧
    e.version = version ∧ myip ∈ e.ipSet) ∨
  exists n, some n ∈ v.outbox ∧ n.version = version

structure SoundReports (myip : Ip) (v : View) : Prop where
  fetches : forall n, v.node = some n -> n.type = FILE_DOWNLOADING ->
    ¬ Reported myip v n.version
  behind : forall version, Reported myip v version ->
    exists n, v.node = some n ∧ version ≤ n.version

structure SoundSources (ip : ι -> Ip) (f : FileName) (s : State ι) :
    Prop where
  reports : forall p, SoundReports (ip p) (view s p f)
  listed : forall e, entry f s.ft = some e ->
    forall i, i ∈ e.ipSet -> exists p, ip p = i

section Reports

variable {myip : Ip} {v v' : View}

theorem Reported.congr {version : Version} (h : Reported myip v' version)
    (hentry : v'.entry = v.entry) (houtbox : v'.outbox = v.outbox) :
    Reported myip v version := by
  unfold Reported at h
  rw [hentry, houtbox] at h
  exact h

theorem SoundReports.congr (h : SoundReports myip v)
    (hnode : v'.node = v.node) (hentry : v'.entry = v.entry)
    (houtbox : v'.outbox = v.outbox) : SoundReports myip v' where
  fetches := by
    intro n hn htype hreported
    rw [hnode] at hn
    exact h.fetches n hn htype (hreported.congr hentry houtbox)
  behind := by
    intro version hreported
    rw [hnode]
    exact h.behind version (hreported.congr hentry houtbox)

theorem SoundReports.advance (h : SoundReports myip v)
    (hentry : v'.entry = v.entry) (houtbox : v'.outbox = v.outbox)
    (hidle : forall n, v'.node = some n -> n.type ≠ FILE_DOWNLOADING)
    (hversion : forall n, v.node = some n ->
      exists n', v'.node = some n' ∧ n.version ≤ n'.version) :
    SoundReports myip v' where
  fetches := fun n hn htype => absurd htype (hidle n hn)
  behind := by
    intro version hreported
    rcases h.behind version (hreported.congr hentry houtbox) with
      ⟨n, hn, hle⟩
    rcases hversion n hn with ⟨n', hn', hle'⟩
    exact ⟨n', hn', le_trans hle hle'⟩

theorem SoundReports.send (h : SoundReports myip v)
    (hidle : forall n, v.node = some n -> n.type ≠ FILE_DOWNLOADING)
    (hnode : v'.node = v.node) (hentry : v'.entry = v.entry)
    (houtbox : v'.outbox = v.outbox ++ [v.node]) :
    SoundReports myip v' where
  fetches := by
    intro n hn htype
    rw [hnode] at hn
    exact absurd htype (hidle n hn)
  behind := by
    intro version hreported
    rw [hnode]
    rcases hreported with ⟨e, he, hlive⟩ | ⟨n, hn, hversion⟩
    · rw [hentry] at he
      exact h.behind version (Or.inl ⟨e, he, hlive⟩)
    · rw [houtbox] at hn
      rcases List.mem_append.mp hn with hn | hn
      · exact h.behind version (Or.inr ⟨n, hn, hversion⟩)
      · exact ⟨n, (List.mem_singleton.mp hn).symm, hversion.ge⟩

end Reports

theorem notifyNode_noStepBack {myip : Ip} {now : UInt64}
    {stat? : Option FileStat} {event : Event} {n : Node}
    (h : passesFilter event = true -> NoStepBack now stat? n event.kind) :
    exists n', (notifyNode myip now stat? event (some n)).1 = some n' ∧
      n.version ≤ n'.version := by
  unfold notifyNode
  split
  · next hpass =>
      have hguard := h hpass
      cases hkind : event.kind with
      | delete =>
          rw [hkind] at hguard
          refine ⟨_, rfl, ?_⟩
          exact versionOf_le_of_timestamp_le hguard
      | create =>
          rw [hkind] at hguard
          cases stat? with
          | none => exact ⟨n, rfl, le_refl _⟩
          | some stat =>
              refine ⟨_, rfl, ?_⟩
              dsimp only [addedNode]
              split
              · split
                · exact le_refl _
                · split
                  · exact le_refl _
                  · exact le_refl _
              · next hdeleted =>
                  exact hguard (not_not.mp hdeleted) stat rfl
      | modify =>
          rw [hkind] at hguard
          cases stat? with
          | none => exact ⟨n, rfl, le_refl _⟩
          | some stat =>
              refine ⟨_, rfl, ?_⟩
              dsimp only [modifiedNode]
              split
              · exact le_refl _
              · next hidle =>
                  split
                  · exact le_refl _
                  · next hseen => exact hguard hidle hseen stat rfl
  · exact ⟨n, rfl, le_refl _⟩

section ReportSteps

variable {myip : Ip} {v v' : View}

theorem SoundReports.handle {now : UInt64} {stat? : Option FileStat}
    {event : Event} (h : SoundReports myip v) (rest : List EventKind)
    (hguard : forall n, v.node = some n -> passesFilter event = true ->
      NoStepBack now stat? n event.kind) :
    SoundReports myip
      (v.handle (notifyNode myip now stat? event v.node) rest) := by
  have hversion : forall n, v.node = some n ->
      exists n', (notifyNode myip now stat? event v.node).1 = some n' ∧
        n.version ≤ n'.version := by
    intro n hn
    rw [hn]
    exact notifyNode_noStepBack (hguard n hn)
  have hhandled := @notifyNode_handled myip now stat? event v.node
  generalize notifyNode myip now stat? event v.node = result at hversion hhandled
  rcases hhandled.idle with hignored | ⟨hsent, hidle⟩
  · rw [hignored]
    exact h.congr rfl rfl rfl
  · have hadvanced :
        SoundReports myip { v with events := rest, node := result.1 } :=
      h.advance rfl rfl hidle hversion
    have houtbox : (v.handle result rest).outbox = v.outbox ++ [result.1] := by
      simp [View.handle, hsent]
    exact hadvanced.send hidle rfl rfl houtbox

theorem perform_fields (v : View) (effect? : Option Effect) :
    (v.perform effect?).node = v.node ∧
      (v.perform effect?).entry = v.entry ∧
      (v.perform effect?).outbox = v.outbox := by
  unfold View.perform
  split
  · exact ⟨rfl, rfl, rfl⟩
  · exact ⟨rfl, rfl, rfl⟩
  · split <;> exact ⟨rfl, rfl, rfl⟩

/-- `compareNode` starts to download only what is newer than the node, so than
all that has been reported. -/
theorem SoundReports.compare {seekNode : Node} {rest : List Node}
    {result : Option Node × Option Effect} (h : SoundReports myip v)
    (hcompared : Compared seekNode v.node result) :
    SoundReports myip
      ({ v with inbox := rest, node := result.1 }.perform result.2) := by
  rcases perform_fields { v with inbox := rest, node := result.1 } result.2 with
    ⟨hnode, hentry, houtbox⟩
  apply SoundReports.congr (v := { v with inbox := rest, node := result.1 })
    ?_ hnode hentry houtbox
  generalize hbefore : v.node = node? at hcompared
  cases hcompared with
  | @download _ n' _ hversion hnewer =>
      have hreported : forall version, Reported myip v version ->
          version < n'.version := by
        intro version hreported
        rcases h.behind version hreported with ⟨n, hn, hle⟩
        rw [hversion]
        exact lt_of_le_of_lt hle (hnewer n (hbefore.symm.trans hn))
      constructor
      · intro n hn _ hsaid
        cases hn
        exact lt_irrefl _ (hreported _ (hsaid.congr rfl rfl))
      · intro version hsaid
        exact ⟨n', rfl, le_of_lt (hreported _ (hsaid.congr rfl rfl))⟩
  | remove _ _ _ =>
      refine h.advance rfl rfl ?_ ?_
      · intro n' hn'
        cases hn'
        show FILE_DELETE ≠ FILE_DOWNLOADING
        decide
      · intro m hm
        cases hbefore.symm.trans hm
        exact ⟨_, rfl, le_refl _⟩
  | absent _ => exact h.congr hbefore.symm rfl rfl
  | keep _ => exact h.congr hbefore.symm rfl rfl

theorem Reported.of_merge {reporter : Ip} {report? : Option Node}
    {version : Version} (h : Reported myip v' version)
    (hreporter : forall n, report? = some n -> n.reporter = reporter)
    (hown : myip = reporter -> report? ∈ v.outbox)
    (houtbox : forall n, n ∈ v'.outbox -> n ∈ v.outbox)
    (hentry : v'.entry = mergeReport report? v.entry) :
    Reported myip v version := by
  rcases h with ⟨e, he, hlive, hversion, hmem⟩ | ⟨m, hm, hversion⟩
  · rw [hentry] at he
    cases report? with
    | none => exact Or.inl ⟨e, he, hlive, hversion, hmem⟩
    | some r =>
        cases he
        rcases mem_ipSet_mergeEntry hmem with
          ⟨hip, hr⟩ | ⟨t, ht, hmem, ht_version, ht_type⟩
        · right
          refine ⟨r, hown (hip.trans (hreporter r rfl)), ?_⟩
          rw [← hversion, hr]
        · left
          exact ⟨t, ht, ht_type ▸ hlive, ht_version.symm.trans hversion, hmem⟩
  · exact Or.inr ⟨m, houtbox _ hm, hversion⟩

theorem SoundReports.merge {reporter : Ip} {report? : Option Node}
    (h : SoundReports myip v)
    (hreporter : forall n, report? = some n -> n.reporter = reporter)
    (hown : myip = reporter -> report? ∈ v.outbox)
    (hnode : v'.node = v.node)
    (houtbox : forall n, n ∈ v'.outbox -> n ∈ v.outbox)
    (hentry : v'.entry = mergeReport report? v.entry) :
    SoundReports myip v' where
  fetches := by
    intro n hn htype hreported
    rw [hnode] at hn
    exact h.fetches n hn htype
      (hreported.of_merge hreporter hown houtbox hentry)
  behind := by
    intro version hreported
    rw [hnode]
    exact h.behind version (hreported.of_merge hreporter hown houtbox hentry)

end ReportSteps

section Steps

variable {ip : ι -> Ip} {f : FileName} {s s' : State ι}

theorem report_reporter (hs : Sane ip s) {q : ι} {report? : Option Node}
    (h : report? ∈ (view s q f).outbox) {n : Node} (hn : report? = some n) :
    n.reporter = ip q := by
  rcases List.mem_map.mp h with ⟨b, hb, hlookup⟩
  rw [hn] at hlookup
  have hnew := (hs.bundles q b hb).newpeerip n (mem_of_lookup hlookup)
  unfold Node.reporter
  rw [hnew]
  rfl

theorem soundReports_step (hip : Function.Injective ip) (hs : Sane ip s)
    {p : ι} (h : SoundReports (ip p) (view s p f)) {a : Action ι}
    (hguard : ReportsWhatItHas ip f s a) {v : View}
    (hchange : Change ip s p f a v) : SoundReports (ip p) v := by
  cases hchange with
  | elsewhere => exact h
  | clock now => exact h.congr rfl rfl rfl
  | edited hedit => exact h.congr rfl rfl rfl
  | opened hkind hfetching => exact h.congr rfl rfl rfl
  | wrote hfetching => exact h.congr rfl rfl rfl
  | handled hevents hname hview =>
      subst hname
      exact h.handle _ fun n hn =>
        (hguard _ _ hevents n hn).right rfl
  | resent hevents hname hsent =>
      exact h.send (fun n hn => (hguard _ _ hevents n hn).left hname hsent)
        rfl rfl rfl
  | compared hinbox hname hview =>
      exact h.compare (compareEntry_compared _ _ _)
  | finished hdownload hname hwriting =>
      refine h.advance rfl rfl ?_ ?_
      · intro n hn
        rcases Option.map_eq_some_iff.mp hn with ⟨m, _, rfl⟩
        show FILE_DOWNLOAD ≠ FILE_DOWNLOADING
        decide
      · intro n hn
        refine ⟨_, congrArg (Option.map _) hn, ?_⟩
        exact versionOf_le_iff_of_time.mpr (hguard _ hdownload hname n hn)
  | closed hdownload hname hflushed => exact h.congr rfl rfl rfl
  | flushed hactive => exact h.congr rfl rfl rfl
  | merged houtbox =>
      rename_i report? rest
      have hmem : report? ∈ (view s p f).outbox := by
        rw [houtbox]
        exact List.mem_cons_self
      refine h.merge (fun n hn => report_reporter hs hmem hn)
        (fun _ => hmem) ?_ ?_ ?_
      · rfl
      · intro n hn
        rw [houtbox]
        exact List.mem_cons_of_mem _ hn
      · rfl
  | mergedOther hne houtbox =>
      rename_i q report? rest
      have hmem : report? ∈ (view s q f).outbox := by
        rw [houtbox]
        exact List.mem_cons_self
      refine h.merge (fun n hn => report_reporter hs hmem hn)
        (fun heq => absurd (hip heq).symm hne) ?_ ?_ ?_
      · rfl
      · exact fun n hn => hn
      · rfl

theorem listed_step (hs : Sane ip s) {p : ι} {a : Action ι} {v : View}
    (h : forall e, entry f s.ft = some e ->
      forall i, i ∈ e.ipSet -> exists p, ip p = i)
    (hchange : Change ip s p f a v) :
    forall e, v.entry = some e ->
      forall i, i ∈ e.ipSet -> exists p, ip p = i := by
  have hmerge : forall (q : ι) (report? : Option Node),
      report? ∈ (view s q f).outbox ->
        forall e, mergeReport report? (entry f s.ft) = some e ->
          forall i, i ∈ e.ipSet -> exists p, ip p = i := by
    intro q report? hmem e he i hi
    cases report? with
    | none => exact h e he i hi
    | some r =>
        cases he
        rcases mem_ipSet_mergeEntry hi with ⟨hi, _⟩ | ⟨t, ht, hi, _⟩
        · exact ⟨q, ((report_reporter hs hmem rfl).symm.trans hi.symm)⟩
        · exact h t ht i hi
  cases hchange with
  | compared _ _ _ =>
      rw [(perform_fields _ _).right.left]
      exact h
  | merged houtbox => exact hmerge _ _ (houtbox ▸ List.mem_cons_self)
  | mergedOther _ houtbox => exact hmerge _ _ (houtbox ▸ List.mem_cons_self)
  | _ => exact h

variable [DecidableEq ι]

theorem soundSources_step (hip : Function.Injective ip) (hs : Sane ip s)
    (h : SoundSources ip f s) {a : Action ι} (hguard : ReportsWhatItHas ip f s a)
    (hstep : step ip s a = some s') : SoundSources ip f s' where
  reports := fun p =>
    soundReports_step hip hs (h.reports p) hguard (step_change hs hstep p f)
  listed := by
    cases a with
    | peer p a => exact listed_step hs h.listed (step_change hs hstep p f)
    | merge p => exact listed_step hs h.listed (step_change hs hstep p f)

omit [DecidableEq ι] in
theorem soundSources_of_started (hstarted : Started s) (hft : s.ft = none) :
    SoundSources ip f s where
  reports := by
    intro p
    rcases hstarted.peers p with ⟨clock, files, hp⟩
    have hnode : (view s p f).node = none := by
      show lookup Node.name f (s.peers p).table = none
      rw [hp]
      rfl
    have houtbox : (view s p f).outbox = [] := by
      show (s.peers p).outbox.map _ = []
      rw [hp]
      rfl
    have hentry : (view s p f).entry = none := by
      show entry f s.ft = none
      rw [hft]
      rfl
    constructor
    · intro n hn
      rw [hnode] at hn
      cases hn
    · intro version hreported
      rcases hreported with ⟨e, he, _⟩ | ⟨n, hn, _⟩
      · rw [hentry] at he
        cases he
      · rw [houtbox] at hn
        cases hn
  listed := by
    intro e he
    rw [hft] at he
    cases he

/-- In every run from an empty table whose steps report what they have, every
listed address belongs to a peer that has finished obtaining the version. -/
theorem reachable_sourcesHold (hip : Function.Injective ip) {start : State ι}
    (hstarted : Started start) (hft : start.ft = none)
    (h : Reachable (step ip) (ReportsWhatItHas ip f) start s) :
    SourcesHold ip f s := by
  have hsound : SoundSources ip f s :=
    reachable_invariant (P := SoundSources ip f) hstarted
      (soundSources_of_started hstarted hft)
      (fun s a s' hs hinv hguard hstep =>
        soundSources_step hip hs hinv hguard hstep) h
  intro e he hlive i hi
  rcases hsound.listed e he i hi with ⟨p, rfl⟩
  refine ⟨p, rfl, ?_⟩
  intro h
  rcases h with ⟨n, hn, htype, hversion⟩
  exact (hsound.reports p).fetches n hn htype
    (Or.inl ⟨e, he, hlive, hversion.symm, hi⟩)

end Steps

/-!
## Runs with and without a premature report
-/

open DartSync.Sample Sample

theorem created_file_sourcesHold :
    exists s e, Reachable (step ips) (ReportsWhatItHas ips fileA) twoPeers s ∧
      entry fileA s.ft = some e ∧ ipA ∈ e.ipSet ∧ ipB ∈ e.ipSet ∧
      SourcesHold ips fileA s := by
  have h1 : Reachable (step ips) (ReportsWhatItHas ips fileA) twoPeers _ :=
    Reachable.step (a := Action.peer true (LocalAction.userCreate fileA 5))
      Reachable.start trivial rfl
  have h2 : Reachable (step ips) (ReportsWhatItHas ips fileA) twoPeers _ :=
    Reachable.step (a := Action.peer true LocalAction.notify) h1
      (by
        intro event later h n hn
        cases hn) rfl
  have h3 : Reachable (step ips) (ReportsWhatItHas ips fileA) twoPeers _ :=
    Reachable.step (a := Action.merge true) h2 trivial rfl
  have h4 : Reachable (step ips) (ReportsWhatItHas ips fileA) twoPeers _ :=
    Reachable.step (a := Action.peer false LocalAction.compare) h3 trivial rfl
  have h5 : Reachable (step ips) (ReportsWhatItHas ips fileA) twoPeers _ :=
    Reachable.step (a := Action.peer false (LocalAction.openFile 0)) h4
      trivial rfl
  have h6 : Reachable (step ips) (ReportsWhatItHas ips fileA) twoPeers _ :=
    Reachable.step (a := Action.peer false (LocalAction.writeFile 0 5)) h5
      trivial rfl
  have h7 : Reachable (step ips) (ReportsWhatItHas ips fileA) twoPeers _ :=
    Reachable.step (a := Action.peer false (LocalAction.setNodeType 0)) h6
      (by
        intro arg harg _ n hn
        cases harg
        cases hn
        decide) rfl
  have h8 : Reachable (step ips) (ReportsWhatItHas ips fileA) twoPeers _ :=
    Reachable.step (a := Action.peer false LocalAction.notify) h7
      (by
        intro event later h n hn
        cases h
        cases hn
        exact ⟨fun hne => absurd rfl hne, fun _ _ hdeleted =>
          absurd hdeleted (by decide)⟩) rfl
  have h9 : Reachable (step ips) (ReportsWhatItHas ips fileA) twoPeers _ :=
    Reachable.step (a := Action.merge false) h8 trivial rfl
  refine ⟨_, _, h9, rfl, ?_, ?_,
    reachable_sourcesHold ips_injective twoPeers_started rfl h9⟩
  · exact ⟨by decide, by decide⟩
  · exact ⟨by decide, by decide⟩

def reportWhileDownloading : List (Action Bool) :=
  [Action.peer true (LocalAction.userCreate fileA 5),
    Action.peer true LocalAction.notify, Action.merge true,
    Action.peer false LocalAction.compare,
    Action.peer false (LocalAction.userCreate fileB 3),
    Action.peer false LocalAction.notify, Action.merge false]

/-- A file shrinks within a second: the node falls below the version reported
before, and the broadcast of that version starts a download. -/
def shrinkWithinASecond : List (Action Bool) :=
  [Action.peer false (LocalAction.userCreate fileA 7),
    Action.peer false LocalAction.notify, Action.merge false,
    Action.peer false (LocalAction.userWrite fileA 5),
    Action.peer false LocalAction.notify,
    Action.peer false LocalAction.compare]

def listedTooEarly (s : State Bool) : Bool :=
  (entry fileA s.ft).any fun e =>
    (lookup Node.name fileA (s.peers false).table).any fun n =>
      e.type ≠ FILE_DELETE ∧
        (e.newpeerip.toList.any fun i => i = ipB) = true ∧
        n.type = FILE_DOWNLOADING ∧
        n.timestamp = e.timestamp ∧ n.size = e.size

theorem not_sourcesHold_of_listedTooEarly {s : State Bool}
    (h : listedTooEarly s = true) : ¬ SourcesHold ips fileA s := by
  rcases (Option.any_eq_true _ _).mp h with ⟨e, he, hcheck⟩
  rcases (Option.any_eq_true _ _).mp hcheck with ⟨n, hn, hcheck⟩
  rcases of_decide_eq_true hcheck with ⟨hlive, hany, htype, hversion⟩
  have hmem : ipB ∈ e.newpeerip.toList := by
    rcases List.any_eq_true.mp hany with ⟨i, hi, heq⟩
    rw [← of_decide_eq_true heq]
    exact hi
  intro hsound
  rcases hsound e he hlive ipB ⟨hmem, by decide⟩ with ⟨p, hp, hidle⟩
  cases p with
  | false =>
      exact hidle ⟨n, hn, htype, Node.version_eq_iff.mpr hversion⟩
  | true => exact absurd hp (by decide)

theorem exists_run_of_check {actions : List (Action Bool)}
    (h : (runFrom (step ips) twoPeers actions).any listedTooEarly = true) :
    exists s, runFrom (step ips) twoPeers actions = some s ∧
      ¬ SourcesHold ips fileA s := by
  rcases (Option.any_eq_true _ _).mp h with ⟨s, hs, hlisted⟩
  exact ⟨s, hs, not_sourcesHold_of_listedTooEarly hlisted⟩

theorem premature_report_reachable :
    Function.Injective ips ∧ Started twoPeers ∧
      (exists s, runFrom (step ips) twoPeers reportWhileDownloading = some s ∧
        ¬ SourcesHold ips fileA s) ∧
      exists s, runFrom (step ips) twoPeers shrinkWithinASecond = some s ∧
        ¬ SourcesHold ips fileA s := by
  refine ⟨ips_injective, twoPeers_started, ?_, ?_⟩
  · exact exists_run_of_check (by decide)
  · exact exists_run_of_check (by decide)

end System
end DartSync
