import DartSync.System.VersionFlow

/-!
# What a peer has told the tracker

The invariant of one peer and one file behind the agreement at quiescence: what
the node says has been told to the tracker or is older than what the tracker
has, and with nothing left to compare the node agrees with the tracker's entry,
unless the monitor or a download will still look at the file.
-/

namespace DartSync
namespace System

open Foundation Peer Tracker

def SetByMonitor (n : Node) : Prop :=
  n.type = FILE_CREATE ∨ n.type = FILE_MODIFY

def SameNews (reported current : Node) : Prop :=
  reported.version = current.version ∧
    (reported.type = FILE_DELETE <-> current.type = FILE_DELETE)

def NotAhead (n t : Node) : Prop :=
  n.version ≤ t.version ∧
    (n.version = t.version -> n.type = FILE_DELETE -> t.type = FILE_DELETE)

/-- The last table on its way says what the node says, or the node is not ahead
of the tracker's entry. -/
def Told (v : View) (n : Node) : Prop :=
  (exists r, v.outbox.getLast? = some (some r) ∧ SameNews r n) ∨
    exists t, v.entry = some t ∧ NotAhead n t

def Agrees (n : Node) (t? : Option Node) : Prop :=
  forall t, t? = some t -> (t.type = FILE_DELETE ∨ t.size ≠ 0) ->
    (n.type = FILE_DELETE <-> t.type = FILE_DELETE) ∧
      (t.type ≠ FILE_DELETE -> n.version = t.version)

/-- The monitor or a download will still look at the file. -/
def Busy (v : View) : Prop :=
  v.events ≠ [] ∨ v.active = true

/-- Nothing is lost if the downloads of the file end in this view: the peer has
told what it has, and agrees or will hear from the tracker again. -/
def NothingToTell (v : View) : Prop :=
  forall n, v.node = some n ->
    (n.type ≠ FILE_DELETE -> v.file ≠ none) ∧ Told v n ∧
      (v.inbox ≠ [] ∨ v.outbox ≠ [] ∨ Agrees n v.entry)

/-!
## The invariant of one peer and one file
-/

structure Settling (v : View) : Prop where
  types : forall n, v.node = some n ->
    SetByMonitor n ∨ n.type = FILE_DELETE ∨ n.type = FILE_DOWNLOAD ∨
      n.type = FILE_DOWNLOADING
  told : forall n, v.node = some n ->
    Told v n ∨ (Busy v ∧ ¬ SetByMonitor n)
  agrees : v.inbox = [] -> forall n, v.node = some n ->
    Agrees n v.entry ∨ v.outbox ≠ [] ∨ (Busy v ∧ ¬ SetByMonitor n)
  unknown : v.inbox = [] -> v.node = none ->
    forall t, v.entry = some t -> t.size = 0
  fetching : forall n, v.node = some n -> n.type = FILE_DOWNLOADING ->
    v.fetches ≠ []
  removed : v.file = none -> v.events ≠ [] ->
    v.events.getLast? = some EventKind.delete
  present : forall n, v.node = some n -> n.type ≠ FILE_DELETE ->
    v.file = none -> Busy v

theorem not_setByMonitor {n : Node}
    (h : n.type = FILE_DELETE ∨ n.type = FILE_DOWNLOAD ∨
      n.type = FILE_DOWNLOADING) : ¬ SetByMonitor n := by
  intro hset
  unfold SetByMonitor at hset
  rcases h with h | h | h
  · rw [h] at hset
    exact absurd hset (by decide)
  · rw [h] at hset
    exact absurd hset (by decide)
  · rw [h] at hset
    exact absurd hset (by decide)

theorem told_of_sent {v : View} {n : Node} {outbox : List (Option Node)}
    (h : v.outbox = outbox ++ [some n]) : Told v n := by
  refine Or.inl ⟨n, ?_, rfl, Iff.rfl⟩
  rw [h, List.getLast?_concat]

theorem told_of_version_le {v : View} {n t : Node} (ht : v.entry = some t)
    (hle : n.version ≤ t.version) (hlive : n.type ≠ FILE_DELETE) :
    Told v n :=
  Or.inr ⟨t, ht, hle, fun _ hdelete => absurd hdelete hlive⟩

theorem Told.congr {v v' : View} {n : Node} (h : Told v n)
    (hentry : v'.entry = v.entry) (houtbox : v'.outbox = v.outbox) :
    Told v' n := by
  unfold Told
  rw [hentry, houtbox]
  exact h

theorem Told.sameNews {v : View} {n n' : Node} (h : Told v n)
    (hsame : SameNews n n') : Told v n' := by
  rcases h with ⟨r, hr, hnews⟩ | ⟨t, ht, hahead⟩
  · exact Or.inl ⟨r, hr, hnews.left.trans hsame.left,
      hnews.right.trans hsame.right⟩
  · refine Or.inr ⟨t, ht, ?_, ?_⟩
    · rw [← hsame.left]
      exact hahead.left
    · rw [← hsame.left, ← hsame.right]
      exact hahead.right

theorem Agrees.sameNews {n n' : Node} {t? : Option Node} (h : Agrees n t?)
    (hsame : SameNews n n') : Agrees n' t? := by
  intro t ht hrelevant
  rw [← hsame.left, ← hsame.right]
  exact h t ht hrelevant

theorem InOrder.only {v : View} {n : Node} (h : InOrder v)
    (hinbox : v.inbox = [n]) : v.entry = some n := by
  have hnewest := h.newest (by rw [hinbox]; exact List.cons_ne_nil _ _)
  rw [hinbox] at hnewest
  exact hnewest.symm

/-!
## Changes that leave the peer busy
-/

section Changes

variable {v v' : View}

theorem Settling.of_busy (h : Settling v) (hnode : v'.node = v.node)
    (hentry : v'.entry = v.entry) (houtbox : v'.outbox = v.outbox)
    (hinbox : v'.inbox = v.inbox)
    (hfetches : v.fetches ≠ [] -> v'.fetches ≠ [])
    (hremoved : v'.file = none -> v'.events ≠ [] ->
      v'.events.getLast? = some EventKind.delete)
    (hbusy : forall n, v.node = some n -> ¬ SetByMonitor n -> Busy v')
    (hpresent : forall n, v.node = some n -> n.type ≠ FILE_DELETE ->
      v'.file = none -> Busy v') : Settling v' where
  types := by
    intro n hn
    rw [hnode] at hn
    exact h.types n hn
  told := by
    intro n hn
    rw [hnode] at hn
    rcases h.told n hn with htold | ⟨_, hset⟩
    · exact Or.inl (htold.congr hentry houtbox)
    · exact Or.inr ⟨hbusy n hn hset, hset⟩
  agrees := by
    intro hempty n hn
    rw [hnode] at hn
    rw [hinbox] at hempty
    rw [houtbox, hentry]
    rcases h.agrees hempty n hn with hagrees | hsent | ⟨_, hset⟩
    · exact Or.inl hagrees
    · exact Or.inr (Or.inl hsent)
    · exact Or.inr (Or.inr ⟨hbusy n hn hset, hset⟩)
  unknown := by
    rw [hinbox, hnode, hentry]
    exact h.unknown
  fetching := by
    intro n hn htype
    rw [hnode] at hn
    exact hfetches (h.fetching n hn htype)
  removed := hremoved
  present := by
    intro n hn
    rw [hnode] at hn
    exact hpresent n hn

theorem Settling.touch (h : Settling v) {kind : EventKind}
    {stat? : Option FileStat} (fetches : List Download) (active : Bool)
    (hfetches : v.fetches ≠ [] -> fetches ≠ [])
    (hkind : stat? = none -> kind = EventKind.delete) :
    Settling
      ({ v with fetches := fetches, active := active }.touch kind stat?) := by
  have hbusy : Busy
      ({ v with fetches := fetches, active := active }.touch kind stat?) :=
    Or.inl (List.append_ne_nil_of_right_ne_nil _ (List.cons_ne_nil _ _))
  refine h.of_busy rfl rfl rfl rfl hfetches ?_ (fun _ _ _ => hbusy)
    (fun _ _ _ _ => hbusy)
  intro hfile _
  show (v.events ++ [kind]).getLast? = some EventKind.delete
  rw [List.getLast?_concat, hkind hfile]

theorem Settling.finish (h : Settling v) {size : UInt64}
    {fetches : List Download} (hactive : v.active = true) :
    Settling { v with
      fetches := fetches
      node := v.node.map fun n =>
        { n with type := FILE_DOWNLOAD, size := size } } := by
  have hnode : forall n,
      (v.node.map fun n : Node =>
        { n with type := FILE_DOWNLOAD, size := size }) = some n ->
      n.type = FILE_DOWNLOAD := by
    intro n hn
    rcases Option.map_eq_some_iff.mp hn with ⟨m, _, hm⟩
    rw [← hm]
  have hset : forall n, n.type = FILE_DOWNLOAD -> ¬ SetByMonitor n :=
    fun n htype => not_setByMonitor (Or.inr (Or.inl htype))
  constructor
  · intro n hn
    exact Or.inr (Or.inr (Or.inl (hnode n hn)))
  · intro n hn
    exact Or.inr ⟨Or.inr hactive, hset n (hnode n hn)⟩
  · intro _ n hn
    exact Or.inr (Or.inr ⟨Or.inr hactive, hset n (hnode n hn)⟩)
  · intro hempty hnone
    exact h.unknown hempty (Option.map_eq_none_iff.mp hnone)
  · intro n hn htype
    rw [hnode n hn] at htype
    exact absurd htype (by decide)
  · exact h.removed
  · intro n _ _ _
    exact Or.inr hactive

/-!
## The monitor
-/

theorem Settling.removed_tail (h : Settling v) {kind : EventKind}
    {rest : List EventKind} (hevents : v.events = kind :: rest)
    (hfile : v.file = none) (hrest : rest ≠ []) :
    rest.getLast? = some EventKind.delete := by
  have hlast := h.removed hfile (by rw [hevents]; exact List.cons_ne_nil _ _)
  rw [hevents, getLast?_of_ne_nil hrest] at hlast
  exact hlast

theorem Settling.tail_ne_nil (h : Settling v) {kind : EventKind}
    {rest : List EventKind} (hevents : v.events = kind :: rest)
    (hfile : v.file = none) (hkind : kind ≠ EventKind.delete) : rest ≠ [] := by
  intro hrest
  have hlast := h.removed hfile (by rw [hevents]; exact List.cons_ne_nil _ _)
  rw [hevents, hrest] at hlast
  exact hkind (Option.some.inj hlast)

theorem Settling.sent (h : Settling v) {n' : Node} {kind : EventKind}
    {rest : List EventKind} (hevents : v.events = kind :: rest)
    (htypes : SetByMonitor n' ∨ n'.type = FILE_DELETE)
    (hfile : n'.type ≠ FILE_DELETE -> v.file ≠ none) :
    Settling (v.handle (some n', true) rest) := by
  constructor
  · intro n hn
    cases hn
    exact htypes.imp id Or.inl
  · intro n hn
    cases hn
    exact Or.inl (told_of_sent rfl)
  · intro _ n _
    apply Or.inr
    apply Or.inl
    exact List.append_ne_nil_of_right_ne_nil _ (List.cons_ne_nil _ _)
  · intro _ hnone
    cases hnone
  · intro n hn htype
    cases hn
    rcases htypes with hset | hdelete
    · exact absurd hset (not_setByMonitor (Or.inr (Or.inr htype)))
    · rw [hdelete] at htype
      exact absurd htype (by decide)
  · intro hgone hrest
    exact h.removed_tail hevents hgone hrest
  · intro n hn hlive hgone
    cases hn
    exact absurd hgone (hfile hlive)

theorem Settling.handle (h : Settling v) {now : UInt64} {event : Event}
    {rest : List EventKind} {result : Option Node × Bool}
    (hactive : v.fetches ≠ [] -> v.active = true)
    (hevents : v.events = event.kind :: rest)
    (hpass : passesFilter event = true)
    (hhandled : Handled now v.file event v.node result) :
    Settling (v.handle result rest) := by
  generalize hfile? : v.file = file? at hhandled
  generalize hnode? : v.node = node? at hhandled
  cases hhandled with
  | removed _ =>
      apply h.sent hevents (Or.inr rfl)
      intro hlive
      exact absurd rfl hlive
  | downloaded hfile _ _ =>
      apply h.sent hevents (Or.inl (Or.inr rfl))
      intro _
      rw [hfile?]
      exact hfile
  | seen hstat _ htype _ _ =>
      apply h.sent hevents (Or.inl htype)
      intro _
      rw [hfile?, hstat]
      exact Option.some_ne_none _
  | ignored hwhy =>
      have hrest : v.file = none -> event.kind ≠ EventKind.delete ->
          Busy (v.handle (node?, false) rest) :=
        fun hgone hkind => Or.inl (h.tail_ne_nil hevents hgone hkind)
      have hremoved : v.file = none -> rest ≠ [] ->
          rest.getLast? = some EventKind.delete :=
        fun hgone hne => h.removed_tail hevents hgone hne
      rcases hwhy hpass with ⟨hgone, hkind⟩ | ⟨hnone, _⟩ | ⟨n, hn, hkind, htype⟩
      · have hbusy := hrest (hfile?.trans hgone) hkind
        exact h.of_busy hnode?.symm rfl rfl rfl id hremoved
          (fun _ _ _ => hbusy) (fun _ _ _ _ => hbusy)
      · have hnever : forall n, v.node ≠ some n := by
          intro n hn
          rw [hnode?, hnone] at hn
          cases hn
        exact h.of_busy hnode?.symm rfl rfl rfl id hremoved
          (fun n hn _ => absurd hn (hnever n))
          (fun n hn _ _ => absurd hn (hnever n))
      · refine h.of_busy hnode?.symm rfl rfl rfl id hremoved ?_
          (fun _ _ _ hgone => hrest hgone hkind)
        intro m hm hset
        have hmn : m = n := by
          rw [hnode?, hn] at hm
          exact (Option.some.inj hm).symm
        subst hmn
        rcases htype with hdownloading | ⟨_, hdelete, hdownload⟩
        · exact Or.inr (hactive (h.fetching m hm hdownloading))
        · -- the type is none of those that others set
          rcases h.types m hm with hmonitor | htype | htype | htype
          · exact absurd hmonitor hset
          · exact absurd htype hdelete
          · exact absurd htype hdownload
          · exact Or.inr (hactive (h.fetching m hm htype))

theorem Settling.resend (h : Settling v) : Settling v.resend := by
  constructor
  · exact h.types
  · intro n hn
    apply Or.inl
    have hsent : v.resend.outbox = v.outbox ++ [some n] := by
      show v.outbox ++ [v.node] = v.outbox ++ [some n]
      rw [show v.node = some n from hn]
    exact told_of_sent hsent
  · intro _ n _
    apply Or.inr
    apply Or.inl
    exact List.append_ne_nil_of_right_ne_nil _ (List.cons_ne_nil _ _)
  · exact h.unknown
  · exact h.fetching
  · exact h.removed
  · exact h.present

/-!
## Comparing with a broadcast entry
-/

/-- The entry is newer than what is being downloaded, and is passed over. -/
def PassedOver (n seekNode : Node) : Prop :=
  n.type = FILE_DOWNLOADING ∧ seekNode.type ≠ FILE_DELETE ∧
    seekNode.size ≠ 0 ∧ n.version < seekNode.version

theorem Told.kept {seekNode n : Node} (h : Told v n)
    (hentry : v.entry = some seekNode)
    (hkeep : n.timestamp ≤ seekNode.timestamp ->
      (seekNode.type = FILE_DELETE -> n.type = FILE_DELETE) ∧
      (seekNode.type ≠ FILE_DELETE -> seekNode.size ≠ 0 ->
        n.type = FILE_DOWNLOADING ∨ seekNode.version ≤ n.version)) :
    v.outbox ≠ [] ∨ PassedOver n seekNode ∨ Agrees n v.entry := by
  rcases h with ⟨r, hr, _⟩ | ⟨t, ht, hle, hdead⟩
  · apply Or.inl
    intro hnil
    rw [hnil] at hr
    cases hr
  · rw [hentry, Option.some_inj] at ht
    subst ht
    rcases hkeep (versionOf_timestamp_le hle) with ⟨hdelete, hlive⟩
    cases Classical.em (PassedOver n seekNode) with
    | inl hlate => exact Or.inr (Or.inl hlate)
    | inr hseen =>
        apply Or.inr
        apply Or.inr
        intro t ht hrelevant
        rw [hentry, Option.some_inj] at ht
        subst ht
        cases Classical.em (seekNode.type = FILE_DELETE) with
        | inl htype =>
            exact ⟨⟨fun _ => htype, hdelete⟩, fun hne => absurd htype hne⟩
        | inr htype =>
            have hsize : seekNode.size ≠ 0 := hrelevant.resolve_left htype
            have hge : seekNode.version ≤ n.version := by
              rcases hlive htype hsize with hdownloading | hge
              · by_contra hlt
                exact hseen ⟨hdownloading, htype, hsize, not_le.mp hlt⟩
              · exact hge
            have heq : n.version = seekNode.version := le_antisymm hle hge
            constructor
            · constructor
              · exact hdead heq
              · exact fun hdel => absurd hdel htype
            · exact fun _ => heq

theorem Settling.keep_agrees (h : Settling v) {seekNode n : Node}
    (hactive : v.fetches ≠ [] -> v.active = true)
    (hn : v.node = some n) (hentry : v.entry = some seekNode)
    (hkeep : n.timestamp ≤ seekNode.timestamp ->
      (seekNode.type = FILE_DELETE -> n.type = FILE_DELETE) ∧
      (seekNode.type ≠ FILE_DELETE -> seekNode.size ≠ 0 ->
        n.type = FILE_DOWNLOADING ∨ seekNode.version ≤ n.version)) :
    Agrees n v.entry ∨ v.outbox ≠ [] ∨ (Busy v ∧ ¬ SetByMonitor n) := by
  rcases h.told n hn with htold | hbusy
  · rcases htold.kept hentry hkeep with hsent | hlate | hagrees
    · exact Or.inr (Or.inl hsent)
    · apply Or.inr
      apply Or.inr
      exact ⟨Or.inr (hactive (h.fetching n hn hlate.left)),
        not_setByMonitor (Or.inr (Or.inr hlate.left))⟩
    · exact Or.inl hagrees
  · exact Or.inr (Or.inr hbusy)

theorem settling_delete {n' : Node}
    (hnode : v'.node = some n') (htype : n'.type = FILE_DELETE)
    (hbusy : Busy v')
    (hremoved : v'.file = none -> v'.events ≠ [] ->
      v'.events.getLast? = some EventKind.delete) : Settling v' := by
  have hset : ¬ SetByMonitor n' := not_setByMonitor (Or.inl htype)
  have honly : forall n, v'.node = some n -> n = n' := by
    intro n hn
    rw [hnode] at hn
    exact (Option.some.inj hn).symm
  constructor
  · intro n hn
    rw [honly n hn]
    exact Or.inr (Or.inl htype)
  · intro n hn
    rw [honly n hn]
    exact Or.inr ⟨hbusy, hset⟩
  · intro _ n hn
    rw [honly n hn]
    exact Or.inr (Or.inr ⟨hbusy, hset⟩)
  · intro _ hnone
    rw [hnode] at hnone
    cases hnone
  · intro n hn hdownloading
    rw [honly n hn, htype] at hdownloading
    exact absurd hdownloading (by decide)
  · exact hremoved
  · exact fun _ _ _ _ => hbusy

theorem Settling.compare (h : Settling v) (horder : InOrder v)
    {seekNode : Node} {rest : List Node}
    {result : Option Node × Option Effect}
    (hactive : v.fetches ≠ [] -> v.active = true)
    (hinbox : v.inbox = seekNode :: rest)
    (hcompared : Compared seekNode v.node result) :
    Settling
      ({ v with inbox := rest, node := result.1 }.perform result.2) := by
  generalize hnode? : v.node = node? at hcompared
  cases hcompared with
  | download htype _ _ =>
      have hset := not_setByMonitor (Or.inr (Or.inr htype))
      constructor
      · intro n hn
        cases hn
        exact Or.inr (Or.inr (Or.inr htype))
      · intro n hn
        cases hn
        exact Or.inr ⟨Or.inr rfl, hset⟩
      · intro _ n hn
        cases hn
        exact Or.inr (Or.inr ⟨Or.inr rfl, hset⟩)
      · intro _ hnone
        cases hnone
      · intro _ _ _
        exact List.append_ne_nil_of_right_ne_nil _ (List.cons_ne_nil _ _)
      · exact h.removed
      · exact fun _ _ _ _ => Or.inr rfl
  | remove htype hlive hle =>
      rename_i n
      rcases Option.eq_none_or_eq_some v.file with hfile | ⟨stat, hfile⟩
      · -- the event of the earlier removal has not been read yet
        rw [View.perform_removeFile_none (by exact hfile)]
        refine settling_delete rfl rfl ?_ ?_
        · exact h.present n hnode? hlive hfile
        · exact h.removed
      · rw [View.perform_removeFile_some (by exact hfile)]
        refine settling_delete rfl rfl ?_ ?_
        · exact Or.inl
            (List.append_ne_nil_of_right_ne_nil _ (List.cons_ne_nil _ _))
        · intro _ _
          exact List.getLast?_concat
  | absent hsize =>
      constructor
      · intro n hn
        cases hn
      · intro n hn
        cases hn
      · intro _ n hn
        cases hn
      · intro hrest _ t ht
        change v.entry = some t at ht
        change rest = [] at hrest
        rw [hrest] at hinbox
        rw [horder.only hinbox, Option.some_inj] at ht
        rw [← ht]
        exact hsize
      · intro n hn
        cases hn
      · exact h.removed
      · intro n hn
        cases hn
  | keep hkeep =>
      rename_i n
      constructor
      · intro m hm
        cases hm
        exact h.types n hnode?
      · intro m hm
        cases hm
        exact h.told n hnode?
      · intro hrest m hm
        cases hm
        change rest = [] at hrest
        rw [hrest] at hinbox
        exact h.keep_agrees hactive hnode? (horder.only hinbox) hkeep
      · intro _ hnone
        cases hnone
      · intro m hm
        cases hm
        exact h.fetching n hnode?
      · exact h.removed
      · intro m hm
        cases hm
        exact h.present n hnode?

/-!
## The end of a download
-/

theorem Settling.close (h : Settling v) {active : Bool}
    (hguard : v.events = [] -> active = false -> NothingToTell v) :
    Settling { v with active := active } := by
  cases Classical.em (Busy { v with active := active }) with
  | inl hbusy =>
      exact h.of_busy rfl rfl rfl rfl id h.removed (fun _ _ _ => hbusy)
        (fun _ _ _ _ => hbusy)
  | inr hidle =>
      unfold Busy at hidle
      rw [not_or, not_not, Bool.not_eq_true] at hidle
      have hnothing := hguard hidle.left hidle.right
      constructor
      · exact h.types
      · intro n hn
        exact Or.inl (hnothing n hn).right.left
      · intro hempty n hn
        rcases (hnothing n hn).right.right with hinbox | hsent | hagrees
        · exact absurd hempty hinbox
        · exact Or.inr (Or.inl hsent)
        · exact Or.inl hagrees
      · exact h.unknown
      · exact h.fetching
      · exact h.removed
      · intro n hn hlive hgone
        exact absurd hgone ((hnothing n hn).left hlive)

/-!
## Merging and broadcasting
-/

theorem Settling.broadcast (h : Settling v) {report? : Option Node}
    (hnode : v'.node = v.node) (hfile : v'.file = v.file)
    (hevents : v'.events = v.events) (hfetches : v'.fetches = v.fetches)
    (hactive : v'.active = v.active)
    (hentry : v'.entry = mergeReport report? v.entry)
    (hinbox : v'.inbox = v.inbox ++ (mergeReport report? v.entry).toList)
    (htold : forall n, v.node = some n -> Told v n -> Told v' n) :
    Settling v' := by
  have hbusy : Busy v -> Busy v' := by
    unfold Busy
    rw [hevents, hactive]
    exact id
  have hnews : v'.inbox = [] -> v'.entry = none := by
    intro hempty
    rw [hinbox, List.append_eq_nil_iff] at hempty
    rw [hentry]
    exact Option.toList_eq_nil_iff.mp hempty.right
  constructor
  · rw [hnode]
    exact h.types
  · intro n hn
    rw [hnode] at hn
    rcases h.told n hn with hsent | ⟨hb, hset⟩
    · exact Or.inl (htold n hn hsent)
    · exact Or.inr ⟨hbusy hb, hset⟩
  · intro hempty n _
    apply Or.inl
    intro t ht
    rw [hnews hempty] at ht
    cases ht
  · intro hempty _ t ht
    rw [hnews hempty] at ht
    cases ht
  · rw [hnode, hfetches]
    exact h.fetching
  · rw [hfile, hevents]
    exact h.removed
  · intro n hn hlive hgone
    rw [hnode] at hn
    rw [hfile] at hgone
    exact hbusy (h.present n hn hlive hgone)

theorem notAhead_mergeReport {n : Node} {report? held? : Option Node}
    (h : exists t, held? = some t ∧ NotAhead n t) :
    exists t, mergeReport report? held? = some t ∧ NotAhead n t := by
  rcases h with ⟨t, ht, hle, hdead⟩
  cases report? with
  | none => exact ⟨t, ht, hle, hdead⟩
  | some r =>
      refine ⟨_, rfl, ?_⟩
      rcases mergeEntry_cases r held? with
        ⟨hversion, _, _, hnewer⟩ | ⟨t', ht', _, hversion, htype⟩
      · have hlt : n.version < (mergeEntry r held?).version := by
          rw [hversion]
          exact lt_of_le_of_lt hle (hnewer t ht)
        exact ⟨hlt.le, fun heq => absurd heq hlt.ne⟩
      · rw [ht, Option.some_inj] at ht'
        unfold NotAhead
        rw [hversion, htype, ← ht']
        exact ⟨hle, hdead⟩

theorem notAhead_of_merged {n r : Node} {held? : Option Node}
    (hsame : SameNews r n)
    (hguard : r.type = FILE_DELETE -> forall t, held? = some t ->
      t.version = r.version -> t.type = FILE_DELETE) :
    exists t, mergeReport (some r) held? = some t ∧ NotAhead n t := by
  refine ⟨_, rfl, ?_⟩
  unfold NotAhead
  rcases mergeEntry_cases r held? with
    ⟨hversion, htype, _, _⟩ | ⟨t, ht, hle, hversion, htype⟩
  · rw [hversion, htype, hsame.left]
    exact ⟨le_refl _, fun _ => hsame.right.mpr⟩
  · rw [hversion, htype, ← hsame.left]
    constructor
    · exact hle
    · intro heq hdelete
      exact hguard (hsame.right.mpr hdelete) t ht heq.symm

theorem Told.merged {n : Node} {report? : Option Node}
    {rest : List (Option Node)} (h : Told v n)
    (houtbox : v.outbox = report? :: rest)
    (hguard : forall r, report? = some r -> r.type = FILE_DELETE ->
      forall t, v.entry = some t -> t.version = r.version ->
        t.type = FILE_DELETE) :
    Told ({ v with outbox := rest }.broadcast report?) n := by
  rcases h with ⟨r, hr, hsame⟩ | hahead
  · rw [houtbox] at hr
    cases rest with
    | nil =>
        have hreport : report? = some r := Option.some.inj hr
        subst hreport
        exact Or.inr (notAhead_of_merged hsame (hguard r rfl))
    | cons next later =>
        rw [getLast?_of_ne_nil (List.cons_ne_nil _ _)] at hr
        exact Or.inl ⟨r, hr, hsame⟩
  · exact Or.inr (notAhead_mergeReport hahead)

theorem Told.mergedOther {n : Node} (h : Told v n) (report? : Option Node) :
    Told (v.broadcast report?) n :=
  h.imp id notAhead_mergeReport

theorem Settling.merged (h : Settling v) {report? : Option Node}
    {rest : List (Option Node)} (houtbox : v.outbox = report? :: rest)
    (hguard : forall r, report? = some r -> r.type = FILE_DELETE ->
      forall t, v.entry = some t -> t.version = r.version ->
        t.type = FILE_DELETE) :
    Settling ({ v with outbox := rest }.broadcast report?) :=
  h.broadcast rfl rfl rfl rfl rfl rfl rfl fun _ _ htold =>
    htold.merged houtbox hguard

theorem Settling.mergedOther (h : Settling v) (report? : Option Node) :
    Settling (v.broadcast report?) :=
  h.broadcast rfl rfl rfl rfl rfl rfl rfl fun _ _ htold =>
    htold.mergedOther report?

end Changes

end System
end DartSync
