import Mathlib.Tactic.Convert
import DartSync.System.View

/-!
# Every step is one of the changes

The step of the whole system, seen at one peer and one file, and the facts
about tables that this needs: every table and every table on its way names each
file once and carries the address of its own peer.
-/

namespace DartSync
namespace System

open Foundation Peer Tracker

variable {ι : Type}

theorem getLast?_of_ne_nil {α : Type} {a : α} {rest : List α}
    (h : rest ≠ []) : (a :: rest).getLast? = rest.getLast? := by
  cases rest with
  | nil => exact absurd rfl h
  | cons b later => rw [List.getLast?_cons_cons]

section Perform

variable {ft : FileTable} {x : PeerState} {f g : FileName}
  {effect? : Option Effect} {seekNode : Node}

theorem viewOf_perform_self
    (h : forall e, effect? = some e ->
      e = Effect.startDownload (downloadArg f seekNode) ∨
        e = Effect.removeFile f) :
    viewOf ft (x.perform effect?) f = (viewOf ft x f).perform effect? := by
  cases effect? with
  | none => rfl
  | some e =>
      rcases h e rfl with rfl | rfl
      · simp [viewOf, PeerState.perform, View.perform, downloadArg,
          Download.runs, Download.concerns]
      · change viewOf ft (x.unlink f) f = _
        unfold PeerState.unlink View.perform
        cases hfile : x.files f with
        | none => simp [viewOf, hfile]
        | some stat =>
            have hview : (viewOf ft x f).file = some stat := hfile
            rw [hview]
            exact viewOf_touch_self EventKind.delete none

theorem viewOf_perform_of_ne (hne : g ≠ f)
    (h : forall e, effect? = some e ->
      e = Effect.startDownload (downloadArg g seekNode) ∨
        e = Effect.removeFile g) :
    viewOf ft (x.perform effect?) f = viewOf ft x f := by
  cases effect? with
  | none => rfl
  | some e =>
      rcases h e rfl with rfl | rfl
      · simp [viewOf, PeerState.perform, downloadArg, Download.runs,
          Download.concerns, hne]
      · change viewOf ft (x.unlink g) f = _
        unfold PeerState.unlink
        cases x.files g with
        | none => rfl
        | some stat => exact viewOf_touch_of_ne EventKind.delete none hne

end Perform

section LocalChange

variable {ip : ι -> Ip} {s : State ι} {p : ι} {x : PeerState} {f : FileName}

theorem viewOf_set_downloads {ft : FileTable} {index : Nat} {d d' : Download}
    (h : x.downloads[index]? = some d)
    (hruns : d.runs f = false) (hruns' : d'.runs f = false)
    (hconcerns : d'.concerns f = d.concerns f) :
    viewOf ft { x with downloads := x.downloads.set index d' } f =
      viewOf ft x f := by
  simp [viewOf, filter_set_of_both_neg h hruns hruns', any_set h hconcerns]

theorem change_of_view_eq {a : Action ι} {v : View} (h : v = view s p f) :
    Change ip s p f a v := by
  rw [h]
  exact Change.elsewhere a

/-!
### What the monitor and `compareNode` leave of each file
-/

section Turns

variable {event : Event} {later : List Event} {seekNode : Node}
  {rest : List Node}

theorem notify_view (h : (s.peers p).notify (ip p) = some x)
    (hevents : (s.peers p).events = event :: later) :
    viewOf s.ft x event.name =
      (view s p event.name).handle
        (notifyNode (ip p) (s.peers p).clock ((s.peers p).files event.name)
          event (lookup Node.name event.name (s.peers p).table))
        (eventsOf event.name later) := by
  unfold PeerState.notify at h
  rw [hevents] at h
  rcases Option.ite_none_left_eq_some.mp h with ⟨_, hnotified⟩
  cases hnotified
  have hself := @notifyEvent_self (ip p) (s.peers p).clock
    ((s.peers p).files event.name) event (s.peers p).table
  have hnode := congrArg Prod.fst hself
  have hsent := congrArg Prod.snd hself
  dsimp only at hnode hsent
  simp only [viewOf, View.handle, view, ← hnode, ← hsent]
  congr 1
  split <;> simp

theorem notify_view_of_ne (h : (s.peers p).notify (ip p) = some x)
    (hevents : (s.peers p).events = event :: later) (hname : event.name ≠ f) :
    viewOf s.ft x f =
      if (notifyEvent (ip p) (s.peers p).clock ((s.peers p).files event.name)
          event (s.peers p).table).2 then (view s p f).resend
      else view s p f := by
  unfold PeerState.notify at h
  rw [hevents] at h
  rcases Option.ite_none_left_eq_some.mp h with ⟨_, hnotified⟩
  cases hnotified
  have hnode : lookup Node.name f (notifyEvent (ip p) (s.peers p).clock
      ((s.peers p).files event.name) event (s.peers p).table).1 =
        lookup Node.name f (s.peers p).table :=
    notifyEvent_of_ne (Ne.symm hname)
  have hlater : eventsOf f (s.peers p).events = eventsOf f later := by
    rw [hevents, eventsOf_cons_of_ne hname]
  split
  · next hsent => simp [viewOf, View.resend, view, hnode, hlater]
  · next hsent => simp [viewOf, view, hnode, hlater]

theorem compare_view (h : (s.peers p).compare (ip p) = some x)
    (hinbox : (s.peers p).inbox = seekNode :: rest) :
    viewOf s.ft x seekNode.name =
      View.perform { view s p seekNode.name with
        inbox := inboxOf seekNode.name rest
        node := (compareEntry (ip p) seekNode
          (lookup Node.name seekNode.name (s.peers p).table)).1 }
        (compareEntry (ip p) seekNode
          (lookup Node.name seekNode.name (s.peers p).table)).2 := by
  unfold PeerState.compare at h
  rw [hinbox] at h
  cases h
  have hself := @compareNode_self (ip p) seekNode (s.peers p).table
  have hnode := congrArg Prod.fst hself
  have heffect := congrArg Prod.snd hself
  dsimp only at hnode heffect
  rw [viewOf_perform_self fun e => compareNode_effect, heffect]
  simp only [viewOf, view, hnode]

theorem compare_view_of_ne (h : (s.peers p).compare (ip p) = some x)
    (hinbox : (s.peers p).inbox = seekNode :: rest)
    (hname : seekNode.name ≠ f) : viewOf s.ft x f = view s p f := by
  unfold PeerState.compare at h
  rw [hinbox] at h
  cases h
  have hnode : lookup Node.name f
      (compareNode (ip p) seekNode (s.peers p).table).1 =
        lookup Node.name f (s.peers p).table :=
    compareNode_of_ne (Ne.symm hname)
  have hlater : inboxOf f (s.peers p).inbox = inboxOf f rest := by
    rw [hinbox, inboxOf_cons_of_ne hname]
  rw [viewOf_perform_of_ne hname fun e => compareNode_effect]
  simp [viewOf, view, hnode, hlater]

end Turns

theorem notify_change (h : (s.peers p).notify (ip p) = some x) :
    Change ip s p f (Action.peer p LocalAction.notify)
      (viewOf s.ft x f) := by
  cases hevents : (s.peers p).events with
  | nil =>
      unfold PeerState.notify at h
      rw [hevents] at h
      cases h
  | cons event later =>
      cases Classical.em (event.name = f) with
      | inl hname =>
          subst hname
          have hview : (view s p event.name).events =
              event.kind :: eventsOf event.name later := by
            change eventsOf event.name (s.peers p).events = _
            rw [hevents, eventsOf_cons_self rfl]
          rw [notify_view h hevents]
          exact Change.handled hevents rfl hview
      | inr hname =>
          rw [notify_view_of_ne h hevents hname]
          split
          · next hsent => exact Change.resent hevents hname hsent
          · exact Change.elsewhere _

theorem compare_change (h : (s.peers p).compare (ip p) = some x) :
    Change ip s p f (Action.peer p LocalAction.compare)
      (viewOf s.ft x f) := by
  cases hinbox : (s.peers p).inbox with
  | nil =>
      unfold PeerState.compare at h
      rw [hinbox] at h
      cases h
  | cons seekNode rest =>
      cases Classical.em (seekNode.name = f) with
      | inl hname =>
          subst hname
          have hview : (view s p seekNode.name).inbox =
              seekNode :: inboxOf seekNode.name rest := by
            change inboxOf seekNode.name (s.peers p).inbox = _
            rw [hinbox, inboxOf_cons_self rfl]
          rw [compare_view h hinbox]
          exact Change.compared hinbox rfl hview
      | inr hname =>
          rw [compare_view_of_ne h hinbox hname]
          exact Change.elsewhere _

theorem openFile_change {index : Nat}
    (h : (s.peers p).openFile index = some x) :
    Change ip s p f (Action.peer p (LocalAction.openFile index))
      (viewOf s.ft x f) := by
  unfold PeerState.openFile at h
  split at h
  · next arg hdownload =>
      cases h
      cases Classical.em (arg.filename = f) with
      | inl hname =>
          subst hname
          have hruns : Download.runs arg.filename
              { arg := arg, stage := Stage.fetching } = true := by
            simp [Download.runs]
          have hruns' : Download.runs arg.filename
              { arg := arg, stage := Stage.writing } = true := by
            simp [Download.runs]
          have hconcerns := @any_set _ (Download.concerns arg.filename)
            (s.peers p).downloads index _ { arg := arg, stage := Stage.writing }
            hdownload rfl
          have hset : viewOf s.ft { s.peers p with
              downloads := (s.peers p).downloads.set index
                { arg := arg, stage := Stage.writing } } arg.filename =
              { view s p arg.filename with
                fetches := (view s p arg.filename).fetches.set
                  (((s.peers p).downloads.take index).filter
                    (Download.runs arg.filename)).length
                  { arg := arg, stage := Stage.writing } } := by
            simp only [viewOf, view, hconcerns,
              filter_set_of_pos hdownload hruns hruns']
          rw [viewOf_touch_self, hset]
          refine Change.opened ?_ (getElem?_filter hdownload hruns)
          cases (s.peers p).files arg.filename <;> simp
      | inr hname =>
          have hset : viewOf s.ft { s.peers p with
              downloads := (s.peers p).downloads.set index
                { arg := arg, stage := Stage.writing } } f = view s p f :=
            viewOf_set_downloads hdownload (by simp [Download.runs, hname])
              (by simp [Download.runs, hname]) rfl
          rw [viewOf_touch_of_ne _ _ hname, hset]
          exact Change.elsewhere _
  · cases h

theorem writeFile_change {index : Nat} {size : UInt64}
    (h : (s.peers p).writeFile index size = some x) :
    Change ip s p f (Action.peer p (LocalAction.writeFile index size))
      (viewOf s.ft x f) := by
  unfold PeerState.writeFile at h
  split at h
  · next arg hdownload =>
      split at h
      · cases h
        exact Change.elsewhere _
      · cases h
        cases Classical.em (arg.filename = f) with
        | inl hname =>
            subst hname
            rw [viewOf_touch_self]
            apply Change.wrote
            exact List.ne_nil_of_mem (List.mem_of_getElem?
              (getElem?_filter hdownload (by simp [Download.runs])))
        | inr hname =>
            rw [viewOf_touch_of_ne _ _ hname]
            exact Change.elsewhere _
  · cases h

theorem finish_change {index : Nat} (h : (s.peers p).finish index = some x) :
    Change ip s p f (Action.peer p (LocalAction.setNodeType index))
      (viewOf s.ft x f) := by
  unfold PeerState.finish at h
  split at h
  · next arg hdownload =>
      cases h
      cases Classical.em (arg.filename = f) with
      | inl hname =>
          subst hname
          have hruns : Download.runs arg.filename
              { arg := arg, stage := Stage.writing } = true := by
            simp [Download.runs]
          have hruns' : Download.runs arg.filename
              { arg := arg, stage := Stage.closing } = false := by
            simp [Download.runs]
          have hchange : Change ip s p arg.filename
              (Action.peer p (LocalAction.setNodeType index)) _ :=
            Change.finished hdownload rfl (getElem?_filter hdownload hruns)
          convert hchange using 1
          have hconcerns := @any_set _ (Download.concerns arg.filename)
            (s.peers p).downloads index _ { arg := arg, stage := Stage.closing }
            hdownload rfl
          simp [viewOf, view, lookup_setNodeType, hconcerns,
            filter_set_of_neg hdownload hruns hruns']
      | inr hname =>
          apply change_of_view_eq
          have hnode : lookup Node.name f (setNodeType arg.filename
              FILE_DOWNLOAD arg.size (s.peers p).table) =
                lookup Node.name f (s.peers p).table :=
            lookup_setNodeType_of_ne (Ne.symm hname)
          have hset := @viewOf_set_downloads (s.peers p) f s.ft index _
            { arg := arg, stage := Stage.closing } hdownload
            (by simp [Download.runs, hname]) (by simp [Download.runs, hname])
            rfl
          unfold view
          rw [← hset]
          simp [viewOf, hnode]
  · cases h

theorem viewOf_erase_download {ft : FileTable} {index : Nat}
    {arg : DownloadArg}
    (h : x.downloads[index]? = some { arg := arg, stage := Stage.closing }) :
    viewOf ft { x with downloads := x.downloads.eraseIdx index } f =
      { viewOf ft x f with
        active := (x.downloads.eraseIdx index).any (Download.concerns f) } := by
  have hruns := @filter_eraseIdx _ (Download.runs f) x.downloads index _ h
    (by simp [Download.runs])
  simp [viewOf, hruns]

theorem closeFile_change {index : Nat} {flushed : Option UInt64}
    (h : (s.peers p).closeFile index flushed = some x) :
    Change ip s p f (Action.peer p (LocalAction.closeFile index flushed))
      (viewOf s.ft x f) := by
  unfold PeerState.closeFile at h
  split at h
  · next arg hdownload =>
      have herase := @viewOf_erase_download (s.peers p) f s.ft index arg
        hdownload
      cases Classical.em (arg.filename = f) with
      | inl hname =>
          subst hname
          cases flushed with
          | none =>
              cases h
              rw [herase]
              exact Change.closed hdownload rfl (Or.inl rfl)
          | some size =>
              cases hfile : (s.peers p).files arg.filename with
              | none =>
                  rw [hfile] at h
                  cases h
                  rw [herase]
                  exact Change.closed hdownload rfl (Or.inr hfile)
              | some stat =>
                  rw [hfile] at h
                  cases h
                  rw [viewOf_touch_self, herase]
                  apply Change.flushed
                  exact any_of_getElem? hdownload (by simp [Download.concerns])
      | inr hname =>
          have hconcerns := @any_eraseIdx _ (Download.concerns f)
            (s.peers p).downloads index _ hdownload
            (by simp [Download.concerns, hname])
          rw [hconcerns] at herase
          apply change_of_view_eq
          dsimp only at h
          split at h
          · cases h
            rw [viewOf_touch_of_ne _ _ hname, herase]
            rfl
          · cases h
            rw [herase]
            rfl
  · cases h

theorem localStep_change {a : LocalAction}
    (h : localStep (ip p) (s.peers p) a = some x) (f : FileName) :
    Change ip s p f (Action.peer p a) (viewOf s.ft x f) := by
  cases a with
  | setClock now =>
      cases h
      exact Change.clock now
  | userCreate g size =>
      simp only [localStep] at h
      split at h
      · next hfile =>
          cases h
          cases Classical.em (g = f) with
          | inl hname =>
              subst hname
              rw [viewOf_touch_self]
              exact Change.edited (Edit.create size hfile)
          | inr hname =>
              rw [viewOf_touch_of_ne _ _ hname]
              exact Change.elsewhere _
      · cases h
  | userWrite g size =>
      simp only [localStep] at h
      split at h
      · cases h
      · next stat hfile =>
          cases h
          cases Classical.em (g = f) with
          | inl hname =>
              subst hname
              rw [viewOf_touch_self]
              refine Change.edited (Edit.modify size ?_)
              change (s.peers p).files g ≠ none
              simp [hfile]
          | inr hname =>
              rw [viewOf_touch_of_ne _ _ hname]
              exact Change.elsewhere _
  | userDelete g =>
      simp only [localStep] at h
      split at h
      · cases h
      · next stat hfile =>
          cases h
          cases Classical.em (g = f) with
          | inl hname =>
              subst hname
              rw [viewOf_touch_self]
              refine Change.edited (Edit.delete ?_)
              change (s.peers p).files g ≠ none
              simp [hfile]
          | inr hname =>
              rw [viewOf_touch_of_ne _ _ hname]
              exact Change.elsewhere _
  | notify => exact notify_change h
  | compare => exact compare_change h
  | openFile index => exact openFile_change h
  | writeFile index size => exact writeFile_change h
  | setNodeType index => exact finish_change h
  | closeFile index flushed => exact closeFile_change h

end LocalChange

theorem active_of_fetches {s : State ι} {p : ι} {f : FileName}
    (h : (view s p f).fetches ≠ []) : (view s p f).active = true := by
  rcases List.exists_mem_of_ne_nil _ h with ⟨d, hd⟩
  rcases List.mem_filter.mp hd with ⟨hmem, hruns⟩
  apply List.any_eq_true.mpr
  refine ⟨d, hmem, ?_⟩
  simp only [Download.runs, Bool.and_eq_true] at hruns
  exact hruns.left

section MergeChange

variable [DecidableEq ι] {ip : ι -> Ip} {s s' : State ι}

theorem viewOf_receive {ft ft' : FileTable} {x : PeerState} {f : FileName}
    (h : (ft'.nodes.map Node.name).Nodup) :
    viewOf ft' (x.receive ft') f =
      { viewOf ft x f with
        entry := entry f ft'
        inbox := inboxOf f x.inbox ++ (entry f ft').toList } := by
  simp [viewOf, PeerState.receive, inboxOf_append_nodes h]

theorem mergeStep_change (hs : Sane ip s) {q : ι}
    (h : mergeStep s q = some s') (p : ι) (f : FileName) :
    Change ip s p f (Action.merge q) (view s' p f) := by
  unfold mergeStep at h
  cases houtbox : (s.peers q).outbox with
  | nil =>
      rw [houtbox] at h
      cases h
  | cons peerFt rest =>
      rw [houtbox] at h
      dsimp only at h
      cases hupdate : updateFiletable s.ft peerFt with
      | none =>
          rw [hupdate] at h
          cases h
      | some ft =>
          rw [hupdate] at h
          cases h
          have hbundle := hs.bundles q peerFt (by simp [houtbox])
          have hmerged := (updateFiletable_eq_some_iff.mp hupdate).left
          have hnames : (ft.nodes.map Node.name).Nodup := by
            rw [← hmerged]
            exact nodup_names_foldl_mergeNode peerFt hs.names
          have hentry : entry f ft =
              mergeReport (lookup Node.name f peerFt) (entry f s.ft) := by
            rw [← hmerged]
            exact entry_foldl_mergeNode hbundle.names s.ft
          have hview : (view s q f).outbox =
              lookup Node.name f peerFt :: rest.map (lookup Node.name f) := by
            change (s.peers q).outbox.map _ = _
            rw [houtbox, List.map_cons]
          cases Classical.em (q = p) with
          | inl hqp =>
              subst hqp
              have hchange : Change ip s q f _ _ := Change.merged hview
              convert hchange using 1
              unfold view
              dsimp only
              rw [Function.update_self, @viewOf_receive s.ft ft _ f hnames,
                hentry]
              rfl
          | inr hqp =>
              have hchange : Change ip s p f _ _ :=
                Change.mergedOther hqp hview
              convert hchange using 1
              unfold view
              dsimp only
              rw [Function.update_of_ne (Ne.symm hqp),
                @viewOf_receive s.ft ft _ f hnames, hentry]
              rfl

theorem step_view_of_ne {q : ι} {a : LocalAction}
    (h : step ip s (Action.peer q a) = some s') {p : ι} (hne : p ≠ q)
    (f : FileName) : view s' p f = view s p f := by
  rcases Option.map_eq_some_iff.mp h with ⟨x, hx, rfl⟩
  unfold view
  dsimp only
  rw [Function.update_of_ne hne]

theorem step_change (hs : Sane ip s) {a : Action ι}
    (h : step ip s a = some s') (p : ι) (f : FileName) :
    Change ip s p f a (view s' p f) := by
  cases a with
  | merge q => exact mergeStep_change hs h p f
  | peer q a =>
      cases Classical.em (p = q) with
      | inl hpq =>
          subst hpq
          rcases Option.map_eq_some_iff.mp h with ⟨x, hx, rfl⟩
          unfold view
          dsimp only
          rw [Function.update_self]
          exact localStep_change hx f
      | inr hpq => exact change_of_view_eq (step_view_of_ne h hpq f)

end MergeChange

/-!
## The tables stay sane
-/

theorem ownTable_setNodeType {myip : Ip} {name : FileName} {type : Int32}
    {size : UInt64} {table : List Node} (h : OwnTable myip table) :
    OwnTable myip (setNodeType name type size table) where
  names := by
    have hnames := h.names
    rw [← @keys_modifyFirst _ _ _ Node.name name
      (fun current => { current with type := type, size := size }) table
      fun n hn => hn] at hnames
    exact hnames
  newpeerip := by
    intro n hn
    rcases mem_modifyFirst hn with hmem | ⟨m, hm, rfl⟩
    · exact h.newpeerip n hmem
    · exact h.newpeerip m hm

section SaneStep

variable {myip : Ip} {x x' : PeerState}

theorem perform_table (effect? : Option Effect) :
    (x.perform effect?).table = x.table ∧
      (x.perform effect?).outbox = x.outbox := by
  cases effect? with
  | none => exact ⟨rfl, rfl⟩
  | some e =>
      cases e with
      | startDownload arg => exact ⟨rfl, rfl⟩
      | removeFile f =>
          change (x.unlink f).table = _ ∧ (x.unlink f).outbox = _
          unfold PeerState.unlink
          cases x.files f <;> exact ⟨rfl, rfl⟩

theorem localStep_own {a : LocalAction} (h : localStep myip x a = some x')
    (htable : OwnTable myip x.table)
    (hbundles : forall b, b ∈ x.outbox -> OwnTable myip b) :
    OwnTable myip x'.table ∧
      forall b, b ∈ x'.outbox -> OwnTable myip b := by
  cases a with
  | setClock now =>
      cases h
      exact ⟨htable, hbundles⟩
  | userCreate f size =>
      simp only [localStep] at h
      split at h <;> cases h
      exact ⟨htable, hbundles⟩
  | userWrite f size =>
      simp only [localStep] at h
      split at h <;> cases h
      exact ⟨htable, hbundles⟩
  | userDelete f =>
      simp only [localStep] at h
      split at h <;> cases h
      exact ⟨htable, hbundles⟩
  | notify =>
      simp only [localStep, PeerState.notify] at h
      split at h
      · cases h
      · rcases Option.ite_none_left_eq_some.mp h with ⟨_, hnotified⟩
        cases hnotified
        have hown : forall stat? event,
            OwnTable myip (notifyEvent myip x.clock stat? event x.table).1 :=
          fun stat? event => ⟨nodup_names_notifyEvent htable.names,
            fun n => newpeerip_notifyEvent htable.newpeerip⟩
        refine ⟨hown _ _, ?_⟩
        intro b hb
        dsimp only at hb
        split at hb
        · rcases List.mem_append.mp hb with hb | hb
          · exact hbundles b hb
          · rw [List.mem_singleton.mp hb]
            exact hown _ _
        · exact hbundles b hb
  | compare =>
      simp only [localStep, PeerState.compare] at h
      split at h
      · cases h
      · next seekNode later _ =>
          cases h
          rw [(perform_table _).left, (perform_table _).right]
          exact ⟨⟨nodup_names_compareNode htable.names,
            fun n => newpeerip_compareNode htable.newpeerip⟩, hbundles⟩
  | openFile index =>
      simp only [localStep, PeerState.openFile] at h
      split at h <;> cases h
      exact ⟨htable, hbundles⟩
  | writeFile index size =>
      simp only [localStep, PeerState.writeFile] at h
      split at h
      · split at h <;> cases h
        · exact ⟨htable, hbundles⟩
        · exact ⟨htable, hbundles⟩
      · cases h
  | setNodeType index =>
      simp only [localStep, PeerState.finish] at h
      split at h <;> cases h
      exact ⟨ownTable_setNodeType htable, hbundles⟩
  | closeFile index flushed =>
      simp only [localStep, PeerState.closeFile] at h
      split at h
      · split at h <;> cases h
        · exact ⟨htable, hbundles⟩
        · exact ⟨htable, hbundles⟩
      · cases h

end SaneStep

section SaneRun

variable [DecidableEq ι] {ip : ι -> Ip} {s s' : State ι}

theorem sane_step (hs : Sane ip s) {a : Action ι}
    (h : step ip s a = some s') : Sane ip s' := by
  cases a with
  | peer p a =>
      simp only [step, Option.map_eq_some_iff] at h
      rcases h with ⟨x, hx, rfl⟩
      have hown := localStep_own hx (hs.tables p) (hs.bundles p)
      refine ⟨hs.names, ?_, ?_⟩
      · intro q
        cases Classical.em (q = p) with
        | inl hqp =>
            subst hqp
            simpa using hown.left
        | inr hqp => simpa [Function.update_of_ne hqp] using hs.tables q
      · intro q
        cases Classical.em (q = p) with
        | inl hqp =>
            subst hqp
            simpa using hown.right
        | inr hqp => simpa [Function.update_of_ne hqp] using hs.bundles q
  | merge p =>
      change mergeStep s p = some s' at h
      unfold mergeStep at h
      split at h
      · cases h
      · next peerFt rest houtbox =>
          split at h
          · cases h
          · next ft hupdate =>
              cases h
              refine ⟨?_, ?_, ?_⟩
              · rw [← (updateFiletable_eq_some_iff.mp hupdate).left]
                exact nodup_names_foldl_mergeNode peerFt hs.names
              · intro q
                cases Classical.em (q = p) with
                | inl hqp =>
                    subst hqp
                    simpa [PeerState.receive] using hs.tables q
                | inr hqp =>
                    simpa [PeerState.receive, Function.update_of_ne hqp]
                      using hs.tables q
              · intro q
                cases Classical.em (q = p) with
                | inl hqp =>
                    subst hqp
                    intro b hb
                    apply hs.bundles q b
                    rw [houtbox]
                    apply List.mem_cons_of_mem
                    simpa [PeerState.receive] using hb
                | inr hqp =>
                    simpa [PeerState.receive, Function.update_of_ne hqp]
                      using hs.bundles q

omit [DecidableEq ι] in
theorem sane_of_started (h : Started s) : Sane ip s where
  names := h.names
  tables := by
    intro p
    rcases h.peers p with ⟨clock, files, hp⟩
    rw [hp]
    exact ⟨List.nodup_nil, fun n hn => absurd hn List.not_mem_nil⟩
  bundles := by
    intro p b hb
    rcases h.peers p with ⟨clock, files, hp⟩
    rw [hp] at hb
    cases hb

theorem reachable_invariant {guard : State ι -> Action ι -> Prop}
    {start : State ι} {P : State ι -> Prop} (hstarted : Started start)
    (hstart : P start)
    (hstep : forall s a s', Sane ip s -> P s -> guard s a ->
      step ip s a = some s' -> P s')
    (h : Reachable (step ip) guard start s) : P s := by
  have hboth : Sane ip s ∧ P s := by
    refine h.invariant (P := fun s => Sane ip s ∧ P s)
      ⟨sane_of_started hstarted, hstart⟩ ?_
    intro s a s' hboth hguard hs'
    rcases hboth with ⟨hs, hp⟩
    exact ⟨sane_step hs hs', hstep s a s' hs hp hguard hs'⟩
  exact hboth.right

end SaneRun

end System
end DartSync
