import DartSync.Peer.Downloads
import DartSync.System.Model

/-!
# The calls of a peer in the system

What a peer of the system does to its table is a run of the calls of
`Peer.call`: an event is handled, an entry is compared, a download calls
`setNodeType`.  The other steps of the system leave the table and the running
downloads as they are.  So what holds in every run of the calls holds of every
peer of the system.
-/

namespace DartSync
namespace System

open Foundation Peer

def Download.unfinished (d : Download) : Bool :=
  d.stage ≠ Stage.closing

def unfinished (downloads : List Download) : List DownloadArg :=
  (downloads.filter Download.unfinished).map Download.arg

def PeerState.shared (x : PeerState) : Shared where
  table := x.table
  running := unfinished x.downloads
  sent := x.outbox

def callOf (x : PeerState) : LocalAction -> Option Call
  | LocalAction.notify =>
      x.events.head?.map fun event =>
        Call.event x.clock (x.files event.name) event
  | LocalAction.compare => x.inbox.head?.map Call.compare
  | LocalAction.setNodeType index =>
      some (Call.complete (unfinished (x.downloads.take index)).length)
  | _ => none

/-- The peer has got here by calls that end in `t`; the tracker has merged the
oldest of the tables sent. -/
structure Projects (x : PeerState) (t : Shared) : Prop where
  table : t.table = x.table
  running : t.running = unfinished x.downloads
  sent : exists merged, t.sent = merged ++ x.outbox

/-!
## The running downloads
-/

theorem unfinished_cons (d : Download) (rest : List Download) :
    unfinished (d :: rest) =
      if d.unfinished then d.arg :: unfinished rest else unfinished rest := by
  unfold unfinished
  rw [List.filter_cons]
  split
  · rfl
  · rfl

theorem unfinished_concat (downloads : List Download) (arg : DownloadArg) :
    unfinished (downloads ++ [{ arg := arg, stage := Stage.fetching }]) =
      unfinished downloads ++ [arg] := by
  unfold unfinished
  rw [List.filter_append, List.map_append]
  rfl

section Index

variable {downloads : List Download} {index : Nat} {d d' : Download}

theorem unfinished_set (h : downloads[index]? = some d) (harg : d'.arg = d.arg)
    (hstage : d'.unfinished = d.unfinished) :
    unfinished (downloads.set index d') = unfinished downloads := by
  induction downloads generalizing index with
  | nil => rfl
  | cons a rest ih =>
      cases index with
      | zero =>
          cases h
          rw [List.set_cons_zero, unfinished_cons, unfinished_cons, harg, hstage]
      | succ index =>
          rw [List.set_cons_succ, unfinished_cons, unfinished_cons, ih h]

theorem unfinished_eraseIdx (h : downloads[index]? = some d)
    (hclosing : d.unfinished = false) :
    unfinished (downloads.eraseIdx index) = unfinished downloads := by
  induction downloads generalizing index with
  | nil => rfl
  | cons a rest ih =>
      cases index with
      | zero =>
          cases h
          rw [List.eraseIdx_cons_zero, unfinished_cons, hclosing]
          rfl
      | succ index =>
          rw [List.eraseIdx_cons_succ, unfinished_cons, unfinished_cons, ih h]

theorem unfinished_finish (h : downloads[index]? = some d)
    (hrunning : d.unfinished = true) (hclosing : d'.unfinished = false) :
    (unfinished downloads)[(unfinished (downloads.take index)).length]? =
        some d.arg ∧
      unfinished (downloads.set index d') =
        (unfinished downloads).eraseIdx
          (unfinished (downloads.take index)).length := by
  induction downloads generalizing index with
  | nil => cases h
  | cons a rest ih =>
      cases index with
      | zero =>
          cases h
          rw [List.set_cons_zero, List.take_zero, unfinished_cons,
            unfinished_cons, hrunning, hclosing]
          exact ⟨rfl, rfl⟩
      | succ index =>
          have hrest := ih h
          rw [List.set_cons_succ, List.take_succ_cons, unfinished_cons,
            unfinished_cons, unfinished_cons]
          cases a.unfinished with
          | false => exact hrest
          | true =>
              constructor
              · exact hrest.left
              · exact congrArg (List.cons a.arg) hrest.right

end Index

/-!
## A step of the system is a call or none
-/

namespace Projects

variable {myip : Ip} {x x' : PeerState} {t : Shared} {index : Nat}

theorem congr (h : Projects x t) (htable : x'.table = x.table)
    (hdownloads : unfinished x'.downloads = unfinished x.downloads)
    (houtbox : x'.outbox = x.outbox) : Projects x' t where
  table := h.table.trans htable.symm
  running := h.running.trans hdownloads.symm
  sent := houtbox ▸ h.sent

theorem notify (h : Projects x t) {event : Event} {rest : List Event}
    (hevents : x.events = event :: rest) (hstep : x.notify myip = some x') :
    exists t', Peer.call myip t
        (Call.event x.clock (x.files event.name) event) = some t' ∧
      Projects x' t' := by
  unfold PeerState.notify at hstep
  rw [hevents] at hstep
  rcases Option.ite_none_left_eq_some.mp hstep with ⟨hroom, hnotified⟩
  cases hnotified
  refine ⟨_, call_event_eq_some_iff.mpr ⟨Bool.eq_false_iff.mpr hroom, rfl⟩,
    ?_⟩
  rcases h.sent with ⟨merged, hsent⟩
  constructor
  · rw [Shared.handle, h.table]
  · exact h.running
  · refine ⟨merged, ?_⟩
    rw [Shared.handle, h.table, hsent]
    split
    · exact List.append_assoc _ _ _
    · rfl

theorem compare (h : Projects x t) {seekNode : Node} {rest : List Node}
    (hinbox : x.inbox = seekNode :: rest) (hstep : x.compare myip = some x') :
    Projects x' (t.compare myip seekNode) := by
  unfold PeerState.compare at hstep
  rw [hinbox] at hstep
  cases hstep
  unfold Shared.compare
  rw [h.table, h.running]
  cases (compareNode myip seekNode x.table).2 with
  | none => exact ⟨rfl, rfl, h.sent⟩
  | some e =>
      cases e with
      | startDownload arg =>
          exact ⟨rfl, (unfinished_concat _ _).symm, h.sent⟩
      | removeFile name =>
          dsimp only [PeerState.perform, PeerState.unlink]
          split
          · exact ⟨rfl, rfl, h.sent⟩
          · exact ⟨rfl, rfl, h.sent⟩

theorem finish (h : Projects x t) (hstep : x.finish index = some x') :
    exists t', t.complete (unfinished (x.downloads.take index)).length =
      some t' ∧ Projects x' t' := by
  unfold PeerState.finish at hstep
  split at hstep
  · next arg hget =>
      cases hstep
      have hfinish := unfinished_finish hget rfl
        (rfl : Download.unfinished { arg := arg, stage := Stage.closing } = false)
      refine ⟨_, Shared.complete_eq_some_iff.mpr ⟨arg, ?_, rfl⟩, ?_⟩
      · rw [h.running]
        exact hfinish.left
      · constructor
        · rw [h.table]
        · rw [h.running, hfinish.right]
        · exact h.sent
  · cases hstep

theorem openFile (h : Projects x t) (hstep : x.openFile index = some x') :
    Projects x' t := by
  unfold PeerState.openFile at hstep
  split at hstep
  · next arg hget =>
      cases hstep
      exact h.congr rfl (unfinished_set hget rfl rfl) rfl
  · cases hstep

theorem writeFile {size : UInt64} (h : Projects x t)
    (hstep : x.writeFile index size = some x') : Projects x' t := by
  unfold PeerState.writeFile at hstep
  split at hstep
  · split at hstep
    · cases hstep
      exact h
    · cases hstep
      exact h.congr rfl rfl rfl
  · cases hstep

theorem closeFile {flushed : Option UInt64} (h : Projects x t)
    (hstep : x.closeFile index flushed = some x') : Projects x' t := by
  unfold PeerState.closeFile at hstep
  split at hstep
  · next arg hget =>
      dsimp only at hstep
      split at hstep
      · cases hstep
        exact h.congr rfl (unfinished_eraseIdx hget rfl) rfl
      · cases hstep
        exact h.congr rfl (unfinished_eraseIdx hget rfl) rfl
  · cases hstep

theorem localStep {a : LocalAction} (h : Projects x t)
    (hstep : localStep myip x a = some x') :
    (callOf x a = none ∧ Projects x' t) ∨
      exists c t', callOf x a = some c ∧ Peer.call myip t c = some t' ∧
        Projects x' t' := by
  cases a with
  | setClock now =>
      cases hstep
      exact Or.inl ⟨rfl, h.congr rfl rfl rfl⟩
  | userCreate f size =>
      dsimp only [System.localStep] at hstep
      split at hstep
      · cases hstep
        exact Or.inl ⟨rfl, h.congr rfl rfl rfl⟩
      · cases hstep
  | userWrite f size =>
      dsimp only [System.localStep] at hstep
      split at hstep
      · cases hstep
      · cases hstep
        exact Or.inl ⟨rfl, h.congr rfl rfl rfl⟩
  | userDelete f =>
      dsimp only [System.localStep] at hstep
      split at hstep
      · cases hstep
      · cases hstep
        exact Or.inl ⟨rfl, h.congr rfl rfl rfl⟩
  | notify =>
      apply Or.inr
      cases hevents : x.events with
      | nil =>
          dsimp only [System.localStep, PeerState.notify] at hstep
          rw [hevents] at hstep
          cases hstep
      | cons event rest =>
          rcases h.notify hevents hstep with ⟨t', hcall, ht'⟩
          refine ⟨Call.event x.clock (x.files event.name) event, t', ?_,
            hcall, ht'⟩
          rw [callOf, hevents]
          rfl
  | compare =>
      apply Or.inr
      cases hinbox : x.inbox with
      | nil =>
          dsimp only [System.localStep, PeerState.compare] at hstep
          rw [hinbox] at hstep
          cases hstep
      | cons seekNode rest =>
          refine ⟨Call.compare seekNode, _, ?_, rfl, h.compare hinbox hstep⟩
          rw [callOf, hinbox]
          rfl
  | openFile index => exact Or.inl ⟨rfl, h.openFile hstep⟩
  | writeFile index size => exact Or.inl ⟨rfl, h.writeFile hstep⟩
  | setNodeType index =>
      rcases h.finish hstep with ⟨t', hcall, ht'⟩
      exact Or.inr ⟨_, t', rfl, hcall, ht'⟩
  | closeFile index flushed => exact Or.inl ⟨rfl, h.closeFile hstep⟩

theorem registered (ft : FileTable) (clock : UInt64)
    (files : FileName -> Option FileStat) :
    Projects (System.registered ft clock files) Shared.fresh :=
  ⟨rfl, rfl, [], rfl⟩

end Projects

section Run

variable {ι : Type} [DecidableEq ι] {ip : ι -> Ip} {start s s' : State ι}

theorem projects_mergeStep {p q : ι} {t : Shared}
    (hstep : mergeStep s q = some s') (h : Projects (s.peers p) t) :
    Projects (s'.peers p) t := by
  unfold mergeStep at hstep
  split at hstep
  · cases hstep
  · next peerFt rest houtbox =>
      split at hstep
      · cases hstep
      · cases hstep
        cases Classical.em (p = q) with
        | inl hpq =>
            cases hpq
            rcases h.sent with ⟨merged, hsent⟩
            dsimp only [PeerState.receive]
            rw [Function.update_self]
            refine ⟨h.table, h.running, merged ++ [peerFt], ?_⟩
            rw [hsent, houtbox, List.append_assoc]
            rfl
        | inr hpq =>
            dsimp only [PeerState.receive]
            rw [Function.update_of_ne hpq]
            exact h.congr rfl rfl rfl

def CallsMeet (guard : Shared -> Call -> Prop) (p : ι) (s : State ι) :
    Action ι -> Prop
  | Action.peer q a =>
      q = p -> forall c, callOf (s.peers p) a = some c ->
        guard (s.peers p).shared c
  | Action.merge _ => True

def IgnoresSent (guard : Shared -> Call -> Prop) : Prop :=
  forall (t t' : Shared) (c : Call), t.table = t'.table ->
    t.running = t'.running -> guard t c -> guard t' c

theorem reachable_projects {guard : Shared -> Call -> Prop}
    (hsent : IgnoresSent guard) (hstart : Started start) (p : ι)
    (h : Reachable (step ip) (CallsMeet guard p) start s) :
    exists t, Reachable (Peer.call (ip p)) guard Shared.fresh t ∧
      Projects (s.peers p) t := by
  rcases hstart.peers p with ⟨clock, files, hp⟩
  apply h.simulation (R := fun s t => Projects (s.peers p) t)
    (hp ▸ Projects.registered start.ft clock files)
  intro s a s' t ht hguard hstep
  cases a with
  | merge q => exact Or.inl (projects_mergeStep hstep ht)
  | peer q a =>
      rcases Option.map_eq_some_iff.mp hstep with ⟨x, hx, hs'⟩
      cases hs'
      cases Classical.em (q = p) with
      | inl hqp =>
          cases hqp
          dsimp only
          rw [Function.update_self]
          cases ht.localStep hx with
          | inl hnone => exact Or.inl hnone.right
          | inr hcall =>
              rcases hcall with ⟨c, t', hc, hcall, ht'⟩
              have hmeets : guard t c :=
                hsent _ _ _ ht.table.symm ht.running.symm (hguard rfl c hc)
              exact Or.inr ⟨c, t', hmeets, hcall, ht'⟩
      | inr hqp =>
          dsimp only
          rw [Function.update_of_ne (Ne.symm hqp)]
          exact Or.inl ht

theorem keepsDownloads_ignoresSent : IgnoresSent KeepsDownloads := by
  intro t t' c _ hrunning hkeeps
  cases c with
  | compare seekNode =>
      rw [KeepsDownloads, ← hrunning]
      exact hkeeps
  | event now stat? event =>
      rw [KeepsDownloads, ← hrunning]
      exact hkeeps
  | complete index => trivial

/-- Where nothing deletes a file while it is being downloaded, a peer of the
system has one unfinished download for each file, and its node says so. -/
theorem reachable_marked (hstart : Started start) (p : ι)
    (h : Reachable (step ip) (CallsMeet KeepsDownloads p) start s) :
    Marked (s.peers p).shared := by
  rcases reachable_projects keepsDownloads_ignoresSent hstart p h with
    ⟨t, ht, hprojects⟩
  have hmarked := Marked.of_reachable ht
  constructor
  · rw [PeerState.shared, ← hprojects.running]
    exact hmarked.distinct
  · intro arg harg
    rw [PeerState.shared, ← hprojects.running] at harg
    rw [Shared.node, PeerState.shared, ← hprojects.table]
    exact hmarked.downloading arg harg

end Run

end System
end DartSync
