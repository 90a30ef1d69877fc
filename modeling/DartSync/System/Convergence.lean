import Mathlib.Data.FinEnum
import Mathlib.Data.Set.Finite.List
import DartSync.Foundation.Potential
import DartSync.System.Change
import DartSync.System.Wire

/-!
# The system comes to rest

What has been started is worked off: tables on their way are merged, broadcast
entries are compared, downloads end, and the file monitor handles its events.
Work can start new work, but not for ever: it ends unless the file monitor makes
new versions, which it does when a user or a download writes to a file.
-/

namespace DartSync
namespace System

open Foundation Peer
open scoped BigOperators

/-!
## The potential of a file at a peer
-/

/-- How much later the version of the node could be; no node is before all
versions. -/
def age : Option Node -> Nat
  | none => UInt64.size + 1
  | some n => UInt64.size - n.timestamp.toNat

/-- How much larger a file could be: twice what is above a size is less than
what is above a smaller one. -/
def room (size : UInt64) : Nat :=
  3 ^ (UInt64.size - size.toNat)

def held (node? : Option Node) : Nat :=
  node?.elim 0 fun n => room n.size

def transfer (f : FileName) (d : Download) : Nat :=
  if d.arg.filename = f ∧ d.stage ≠ Stage.closing then room d.arg.size else 0

def transfers (f : FileName) (downloads : List Download) : Nat :=
  (downloads.map (transfer f)).sum

def alive : Option Node -> Nat
  | none => 0
  | some n => if n.type = FILE_DELETE then 0 else 2

def eventChore (f : FileName) (event : Event) : Nat :=
  if event.name = f then
    match event.kind with
    | EventKind.delete => 1
    | _ => 3
  else 0

def eventChores (f : FileName) (events : List Event) : Nat :=
  (events.map (eventChore f)).sum

def stageChore (f : FileName) (d : Download) : Nat :=
  if d.arg.filename = f then
    match d.stage with
    | Stage.fetching => 9
    | Stage.writing => 5
    | Stage.closing => 4
  else 0

def stageChores (f : FileName) (downloads : List Download) : Nat :=
  (downloads.map (stageChore f)).sum

/-- Newer timestamps outweigh larger sizes, and these the rest. -/
def rank (x : PeerState) (f : FileName) : Layers :=
  let node? := lookup Node.name f x.table
  layers (age node?) (held node? + transfers f x.downloads)
    (alive node? + eventChores f x.events + stageChores f x.downloads)

section Rank

variable {x : PeerState} {f g : FileName}

theorem age_none_gt (n : Node) : age (some n) < age none :=
  Nat.lt_succ_of_le (Nat.sub_le _ _)

theorem age_le {n n' : Node} (h : n.timestamp ≤ n'.timestamp) :
    age (some n') ≤ age (some n) :=
  Nat.sub_le_sub_left (UInt64.le_iff_toNat_le.mp h) _

theorem age_lt {n n' : Node} (h : n.timestamp < n'.timestamp) :
    age (some n') < age (some n) := by
  have hlt := UInt64.lt_iff_toNat_lt.mp h
  have hsize := n'.timestamp.toNat_lt_size
  dsimp only [age]
  omega

theorem room_pos (size : UInt64) : 0 < room size :=
  Nat.pow_pos (by omega)

theorem two_room_lt {size size' : UInt64} (h : size < size') :
    room size' + room size' < room size := by
  have hlt := UInt64.lt_iff_toNat_lt.mp h
  have hsize := size'.toNat_lt_size
  have hpos := room_pos size'
  have hle : 3 ^ (UInt64.size - size'.toNat + 1) ≤ room size :=
    Nat.pow_le_pow_right (by omega) (by omega)
  rw [Nat.pow_succ] at hle
  change room size' * 3 ≤ room size at hle
  omega

theorem eventChores_concat (events : List Event) (event : Event) :
    eventChores f (events ++ [event]) =
      eventChores f events + eventChore f event :=
  sum_map_concat _ _ _

theorem eventChore_of_ne {event : Event} (h : event.name ≠ f) :
    eventChore f event = 0 :=
  if_neg h

theorem eventChore_delete : eventChore f ⟨EventKind.delete, f⟩ = 1 :=
  if_pos rfl

theorem eventChore_le (event : Event) : eventChore f event ≤ 3 := by
  unfold eventChore
  split
  · split
    · omega
    · exact Nat.le_refl 3
  · omega

theorem transfer_of_ne {d : Download} (h : d.arg.filename ≠ f) :
    transfer f d = 0 :=
  if_neg fun hboth => h hboth.left

theorem transfer_of_stage {d d' : Download} (harg : d'.arg = d.arg)
    (hd : d.stage ≠ Stage.closing) (hd' : d'.stage ≠ Stage.closing) :
    transfer f d' = transfer f d := by
  unfold transfer
  rw [harg]
  cases Classical.em (d.arg.filename = f) with
  | inl hf => rw [if_pos ⟨hf, hd'⟩, if_pos ⟨hf, hd⟩]
  | inr hf =>
      rw [if_neg fun hboth => hf hboth.left,
        if_neg fun hboth => hf hboth.left]

theorem stageChore_of_ne {d : Download} (h : d.arg.filename ≠ f) :
    stageChore f d = 0 :=
  if_neg h

theorem rank_touch_of_ne (kind : EventKind) (stat? : Option FileStat)
    (h : g ≠ f) : rank (x.touch kind g stat?) f = rank x f := by
  unfold rank PeerState.touch
  dsimp only
  rw [eventChores_concat, eventChore_of_ne h, Nat.add_zero]

end Rank

/-!
## One step of a peer
-/

def Lessens (x x' : PeerState) : Prop :=
  exists f, rank x' f < rank x f ∧ forall g, g ≠ f -> rank x' g = rank x g

/-- An event is handled without a new version. -/
def KeepsVersions (x x' : PeerState) : Prop :=
  forall f, (lookup Node.name f x'.table).map Node.version =
    (lookup Node.name f x.table).map Node.version

section Local

variable {myip : Ip} {x x' : PeerState} {f : FileName} {index : Nat}

theorem age_held_of_version {node? node'? : Option Node}
    (h : node'?.map Node.version = node?.map Node.version) :
    age node'? = age node? ∧ held node'? = held node? := by
  cases node? with
  | none =>
      rw [Option.map_none, Option.map_eq_none_iff] at h
      rw [h]
      exact ⟨rfl, rfl⟩
  | some n =>
      rw [Option.map_some, Option.map_eq_some_iff] at h
      rcases h with ⟨n', rfl, hversion⟩
      rcases versionOf_eq_iff.mp hversion with ⟨htime, hsize⟩
      dsimp only [age, held, Option.elim]
      rw [htime, hsize]
      exact ⟨rfl, rfl⟩

theorem alive_le_two (node? : Option Node) : alive node? ≤ 2 := by
  unfold alive
  split
  · omega
  · split
    · omega
    · exact Nat.le_refl 2

theorem alive_notifyNode (now : UInt64) (stat? : Option FileStat)
    (event : Event) (node? : Option Node) :
    alive (notifyNode myip now stat? event node?).1 <
      alive node? + eventChore event.name event := by
  have htwo := alive_le_two (notifyNode myip now stat? event node?).1
  unfold eventChore
  rw [if_pos rfl]
  cases hkind : event.kind with
  | create => dsimp only; omega
  | modify => dsimp only; omega
  | delete =>
      dsimp only
      unfold notifyNode
      rw [hkind]
      split
      · cases node? with
        | none => exact Nat.lt_succ_self _
        | some n =>
            have hdead : alive (some (deletedNode now n).1) = 0 := by
              unfold alive
              exact if_pos rfl
            dsimp only
            rw [hdead]
            omega
      · exact Nat.lt_succ_self _

theorem rank_notify (h : x.notify myip = some x')
    (hversions : KeepsVersions x x') : Lessens x x' := by
  unfold PeerState.notify at h
  cases hevents : x.events with
  | nil =>
      rw [hevents] at h
      cases h
  | cons event rest =>
      rw [hevents] at h
      rcases Option.ite_none_left_eq_some.mp h with ⟨_, hnotified⟩
      cases hnotified
      refine ⟨event.name, ?_, ?_⟩
      · rcases age_held_of_version (hversions event.name) with ⟨hage, hheld⟩
        have halive := @alive_notifyNode myip x.clock (x.files event.name)
          event (lookup Node.name event.name x.table)
        rw [← lookup_notifyEvent_self] at halive
        have hchores : eventChores event.name (event :: rest) =
            eventChore event.name event + eventChores event.name rest :=
          List.sum_cons
        unfold rank
        dsimp only at hage hheld ⊢
        rw [hevents, hage, hheld, hchores]
        apply layers_lt_of_third
        · exact Nat.le_refl _
        · exact Nat.le_refl _
        · omega
      · intro g hg
        have hchores : eventChores g (event :: rest) =
            eventChore g event + eventChores g rest := List.sum_cons
        unfold rank
        dsimp only
        rw [notifyEvent_of_ne hg, hevents, hchores,
          eventChore_of_ne (Ne.symm hg), Nat.zero_add]

theorem rank_touch (kind : EventKind) (stat? : Option FileStat) :
    exists chore, chore ≤ 3 ∧ (kind = EventKind.delete -> chore = 1) ∧
      rank (x.touch kind f stat?) f =
        layers (age (lookup Node.name f x.table))
          (held (lookup Node.name f x.table) + transfers f x.downloads)
          (alive (lookup Node.name f x.table) + eventChores f x.events +
            chore + stageChores f x.downloads) := by
  refine ⟨eventChore f ⟨kind, f⟩, eventChore_le _, ?_, ?_⟩
  · intro hkind
    rw [hkind, eventChore_delete]
  · unfold rank PeerState.touch
    dsimp only
    rw [eventChores_concat, Nat.add_assoc, Nat.add_assoc, Nat.add_assoc,
      Nat.add_assoc]

theorem rank_set_of_ne {d d' : Download} (hdownload : x.downloads[index]? = some d)
    (harg : d'.arg = d.arg) (hne : f ≠ d.arg.filename) :
    rank { x with downloads := x.downloads.set index d' } f = rank x f := by
  have htransfers := @sum_map_set _ _ _ _ d' (transfer f) hdownload
  have hstages := @sum_map_set _ _ _ _ d' (stageChore f) hdownload
  have hne' : d'.arg.filename ≠ f := by
    rw [harg]
    exact hne.symm
  rw [transfer_of_ne hne.symm, transfer_of_ne hne'] at htransfers
  rw [stageChore_of_ne hne.symm, stageChore_of_ne hne'] at hstages
  unfold rank transfers stageChores
  dsimp only
  rw [Nat.add_zero] at htransfers hstages
  rw [htransfers, hstages]
  rfl

theorem rank_openFile (h : x.openFile index = some x') : Lessens x x' := by
  unfold PeerState.openFile at h
  split at h
  · next arg hdownload =>
      rw [Option.some_inj] at h
      rw [← h]
      refine ⟨arg.filename, ?_, ?_⟩
      · have htransfers := @sum_map_set _ _ _ _
          { arg := arg, stage := Stage.writing } (transfer arg.filename)
          hdownload
        have hstages := @sum_map_set _ _ _ _
          { arg := arg, stage := Stage.writing } (stageChore arg.filename)
          hdownload
        have hsame := @transfer_of_stage arg.filename
          { arg := arg, stage := Stage.fetching }
          { arg := arg, stage := Stage.writing } rfl Stage.noConfusion
          Stage.noConfusion
        have hfetching : stageChore arg.filename
            { arg := arg, stage := Stage.fetching } = 9 := if_pos rfl
        have hwriting : stageChore arg.filename
            { arg := arg, stage := Stage.writing } = 5 := if_pos rfl
        rcases @rank_touch { x with
            downloads := x.downloads.set index
              { arg := arg, stage := Stage.writing } } arg.filename _ _ with
          ⟨chore, hchore, _, hrank⟩
        rw [hrank]
        unfold rank transfers stageChores
        dsimp only
        apply layers_lt_of_third
        · exact Nat.le_refl _
        · omega
        · omega
      · intro g hg
        rw [rank_touch_of_ne _ _ (Ne.symm hg)]
        exact rank_set_of_ne hdownload rfl hg
  · cases h

theorem rank_finish (h : x.finish index = some x') : Lessens x x' := by
  unfold PeerState.finish at h
  split at h
  · next arg hdownload =>
      rw [Option.some_inj] at h
      rw [← h]
      refine ⟨arg.filename, ?_, ?_⟩
      · have htransfers := @sum_map_set _ _ _ _
          { arg := arg, stage := Stage.closing } (transfer arg.filename)
          hdownload
        have hwriting : transfer arg.filename
            { arg := arg, stage := Stage.writing } = room arg.size :=
          if_pos ⟨rfl, Stage.noConfusion⟩
        have hclosing : transfer arg.filename
            { arg := arg, stage := Stage.closing } = 0 :=
          if_neg fun hboth => hboth.right rfl
        rw [hwriting, hclosing] at htransfers
        unfold rank transfers
        dsimp only
        rw [lookup_setNodeType]
        cases lookup Node.name arg.filename x.table with
        | none =>
            have hroom := room_pos arg.size
            apply layers_lt_of_second
            · exact Nat.le_refl _
            · dsimp only [Option.map, held, Option.elim]
              omega
        | some n =>
            have hroom := room_pos n.size
            apply layers_lt_of_second
            · exact Nat.le_refl _
            · dsimp only [Option.map, held, Option.elim]
              omega
      · intro g hg
        have hset := @rank_set_of_ne x g index _
          { arg := arg, stage := Stage.closing } hdownload rfl hg
        rw [← hset]
        unfold rank
        dsimp only
        rw [lookup_setNodeType_of_ne hg]
  · cases h

theorem rank_closeFile {flushed : Option UInt64}
    (h : x.closeFile index flushed = some x') : Lessens x x' := by
  unfold PeerState.closeFile at h
  split at h
  · next arg hdownload =>
      have htransfers := fun f =>
        sum_map_eraseIdx (transfer f) hdownload
      have hstages := fun f => sum_map_eraseIdx (stageChore f) hdownload
      have hother : forall g, g ≠ arg.filename ->
          rank { x with downloads := x.downloads.eraseIdx index } g =
            rank x g := by
        intro g hg
        have htransfer := htransfers g
        have hstage := hstages g
        rw [transfer_of_ne (Ne.symm hg), Nat.add_zero] at htransfer
        rw [stageChore_of_ne (Ne.symm hg), Nat.add_zero] at hstage
        unfold rank transfers stageChores
        dsimp only
        rw [htransfer, hstage]
      have htransfer := htransfers arg.filename
      have hstage := hstages arg.filename
      have hclosing : stageChore arg.filename
          { arg := arg, stage := Stage.closing } = 4 := if_pos rfl
      dsimp only at h
      split at h
      · rw [Option.some_inj] at h
        rw [← h]
        refine ⟨arg.filename, ?_, ?_⟩
        · rcases @rank_touch
            { x with downloads := x.downloads.eraseIdx index } arg.filename
            _ _ with ⟨chore, hchore, _, hrank⟩
          rw [hrank]
          unfold rank transfers stageChores
          dsimp only
          apply layers_lt_of_third
          · exact Nat.le_refl _
          · omega
          · omega
        · intro g hg
          rw [rank_touch_of_ne _ _ (Ne.symm hg)]
          exact hother g hg
      · rw [Option.some_inj] at h
        rw [← h]
        refine ⟨arg.filename, ?_, hother⟩
        unfold rank transfers stageChores
        dsimp only
        apply layers_lt_of_third
        · exact Nat.le_refl _
        · omega
        · omega
  · cases h

structure Reads (x x' : PeerState) : Prop where
  rank : forall f, rank x' f = rank x f
  outbox : x'.outbox = x.outbox
  inbox : x'.inbox.length < x.inbox.length

theorem rank_of_started {node? : Option Node} {n' seekNode : Node}
    (hversion : n'.version = seekNode.version)
    (hnewer : forall n, node? = some n -> n.version < seekNode.version)
    (below below' before : Nat) :
    layers (age (some n')) (held (some n') + (before + room seekNode.size))
        below' <
      layers (age node?) (held node? + before) below := by
  rcases versionOf_eq_iff.mp hversion with ⟨htime, hsize⟩
  cases node? with
  | none => exact layers_lt_of_first (age_none_gt n')
  | some n =>
      cases versionOf_lt_iff.mp (hnewer n rfl) with
      | inl hlarger =>
          have hroom := two_room_lt hlarger.right
          apply layers_lt_of_second
          · apply age_le
            rw [htime, hlarger.left]
            exact UInt64.le_refl _
          · dsimp only [held, Option.elim]
            rw [hsize]
            omega
      | inr hlater =>
          apply layers_lt_of_first
          apply age_lt
          rw [htime]
          exact hlater

theorem alive_deleted (n : Node) :
    alive (some { n with type := FILE_DELETE }) = 0 := by
  unfold alive
  exact if_pos rfl

theorem rank_compare (h : x.compare myip = some x') :
    Lessens x x' ∨ Reads x x' := by
  unfold PeerState.compare at h
  cases hinbox : x.inbox with
  | nil =>
      rw [hinbox] at h
      cases h
  | cons seekNode later =>
      rw [hinbox] at h
      dsimp only at h
      rw [Option.some_inj] at h
      have hself := @compareNode_self myip seekNode x.table
      have hcompared := compareEntry_compared myip seekNode
        (lookup Node.name seekNode.name x.table)
      have hother : forall g, g ≠ seekNode.name ->
          rank { x with
            inbox := later
            table := (compareNode myip seekNode x.table).1 } g = rank x g := by
        intro g hg
        unfold rank
        dsimp only
        rw [compareNode_of_ne hg]
      rw [← hself] at hcompared
      rw [← h]
      generalize hnode? : lookup Node.name seekNode.name x.table = node?
        at hcompared
      generalize hnode' : lookup Node.name seekNode.name
        (compareNode myip seekNode x.table).1 = node'? at hcompared
      generalize (compareNode myip seekNode x.table).2 = effect?
        at hcompared
      cases hcompared with
      | @download _ n' _ hversion hnewer =>
          left
          refine ⟨seekNode.name, ?_, ?_⟩
          · have htransfer : transfer seekNode.name
                { arg := downloadArg seekNode.name seekNode
                  stage := Stage.fetching } = room seekNode.size :=
              if_pos ⟨rfl, Stage.noConfusion⟩
            unfold rank PeerState.perform transfers
            dsimp only
            rw [hnode', hnode?, sum_map_concat, htransfer]
            exact rank_of_started hversion hnewer _ _ _
          · intro g hg
            rw [← hother g hg]
            unfold rank PeerState.perform transfers stageChores
            dsimp only
            rw [sum_map_concat, sum_map_concat,
              transfer_of_ne (Ne.symm hg), stageChore_of_ne (Ne.symm hg)]
            rfl
      | @remove n _ hlive _ =>
          left
          have halive : alive (some n) = 2 := by
            unfold alive
            exact if_neg hlive
          refine ⟨seekNode.name, ?_, ?_⟩
          · unfold PeerState.perform PeerState.unlink
            dsimp only
            cases x.files seekNode.name with
            | none =>
                unfold rank
                dsimp only
                rw [hnode', hnode?, alive_deleted, halive]
                apply layers_lt_of_third
                · exact Nat.le_refl _
                · exact Nat.le_refl _
                · omega
            | some stat =>
                rcases @rank_touch { x with
                    inbox := later
                    table := (compareNode myip seekNode x.table).1 }
                  seekNode.name EventKind.delete none with
                  ⟨chore, _, hchore, hrank⟩
                dsimp only at hrank ⊢
                rw [hrank, hnode', hchore rfl, alive_deleted]
                unfold rank
                dsimp only
                rw [hnode?, halive]
                apply layers_lt_of_third
                · exact Nat.le_refl _
                · exact Nat.le_refl _
                · omega
          · intro g hg
            rw [← hother g hg]
            unfold PeerState.perform PeerState.unlink
            dsimp only
            cases x.files seekNode.name with
            | none => rfl
            | some stat => exact rank_touch_of_ne _ _ (Ne.symm hg)
      | absent _ =>
          right
          refine ⟨?_, rfl, ?_⟩
          · intro f
            cases Classical.em (f = seekNode.name) with
            | inl hf =>
                unfold rank PeerState.perform
                dsimp only
                rw [hf, hnode', hnode?]
            | inr hf => exact hother f hf
          · rw [hinbox]
            exact Nat.lt_succ_self _
      | keep _ =>
          right
          refine ⟨?_, rfl, ?_⟩
          · intro f
            cases Classical.em (f = seekNode.name) with
            | inl hf =>
                unfold rank PeerState.perform
                dsimp only
                rw [hf, hnode', hnode?]
            | inr hf => exact hother f hf
          · rw [hinbox]
            exact Nat.lt_succ_self _

end Local

/-!
## Work ends
-/

theorem finite_fileName : Finite FileName := by
  have hbytes := List.finite_length_lt UInt8 FILE_NAME_LEN
  have : Finite { l : List UInt8 // l.length < FILE_NAME_LEN } := hbytes
  apply Finite.of_injective (fun name : FileName =>
    (⟨name.bytes, name.fits⟩ :
      { l : List UInt8 // l.length < FILE_NAME_LEN }))
  intro name name' h
  cases name
  cases name'
  cases h
  rfl

noncomputable instance : Fintype FileName :=
  @Fintype.ofFinite _ finite_fileName

variable {ι : Type} [DecidableEq ι]

/-- A step that neither a user makes nor the clock nor a write to a file.  An
event counts if it is handled without a new version. -/
def Works (ip : ι -> Ip) (s : State ι) : Action ι -> Prop
  | Action.peer p LocalAction.notify =>
      forall x, (s.peers p).notify (ip p) = some x ->
        KeepsVersions (s.peers p) x
  | Action.peer _ LocalAction.compare => True
  | Action.peer _ (LocalAction.openFile _) => True
  | Action.peer _ (LocalAction.setNodeType _) => True
  | Action.peer _ (LocalAction.closeFile _ _) => True
  | Action.merge _ => True
  | _ => False

def ticks (clocks : List (ι × UInt64)) : List (Action ι) :=
  clocks.map fun c => Action.peer c.1 (LocalAction.setClock c.2)

def Worked (ip : ι -> Ip) (s s' : State ι) : Prop :=
  exists clocks t a, runFrom (step ip) s (ticks clocks) = some t ∧
    Works ip t a ∧ step ip t a = some s'

noncomputable def potential [Fintype ι] (s : State ι) :
    Layers ×ₗ Nat ×ₗ Nat :=
  toLex (∑ p, ∑ f, rank (s.peers p) f,
    toLex (∑ p, (s.peers p).outbox.length, ∑ p, (s.peers p).inbox.length))

section Work

variable {ip : ι -> Ip} {s s' t : State ι} {p : ι} {x : PeerState}

omit [DecidableEq ι] in
theorem works_local {a : LocalAction} (hworks : Works ip s (Action.peer p a))
    (h : localStep (ip p) (s.peers p) a = some x) :
    Lessens (s.peers p) x ∨ Reads (s.peers p) x := by
  cases a with
  | notify => exact Or.inl (rank_notify h (hworks x h))
  | compare => exact rank_compare h
  | openFile index => exact Or.inl (rank_openFile h)
  | setNodeType index => exact Or.inl (rank_finish h)
  | closeFile index flushed => exact Or.inl (rank_closeFile h)
  | setClock now => exact absurd hworks id
  | userCreate f size => exact absurd hworks id
  | userWrite f size => exact absurd hworks id
  | userDelete f => exact absurd hworks id
  | writeFile index size => exact absurd hworks id

variable [Fintype ι]

theorem potential_of_lessens (h : Lessens (s.peers p) x) :
    potential { s with peers := Function.update s.peers p x } <
      potential s := by
  rcases h with ⟨f, hless, hsame⟩
  apply Prod.Lex.toLex_lt_toLex.mpr
  left
  apply sum_lt_of_one p
  · dsimp only
    rw [Function.update_self]
    exact sum_lt_of_one f hless hsame
  · intro q hq
    dsimp only
    rw [Function.update_of_ne hq]

theorem potential_of_reads (h : Reads (s.peers p) x) :
    potential { s with peers := Function.update s.peers p x } <
      potential s := by
  apply Prod.Lex.toLex_lt_toLex.mpr
  right
  refine ⟨?_, Prod.Lex.toLex_lt_toLex.mpr (Or.inr ⟨?_, ?_⟩)⟩
  · apply Finset.sum_congr rfl
    intro q _
    dsimp only
    cases Classical.em (q = p) with
    | inl hq =>
        rw [hq, Function.update_self]
        exact Finset.sum_congr rfl fun f _ => h.rank f
    | inr hq => rw [Function.update_of_ne hq]
  · apply Finset.sum_congr rfl
    intro q _
    dsimp only
    cases Classical.em (q = p) with
    | inl hq => rw [hq, Function.update_self, h.outbox]
    | inr hq => rw [Function.update_of_ne hq]
  · apply sum_lt_of_one p
    · dsimp only
      rw [Function.update_self]
      exact h.inbox
    · intro q hq
      dsimp only
      rw [Function.update_of_ne hq]

theorem potential_of_merge (h : mergeStep s p = some s') :
    potential s' < potential s := by
  unfold mergeStep at h
  cases houtbox : (s.peers p).outbox with
  | nil =>
      rw [houtbox] at h
      cases h
  | cons peerFt rest =>
      rw [houtbox] at h
      dsimp only at h
      split at h
      · cases h
      · cases h
        apply Prod.Lex.toLex_lt_toLex.mpr
        right
        refine ⟨?_, Prod.Lex.toLex_lt_toLex.mpr (Or.inl ?_)⟩
        · apply Finset.sum_congr rfl
          intro q _
          dsimp only
          cases Classical.em (q = p) with
          | inl hq => rw [hq, Function.update_self]; rfl
          | inr hq => rw [Function.update_of_ne hq]; rfl
        · apply sum_lt_of_one p
          · dsimp only [PeerState.receive]
            rw [Function.update_self, houtbox]
            exact Nat.lt_succ_self _
          · intro q hq
            dsimp only [PeerState.receive]
            rw [Function.update_of_ne hq]

theorem potential_ticks {clocks : List (ι × UInt64)}
    (h : runFrom (step ip) s (ticks clocks) = some t) :
    potential t = potential s := by
  induction clocks generalizing s with
  | nil =>
      cases h
      rfl
  | cons c rest ih =>
      rcases runFrom_cons_eq_some_iff.mp h with ⟨s1, hs1, hrest⟩
      cases hs1
      rw [ih hrest]
      have hpeers : forall q, rank (Function.update s.peers c.1
          { s.peers c.1 with clock := c.2 } q) = rank (s.peers q) ∧
            (Function.update s.peers c.1
              { s.peers c.1 with clock := c.2 } q).outbox =
                (s.peers q).outbox ∧
            (Function.update s.peers c.1
              { s.peers c.1 with clock := c.2 } q).inbox =
                (s.peers q).inbox := by
        intro q
        cases Classical.em (q = c.1) with
        | inl hq =>
            rw [hq, Function.update_self]
            exact ⟨rfl, rfl, rfl⟩
        | inr hq =>
            rw [Function.update_of_ne hq]
            exact ⟨rfl, rfl, rfl⟩
      unfold potential
      simp only [hpeers]

theorem potential_worked (h : Worked ip s s') :
    potential s' < potential s := by
  rcases h with ⟨clocks, t, a, hticks, hworks, hstep⟩
  rw [← potential_ticks hticks]
  cases a with
  | merge p => exact potential_of_merge hstep
  | peer p a =>
      rcases Option.map_eq_some_iff.mp hstep with ⟨x, hx, rfl⟩
      cases works_local hworks hx with
      | inl hless => exact potential_of_lessens hless
      | inr hreads => exact potential_of_reads hreads

/-- The work that has been started comes to an end, in whatever order it is
done, and at whatever time. -/
theorem work_ends (ip : ι -> Ip) :
    ¬ exists run : Nat -> State ι,
      forall n, Worked ip (run n) (run (n + 1)) :=
  no_endless_run potential fun _ _ => potential_worked

end Work

/-!
## Where it ends
-/

/-- Nothing is on its way and no download runs; an event that has not been
handled makes a new version, or ends the process. -/
structure AtRest (ip : ι -> Ip) (s : State ι) : Prop where
  outbox : forall p, (s.peers p).outbox = []
  inbox : forall p, (s.peers p).inbox = []
  downloads : forall p, (s.peers p).downloads = []
  events : forall p x, (s.peers p).notify (ip p) = some x ->
    ¬ KeepsVersions (s.peers p) x

section Outbox

variable {myip : Ip} {x x' : PeerState}

theorem notifyNode_ne_none {now : UInt64} {stat? : Option FileStat}
    {event : Event} {node? : Option Node}
    (h : (notifyNode myip now stat? event node?).2 = true) :
    (notifyNode myip now stat? event node?).1 ≠ none := by
  unfold notifyNode at h ⊢
  cases hpasses : passesFilter event with
  | false =>
      rw [hpasses] at h
      cases h
  | true =>
      rw [hpasses] at h
      rw [if_pos rfl] at h ⊢
      cases hkind : event.kind with
      | create =>
          rw [hkind] at h
          cases stat? with
          | none => cases h
          | some stat =>
              cases node? with
              | none => exact Option.some_ne_none _
              | some n => exact Option.some_ne_none _
      | modify =>
          rw [hkind] at h
          cases stat? with
          | none => cases h
          | some stat =>
              cases node? with
              | none => cases h
              | some n => exact Option.some_ne_none _
      | delete =>
          rw [hkind] at h
          cases node? with
          | none => cases h
          | some n => exact Option.some_ne_none _

theorem sent_ne_nil {now : UInt64} {stat? : Option FileStat} {event : Event}
    {table : List Node}
    (h : (notifyEvent myip now stat? event table).2 = true) :
    (notifyEvent myip now stat? event table).1 ≠ [] := by
  have hself := @notifyEvent_self myip now stat? event table
  have hnode := congrArg Prod.fst hself
  have hsends := congrArg Prod.snd hself
  dsimp only at hnode hsends
  rw [h] at hsends
  intro hnil
  rw [hnil] at hnode
  exact notifyNode_ne_none hsends.symm hnode.symm

theorem outbox_of_localStep {a : LocalAction}
    (h : localStep myip x a = some x') :
    x'.outbox = x.outbox ∨
      exists b, b ≠ [] ∧ x'.outbox = x.outbox ++ [b] := by
  cases localStep_outbox h with
  | inl hsame => exact Or.inl hsame
  | inr hsent =>
      rcases hsent with ⟨rfl, _⟩
      unfold localStep PeerState.notify at h
      dsimp only at h
      split at h
      · cases h
      · next event rest hevents =>
          rcases Option.ite_none_left_eq_some.mp h with ⟨_, hnotified⟩
          cases hnotified
          dsimp only
          split
          · next hsends => exact Or.inr ⟨_, sent_ne_nil hsends, rfl⟩
          · exact Or.inl rfl

end Outbox

section Rest

variable {ip : ι -> Ip} {start s s' : State ι} {p : ι}

theorem bundle_ne_nil (hstarted : Started start)
    (h : Reachable (step ip) unguarded start s) {b : List Node}
    (hb : b ∈ (s.peers p).outbox) : b ≠ [] := by
  have hall : forall p b, b ∈ (s.peers p).outbox -> b ≠ [] := by
    refine reachable_invariant
      (P := fun s => forall p b, b ∈ (s.peers p).outbox -> b ≠ [])
      hstarted ?_ ?_ h
    · intro q b hb
      rcases hstarted.peers q with ⟨clock, files, hq⟩
      rw [hq] at hb
      cases hb
    · intro s a s' _ hall _ hstep q b hb
      cases a with
      | peer p a =>
          rcases Option.map_eq_some_iff.mp hstep with ⟨x, hx, rfl⟩
          dsimp only at hb
          cases Classical.em (q = p) with
          | inl hq =>
              rw [hq, Function.update_self] at hb
              cases outbox_of_localStep hx with
              | inl hsame =>
                  rw [hsame] at hb
                  exact hall p b hb
              | inr hsent =>
                  rcases hsent with ⟨b', hb', hsent⟩
                  rw [hsent] at hb
                  cases List.mem_append.mp hb with
                  | inl hold => exact hall p b hold
                  | inr hnew =>
                      rw [List.mem_singleton.mp hnew]
                      exact hb'
          | inr hq =>
              rw [Function.update_of_ne hq] at hb
              exact hall q b hb
      | merge p =>
          change mergeStep s p = some s' at hstep
          unfold mergeStep at hstep
          split at hstep
          · cases hstep
          · next peerFt rest houtbox =>
              split at hstep
              · cases hstep
              · cases hstep
                dsimp only [PeerState.receive] at hb
                cases Classical.em (q = p) with
                | inl hq =>
                    rw [hq, Function.update_self] at hb
                    apply hall p b
                    rw [houtbox]
                    exact List.mem_cons_of_mem _ hb
                | inr hq =>
                    rw [Function.update_of_ne hq] at hb
                    exact hall q b hb
  exact hall p b hb

theorem worked_of_step {a : Action ι} (hworks : Works ip s a)
    (h : step ip s a = some s') : Worked ip s s' :=
  ⟨[], s, a, rfl, hworks, h⟩

theorem not_localStep_of_stuck (hstuck : forall s', ¬ Worked ip s s')
    {a : LocalAction} (hworks : Works ip s (Action.peer p a)) :
    localStep (ip p) (s.peers p) a = none := by
  cases hlocal : localStep (ip p) (s.peers p) a with
  | none => rfl
  | some x =>
      have hstep : step ip s (Action.peer p a) =
          some { s with peers := Function.update s.peers p x } := by
        unfold step
        dsimp only
        rw [hlocal]
        rfl
      exact absurd (worked_of_step hworks hstep) (hstuck _)

theorem downloads_of_stuck (hstuck : forall s', ¬ Worked ip s s') :
    (s.peers p).downloads = [] := by
  have hopen := @not_localStep_of_stuck _ _ ip s p hstuck
    (LocalAction.openFile 0) trivial
  have hfinish := @not_localStep_of_stuck _ _ ip s p hstuck
    (LocalAction.setNodeType 0) trivial
  have hclose := @not_localStep_of_stuck _ _ ip s p hstuck
    (LocalAction.closeFile 0 none) trivial
  unfold localStep PeerState.openFile at hopen
  unfold localStep PeerState.finish at hfinish
  unfold localStep PeerState.closeFile at hclose
  cases hdownloads : (s.peers p).downloads with
  | nil => rfl
  | cons d rest =>
      rw [hdownloads] at hopen hfinish hclose
      cases d with
      | mk arg stage =>
          cases stage with
          | fetching => cases hopen
          | writing => cases hfinish
          | closing => cases hclose

theorem atRest_of_stuck (hstarted : Started start)
    (h : Reachable (step ip) unguarded start s)
    (hstuck : forall s', ¬ Worked ip s s') : AtRest ip s where
  outbox := by
    intro p
    cases houtbox : (s.peers p).outbox with
    | nil => rfl
    | cons peerFt rest =>
        have hne : peerFt ≠ [] := by
          apply bundle_ne_nil hstarted h
          rw [houtbox]
          exact List.mem_cons_self
        cases hmerge : Tracker.updateFiletable s.ft peerFt with
        | none =>
            have hnone := Tracker.updateFiletable_eq_none_iff.mp hmerge
            exact absurd hnone.right hne
        | some ft =>
            have hstep : exists s', mergeStep s p = some s' := by
              unfold mergeStep
              rw [houtbox]
              dsimp only
              rw [hmerge]
              exact ⟨_, rfl⟩
            rcases hstep with ⟨s', hstep⟩
            have hworked : Worked ip s s' :=
              @worked_of_step _ _ ip s s' (Action.merge p) trivial hstep
            exact absurd hworked (hstuck s')
  inbox := by
    intro p
    have hcompare := @not_localStep_of_stuck _ _ ip s p hstuck
      LocalAction.compare trivial
    unfold localStep PeerState.compare at hcompare
    cases hinbox : (s.peers p).inbox with
    | nil => rfl
    | cons seekNode later =>
        rw [hinbox] at hcompare
        cases hcompare
  downloads := fun p => downloads_of_stuck hstuck
  events := by
    intro p x hnotify hversions
    have hworks : Works ip s (Action.peer p LocalAction.notify) := by
      intro y hy
      rw [hnotify, Option.some_inj] at hy
      rw [← hy]
      exact hversions
    have hnone := not_localStep_of_stuck hstuck hworks
    change (s.peers p).notify (ip p) = none at hnone
    rw [hnotify] at hnone
    cases hnone

theorem reachable_of_worked (h : Reachable (step ip) unguarded start s)
    (hworked : Worked ip s s') : Reachable (step ip) unguarded start s' := by
  rcases hworked with ⟨clocks, t, a, hticks, _, hstep⟩
  exact Reachable.step (h.of_runFrom hticks) trivial hstep

theorem reachable_of_works (h : Reachable (step ip) unguarded start s)
    (hworks : Relation.ReflTransGen (Worked ip) s s') :
    Reachable (step ip) unguarded start s' := by
  induction hworks with
  | refl => exact h
  | tail _ hlast ih => exact reachable_of_worked ih hlast

end Rest

def Sample.busyRun : List (Action Bool) :=
  [Action.peer true (LocalAction.userCreate DartSync.Sample.fileA 5),
    Action.peer true LocalAction.notify,
    Action.merge true,
    Action.peer false LocalAction.compare,
    Action.peer true (LocalAction.userWrite DartSync.Sample.fileA 6),
    Action.peer true LocalAction.notify]

end System
end DartSync
