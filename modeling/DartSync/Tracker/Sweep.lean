import DartSync.Tracker.Connections

/-!
# One sweep of the heartbeat thread

The `for` loop of `heartbeat` of `tracker/tracker.c`, one access at a time,
while `heard_peer` in other threads writes time stamps into the same list.
-/

namespace DartSync
namespace Tracker

open Foundation

/-- What `heartbeat` reads for the peer at `temp`: first the clock, then
`last_time_stamp`. -/
structure Examined where
  temp : Nat
  time : UInt64
  stamp : UInt64
deriving DecidableEq

inductive SweepPhase where
  | init
  /-- Before `temp != NULL`. -/
  | test (temp : Option Nat)
  | readTime (temp : Nat)
  | readStamp (temp : Nat) (time : UInt64)
  | compare (x : Examined)
  /-- Before `delete_peer`. -/
  | delete (x : Examined)
  /-- Before `temp = temp->next`. -/
  | advance (temp : Nat)
  | done
deriving DecidableEq

structure Sweep where
  peers : PeerList
  phase : SweepPhase
  /-- The comparisons made so far. -/
  examined : List Examined

inductive SweepAction where
  /-- The next step of the sweep, with the clock at that time. -/
  | sweep (now : UInt64)
  /-- A `KEEP_ALIVE` in a `handshake` thread. -/
  | heard (peer_sockfd : Int32) (now : UInt64)

def SweepAction.own : SweepAction -> Bool
  | SweepAction.sweep _ => true
  | SweepAction.heard _ _ => false

def Examined.expired (x : Examined) : Prop :=
  x.time - x.stamp > HEARTBEAT_TIMEOUT

instance (x : Examined) : Decidable x.expired :=
  inferInstanceAs (Decidable (x.time - x.stamp > HEARTBEAT_TIMEOUT))

namespace Sweep

def start (peers : PeerList) : Sweep where
  peers := peers
  phase := SweepPhase.init
  examined := []

def step (s : Sweep) : SweepAction -> Option Sweep
  | SweepAction.heard peer_sockfd now =>
      (s.peers.heardPeer peer_sockfd now).map fun result =>
        { s with peers := result.1 }
  | SweepAction.sweep now =>
      match s.phase with
      | SweepPhase.init =>
          some { s with phase := SweepPhase.test s.peers.peer_head }
      | SweepPhase.test none => some { s with phase := SweepPhase.done }
      | SweepPhase.test (some temp) =>
          some { s with phase := SweepPhase.readTime temp }
      | SweepPhase.readTime temp =>
          some { s with phase := SweepPhase.readStamp temp now }
      | SweepPhase.readStamp temp time =>
          (s.peers.heap.read temp).map fun cell =>
            { s with
              phase := SweepPhase.compare
                { temp := temp, time := time
                  stamp := cell.value.last_time_stamp } }
      | SweepPhase.compare x =>
          some { s with
            phase :=
              if x.expired then SweepPhase.delete x
              else SweepPhase.advance x.temp
            examined := s.examined ++ [x] }
      | SweepPhase.delete x =>
          match s.peers.heap.read x.temp with
          | none => none
          | some cell =>
              (s.peers.deletePeer cell.value.sockfd).map fun result =>
                { s with
                  peers := result.1
                  phase := SweepPhase.advance x.temp }
      | SweepPhase.advance temp =>
          (s.peers.heap.read temp).map fun cell =>
            { s with phase := SweepPhase.test cell.next }
      | SweepPhase.done => none

end Sweep

/-!
## What a sweep is for
-/

def Examined.Silent (x : Examined) : Prop :=
  x.stamp.toNat + HEARTBEAT_TIMEOUT.toNat < x.time.toNat

/-- The node at this address is on the way from `peer_head` to `NULL`. -/
def PeerList.Contains (s : PeerList) (temp : Nat) : Prop :=
  exists places : Places, Segment s.heap none s.peer_head places ∧
    temp ∈ places.map Prod.fst

def SweepPhase.temp : SweepPhase -> Option Nat
  | SweepPhase.test temp => temp
  | SweepPhase.readTime temp => some temp
  | SweepPhase.readStamp temp _ => some temp
  | SweepPhase.compare x => some x.temp
  | SweepPhase.delete x => some x.temp
  | SweepPhase.advance temp => some temp
  | _ => none

/-- The peers that were silent are removed, unless `delete_peer` is still to be
called, and no others; the thread is at a node of the list and gets on, until
it has examined every peer that was there. -/
structure Swept (peers : PeerList) (s : Sweep) : Prop where
  onList : forall temp, s.phase.temp = some temp -> s.peers.Contains temp
  proceeds : s.phase ≠ SweepPhase.done ->
    forall now, s.step (SweepAction.sweep now) ≠ none
  removes : forall x, x ∈ s.examined -> x.Silent ->
    s.phase = SweepPhase.delete x ∨ ¬ s.peers.Contains x.temp
  keeps : forall temp, peers.Contains temp ->
    (forall x, x ∈ s.examined -> x.temp = temp -> ¬ x.Silent) ->
    s.peers.Contains temp
  covers : s.phase = SweepPhase.done -> forall temp, peers.Contains temp ->
    exists x, x ∈ s.examined ∧ x.temp = temp

/-- `delete_peer` is called for one of several peers, or for a silent one. -/
def Spoils (s : Sweep) : SweepAction -> Prop
  | SweepAction.sweep _ => exists x, s.phase = SweepPhase.delete x ∧
      (x.Silent ∨ exists fd, FirstOfSeveral s.peers fd)
  | SweepAction.heard _ _ => False

theorem not_spoils_of_phase {s : Sweep} {a : SweepAction}
    (h : forall x, s.phase ≠ SweepPhase.delete x) : ¬ Spoils s a := by
  intro hspoils
  cases a with
  | sweep now =>
      rcases hspoils with ⟨x, hphase, _⟩
      exact h x hphase
  | heard fd now => exact hspoils

section Nodes

variable {s : PeerList} {places : Places} {temp : Nat}

theorem contains_iff (h : Segment s.heap none s.peer_head places) :
    s.Contains temp <-> temp ∈ places.map Prod.fst := by
  constructor
  · intro hcontains
    rcases hcontains with ⟨places', hsegment, hmem⟩
    rw [h.unique hsegment]
    exact hmem
  · intro hmem
    exact ⟨places, h, hmem⟩

theorem not_contains_of_freed (h : s.heap.read temp = none) :
    ¬ s.Contains temp := by
  intro hcontains
  rcases hcontains with ⟨places, hsegment, hmem⟩
  exact hsegment.read_ne_none hmem h

theorem not_firstOfSeveral_of_single {x : Nat × TrackerPeer} {fd : Int32}
    (h : Segment s.heap none s.peer_head [x]) : ¬ FirstOfSeveral s fd := by
  intro hfirst
  rcases hfirst with ⟨head, cell, hhead, hread, _, hnext⟩
  rcases h with ⟨hx, next, hreadx, hnone⟩
  rw [hx] at hhead
  cases hhead
  rw [hreadx] at hread
  cases hread
  exact hnext hnone

theorem deletePeer_frees {x y : Nat × TrackerPeer} {v : TrackerPeer}
    (hsegment : Segment s.heap none s.peer_head (x :: y :: places))
    (hnodup : ((x :: y :: places).map Prod.fst).Nodup)
    (hdistinct : (Places.descriptors (x :: y :: places)).Nodup)
    (hmem : (temp, v) ∈ x :: y :: places) :
    exists s' reply, s.deletePeer v.sockfd = some (s', reply) ∧
      s'.heap.read temp = none := by
  have hlength := hsegment.length_le hnodup
  have hhead : s.peer_head = some x.1 := hsegment.left
  unfold PeerList.deletePeer
  rw [hhead]
  dsimp only
  unfold Places.descriptors Registry.descriptors at hdistinct
  rw [List.map_map] at hdistinct
  cases Classical.em (x.2.sockfd = v.sockfd) with
  | inl hx =>
      have hsame : x = (temp, v) :=
        List.inj_on_of_nodup_map hdistinct List.mem_cons_self hmem hx
      have hfirst : Segment s.heap none s.peer_head
          ([] ++ (x.1, x.2) :: y :: places) := hsegment
      have hread : s.heap.read x.1 =
          some { value := x.2, next := some y.1 } := hfirst.read_cell
      cases hturns : s.heap.length with
      | zero =>
          rw [hturns] at hlength
          cases hlength
      | succ turns =>
          rw [PeerList.deleteLoop, hread]
          dsimp only
          rw [if_pos ⟨hhead, hx⟩]
          refine ⟨_, _, rfl, ?_⟩
          rw [hsame]
          exact Heap.read_free_self
  | inr hx =>
      have hfd : v.sockfd ∈ Places.descriptors (x :: y :: places) := by
        unfold Places.descriptors Registry.descriptors
        rw [List.map_map]
        exact List.mem_map_of_mem (f := TrackerPeer.sockfd ∘ Prod.snd) hmem
      rcases exists_before_of_mem hfd hx with
        ⟨pre, a, w, b, u, post, hsplit, hpre, hw, hu⟩
      rw [hsplit] at hsegment hmem hdistinct hlength
      have hsame : (b, u) = (temp, v) :=
        List.inj_on_of_nodup_map hdistinct (by simp) hmem hu
      cases hsame
      have hreada := hsegment.read_cell
      rw [List.append_cons] at hsegment
      have hreadb := hsegment.read_cell
      rw [← List.append_cons] at hsegment
      rw [List.length_append, List.length_cons] at hlength
      rw [deleteLoop_of_first (hhead ▸ hsegment) hreada hreadb (by omega) hpre
        hw hu]
      exact ⟨_, _, rfl, Heap.read_free_self⟩

end Nodes

theorem Examined.expired_of_silent {x : Examined} (h : x.Silent) :
    x.expired := by
  have hle : x.stamp ≤ x.time := by
    rw [UInt64.le_iff_toNat_le]
    unfold Examined.Silent at h
    omega
  unfold Examined.expired
  rw [gt_iff_lt, UInt64.lt_iff_toNat_lt, UInt64.toNat_sub_of_le _ _ hle]
  unfold Examined.Silent at h
  omega

/-!
## The walk
-/

namespace Sweep

def At (s : Sweep) (rest : List Nat) : Prop :=
  match s.phase with
  | SweepPhase.init => s.examined = []
  | SweepPhase.test temp => temp = rest.head?
  | SweepPhase.readTime temp => rest.head? = some temp
  | SweepPhase.readStamp temp _ => rest.head? = some temp
  | SweepPhase.compare x => rest.head? = some x.temp
  | SweepPhase.delete x => s.examined.getLast? = some x
  | SweepPhase.advance temp =>
      (s.examined.map Examined.temp).getLast? = some temp
  | SweepPhase.done => rest = []

structure Walks (addresses : List Nat) (s : Sweep) : Prop where
  nodes : exists places : Places,
    Segment s.peers.heap none s.peers.peer_head places ∧
    places.map Prod.fst = addresses ∧ places.descriptors.Nodup
  position : exists rest,
    addresses = s.examined.map Examined.temp ++ rest ∧ s.At rest
  silent : forall x, x ∈ s.examined -> x.Silent ->
    s.phase = SweepPhase.delete x

section Walk

variable {s s' : Sweep} {a : SweepAction} {addresses : List Nat} {temp : Nat}

theorem Walks.contains_iff (h : Walks addresses s) :
    s.peers.Contains temp <-> temp ∈ addresses := by
  rcases h.nodes with ⟨places, hsegment, rfl, _⟩
  exact Tracker.contains_iff hsegment

theorem Walks.mem_of_phase (h : Walks addresses s)
    (htemp : s.phase.temp = some temp) : temp ∈ addresses := by
  rcases h.position with ⟨rest, rfl, hat⟩
  unfold At at hat
  have hnext : rest.head? = some temp ->
      temp ∈ s.examined.map Examined.temp ++ rest := by
    intro hhead
    exact List.mem_append_right _ (List.mem_of_head? hhead)
  have hlast : (s.examined.map Examined.temp).getLast? = some temp ->
      temp ∈ s.examined.map Examined.temp ++ rest := by
    intro hlast
    exact List.mem_append_left _ (List.mem_of_getLast? hlast)
  cases hphase : s.phase <;> rw [hphase] at hat htemp
  case test p =>
      change p = some temp at htemp
      exact hnext (hat.symm.trans htemp)
  case readTime t =>
      cases htemp
      exact hnext hat
  case readStamp t time =>
      cases htemp
      exact hnext hat
  case compare x =>
      cases htemp
      exact hnext hat
  case delete x =>
      cases htemp
      apply hlast
      rw [List.getLast?_map, hat]
      rfl
  case advance t =>
      cases htemp
      exact hlast hat
  all_goals cases htemp

theorem Walks.read_ne_none (h : Walks addresses s)
    (htemp : s.phase.temp = some temp) : s.peers.heap.read temp ≠ none := by
  intro hfreed
  apply not_contains_of_freed hfreed
  exact h.contains_iff.mpr (h.mem_of_phase htemp)

theorem Walks.length_le (h : Walks addresses s) :
    s.examined.length ≤ addresses.length := by
  rcases h.position with ⟨rest, rfl, _⟩
  rw [List.length_append, List.length_map]
  exact Nat.le_add_right _ _

theorem Walks.step_delete {x : Examined} (h : Walks addresses s)
    (hnodup : addresses.Nodup) (hphase : s.phase = SweepPhase.delete x) :
    exists peers,
      (forall now, s.step (SweepAction.sweep now) =
        some { s with
          peers := peers, phase := SweepPhase.advance x.temp }) ∧
      (((forall fd, ¬ FirstOfSeveral s.peers fd) ∧ peers = s.peers) ∨
        ((exists fd, FirstOfSeveral s.peers fd) ∧
          peers.heap.read x.temp = none)) := by
  have hmem : x.temp ∈ addresses := h.mem_of_phase (by rw [hphase]; rfl)
  rcases h.nodes with ⟨places, hsegment, rfl, hdistinct⟩
  rcases List.mem_map.mp hmem with ⟨⟨temp, v⟩, hplace, htemp⟩
  change temp = x.temp at htemp
  subst htemp
  rcases List.append_of_mem hplace with ⟨pre, post, hsplit⟩
  have hread := (hsplit ▸ hsegment).read_cell
  have hdelete : forall {peers : PeerList} {reply : Reply},
      s.peers.deletePeer v.sockfd = some (peers, reply) ->
      forall now, s.step (SweepAction.sweep now) =
        some { s with
          peers := peers, phase := SweepPhase.advance x.temp } := by
    intro peers reply hcall now
    dsimp only [Sweep.step]
    rw [hphase]
    dsimp only
    rw [hread]
    dsimp only
    rw [hcall]
    rfl
  cases places with
  | nil => cases hplace
  | cons y rest =>
      cases rest with
      | nil =>
          have hcall := @deletePeer_of_single s.peers v.sockfd y.2
            ⟨[y], hsegment, hnodup, rfl⟩
          refine ⟨s.peers, hdelete hcall, Or.inl ⟨?_, rfl⟩⟩
          intro fd
          exact not_firstOfSeveral_of_single hsegment
      | cons z later =>
          rcases deletePeer_frees hsegment hnodup hdistinct hplace with
            ⟨peers, reply, hcall, hfreed⟩
          refine ⟨peers, hdelete hcall, Or.inr ⟨⟨y.2.sockfd, ?_⟩, hfreed⟩⟩
          exact firstOfSeveral_of_represents (l := later.map Prod.snd)
            (y := z.2) ⟨y :: z :: later, hsegment, hnodup, rfl⟩

theorem Walks.heard {fd : Int32} {now : UInt64} (h : Walks addresses s)
    (hnodup : addresses.Nodup)
    (hstep : s.step (SweepAction.heard fd now) = some s') :
    Walks addresses s' := by
  rcases h.nodes with ⟨places, hsegment, rfl, hdistinct⟩
  rcases @heardPeer_places s.peers fd now places hsegment hnodup with
    ⟨peers, places', hcall, hafter, haddresses, hvalues⟩
  dsimp only [Sweep.step] at hstep
  rw [hcall] at hstep
  cases hstep
  refine ⟨⟨places', hafter, haddresses, ?_⟩, h.position, h.silent⟩
  unfold Places.descriptors at hdistinct ⊢
  rw [hvalues, Registry.descriptors_heard]
  exact hdistinct

theorem Walks.compare {x : Examined} {now : UInt64} (h : Walks addresses s)
    (hphase : s.phase = SweepPhase.compare x)
    (hstep : s.step (SweepAction.sweep now) = some s') :
    Walks addresses s' := by
  rcases h.position with ⟨rest, hsplit, hat⟩
  dsimp only [Sweep.step] at hstep
  unfold At at hat
  rw [hphase] at hstep hat
  cases hstep
  cases rest with
  | nil => cases hat
  | cons temp rest =>
      cases hat
      have hlast : (s.examined ++ [x]).getLast? = some x :=
        List.getLast?_concat
      refine ⟨h.nodes, ⟨rest, ?_, ?_⟩, ?_⟩
      · rw [hsplit, List.map_append, List.append_assoc]
        rfl
      · unfold At
        dsimp only
        cases Classical.em x.expired with
        | inl hexpired =>
            rw [if_pos hexpired]
            exact hlast
        | inr hkept =>
            rw [if_neg hkept]
            dsimp only
            rw [List.getLast?_map, hlast]
            rfl
      · intro y hy hsilent
        dsimp only at hy ⊢
        rw [List.mem_append, List.mem_singleton] at hy
        rcases hy with hy | rfl
        · have hdelete := h.silent y hy hsilent
          rw [hphase] at hdelete
          cases hdelete
        · rw [if_pos (Examined.expired_of_silent hsilent)]

theorem Walks.delete {x : Examined} {now : UInt64} (h : Walks addresses s)
    (hnodup : addresses.Nodup)
    (hguard : ¬ Spoils s (SweepAction.sweep now))
    (hphase : s.phase = SweepPhase.delete x)
    (hstep : s.step (SweepAction.sweep now) = some s') :
    Walks addresses s' := by
  rcases h.step_delete hnodup hphase with ⟨peers, hdelete, hcases⟩
  rw [hdelete now] at hstep
  cases hstep
  have hkept : peers = s.peers := by
    rcases hcases with ⟨_, hkept⟩ | ⟨hseveral, _⟩
    · exact hkept
    · exact absurd ⟨x, hphase, Or.inr hseveral⟩ hguard
  subst hkept
  rcases h.position with ⟨rest, hsplit, hat⟩
  unfold At at hat
  rw [hphase] at hat
  refine ⟨h.nodes, ⟨rest, hsplit, ?_⟩, ?_⟩
  · unfold At
    dsimp only at hat ⊢
    rw [List.getLast?_map, hat]
    rfl
  · intro y hy hsilent
    have hyx := h.silent y hy hsilent
    rw [hphase] at hyx
    cases hyx
    exact absurd ⟨x, hphase, Or.inl hsilent⟩ hguard

theorem Walks.next {cell : Cell TrackerPeer} (h : Walks addresses s)
    (hphase : s.phase = SweepPhase.advance temp)
    (hread : s.peers.heap.read temp = some cell) :
    exists rest, addresses = s.examined.map Examined.temp ++ rest ∧
      cell.next = rest.head? := by
  rcases h.position with ⟨rest, hsplit, hat⟩
  refine ⟨rest, hsplit, ?_⟩
  unfold At at hat
  rw [hphase] at hat
  rcases List.getLast?_eq_some_iff.mp hat with ⟨seen, hseen⟩
  rcases h.nodes with ⟨places, hsegment, haddresses, _⟩
  rw [hsplit, hseen, List.append_assoc] at haddresses
  rcases List.map_eq_append_iff.mp haddresses with
    ⟨pre, later, rfl, _, hlater⟩
  rcases List.map_eq_cons_iff.mp hlater with
    ⟨⟨node, v⟩, post, rfl, hnode, rfl⟩
  change node = temp at hnode
  subst hnode
  rw [hsegment.read_cell] at hread
  cases hread
  rfl

theorem Walks.step (h : Walks addresses s) (hnodup : addresses.Nodup)
    (hguard : ¬ Spoils s a) (hstep : s.step a = some s') :
    Walks addresses s' := by
  cases a with
  | heard fd now => exact h.heard hnodup hstep
  | sweep now =>
      have hsilent : (forall x, s.phase ≠ SweepPhase.delete x) ->
          forall x, x ∈ s.examined -> x.Silent ->
            s'.phase = SweepPhase.delete x := by
        intro hphase x hx hx'
        exact absurd (h.silent x hx hx') (hphase x)
      rcases h.position with ⟨rest, hsplit, hat⟩
      have hat' := hat
      have hstep' := hstep
      dsimp only [Sweep.step] at hstep'
      unfold At at hat'
      cases hphase : s.phase <;> rw [hphase] at hstep' hat' hsilent
      case init =>
          cases hstep'
          refine ⟨h.nodes, ⟨addresses, ?_, ?_⟩, hsilent (by simp)⟩
          · dsimp only
            rw [hat']
            rfl
          · rcases h.nodes with ⟨places, hsegment, rfl, _⟩
            exact hsegment.head_eq
      case test p =>
          cases p with
          | none =>
              cases hstep'
              refine ⟨h.nodes, ⟨rest, hsplit, ?_⟩, hsilent (by simp)⟩
              exact List.head?_eq_none_iff.mp hat'.symm
          | some temp =>
              cases hstep'
              exact ⟨h.nodes, ⟨rest, hsplit, hat'.symm⟩, hsilent (by simp)⟩
      case readTime temp =>
          cases hstep'
          exact ⟨h.nodes, ⟨rest, hsplit, hat'⟩, hsilent (by simp)⟩
      case readStamp temp time =>
          rcases Option.map_eq_some_iff.mp hstep' with ⟨cell, _, rfl⟩
          exact ⟨h.nodes, ⟨rest, hsplit, hat'⟩, hsilent (by simp)⟩
      case compare x => exact h.compare hphase hstep
      case delete x => exact h.delete hnodup hguard hphase hstep
      case advance temp =>
          rcases Option.map_eq_some_iff.mp hstep' with ⟨cell, hread, rfl⟩
          exact ⟨h.nodes, h.next hphase hread, hsilent (by simp)⟩
      case done => cases hstep'

/-!
## What the walk is worth
-/

theorem Walks.proceeds (h : Walks addresses s) (hnodup : addresses.Nodup)
    (hphase : s.phase ≠ SweepPhase.done) (now : UInt64) :
    s.step (SweepAction.sweep now) ≠ none := by
  have hreads := @h.read_ne_none
  cases hat : s.phase <;> rw [hat] at hphase hreads
  case delete x =>
      rcases h.step_delete hnodup hat with ⟨peers, hdelete, _⟩
      rw [hdelete now]
      exact Option.some_ne_none _
  case done => exact absurd rfl hphase
  all_goals
    dsimp only [Sweep.step]
    rw [hat]
  case test p => cases p <;> exact Option.some_ne_none _
  case readStamp temp time =>
      dsimp only
      rw [ne_eq, Option.map_eq_none_iff]
      exact hreads temp rfl
  case advance temp =>
      dsimp only
      rw [ne_eq, Option.map_eq_none_iff]
      exact hreads temp rfl
  all_goals exact Option.some_ne_none _

theorem swept_of_walks {peers : PeerList} (h : Walks addresses s)
    (hnodup : addresses.Nodup)
    (hpeers : forall temp, peers.Contains temp <-> temp ∈ addresses) :
    Swept peers s where
  onList := by
    intro temp htemp
    exact h.contains_iff.mpr (h.mem_of_phase htemp)
  proceeds := h.proceeds hnodup
  removes := by
    intro x hx hsilent
    exact Or.inl (h.silent x hx hsilent)
  keeps := by
    intro temp htemp _
    exact h.contains_iff.mpr ((hpeers temp).mp htemp)
  covers := by
    intro hdone temp htemp
    rcases h.position with ⟨rest, hsplit, hat⟩
    unfold At at hat
    rw [hdone] at hat
    change rest = [] at hat
    have hmem := (hpeers temp).mp htemp
    rw [hsplit, hat, List.append_nil] at hmem
    exact List.mem_map.mp hmem

theorem not_swept_of_freed {peers : PeerList} (htemp : s.phase.temp = some temp)
    (hfreed : s.peers.heap.read temp = none) : ¬ Swept peers s := by
  intro h
  exact not_contains_of_freed hfreed (h.onList temp htemp)

theorem not_swept_of_spoils {peers : PeerList} (h : Walks addresses s)
    (hnodup : addresses.Nodup) (hspoils : Spoils s a)
    (hstep : s.step a = some s') : ¬ Swept peers s' := by
  cases a with
  | heard fd now => cases hspoils
  | sweep now =>
      rcases hspoils with ⟨x, hphase, hx⟩
      rcases h.step_delete hnodup hphase with ⟨peers', hdelete, hcases⟩
      rw [hdelete now] at hstep
      cases hstep
      rcases hcases with ⟨hsingle, rfl⟩ | ⟨_, hfreed⟩
      · rcases hx with hsilent | ⟨fd, hseveral⟩
        · intro hswept
          rcases h.position with ⟨rest, _, hat⟩
          unfold At at hat
          rw [hphase] at hat
          rcases hswept.removes x (List.mem_of_getLast? hat) hsilent with
            hpending | hgone
          · cases hpending
          · apply hgone
            apply h.contains_iff.mpr
            exact h.mem_of_phase (by rw [hphase]; rfl)
        · exact absurd hseveral (hsingle fd)
      · exact not_swept_of_freed rfl hfreed

def progress (s : Sweep) : Nat :=
  6 * s.examined.length +
    match s.phase with
    | SweepPhase.init => 2
    | SweepPhase.delete _ => 1
    | SweepPhase.advance _ => 2
    | SweepPhase.test _ => 3
    | SweepPhase.readTime _ => 4
    | SweepPhase.readStamp _ _ => 5
    | SweepPhase.compare _ => 6
    | SweepPhase.done => 4

theorem progress_heard {fd : Int32} {now : UInt64}
    (hstep : s.step (SweepAction.heard fd now) = some s') :
    s'.progress = s.progress := by
  rcases Option.map_eq_some_iff.mp hstep with ⟨result, _, rfl⟩
  rfl

theorem progress_sweep {now : UInt64}
    (hstep : s.step (SweepAction.sweep now) = some s') :
    s.progress < s'.progress := by
  dsimp only [Sweep.step] at hstep
  unfold progress
  cases hphase : s.phase <;> rw [hphase] at hstep
  case test p =>
      cases p <;> cases hstep <;> simp
  case readStamp temp time =>
      rcases Option.map_eq_some_iff.mp hstep with ⟨cell, _, rfl⟩
      simp
  case compare x =>
      cases hstep
      dsimp only
      rw [List.length_append, List.length_singleton]
      cases Classical.em x.expired with
      | inl hexpired =>
          rw [if_pos hexpired]
          dsimp only
          omega
      | inr hkept =>
          rw [if_neg hkept]
          dsimp only
          omega
  case delete x =>
      dsimp only at hstep
      split at hstep
      · cases hstep
      · rcases Option.map_eq_some_iff.mp hstep with ⟨result, _, rfl⟩
        simp
  case advance temp =>
      rcases Option.map_eq_some_iff.mp hstep with ⟨cell, _, rfl⟩
      simp
  all_goals cases hstep <;> simp

theorem progress_run {actions : List SweepAction}
    (hrun : runFrom step s actions = some s') :
    s.progress + actions.countP SweepAction.own ≤ s'.progress := by
  induction actions generalizing s with
  | nil =>
      cases hrun
      exact Nat.le_refl _
  | cons a rest ih =>
      rcases runFrom_cons_eq_some_iff.mp hrun with ⟨t, hstep, hrest⟩
      have hcount := ih hrest
      rw [List.countP_cons]
      cases a with
      | heard fd now =>
          rw [progress_heard hstep] at hcount
          exact hcount
      | sweep now =>
          have hlt := progress_sweep hstep
          simp only [SweepAction.own, if_true]
          omega

theorem Walks.progress_le (h : Walks addresses s) :
    s.progress ≤ 6 * addresses.length + 4 := by
  have hle := h.length_le
  rcases h.position with ⟨rest, hsplit, hat⟩
  have hlength : addresses.length = s.examined.length + rest.length := by
    rw [hsplit, List.length_append, List.length_map]
  have hne : forall {temp : Nat}, rest.head? = some temp ->
      0 < rest.length := by
    intro temp hhead
    cases rest with
    | nil => cases hhead
    | cons _ _ => exact Nat.succ_pos _
  unfold progress
  unfold At at hat
  cases hphase : s.phase <;> rw [hphase] at hat <;> dsimp only at hat ⊢
  case readStamp temp time =>
      have := hne hat
      omega
  case compare x =>
      have := hne hat
      omega
  all_goals omega

end Walk

/-- A sweep does what it is for, throughout, exactly if it never gets as far as
to delete one of several peers, or a silent one; and then it comes to its end,
however many heartbeats arrive meanwhile. -/
theorem swept_iff_avoids_spoils {peers : PeerList} {l : Registry}
    {actions : List SweepAction} {s : Sweep} (h : Represents peers l)
    (hdistinct : l.descriptors.Nodup)
    (hrun : runFrom step (start peers) actions = some s) :
    (Throughout step (Swept peers) (start peers) actions <->
      Avoids step Spoils (start peers) actions) ∧
    (Avoids step Spoils (start peers) actions ->
      actions.countP SweepAction.own ≤ 6 * l.length + 2) := by
  rcases h with ⟨places, hsegment, hnodup, rfl⟩
  have hstart : Walks (places.map Prod.fst) (start peers) := by
    refine ⟨⟨places, hsegment, rfl, hdistinct⟩, ⟨_, rfl, rfl⟩, ?_⟩
    intro x hx
    cases hx
  have hpeers : forall temp,
      peers.Contains temp <-> temp ∈ places.map Prod.fst :=
    fun temp => contains_iff hsegment
  have hkeep : forall t a u, Walks (places.map Prod.fst) t -> ¬ Spoils t a ->
      step t a = some u -> Walks (places.map Prod.fst) u := by
    intro t a u ht hguard hstep
    exact ht.step hnodup hguard hstep
  constructor
  · refine throughout_iff_avoids_of_keeps ?_ hkeep ?_ hstart hrun
    · intro t ht
      exact swept_of_walks ht hnodup hpeers
    · intro t a u ht hspoils hstep
      exact not_swept_of_spoils ht hnodup hspoils hstep
  · intro havoids
    have hwalks : Walks (places.map Prod.fst) s :=
      (reachable_of_avoids hrun havoids Reachable.start).invariant hstart hkeep
    have hcount := progress_run hrun
    have hle := hwalks.progress_le
    have hzero : (start peers).progress = 2 := rfl
    rw [List.length_map] at hle ⊢
    omega

end Sweep

def Sample.twoPeers : PeerList where
  heap :=
    [(1, { value := { ip := Sample.host, last_time_stamp := 100, sockfd := 3 }
           next := some 2 }),
      (2, { value := { ip := Sample.host, last_time_stamp := 90, sockfd := 4 }
            next := none })]
  peer_head := some 1

def Sample.onePeer : PeerList where
  heap :=
    [(1, { value := { ip := Sample.host, last_time_stamp := 100, sockfd := 3 }
           next := none })]
  peer_head := some 1

def Sample.inTime : List SweepAction :=
  [SweepAction.sweep 328, SweepAction.sweep 328, SweepAction.sweep 328,
    SweepAction.heard 3 328, SweepAction.sweep 329, SweepAction.sweep 329,
    SweepAction.sweep 329, SweepAction.sweep 329, SweepAction.sweep 330,
    SweepAction.sweep 330, SweepAction.sweep 330, SweepAction.sweep 330,
    SweepAction.sweep 330]

theorem two_peers_in_time_swept :
    exists s, runFrom Sweep.step (Sweep.start Sample.twoPeers)
        Sample.inTime = some s ∧
      s.phase = SweepPhase.done ∧
      Throughout Sweep.step (Swept Sample.twoPeers)
        (Sweep.start Sample.twoPeers) Sample.inTime ∧
      Sample.inTime.countP SweepAction.own ≤ 6 * 2 + 2 := by
  have hrepresents : Represents Sample.twoPeers
      [{ ip := Sample.host, last_time_stamp := 100, sockfd := 3 },
        { ip := Sample.host, last_time_stamp := 90, sockfd := 4 }] :=
    ⟨[(1, _), (2, _)], ⟨rfl, _, rfl, rfl, _, rfl, rfl⟩, by decide, rfl⟩
  have havoids : Avoids Sweep.step Spoils (Sweep.start Sample.twoPeers)
      Sample.inTime := by
    repeat
      refine (avoids_cons_iff rfl).mpr ⟨not_spoils_of_phase ?_, ?_⟩
      · intro x hphase
        cases hphase
    exact trivial
  have hmain := @Sweep.swept_iff_avoids_spoils _ _ Sample.inTime _
    hrepresents (by decide) rfl
  exact ⟨_, rfl, rfl, hmain.left.mpr havoids, hmain.right havoids⟩

def Sample.sweeps (n : Nat) (now : UInt64) : List SweepAction :=
  List.replicate n (SweepAction.sweep now)

/-- (1) The second of two peers is silent: its node is freed, and the thread
is stuck there.  (2) A heartbeat arrives after the clock has been read: the
second peer is taken for silent, and removed.  (3) The only peer is silent, and
stays. -/
theorem sweep_at_freed_node :
    (exists s, Reachable Sweep.step unguarded
        (Sweep.start Sample.twoPeers) s ∧
      s.phase = SweepPhase.advance 2 ∧
      (forall now, s.step (SweepAction.sweep now) = none) ∧
      ¬ Swept Sample.twoPeers s) ∧
    (exists s x, Reachable Sweep.step unguarded
        (Sweep.start Sample.twoPeers) s ∧
      x ∈ s.examined ∧ x.time = 100 ∧ x.stamp = 101 ∧ ¬ x.Silent ∧
      ¬ s.peers.Contains x.temp ∧ ¬ Swept Sample.twoPeers s) ∧
    exists s x, Reachable Sweep.step unguarded
        (Sweep.start Sample.onePeer) s ∧
      s.phase = SweepPhase.done ∧ x ∈ s.examined ∧ x.Silent ∧
      s.peers.Contains x.temp ∧ ¬ Swept Sample.onePeer s := by
  refine ⟨?_, ?_, ?_⟩
  · have hreach := @reachable_of_runFrom _ _ Sweep.step
      (Sweep.start Sample.twoPeers) _ (Sample.sweeps 11 335) rfl
    exact ⟨_, hreach, rfl, fun _ => rfl, Sweep.not_swept_of_freed rfl rfl⟩
  · have hreach := @reachable_of_runFrom _ _ Sweep.step
      (Sweep.start Sample.twoPeers) _
      (Sample.sweeps 8 100 ++
        SweepAction.heard 4 101 :: Sample.sweeps 3 101) rfl
    refine ⟨_, { temp := 2, time := 100, stamp := 101 }, hreach, ?_, rfl, rfl,
      ?_, not_contains_of_freed rfl, Sweep.not_swept_of_freed rfl rfl⟩
    · exact List.mem_cons_of_mem _ List.mem_cons_self
    · unfold Examined.Silent
      decide
  · have hreach := @reachable_of_runFrom _ _ Sweep.step
      (Sweep.start Sample.onePeer) _ (Sample.sweeps 8 341) rfl
    have hcontains : Sample.onePeer.Contains 1 :=
      ⟨[(1, _)], ⟨rfl, _, rfl, rfl⟩, List.mem_singleton_self 1⟩
    have hsilent : Examined.Silent { temp := 1, time := 341, stamp := 100 } := by
      unfold Examined.Silent
      decide
    refine ⟨_, _, hreach, rfl, List.mem_singleton_self _, hsilent, hcontains,
      ?_⟩
    intro hswept
    rcases hswept.removes _ (List.mem_singleton_self _) hsilent with
      hpending | hgone
    · cases hpending
    · exact hgone hcontains

end Tracker
end DartSync
