import DartSync.Tracker.Reassembly

/-!
# Malformed packet sequences

A connection may carry any packets.  The loop handles them, and stays ready for
a well-formed table, as long as a reader of the packets never meets one that
`Reading.next` refuses: a `FILE_UPDATE` between tables that announces no number
of nodes, an empty first table, or a last node whose link leads elsewhere.
-/

namespace DartSync
namespace Tracker

open Foundation

def AllSound (calls : List Call) : Prop :=
  forall call, call ∈ calls -> call.Sound

theorem allSound_nil : AllSound [] := by
  intro call hcall
  cases hcall

theorem finish_of_filled (s : Handshake) (broadcastFails : Option Ip)
    {nodes : List (Linked Node)} (hlive : s.peer_ft = PeerFt.live nodes)
    (hterminated : nullTerminated nodes = true)
    (hfilled : (nodes.length : Int) = s.file_table_size.toInt)
    (hshown : s.ft ≠ none ∨ nodes ≠ []) :
    exists calls s', s.finish broadcastFails = (calls, some s') ∧
      AllSound calls ∧ Follows s' { known := true, missing := 0 } := by
  rcases finish_of_live broadcastFails hlive hterminated hshown with
    ⟨s', hfinish, hfollows⟩
  refine ⟨_, s', hfinish, ?_, hfollows⟩
  intro call hcall
  cases hcall with
  | head => exact ⟨nodes, rfl, hfilled⟩
  | tail _ hcall =>
      cases List.mem_singleton.mp hcall
      exact ⟨nodes, rfl, hfilled⟩

/-- The run is over, or ignores every later packet. -/
def Lost : Option Handshake -> Prop
  | none => True
  | some s => s.Stuck

/-!
## Between tables
-/

section Between

variable {s : Handshake} {a : Arrival} {r : Reading}

theorem finish_of_no_table (h : Follows s r) (hidle : r.missing = 0)
    (broadcastFails : Option Ip) :
    s.finish broadcastFails = ([Call.updateFiletable (-1) s.peer_ft], none) := by
  rcases h.idle hidle with ⟨_, hsize, hnotLive⟩
  have hnodes : s.peer_ft.nodes = none := by
    cases hpeer : s.peer_ft with
    | uninitialised => rfl
    | live nodes => exact absurd hpeer (hnotLive nodes)
    | freed => rfl
  rw [finish_of_fault, hsize]
  rw [hnodes]
  rfl

theorem receive_between_none (h : Follows s r) (hidle : r.missing = 0)
    (htype : a.recv_pkt.type = FILE_UPDATE)
    (hsize : a.recv_pkt.file_table_size < 0 ∨
      a.recv_pkt.file_table_size = 0 ∧ r.known = false) :
    Lost (s.receive a).2 := by
  cases Classical.em (a.recv_pkt.file_table_size = -1) with
  | inl hstray =>
      rw [receive_stray (h.idle_of_missing hidle) htype hstray,
        finish_of_no_table h hidle]
      trivial
  | inr hheader =>
      rw [receive_announcement (h.idle_of_missing hidle) htype hheader]
      cases hsize with
      | inl hnegative =>
          have hlt := Int32.lt_iff_toInt_lt.mp hnegative
          rw [Int32.toInt_zero] at hlt
          dsimp only
          rw [if_neg]
          · constructor
            · rfl
            · have hne : a.recv_pkt.file_table_size.toInt ≠ -1 :=
                fun h => hheader (Int32.toInt_inj.mp h)
              show a.recv_pkt.file_table_size.toInt < -1
              omega
          · intro hzero
            rw [← hzero, Int32.toInt_zero] at hlt
            omega
      | inr hempty =>
          have hft : s.ft = none := by
            rw [h.known] at hempty
            exact Option.not_isSome_iff_eq_none.mp
              (Bool.eq_false_iff.mp hempty.right)
          dsimp only
          rw [if_pos hempty.left.symm, finish_of_fault]
          · trivial
          · rw [hft]
            rfl

theorem receive_between_some (h : Follows s r) (hidle : r.missing = 0)
    (htype : a.recv_pkt.type = FILE_UPDATE)
    (hsize : ¬ a.recv_pkt.file_table_size < 0)
    (hshown : ¬ (a.recv_pkt.file_table_size = 0 ∧ r.known = false)) :
    exists calls s', s.receive a = (calls, some s') ∧ AllSound calls ∧
      Follows s' { r with
        missing := a.recv_pkt.file_table_size.toInt.toNat } := by
  have hnonneg : 0 ≤ a.recv_pkt.file_table_size.toInt := by
    have hge := mt Int32.lt_iff_toInt_lt.mpr hsize
    rw [Int32.toInt_zero] at hge
    omega
  have hheader : a.recv_pkt.file_table_size ≠ -1 := by
    intro hminus
    rw [hminus] at hnonneg
    cases hnonneg
  have hreceive := receive_announcement (h.idle_of_missing hidle) htype hheader
  dsimp only at hreceive
  cases Classical.em (0 = a.recv_pkt.file_table_size) with
  | inl hzero =>
      have hknown : r.known = true := by
        cases hr : r.known with
        | true => rfl
        | false => exact absurd ⟨hzero.symm, hr⟩ hshown
      have hft : s.ft ≠ none := by
        rw [h.known] at hknown
        exact Option.isSome_iff_ne_none.mp hknown
      rw [if_pos hzero] at hreceive
      rw [hreceive, hknown, ← hzero]
      exact finish_of_filled _ a.broadcastFails rfl rfl rfl (Or.inl hft)
  | inr hpositive =>
      rw [if_neg hpositive] at hreceive
      have hne : a.recv_pkt.file_table_size.toInt ≠ 0 := fun h =>
        hpositive (Int32.toInt_inj.mp h.symm)
      refine ⟨[], _, hreceive, allSound_nil, ?_⟩
      constructor
      · exact h.known
      · intro hzero
        exact absurd hzero (by show ¬ Int.toNat _ = 0; omega)
      · intro _
        refine ⟨[], rfl, rfl, ?_⟩
        show a.recv_pkt.file_table_size.toInt = _
        rw [Int.toNat_of_nonneg hnonneg, List.length_nil]
        omega

end Between

/-!
## Inside a table
-/

section Inside

variable {s : Handshake} {a : Arrival} {r : Reading} {missing : Nat}

theorem receive_inside_header (h : Follows s r)
    (hmissing : r.missing = missing + 1)
    (htype : a.recv_pkt.type = FILE_UPDATE)
    (hsize : a.recv_pkt.file_table_size ≠ -1) :
    s.receive a = ([], some s) := by
  rcases h.filling (by omega) with ⟨nodes, _, hcounter, hfull⟩
  rw [receive_fileUpdate htype, fileUpdate_ignored, if_neg]
  · intro heq
    rw [heq] at hcounter
    omega
  · intro hheader
    rw [hheader.left] at hcounter
    have hminus : (-1 : Int32).toInt = -1 := rfl
    omega
  · intro hnode
    exact hsize hnode.right

theorem receive_inside_node (h : Follows s r)
    (hmissing : r.missing = missing + 1)
    (htype : a.recv_pkt.type = FILE_UPDATE)
    (hsize : a.recv_pkt.file_table_size = -1) :
    exists nodes : List (Linked Node),
      (s.counter + 1).toInt = (nodes.length : Int) + 1 ∧
      s.file_table_size.toInt = (nodes.length : Int) + 1 + missing ∧
      s.receive a =
        let s' := { s with
          counter := s.counter + 1
          peer_ft := PeerFt.live (nodes ++ [a.recv_pkt.file]) }
        if missing = 0 then s'.finish a.broadcastFails
        else ([], some s') := by
  rcases h.filling (by omega) with ⟨nodes, hlive, hcounter, hfull⟩
  have hlt : s.counter.toInt < s.file_table_size.toInt := by omega
  have hnext := int32_succ hlt
  refine ⟨nodes, by omega, by omega, ?_⟩
  rw [receive_fileUpdate htype,
    fileUpdate_node hlive hcounter (Int32.lt_iff_toInt_lt.mpr hlt) hsize]
  dsimp only
  cases Classical.em (missing = 0) with
  | inl hlast =>
      rw [if_pos hlast, if_pos]
      apply Int32.toInt_inj.mp
      omega
  | inr hmore =>
      rw [if_neg hmore, if_neg]
      intro heq
      rw [heq] at hnext
      omega

theorem receive_last_none (h : Follows s r) (hmissing : r.missing = 1)
    (htype : a.recv_pkt.type = FILE_UPDATE)
    (hsize : a.recv_pkt.file_table_size = -1)
    (hlink : a.recv_pkt.file.pNext ≠ 0) : (s.receive a).2 = none := by
  rcases receive_inside_node h hmissing htype hsize with
    ⟨nodes, _, _, hreceive⟩
  have hforeign : ¬ nullTerminated (nodes ++ [a.recv_pkt.file]) = true :=
    mt (nullTerminated_concat nodes a.recv_pkt.file).mp hlink
  have hnodes : (PeerFt.live (nodes ++ [a.recv_pkt.file])).nodes = none :=
    if_neg hforeign
  rw [hreceive, if_pos rfl, finish_of_fault]
  show (PeerFt.live (nodes ++ [a.recv_pkt.file])).nodes.bind _ = none
  rw [hnodes]
  rfl

theorem receive_last_some (h : Follows s r) (hmissing : r.missing = 1)
    (htype : a.recv_pkt.type = FILE_UPDATE)
    (hsize : a.recv_pkt.file_table_size = -1)
    (hlink : a.recv_pkt.file.pNext = 0) :
    exists calls s', s.receive a = (calls, some s') ∧ AllSound calls ∧
      Follows s' { known := true, missing := 0 } := by
  rcases receive_inside_node h hmissing htype hsize with
    ⟨nodes, _, hfull, hreceive⟩
  rw [hreceive, if_pos rfl]
  apply finish_of_filled _ a.broadcastFails rfl
  · exact (nullTerminated_concat nodes a.recv_pkt.file).mpr hlink
  · rw [List.length_append, List.length_singleton]
    show _ = s.file_table_size.toInt
    omega
  · right
    exact List.concat_ne_nil _ _

theorem receive_inside_more (h : Follows s r)
    (hmissing : r.missing = missing + 1) (hmore : missing ≠ 0)
    (htype : a.recv_pkt.type = FILE_UPDATE)
    (hsize : a.recv_pkt.file_table_size = -1) :
    exists s', s.receive a = ([], some s') ∧
      Follows s' { r with missing := missing } := by
  rcases receive_inside_node h hmissing htype hsize with
    ⟨nodes, hcounter, hfull, hreceive⟩
  rw [hreceive, if_neg hmore]
  refine ⟨_, rfl, h.known, ?_, ?_⟩
  · intro hzero
    exact absurd hzero hmore
  · intro _
    refine ⟨nodes ++ [a.recv_pkt.file], rfl, ?_, ?_⟩
    · rw [List.length_append, List.length_singleton]
      exact hcounter
    · rw [List.length_append, List.length_singleton]
      exact hfull

end Inside

/-!
## Any packet
-/

theorem follows_other {s : Handshake} {r : Reading} (h : Follows s r)
    {ft : FileTable} (hft : ft.isSome = s.ft.isSome) :
    Follows { s with ft := ft } r where
  known := by
    rw [h.known]
    exact hft.symm
  idle := h.idle
  filling := h.filling

theorem receive_of_next_some {s : Handshake} {r r' : Reading} {a : Arrival}
    (h : Follows s r) (hnext : r.next a.recv_pkt = some r') :
    exists calls s', s.receive a = (calls, some s') ∧ AllSound calls ∧
      Follows s' r' := by
  unfold Reading.next at hnext
  split at hnext
  · next htype =>
      split at hnext
      · next hidle =>
          split at hnext
          · cases hnext
          · next hsize =>
              split at hnext
              · cases hnext
              · next hshown =>
                  cases hnext
                  exact receive_between_some h hidle htype hsize hshown
      · next missing hmissing =>
          split at hnext
          · next hsize =>
              cases hnext
              exact ⟨[], s, receive_inside_header h hmissing htype hsize,
                allSound_nil, h⟩
          · next hsize =>
              have hnode := Decidable.not_not.mp hsize
              split at hnext
              · next hlast =>
                  split at hnext
                  · next hlink =>
                      cases hnext
                      rw [hlast] at hmissing
                      exact receive_last_some h hmissing htype hnode hlink
                  · cases hnext
              · next hmore =>
                  cases hnext
                  rcases receive_inside_more h hmissing hmore htype hnode with
                    ⟨s', hreceive, hfollows⟩
                  exact ⟨[], s', hreceive, allSound_nil, hfollows⟩
  · next htype =>
      cases hnext
      rcases receive_other htype with ⟨ft, hreceive, hft⟩
      exact ⟨[], _, hreceive, allSound_nil, follows_other h hft⟩

theorem receive_of_next_none {s : Handshake} {r : Reading} {a : Arrival}
    (h : Follows s r) (hnext : r.next a.recv_pkt = none) :
    Lost (s.receive a).2 := by
  unfold Reading.next at hnext
  split at hnext
  · next htype =>
      split at hnext
      · next hidle =>
          split at hnext
          · next hsize =>
              exact receive_between_none h hidle htype (Or.inl hsize)
          · split at hnext
            · next hshown =>
                exact receive_between_none h hidle htype (Or.inr hshown)
            · cases hnext
      · next missing hmissing =>
          split at hnext
          · cases hnext
          · next hsize =>
              have hnode := Decidable.not_not.mp hsize
              split at hnext
              · next hlast =>
                  split at hnext
                  · cases hnext
                  · next hlink =>
                      rw [hlast] at hmissing
                      rw [receive_last_none h hmissing htype hnode hlink]
                      trivial
              · cases hnext
  · cases hnext

/-!
## A whole run
-/

def SoundRun (result : List (List Call) × Option Handshake) : Prop :=
  forall calls, calls ∈ result.1 -> AllSound calls

theorem receiveAll_of_stuck {s : Handshake} (h : s.Stuck)
    (arrivals : List Arrival) :
    exists s', (s.receiveAll arrivals).2 = some s' ∧ s'.Stuck := by
  induction arrivals generalizing s with
  | nil => exact ⟨s, rfl, h⟩
  | cons a rest ih =>
      rcases receive_of_stuck h a with ⟨s', hreceive, hstuck⟩
      rw [Handshake.receiveAll_cons_some hreceive]
      exact ih hstuck

theorem receiveAll_of_lost {s : Handshake} {a : Arrival}
    (h : Lost (s.receive a).2) (rest : List Arrival) :
    Lost (s.receiveAll (a :: rest)).2 := by
  cases hreceive : s.receive a with
  | mk calls s? =>
      rw [hreceive] at h
      cases s? with
      | none =>
          rw [Handshake.receiveAll_cons_none hreceive]
          trivial
      | some s' =>
          rw [Handshake.receiveAll_cons_some hreceive]
          rcases receiveAll_of_stuck h rest with ⟨t, ht, hstuck⟩
          rw [ht]
          exact hstuck

/-- The reader is never refused, and the loop follows it to the end; or the
loop is lost. -/
theorem receiveAll_follows {s : Handshake} {r : Reading} (h : Follows s r)
    (arrivals : List Arrival) :
    match runFrom Reading.next r (arrivals.map Arrival.recv_pkt) with
    | some r' => SoundRun (s.receiveAll arrivals) ∧
        exists s', (s.receiveAll arrivals).2 = some s' ∧ Follows s' r'
    | none => Lost (s.receiveAll arrivals).2 := by
  induction arrivals generalizing s r with
  | nil =>
      constructor
      · intro calls hcalls
        cases hcalls
      · exact ⟨s, rfl, h⟩
  | cons a rest ih =>
      rw [List.map_cons, runFrom]
      cases hnext : r.next a.recv_pkt with
      | none =>
          exact receiveAll_of_lost (receive_of_next_none h hnext) rest
      | some r1 =>
          rcases receive_of_next_some h hnext with
            ⟨calls, s1, hreceive, hsound, hfollows⟩
          have hrest := ih hfollows
          rw [Handshake.receiveAll_cons_some hreceive]
          dsimp only
          cases hrun : runFrom Reading.next r1
              (rest.map Arrival.recv_pkt) with
          | none =>
              rw [hrun] at hrest
              exact hrest
          | some r' =>
              rw [hrun] at hrest
              constructor
              · intro made hmade
                cases hmade with
                | head => exact hsound
                | tail _ hlater => exact hrest.left made hlater
              · exact hrest.right

/-!
## The result
-/

def Handshake.Outstanding (s : Handshake) : Prop :=
  s.counter ≠ -1 ∧ s.counter < s.file_table_size

def Handshake.Processes (s : Handshake) (myip : CString IP_LEN)
    (Q : PeerTable) : Prop :=
  forall stream, Interleaved (bundle myip Q) stream -> Completes s stream

/-- Only sound calls are made, and a table sent after the packets, when no node
is outstanding, is processed. -/
def Robust (ft : FileTable) (arrivals : List Arrival) (myip : CString IP_LEN)
    (Q : PeerTable) : Prop :=
  SoundRun ((Handshake.start ft).receiveAll arrivals) ∧
    exists s, ((Handshake.start ft).receiveAll arrivals).2 = some s ∧
      (¬ s.Outstanding -> s.Processes myip Q)

/-- The packets are read to the end, and the table can be shown if it comes
between tables. -/
def Readable (ft : FileTable) (packets : List PtpPeer) (Q : PeerTable) :
    Prop :=
  exists r, runFrom Reading.next { known := ft.isSome, missing := 0 } packets =
      some r ∧
    (r.missing = 0 -> r.known = true ∨ Q ≠ [])

theorem exists_interleaved (packets : List (PtpPeer × List Call)) :
    exists stream, Interleaved packets stream := by
  induction packets with
  | nil => exact ⟨[], Interleaved.nil⟩
  | cons entry rest ih =>
      rcases entry with ⟨pkt, calls⟩
      rcases ih with ⟨stream, hstream⟩
      exact ⟨_, @Interleaved.packet ⟨pkt, false, none⟩ calls _ _ hstream⟩

theorem not_processes_of_stuck {s : Handshake} (h : s.Stuck)
    (myip : CString IP_LEN) (Q : PeerTable) : ¬ s.Processes myip Q := by
  intro hprocesses
  rcases exists_interleaved (bundle myip Q) with ⟨stream, hstream⟩
  exact not_completes_of_stuck h stream (hprocesses stream hstream)

theorem not_outstanding_of_stuck {s : Handshake} (h : s.Stuck) :
    ¬ s.Outstanding := by
  intro houtstanding
  have hlt := Int32.lt_iff_toInt_lt.mp houtstanding.right
  have hsize := h.right
  rw [h.left, Int32.toInt_zero] at hlt
  omega

theorem Follows.outstanding_iff {s : Handshake} {r : Reading}
    (h : Follows s r) : s.Outstanding <-> r.missing ≠ 0 := by
  cases Classical.em (r.missing = 0) with
  | inl hidle =>
      apply iff_of_false
      · intro houtstanding
        exact houtstanding.left (h.idle hidle).left
      · exact not_not_intro hidle
  | inr hmissing =>
      rcases h.filling hmissing with ⟨nodes, _, hcounter, hfull⟩
      apply iff_of_true _ hmissing
      constructor
      · intro hminus
        rw [hminus] at hcounter
        have hvalue : (-1 : Int32).toInt = -1 := rfl
        omega
      · apply Int32.lt_iff_toInt_lt.mpr
        omega

theorem Follows.processes_iff {s : Handshake} {r : Reading} (h : Follows s r)
    (hidle : r.missing = 0) (myip : CString IP_LEN) {Q : PeerTable}
    (hcountable : Q.length < 2 ^ 31) :
    s.Processes myip Q <-> r.known = true ∨ Q ≠ [] := by
  have hposition : Position myip s (bundle myip Q) (Mergeable s.ft [Q]) := by
    apply Position.between
    · exact h.idle_of_missing hidle
    · rw [List.flatMap_singleton]
  have hknown : s.ft ≠ none <-> r.known = true := by
    rw [h.known, Option.isSome_iff_ne_none]
  have hmergeable : Mergeable s.ft [Q] <-> r.known = true ∨ Q ≠ [] := by
    unfold Mergeable
    rw [hknown, countable_cons, List.head?_cons, Ne, Option.some.injEq]
    constructor
    · intro hboth
      exact hboth.right
    · intro hshown
      refine ⟨⟨hcountable, ?_⟩, hshown⟩
      intro P hP
      cases hP
  rw [← hmergeable]
  constructor
  · intro hprocesses
    rcases exists_interleaved (bundle myip Q) with ⟨stream, hstream⟩
    exact (hposition.completes_iff hstream).mp (hprocesses stream hstream)
  · intro hQ stream hstream
    exact (hposition.completes_iff hstream).mpr hQ

/-- A loop that has got past any packets is robust exactly when they can be
read. -/
theorem robust_iff (ft : FileTable) (arrivals : List Arrival)
    (myip : CString IP_LEN) {Q : PeerTable} (hQ : Q.length < 2 ^ 31) :
    Robust ft arrivals myip Q <->
      Readable ft (arrivals.map Arrival.recv_pkt) Q := by
  have hrun := receiveAll_follows (follows_start ft) arrivals
  unfold Robust Readable
  cases hread : runFrom Reading.next { known := ft.isSome, missing := 0 }
      (arrivals.map Arrival.recv_pkt) with
  | none =>
      rw [hread] at hrun
      apply iff_of_false
      · intro hrobust
        rcases hrobust with ⟨_, s, hs, hprocesses⟩
        dsimp only at hrun
        rw [hs] at hrun
        exact not_processes_of_stuck hrun myip Q
          (hprocesses (not_outstanding_of_stuck hrun))
      · intro hreadable
        rcases hreadable with ⟨r, hr, _⟩
        cases hr
  | some r =>
      rw [hread] at hrun
      rcases hrun with ⟨hsound, s, hs, hfollows⟩
      constructor
      · intro hrobust
        rcases hrobust with ⟨_, s', hs', hprocesses⟩
        rw [hs] at hs'
        cases hs'
        refine ⟨r, rfl, ?_⟩
        intro hidle
        apply (hfollows.processes_iff hidle myip hQ).mp
        apply hprocesses
        rw [hfollows.outstanding_iff]
        exact not_not_intro hidle
      · intro hreadable
        rcases hreadable with ⟨r', hr', hshown⟩
        cases hr'
        refine ⟨hsound, s, hs, ?_⟩
        intro hnotOutstanding
        have hidle : r.missing = 0 := by
          rw [hfollows.outstanding_iff] at hnotOutstanding
          exact Decidable.not_not.mp hnotOutstanding
        exact (hfollows.processes_iff hidle myip hQ).mpr (hshown hidle)

def Sample.secondHeader : Arrival :=
  Sample.arrival
    { headerPacket CString.empty [] with file_table_size := -7 }

theorem robust_secondHeader :
    Robust none [Sample.header, Sample.secondHeader, Sample.last]
      CString.empty [] := by
  apply (robust_iff none _ CString.empty (by decide)).mpr
  refine ⟨{ known := true, missing := 0 }, rfl, ?_⟩
  intro _
  exact Or.inl rfl

/-- With one file in the tracker's table: a node between tables is not refused,
and a table that is never allocated is merged; after a negative header nothing
is. -/
theorem not_robust_strayNode_and_negativeHeader :
    exists ft, updateFiletable none
        [Sample.node Sample.ipA Sample.fileA 100 5 FILE_CREATE] = some ft ∧
      ¬ Robust ft [Sample.last] CString.empty Sample.table ∧
      ¬ Robust ft [Sample.secondHeader] CString.empty Sample.table := by
  refine ⟨_, rfl, ?_, ?_⟩
  · intro hrobust
    have hsound := hrobust.left _ (List.mem_singleton.mpr rfl)
    rcases hsound _ (List.mem_singleton.mpr rfl) with ⟨nodes, hlive, _⟩
    cases hlive
  · intro hrobust
    rcases hrobust.right with ⟨s, hs, hprocesses⟩
    cases hs
    have hstuck : Handshake.Stuck
        ⟨0, -7, PeerFt.live [], mergeNode none
          (Sample.node Sample.ipA Sample.fileA 100 5 FILE_CREATE)⟩ :=
      ⟨rfl, by decide⟩
    exact not_processes_of_stuck hstuck CString.empty Sample.table
      (hprocesses (not_outstanding_of_stuck hstuck))

end Tracker
end DartSync
