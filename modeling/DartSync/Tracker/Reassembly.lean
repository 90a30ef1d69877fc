import DartSync.Tracker.Handshake

/-!
# Reassembling the tables of a peer

A connection carries the packets of whole tables, in order, with other packets
between and inside them.  The loop merges each table when its last packet
arrives.  This fails for a table whose size does not fit the `int` that counts
its nodes, and for an empty first table, which `display_filetable` cannot show.
-/

namespace DartSync
namespace Tracker

open Foundation

abbrev PeerTable := List (Placed Node)

def merged (P : PeerTable) : List Call :=
  [Call.updateFiletable (Int32.ofNat P.length) (PeerFt.live (link P)),
    Call.freeFt (Int32.ofNat P.length) (PeerFt.live (link P))]

def lastAnswered (calls : List Call) :
    List PtpPeer -> List (PtpPeer × List Call)
  | [] => []
  | [pkt] => [(pkt, calls)]
  | pkt :: next :: rest => (pkt, []) :: lastAnswered calls (next :: rest)

/-- The packets of a table, with the calls expected on each. -/
def bundle (myip : CString IP_LEN) (P : PeerTable) :
    List (PtpPeer × List Call) :=
  lastAnswered (merged P) (peerSendpkt myip P FILE_UPDATE)

/-- A packet sequence made of the given packets, in order, and of `REGISTER`
and `KEEP_ALIVE` packets, which are answered by no calls. -/
inductive Interleaved : List (PtpPeer × List Call) ->
    List (Arrival × List Call) -> Prop where
  | nil : Interleaved [] []
  | other {a : Arrival} {packets : List (PtpPeer × List Call)}
      {stream : List (Arrival × List Call)} :
      (a.recv_pkt.type = REGISTER ∨ a.recv_pkt.type = KEEP_ALIVE) ->
        Interleaved packets stream -> Interleaved packets ((a, []) :: stream)
  | packet {a : Arrival} {calls : List Call}
      {packets : List (PtpPeer × List Call)}
      {stream : List (Arrival × List Call)} :
      Interleaved packets stream ->
        Interleaved ((a.recv_pkt, calls) :: packets) ((a, calls) :: stream)

/-- On every packet the expected calls are made, and in the end no table is in
progress. -/
def Completes (s : Handshake) (stream : List (Arrival × List Call)) : Prop :=
  exists s', s.receiveAll (stream.map Prod.fst) =
      (stream.map Prod.snd, some s') ∧ s'.Idle

theorem completes_cons {s s' : Handshake} {a : Arrival} {calls : List Call}
    (h : s.receive a = (calls, some s'))
    (stream : List (Arrival × List Call)) :
    Completes s ((a, calls) :: stream) <-> Completes s' stream := by
  unfold Completes
  rw [List.map_cons, List.map_cons, Handshake.receiveAll_cons_some h]
  constructor
  · intro hstream
    rcases hstream with ⟨t, ht, hidle⟩
    rw [Prod.mk.injEq, List.cons.injEq] at ht
    exact ⟨t, Prod.ext ht.left.right ht.right, hidle⟩
  · intro hstream
    rcases hstream with ⟨t, ht, hidle⟩
    rw [ht]
    exact ⟨t, rfl, hidle⟩

theorem not_completes_of_fault {s : Handshake} {a : Arrival}
    {calls expected : List Call} (h : s.receive a = (calls, none))
    (stream : List (Arrival × List Call)) :
    ¬ Completes s ((a, expected) :: stream) := by
  intro hstream
  rcases hstream with ⟨t, ht, _⟩
  rw [List.map_cons, Handshake.receiveAll_cons_none h, Prod.mk.injEq] at ht
  cases ht.right

theorem not_completes_of_calls {s s' : Handshake} {a : Arrival}
    {calls expected : List Call} (h : s.receive a = (calls, some s'))
    (hne : calls ≠ expected) (stream : List (Arrival × List Call)) :
    ¬ Completes s ((a, expected) :: stream) := by
  intro hstream
  rcases hstream with ⟨t, ht, _⟩
  rw [List.map_cons, Handshake.receiveAll_cons_some h, Prod.mk.injEq,
    List.map_cons, List.cons.injEq] at ht
  exact hne ht.left.left

/-!
## The packets of a table
-/

def headerPacket (myip : CString IP_LEN) (P : PeerTable) : PtpPeer where
  type := FILE_UPDATE
  peer_ip := myip
  port := P2P_PORT
  file_table_size := Int32.ofNat P.length
  file := { value := zeroNode, pNext := 0 }

def nodePacket (myip : CString IP_LEN) (file : Linked Node) : PtpPeer where
  type := FILE_UPDATE
  peer_ip := myip
  port := P2P_PORT
  file_table_size := -1
  file := file

theorem bundle_eq (myip : CString IP_LEN) (P : PeerTable) :
    bundle myip P = lastAnswered (merged P)
      (headerPacket myip P :: (link P).map (nodePacket myip)) := rfl

theorem lastAnswered_cons {calls : List Call} (pkt : PtpPeer)
    {rest : List PtpPeer} (h : rest ≠ []) :
    lastAnswered calls (pkt :: rest) =
      (pkt, []) :: lastAnswered calls rest := by
  cases rest with
  | nil => exact absurd rfl h
  | cons next rest => rfl

def nodesToCome (myip : CString IP_LEN) (calls : List Call)
    (nodes : List (Linked Node)) : List (PtpPeer × List Call) :=
  lastAnswered calls (nodes.map (nodePacket myip))

theorem link_ne_nil {P : PeerTable} (h : P ≠ []) : link P ≠ [] := by
  intro hlink
  have hlength := length_link P
  rw [hlink] at hlength
  exact h (List.length_eq_zero_iff.mp hlength.symm)

/-!
## Where the loop is in the sequence
-/

def Countable (tables : List PeerTable) : Prop :=
  forall P, P ∈ tables -> P.length < 2 ^ 31

/-- The sizes fit an `int`, and the first table can be shown. -/
def Mergeable (ft : FileTable) (tables : List PeerTable) : Prop :=
  Countable tables ∧ (ft ≠ none ∨ tables.head? ≠ some [])

/-- Between two tables, inside one whose size fits, or inside one that has more
nodes than its header says; and what is needed to complete all tables. -/
inductive Position (myip : CString IP_LEN) (s : Handshake)
    (packets : List (PtpPeer × List Call)) : Prop -> Prop where
  | between {tables : List PeerTable} : s.Idle ->
      packets = tables.flatMap (bundle myip) ->
      Position myip s packets (Mergeable s.ft tables)
  | inside {tables : List PeerTable} {P : PeerTable}
      {seen toCome : List (Linked Node)} :
      s.peer_ft = PeerFt.live seen -> s.counter.toInt = seen.length ->
      P.length < 2 ^ 31 -> s.file_table_size = Int32.ofNat P.length ->
      link P = seen ++ toCome -> toCome ≠ [] ->
      packets = nodesToCome myip (merged P) toCome ++
        tables.flatMap (bundle myip) ->
      Position myip s packets (Countable tables)
  | overlong {calls : List Call} {later : List (PtpPeer × List Call)}
      {seen toCome : List (Linked Node)} :
      s.peer_ft = PeerFt.live seen -> s.counter.toInt = seen.length ->
      s.counter < s.file_table_size ->
      s.file_table_size.toInt < seen.length + toCome.length ->
      packets = nodesToCome myip calls toCome ++ later ->
      Position myip s packets False

theorem mergeable_iff_countable {ft : FileTable} (h : ft.isSome = true)
    (tables : List PeerTable) : Mergeable ft tables <-> Countable tables := by
  have hft : ft ≠ none := Option.isSome_iff_ne_none.mp h
  unfold Mergeable
  constructor
  · intro hmergeable
    exact hmergeable.left
  · intro hcountable
    exact ⟨hcountable, Or.inl hft⟩

theorem mergeable_congr {ft ft' : FileTable} (h : ft'.isSome = ft.isSome)
    (tables : List PeerTable) :
    Mergeable ft' tables <-> Mergeable ft tables := by
  unfold Mergeable
  rw [← Option.isSome_iff_ne_none, h, Option.isSome_iff_ne_none]

theorem countable_cons {P : PeerTable} {tables : List PeerTable} :
    Countable (P :: tables) <-> P.length < 2 ^ 31 ∧ Countable tables :=
  List.forall_mem_cons

theorem lastAnswered_ne_nil {calls : List Call} {pkts : List PtpPeer}
    (h : pkts ≠ []) : lastAnswered calls pkts ≠ [] := by
  cases pkts with
  | nil => exact absurd rfl h
  | cons pkt rest =>
      cases rest <;> exact List.cons_ne_nil _ _

theorem bundle_ne_nil (myip : CString IP_LEN) (P : PeerTable) :
    bundle myip P ≠ [] := by
  rw [bundle_eq]
  exact lastAnswered_ne_nil (List.cons_ne_nil _ _)

theorem nodesToCome_ne_nil {myip : CString IP_LEN} {calls : List Call}
    {nodes : List (Linked Node)} (h : nodes ≠ []) :
    nodesToCome myip calls nodes ≠ [] := by
  apply lastAnswered_ne_nil
  intro hmap
  exact h (List.map_eq_nil_iff.mp hmap)

theorem bundle_nil (myip : CString IP_LEN) :
    bundle myip [] = [(headerPacket myip [], merged [])] := rfl

theorem bundle_of_ne_nil (myip : CString IP_LEN) {P : PeerTable}
    (h : P ≠ []) :
    bundle myip P =
      (headerPacket myip P, []) :: nodesToCome myip (merged P) (link P) := by
  rw [bundle_eq, lastAnswered_cons]
  · rfl
  · intro hmap
    exact link_ne_nil h (List.map_eq_nil_iff.mp hmap)

theorem nodesToCome_last (myip : CString IP_LEN) (calls : List Call)
    (file : Linked Node) :
    nodesToCome myip calls [file] = [(nodePacket myip file, calls)] := rfl

theorem nodesToCome_cons (myip : CString IP_LEN) (calls : List Call)
    (file next : Linked Node) (later : List (Linked Node)) :
    nodesToCome myip calls (file :: next :: later) =
      (nodePacket myip file, []) ::
        nodesToCome myip calls (next :: later) := rfl

theorem toInt_length {P : PeerTable} (h : P.length < 2 ^ 31) :
    (Int32.ofNat P.length).toInt = P.length :=
  Int32.toInt_ofNat_of_lt h

/-!
## One packet
-/

theorem not_completes_of_unexpected {s : Handshake} {a : Arrival}
    (h : (s.receive a).1 ≠ []) (stream : List (Arrival × List Call)) :
    ¬ Completes s ((a, []) :: stream) := by
  cases hreceive : s.receive a with
  | mk calls s? =>
      cases s? with
      | none => exact not_completes_of_fault hreceive stream
      | some s' =>
          apply not_completes_of_calls hreceive
          rw [hreceive] at h
          exact h

theorem not_completes_of_stuck {s : Handshake} (h : s.Stuck)
    (stream : List (Arrival × List Call)) : ¬ Completes s stream := by
  induction stream generalizing s with
  | nil =>
      intro hcompletes
      rcases hcompletes with ⟨s', hs', hidle⟩
      cases hs'
      have hcounter := h.left
      rw [hidle.left] at hcounter
      cases hcounter
  | cons entry rest ih =>
      cases entry with
      | mk a expected =>
          rcases receive_of_stuck h a with ⟨s', hreceive, hstuck⟩
          cases Classical.em (expected = []) with
          | inl hexpected =>
              rw [hexpected, completes_cons hreceive]
              exact ih hstuck
          | inr hexpected =>
              exact not_completes_of_calls hreceive
                (fun hcalls => hexpected hcalls.symm) rest

theorem receive_header {s : Handshake} {a : Arrival} {myip : CString IP_LEN}
    {P : PeerTable} (hidle : s.Idle)
    (hpkt : a.recv_pkt = headerPacket myip P)
    (hsize : Int32.ofNat P.length ≠ -1) :
    s.receive a =
      let s' := { s with
        counter := 0
        file_table_size := Int32.ofNat P.length
        peer_ft := PeerFt.live [] }
      if 0 = Int32.ofNat P.length then s'.finish a.broadcastFails
      else ([], some s') := by
  have hpktSize : a.recv_pkt.file_table_size = Int32.ofNat P.length := by
    rw [hpkt]
    rfl
  rw [← hpktSize] at hsize ⊢
  exact receive_announcement hidle (by rw [hpkt]; rfl) hsize

theorem position_of_long_header {s : Handshake} {a : Arrival}
    {myip : CString IP_LEN} {P : PeerTable} (hidle : s.Idle)
    (hpkt : a.recv_pkt = headerPacket myip P) (hlong : ¬ P.length < 2 ^ 31)
    (later : List (PtpPeer × List Call)) :
    (s.receive a).1 ≠ [] ∨
      exists s', s.receive a = ([], some s') ∧
        (s'.Stuck ∨ Position myip s'
          (nodesToCome myip (merged P) (link P) ++ later) False) := by
  have hpktSize : a.recv_pkt.file_table_size = Int32.ofNat P.length := by
    rw [hpkt]
    rfl
  cases Classical.em (Int32.ofNat P.length = -1) with
  | inl hminus =>
      left
      rw [receive_stray hidle (by rw [hpkt]; rfl) (hpktSize.trans hminus)]
      exact finish_calls_ne_nil s a.broadcastFails
  | inr hminus =>
      rw [receive_header hidle hpkt hminus]
      cases Classical.em (0 = Int32.ofNat P.length) with
      | inl hzero =>
          left
          dsimp only
          rw [if_pos hzero]
          exact finish_calls_ne_nil _ a.broadcastFails
      | inr hzero =>
          right
          dsimp only
          rw [if_neg hzero]
          refine ⟨_, rfl, ?_⟩
          cases Classical.em ((Int32.ofNat P.length).toInt < -1) with
          | inl hnegative =>
              left
              exact ⟨rfl, hnegative⟩
          | inr hpositive =>
              right
              have hne : (Int32.ofNat P.length).toInt ≠ 0 := fun h =>
                hzero (Int32.toInt_inj.mp h.symm)
              have hne' : (Int32.ofNat P.length).toInt ≠ -1 := fun h =>
                hminus (Int32.toInt_inj.mp h)
              have hbound := (Int32.ofNat P.length).toInt_lt
              apply @Position.overlong _ _ _ (merged P) later [] (link P) rfl rfl
              · apply Int32.lt_iff_toInt_lt.mpr
                show (0 : Int32).toInt < (Int32.ofNat P.length).toInt
                rw [Int32.toInt_zero]
                omega
              · show (Int32.ofNat P.length).toInt < _
                rw [length_link, List.length_nil]
                omega
              · rfl

theorem receive_node {s : Handshake} {a : Arrival} {myip : CString IP_LEN}
    {seen : List (Linked Node)} {file : Linked Node}
    (hlive : s.peer_ft = PeerFt.live seen)
    (hcounter : s.counter.toInt = seen.length)
    (hroom : s.counter < s.file_table_size)
    (hpkt : a.recv_pkt = nodePacket myip file) :
    s.receive a =
      let s' := { s with
        counter := s.counter + 1
        peer_ft := PeerFt.live (seen ++ [file]) }
      if s.counter + 1 = s.file_table_size then s'.finish a.broadcastFails
      else ([], some s') := by
  rw [receive_fileUpdate (by rw [hpkt]; rfl),
    fileUpdate_node hlive hcounter hroom (by rw [hpkt]; rfl), hpkt]
  rfl

/-!
## A whole run
-/

theorem Position.of_other {myip : CString IP_LEN} {s : Handshake}
    {packets : List (PtpPeer × List Call)} {g : Prop}
    (h : Position myip s packets g) {ft : FileTable}
    (hft : ft.isSome = s.ft.isSome) :
    exists g', Position myip { s with ft := ft } packets g' ∧ (g' <-> g) := by
  cases h with
  | between hidle hpackets =>
      exact ⟨_, Position.between hidle hpackets, mergeable_congr hft _⟩
  | inside hlive hcounter hlength hsize hlink htoCome hpackets =>
      exact ⟨_, Position.inside hlive hcounter hlength hsize hlink htoCome
        hpackets, Iff.rfl⟩
  | overlong hlive hcounter hroom hlength hpackets =>
      exact ⟨_, Position.overlong hlive hcounter hroom hlength hpackets,
        Iff.rfl⟩

/-- What one packet of a table does: it is not answered as expected, or the
header is negative, or the position moves on by one packet. -/
inductive Progress (myip : CString IP_LEN) (s : Handshake) (a : Arrival)
    (calls : List Call) (later : List (PtpPeer × List Call)) (g : Prop) :
    Prop where
  | fault {made : List Call} : s.receive a = (made, none) -> ¬ g ->
      Progress myip s a calls later g
  | unexpected : (s.receive a).1 ≠ [] -> calls = [] -> ¬ g ->
      Progress myip s a calls later g
  | stuck {s' : Handshake} : s.receive a = ([], some s') -> calls = [] ->
      s'.Stuck -> ¬ g -> Progress myip s a calls later g
  | moves {s' : Handshake} {g' : Prop} : s.receive a = (calls, some s') ->
      Position myip s' later g' -> (g' <-> g) ->
      Progress myip s a calls later g

theorem finish_of_table (s : Handshake) (P : PeerTable)
    (broadcastFails : Option Ip) (hlive : s.peer_ft = PeerFt.live (link P))
    (hsize : s.file_table_size = Int32.ofNat P.length)
    (hmerge : s.ft ≠ none ∨ P ≠ []) :
    exists s', s.finish broadcastFails = (merged P, some s') ∧ s'.Idle ∧
      s'.ft.isSome = true := by
  rcases finish_of_live broadcastFails hlive (nullTerminated_link P)
    (hmerge.imp id link_ne_nil) with ⟨s', hfinish, hfollows⟩
  refine ⟨s', ?_, ?_, hfollows.known.symm⟩
  · rw [hfinish, hsize]
    rfl
  · exact hfollows.idle_of_missing rfl

theorem progress_empty {myip : CString IP_LEN} {s : Handshake} {a : Arrival}
    (hidle : s.Idle) (hpkt : a.recv_pkt = headerPacket myip [])
    (tables : List PeerTable) :
    Progress myip s a (merged []) (tables.flatMap (bundle myip))
      (Mergeable s.ft ([] :: tables)) := by
  have hreceive := receive_header hidle hpkt (by decide)
  dsimp only at hreceive
  rw [if_pos (by rfl)] at hreceive
  cases hft : s.ft with
  | none =>
      rw [finish_of_fault (by rw [hft]; rfl)] at hreceive
      apply Progress.fault hreceive
      intro hmergeable
      cases hmergeable.right with
      | inl hsome => exact hsome rfl
      | inr hhead => exact hhead rfl
  | some nodes =>
      have hsome : s.ft ≠ none := by
        rw [hft]
        exact Option.some_ne_none nodes
      rcases finish_of_table { s with
          counter := 0
          file_table_size := Int32.ofNat ([] : PeerTable).length
          peer_ft := PeerFt.live [] } [] a.broadcastFails rfl rfl
          (Or.inl hsome) with ⟨s', hfinish, hidle', hknown⟩
      rw [hfinish] at hreceive
      apply Progress.moves hreceive (Position.between hidle' rfl)
      rw [mergeable_iff_countable hknown, mergeable_iff_countable rfl,
        countable_cons]
      constructor
      · intro hcountable
        exact ⟨by decide, hcountable⟩
      · intro hcountable
        exact hcountable.right

theorem progress_header {myip : CString IP_LEN} {s : Handshake} {a : Arrival}
    {P : PeerTable} (hidle : s.Idle) (hne : P ≠ [])
    (hpkt : a.recv_pkt = headerPacket myip P) (tables : List PeerTable) :
    Progress myip s a []
      (nodesToCome myip (merged P) (link P) ++ tables.flatMap (bundle myip))
      (Mergeable s.ft (P :: tables)) := by
  cases Nat.lt_or_ge P.length (2 ^ 31) with
  | inr hlong =>
      have hg : ¬ Mergeable s.ft (P :: tables) := by
        intro hmergeable
        have hlt := (countable_cons.mp hmergeable.left).left
        omega
      cases position_of_long_header hidle hpkt (by omega)
          (tables.flatMap (bundle myip)) with
      | inl hcalls => exact Progress.unexpected hcalls rfl hg
      | inr hposition =>
          rcases hposition with ⟨s', hreceive, hs'⟩
          cases hs' with
          | inl hstuck => exact Progress.stuck hreceive rfl hstuck hg
          | inr hoverlong =>
              exact Progress.moves hreceive hoverlong (iff_of_false id hg)
  | inl hfits =>
      have hpositive : 0 < P.length := List.length_pos_iff.mpr hne
      have hsize := toInt_length hfits
      have hzero : ¬ 0 = Int32.ofNat P.length := by
        intro h
        rw [← h, Int32.toInt_zero] at hsize
        omega
      have hminus : Int32.ofNat P.length ≠ -1 := by
        intro h
        rw [h] at hsize
        have : (-1 : Int32).toInt = -1 := rfl
        omega
      have hreceive := receive_header hidle hpkt hminus
      dsimp only at hreceive
      rw [if_neg hzero] at hreceive
      apply Progress.moves hreceive
      · exact @Position.inside _ _ _ tables P [] (link P) rfl rfl hfits rfl rfl
          (link_ne_nil hne) rfl
      · unfold Mergeable
        rw [countable_cons]
        constructor
        · intro hcountable
          refine ⟨⟨hfits, hcountable⟩, Or.inr ?_⟩
          intro hhead
          exact hne (Option.some.inj hhead)
        · intro hmergeable
          exact hmergeable.left.right

theorem progress_node {myip : CString IP_LEN} {s : Handshake} {a : Arrival}
    {tables : List PeerTable} {P : PeerTable}
    {seen toCome : List (Linked Node)} {file : Linked Node}
    (hlive : s.peer_ft = PeerFt.live seen)
    (hcounter : s.counter.toInt = seen.length) (hfits : P.length < 2 ^ 31)
    (hsize : s.file_table_size = Int32.ofNat P.length)
    (hlink : link P = seen ++ file :: toCome)
    (hpkt : a.recv_pkt = nodePacket myip file) :
    (toCome = [] ->
      Progress myip s a (merged P) (tables.flatMap (bundle myip))
        (Countable tables)) ∧
    (toCome ≠ [] ->
      Progress myip s a []
        (nodesToCome myip (merged P) toCome ++ tables.flatMap (bundle myip))
        (Countable tables)) := by
  have hlength : P.length = seen.length + (toCome.length + 1) := by
    rw [← length_link P, hlink, List.length_append, List.length_cons]
  have hsizeInt : s.file_table_size.toInt = P.length := by
    rw [hsize, toInt_length hfits]
  have hlt : s.counter.toInt < s.file_table_size.toInt := by omega
  have hreceive := receive_node hlive hcounter
    (Int32.lt_iff_toInt_lt.mpr hlt) hpkt
  have hnext := int32_succ hlt
  dsimp only at hreceive
  constructor
  · intro hlast
    cases hlast
    have hfull : s.counter + 1 = s.file_table_size := by
      apply Int32.toInt_inj.mp
      simp only [List.length_nil] at hlength
      omega
    rw [if_pos hfull] at hreceive
    have hne : P ≠ [] := by
      intro h
      rw [h] at hlength
      cases hlength
    rcases finish_of_table { s with
        counter := s.counter + 1
        peer_ft := PeerFt.live (seen ++ [file]) } P a.broadcastFails
        (congrArg PeerFt.live hlink.symm) hsize (Or.inr hne) with
      ⟨s', hfinish, hidle, hknown⟩
    rw [hfinish] at hreceive
    exact Progress.moves hreceive (Position.between hidle rfl)
      (mergeable_iff_countable hknown tables)
  · intro hmore
    have hpositive : 0 < toCome.length := List.length_pos_iff.mpr hmore
    have hnotFull : ¬ s.counter + 1 = s.file_table_size := by
      intro h
      rw [h] at hnext
      omega
    rw [if_neg hnotFull] at hreceive
    apply @Progress.moves _ _ _ _ _ _ _ (Countable tables) hreceive _ Iff.rfl
    refine @Position.inside _ _ _ tables P (seen ++ [file]) toCome
      ?_ ?_ hfits ?_ ?_ hmore ?_
    · rfl
    · show (s.counter + 1).toInt = _
      rw [List.length_append, List.length_singleton]
      omega
    · exact hsize
    · rw [hlink, List.append_assoc, List.singleton_append]
    · rfl

theorem progress_overlong {myip : CString IP_LEN} {s : Handshake} {a : Arrival}
    {calls : List Call} {seen toCome : List (Linked Node)}
    {file next : Linked Node} (hlive : s.peer_ft = PeerFt.live seen)
    (hcounter : s.counter.toInt = seen.length)
    (hroom : s.counter < s.file_table_size)
    (hlength : s.file_table_size.toInt <
      seen.length + (file :: next :: toCome).length)
    (hpkt : a.recv_pkt = nodePacket myip file)
    (later : List (PtpPeer × List Call)) :
    Progress myip s a [] (nodesToCome myip calls (next :: toCome) ++ later)
      False := by
  have hreceive := receive_node hlive hcounter hroom hpkt
  have hnext := int32_succ (Int32.lt_iff_toInt_lt.mp hroom)
  dsimp only at hreceive
  cases Classical.em (s.counter + 1 = s.file_table_size) with
  | inl hfull =>
      rw [if_pos hfull] at hreceive
      apply Progress.unexpected _ rfl id
      rw [hreceive]
      exact finish_calls_ne_nil _ a.broadcastFails
  | inr hnotFull =>
      rw [if_neg hnotFull] at hreceive
      apply Progress.moves hreceive _ Iff.rfl
      have hcount := Int32.lt_iff_toInt_lt.mp hroom
      have hne : (s.counter + 1).toInt ≠ s.file_table_size.toInt :=
        fun h => hnotFull (Int32.toInt_inj.mp h)
      refine @Position.overlong _ _ _ calls later (seen ++ [file])
        (next :: toCome) rfl ?_ ?_ ?_ rfl
      · show (s.counter + 1).toInt = _
        rw [List.length_append, List.length_singleton]
        omega
      · apply Int32.lt_iff_toInt_lt.mpr
        show (s.counter + 1).toInt < s.file_table_size.toInt
        omega
      · show s.file_table_size.toInt < _
        simp only [List.length_append, List.length_cons,
          List.length_nil] at hlength ⊢
        omega

theorem Interleaved.cons {a : Arrival} {expected : List Call}
    {packets : List (PtpPeer × List Call)}
    {stream : List (Arrival × List Call)}
    (h : Interleaved packets ((a, expected) :: stream)) :
    (a.recv_pkt.type ≠ FILE_UPDATE ∧ expected = [] ∧
      Interleaved packets stream) ∨
    exists later, packets = (a.recv_pkt, expected) :: later ∧
      Interleaved later stream := by
  cases h with
  | other htype hrest =>
      left
      refine ⟨?_, rfl, hrest⟩
      cases htype with
      | inl hregister => rw [hregister]; decide
      | inr halive => rw [halive]; decide
  | packet hrest => exact Or.inr ⟨_, rfl, hrest⟩

theorem Position.progress {myip : CString IP_LEN} {s : Handshake} {a : Arrival}
    {expected : List Call} {later : List (PtpPeer × List Call)} {g : Prop}
    (h : Position myip s ((a.recv_pkt, expected) :: later) g) :
    Progress myip s a expected later g := by
  cases h with
  | between hidle htables =>
      rename_i tables
      cases tables with
      | nil => cases htables
      | cons P tables =>
          rw [List.flatMap_cons] at htables
          cases Classical.em (P = []) with
          | inl hnil =>
              rw [hnil, bundle_nil, List.singleton_append, List.cons.injEq,
                Prod.mk.injEq] at htables
              rcases htables with ⟨⟨hpkt, hexpected⟩, hlater⟩
              rw [hnil, hexpected, hlater]
              exact progress_empty hidle hpkt tables
          | inr hne =>
              rw [bundle_of_ne_nil myip hne, List.cons_append,
                List.cons.injEq, Prod.mk.injEq] at htables
              rcases htables with ⟨⟨hpkt, hexpected⟩, hlater⟩
              rw [hexpected, hlater]
              exact progress_header hidle hne hpkt tables
  | inside hlive hcounter hfits hsize hlink htoCome htables =>
      rename_i tables P seen toCome
      cases toCome with
      | nil => exact absurd rfl htoCome
      | cons file toCome =>
          cases toCome with
          | nil =>
              rw [nodesToCome_last, List.singleton_append, List.cons.injEq,
                Prod.mk.injEq] at htables
              rcases htables with ⟨⟨hpkt, hexpected⟩, hlater⟩
              rw [hexpected, hlater]
              exact (progress_node hlive hcounter hfits hsize hlink hpkt).left
                rfl
          | cons next toCome =>
              rw [nodesToCome_cons, List.cons_append, List.cons.injEq,
                Prod.mk.injEq] at htables
              rcases htables with ⟨⟨hpkt, hexpected⟩, hlater⟩
              rw [hexpected, hlater]
              exact (progress_node hlive hcounter hfits hsize hlink hpkt).right
                (List.cons_ne_nil next toCome)
  | overlong hlive hcounter hroom hlength htables =>
      rename_i calls more seen toCome
      have hcount := Int32.lt_iff_toInt_lt.mp hroom
      cases toCome with
      | nil =>
          rw [List.length_nil] at hlength
          omega
      | cons file toCome =>
          cases toCome with
          | nil =>
              rw [List.length_singleton] at hlength
              omega
          | cons next toCome =>
              rw [nodesToCome_cons, List.cons_append, List.cons.injEq,
                Prod.mk.injEq] at htables
              rcases htables with ⟨⟨hpkt, hexpected⟩, hlater⟩
              rw [hexpected, hlater]
              exact progress_overlong hlive hcounter hroom hlength hpkt more

theorem Position.completes_iff {myip : CString IP_LEN} {s : Handshake}
    {packets : List (PtpPeer × List Call)} {g : Prop}
    {stream : List (Arrival × List Call)} (h : Position myip s packets g)
    (hstream : Interleaved packets stream) : Completes s stream <-> g := by
  induction stream generalizing s packets g with
  | nil =>
      cases hstream
      cases h with
      | between hidle htables =>
          rename_i tables
          cases tables with
          | nil =>
              apply iff_of_true
              · exact ⟨s, rfl, hidle⟩
              · constructor
                · intro P hP
                  cases hP
                · right
                  intro hhead
                  cases hhead
          | cons P tables =>
              rw [List.flatMap_cons] at htables
              have hnil := (List.append_eq_nil_iff.mp htables.symm).left
              exact absurd hnil (bundle_ne_nil myip P)
      | inside _ _ _ _ _ htoCome htables =>
          have hnil := (List.append_eq_nil_iff.mp htables.symm).left
          exact absurd hnil (nodesToCome_ne_nil htoCome)
      | overlong hlive hcounter hroom hlength htables =>
          have hnil := (List.append_eq_nil_iff.mp htables.symm).left
          rename_i toCome
          cases Classical.em (toCome = []) with
          | inl hempty =>
              have hcount := Int32.lt_iff_toInt_lt.mp hroom
              rw [hempty, List.length_nil] at hlength
              omega
          | inr hne => exact absurd hnil (nodesToCome_ne_nil hne)
  | cons entry rest ih =>
      rcases entry with ⟨a, expected⟩
      cases hstream.cons with
      | inl hother =>
          rcases hother with ⟨htype, hexpected, hrest⟩
          rcases receive_other htype with ⟨ft, hreceive, hft⟩
          rcases h.of_other hft with ⟨g', hposition, hiff⟩
          rw [hexpected, completes_cons hreceive, ih hposition hrest, hiff]
      | inr hpacket =>
          rcases hpacket with ⟨later, hpackets, hrest⟩
          rw [hpackets] at h
          cases h.progress with
          | fault hreceive hg =>
              exact iff_of_false (not_completes_of_fault hreceive rest) hg
          | unexpected hcalls hexpected hg =>
              rw [hexpected]
              exact iff_of_false (not_completes_of_unexpected hcalls rest) hg
          | stuck hreceive hexpected hstuck hg =>
              rw [hexpected, completes_cons hreceive]
              exact iff_of_false (not_completes_of_stuck hstuck rest) hg
          | moves hreceive hposition hiff =>
              rw [completes_cons hreceive, ih hposition hrest, hiff]

/-!
## The result
-/

/-- The loop merges each table once, on its last packet and as it was sent,
exactly when the tables can be merged. -/
theorem reassembles_iff {myip : CString IP_LEN} {tables : List PeerTable}
    {stream : List (Arrival × List Call)}
    (h : Interleaved (tables.flatMap (bundle myip)) stream)
    (ft : FileTable) :
    (Completes (Handshake.start ft) stream ∧
      forall P, P ∈ tables ->
        (PeerFt.live (link P)).nodes = some (P.map Placed.value)) <->
      Mergeable ft tables := by
  have hnodes : forall P, P ∈ tables ->
      (PeerFt.live (link P)).nodes = some (P.map Placed.value) := by
    intro P _
    exact traverse_link P
  have hposition : Position myip (Handshake.start ft)
      (tables.flatMap (bundle myip)) (Mergeable ft tables) :=
    Position.between ⟨rfl, rfl⟩ rfl
  rw [← hposition.completes_iff h]
  constructor
  · intro hcompletes
    exact hcompletes.left
  · intro hcompletes
    exact ⟨hcompletes, hnodes⟩

def Sample.table : PeerTable := [Sample.placed zeroNode]

def Sample.arrival (pkt : PtpPeer) : Arrival where
  recv_pkt := pkt
  replyFails := false
  broadcastFails := none

def Sample.header : Arrival :=
  Sample.arrival (headerPacket CString.empty Sample.table)

def Sample.keepAlive : Arrival :=
  Sample.arrival
    { headerPacket CString.empty Sample.table with type := KEEP_ALIVE }

def Sample.last : Arrival :=
  Sample.arrival (nodePacket CString.empty { value := zeroNode, pNext := 0 })

theorem reassembles_single :
    Completes (Handshake.start none) [(Sample.header, []),
        (Sample.keepAlive, []), (Sample.last, merged Sample.table)] ∧
      forall P, P ∈ [Sample.table] ->
        (PeerFt.live (link P)).nodes = some (P.map Placed.value) := by
  have hlast := @Interleaved.packet Sample.last (merged Sample.table) _ _
    Interleaved.nil
  have hkeepAlive := @Interleaved.other Sample.keepAlive _ _ (Or.inr rfl) hlast
  have hstream : Interleaved ([Sample.table].flatMap (bundle CString.empty)) _ :=
    @Interleaved.packet Sample.header [] _ _ hkeepAlive
  apply (reassembles_iff hstream none).mpr
  constructor
  · intro P hP
    cases List.mem_singleton.mp hP
    decide
  · right
    intro hhead
    cases hhead

/-- When the first table of a tracker is empty, the call is made, but the loop
does not survive it. -/
theorem not_completes_empty :
    ¬ forall (myip : CString IP_LEN) (ft : FileTable) (tables : List PeerTable)
      (stream : List (Arrival × List Call)),
      Interleaved (tables.flatMap (bundle myip)) stream ->
      Completes (Handshake.start ft) stream := by
  intro h
  have hstream : Interleaved
      (([[]] : List PeerTable).flatMap (bundle CString.empty))
      [(Sample.arrival (headerPacket CString.empty []), merged [])] :=
    @Interleaved.packet (Sample.arrival (headerPacket CString.empty [])) _ _ _
      Interleaved.nil
  rcases h CString.empty none [[]] _ hstream with ⟨s', hs', _⟩
  cases hs'

end Tracker
end DartSync
