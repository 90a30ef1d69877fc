import DartSync.Common.Framing
import DartSync.Foundation.Shuffle

/-!
# Concurrent broadcasts

Two `handshake` threads send a table to the same peer, each through its own
`tracker_sendpkt`, and nothing keeps their packets apart.  The peer reads both
tables exactly when one is sent after the other, but for an empty table whose
header is taken for a last node of zero bytes.
-/

namespace DartSync
namespace Tracker

open Foundation

/-- The peer gets the two tables, in some order, and nothing else. -/
def ReadsBoth (pkts : List PtpTracker) (ft ft' : SentTable) : Prop :=
  Reads (sent pkts) [ft, ft'] ∨ Reads (sent pkts) [ft', ft]

/-- The packets of an empty table before the last node of another, which is
zero: the header and that node have the same `file`, and the node is then read
as the header of an empty table. -/
def ZeroLast (ft ft' : SentTable) (pkts : List PtpTracker) : Prop :=
  ft'.nodes = [] ∧ exists front last, trackerSendpkt ft = front ++ [last] ∧
    front ≠ [] ∧ last.file = zeroImage ∧
    pkts = front ++ trackerSendpkt ft' ++ [last]

/-- One table after the other, or as good as that. -/
def Apart (ft ft' : SentTable) (pkts : List PtpTracker) : Prop :=
  pkts = trackerSendpkt ft ++ trackerSendpkt ft' ∨
    pkts = trackerSendpkt ft' ++ trackerSendpkt ft ∨
    ZeroLast ft ft' pkts ∨ ZeroLast ft' ft pkts

/-!
## What a run of calls returns
-/

theorem recvNodes_length {n : Nat} {ft read : List (Linked NodeImage)}
    {conn rest : List UInt8} (h : recvNodes n ft conn = (some read, rest)) :
    read.length = ft.length + n := by
  induction n generalizing ft conn with
  | zero =>
      rw [recvNodes, Prod.mk.injEq, Option.some.injEq] at h
      rw [← h.left, Nat.add_zero]
  | succ n ih =>
      rw [recvNodes] at h
      split at h
      · cases h
      · rw [ih h, List.length_append, List.length_singleton]
        omega

theorem peerRecvpkt_length {conn : List UInt8}
    {read : List (Linked NodeImage)} (h : (peerRecvpkt conn).1 = some read) :
    read.length < 2 ^ 31 := by
  unfold peerRecvpkt at h
  split at h
  · cases h
  · next pkt rest _ =>
      cases hread : recvNodes pkt.file_table_size.toInt.toNat [] rest with
      | mk read? later =>
          rw [hread] at h
          cases h
          rw [recvNodes_length hread, List.length_nil]
          have hbound := pkt.file_table_size.toInt_lt
          omega

theorem traverse_eq_some {α : Type} {nodes : List (Linked α)}
    {values : List α} (h : traverse nodes = some values) :
    nullTerminated nodes = true ∧ nodes.map Linked.value = values := by
  unfold traverse at h
  split at h
  · next hterminated => exact ⟨hterminated, Option.some.inj h⟩
  · cases h

theorem countable_of_read {conn : List UInt8} {ft : SentTable}
    (h : (peerRecvpkt conn).1.map traverse =
      some (some (ft.nodes.map Placed.value))) : ft.Countable := by
  cases hread : (peerRecvpkt conn).1 with
  | none =>
      rw [hread] at h
      cases h
  | some read =>
      rw [hread, Option.map_some, Option.some.injEq] at h
      have hvalues := congrArg List.length (traverse_eq_some h).right
      rw [List.length_map, List.length_map] at hvalues
      have hlength := peerRecvpkt_length hread
      rw [hvalues] at hlength
      exact hlength

theorem reads_two_iff {conn : List UInt8} {ft ft' : SentTable} :
    Reads conn [ft, ft'] <->
      (peerRecvpkt conn).1.map traverse =
          some (some (ft.nodes.map Placed.value)) ∧
        (peerRecvpkt (peerRecvpkt conn).2).1.map traverse =
          some (some (ft'.nodes.map Placed.value)) ∧
        forall j, (successive j (peerRecvpkt (peerRecvpkt conn).2).2).map
          (Option.map traverse) = List.replicate j none := by
  have hsteps : forall j,
      (successive ([ft, ft'].length + j) conn).map (Option.map traverse) =
        (peerRecvpkt conn).1.map traverse ::
          (peerRecvpkt (peerRecvpkt conn).2).1.map traverse ::
            (successive j (peerRecvpkt (peerRecvpkt conn).2).2).map
              (Option.map traverse) := by
    intro j
    rw [Nat.add_comm]
    rfl
  unfold Reads
  simp only [hsteps, List.map_cons, List.map_nil, List.cons_append,
    List.nil_append, List.cons.injEq]
  constructor
  · intro h
    exact ⟨(h 0).left, (h 0).right.left, fun j => (h j).right.right⟩
  · intro h j
    exact ⟨h.left, h.right.left, h.right.right j⟩

theorem failing_at_end (j : Nat) :
    (successive j []).map (Option.map traverse) = List.replicate j none := by
  rw [successive_of_none (peerRecvpkt_of_end (by decide)), List.map_replicate]
  rfl

theorem ReadsBoth.symm {pkts : List PtpTracker} {ft ft' : SentTable}
    (h : ReadsBoth pkts ft ft') : ReadsBoth pkts ft' ft :=
  Or.symm h

theorem Apart.symm {pkts : List PtpTracker} {ft ft' : SentTable}
    (h : Apart ft ft' pkts) : Apart ft' ft pkts := by
  rcases h with h | h | h | h
  · exact Or.inr (Or.inl h)
  · exact Or.inl h
  · exact Or.inr (Or.inr (Or.inr h))
  · exact Or.inr (Or.inr (Or.inl h))

theorem ReadsBoth.countable {pkts : List PtpTracker} {ft ft' : SentTable}
    (h : ReadsBoth pkts ft ft') : ft.Countable ∧ ft'.Countable := by
  cases h with
  | inl h =>
      have hreads := reads_two_iff.mp h
      exact ⟨countable_of_read hreads.left,
        countable_of_read hreads.right.left⟩
  | inr h =>
      have hreads := reads_two_iff.mp h
      exact ⟨countable_of_read hreads.right.left,
        countable_of_read hreads.left⟩

/-!
## Tables that are read
-/

theorem reads_of_append {ft ft' : SentTable} (h : ft.Countable)
    (h' : ft'.Countable) :
    Reads (sent (trackerSendpkt ft ++ trackerSendpkt ft')) [ft, ft'] := by
  have hfirst := peerRecvpkt_trackerSendpkt h (trackerSendpkt ft') []
  have hsecond := peerRecvpkt_trackerSendpkt h' [] []
  rw [List.append_nil] at hfirst
  rw [List.append_nil, List.append_nil, List.append_nil] at hsecond
  apply reads_two_iff.mpr
  rw [hfirst, List.append_nil, hsecond]
  constructor
  · exact congrArg some (traverse_link ft.nodes)
  · constructor
    · exact congrArg some (traverse_link ft'.nodes)
    · exact failing_at_end

theorem peerRecvpkt_node {pkt : PtpTracker} (h : pkt.file_table_size = -1)
    (later : List PtpTracker) :
    peerRecvpkt (sent (pkt :: later)) = (some [], sent later) := by
  have hzero : pkt.file_table_size.toInt.toNat =
      ([] : List PtpTracker).length := by
    rw [h]
    rfl
  have hread := peerRecvpkt_of_complete hzero later []
  rw [List.append_nil, List.append_nil] at hread
  exact hread

theorem reads_mixed (ft : SentTable) (h : ft.Countable)
    {filed : List PtpTracker} {next : PtpTracker} (later : List PtpTracker)
    (hfiled : filed.length = ft.nodes.length)
    (hnext : next.file_table_size = -1) :
    peerRecvpkt (sent (headerOf ft :: filed ++ next :: later)) =
        (some (filed.map PtpTracker.file), sent (next :: later)) ∧
      peerRecvpkt (sent (next :: later)) = (some [], sent later) := by
  constructor
  · have hannounced := h.announced
    rw [length_nodePackets, ← hfiled] at hannounced
    have hread := peerRecvpkt_of_complete hannounced (next :: later) []
    rw [List.append_nil, List.append_nil] at hread
    exact hread
  · exact peerRecvpkt_node hnext later

theorem size_nodePackets {ft : SentTable} {pkt : PtpTracker}
    (h : pkt ∈ nodePackets ft) : pkt.file_table_size = -1 := by
  rcases List.mem_map.mp h with ⟨ftemp, _, hpkt⟩
  rw [← hpkt]

theorem trackerSendpkt_of_empty {ft : SentTable} (h : ft.nodes = []) :
    trackerSendpkt ft = [headerOf ft] := by
  rw [trackerSendpkt_eq, nodePackets, h]
  rfl

theorem reads_of_zeroLast {ft ft' : SentTable} {pkts : List PtpTracker}
    (hcountable : ft.Countable) (h : ZeroLast ft ft' pkts) :
    Reads (sent pkts) [ft, ft'] := by
  rcases h with ⟨hempty, front, last, hsend, hfront, hzero, hpkts⟩
  cases front with
  | nil => exact absurd rfl hfront
  | cons header front =>
      rw [trackerSendpkt_eq, List.cons_append, List.cons.injEq] at hsend
      rcases hsend with ⟨hheader, hnodes⟩
      have hlast : last.file_table_size = -1 := by
        apply @size_nodePackets ft
        rw [hnodes]
        exact List.mem_append_right _ (List.mem_singleton.mpr rfl)
      have hfiled : (front ++ [headerOf ft']).length = ft.nodes.length := by
        rw [← length_nodePackets, hnodes, List.length_append,
          List.length_append]
        rfl
      -- the header has the same `file` as the node that it stands for
      have hfiles : (front ++ [headerOf ft']).map PtpTracker.file =
          link ft.nodes := by
        rw [← files_nodePackets, hnodes, List.map_append, List.map_append,
          List.map_singleton, List.map_singleton, hzero]
        rfl
      rcases reads_mixed ft hcountable [] hfiled hlast with ⟨hfirst, hsecond⟩
      have hsplit : pkts = headerOf ft :: (front ++ [headerOf ft']) ++ [last] := by
        rw [hpkts, trackerSendpkt_of_empty hempty, ← hheader]
        simp only [List.cons_append, List.append_assoc]
      apply reads_two_iff.mpr
      rw [hsplit, hfirst, hsecond, hfiles, hempty]
      constructor
      · exact congrArg some (traverse_link ft.nodes)
      · constructor
        · rfl
        · exact failing_at_end

theorem readsBoth_of_apart {ft ft' : SentTable} {pkts : List PtpTracker}
    (h : ft.Countable) (h' : ft'.Countable) (hapart : Apart ft ft' pkts) :
    ReadsBoth pkts ft ft' := by
  rcases hapart with hpkts | hpkts | hzero | hzero
  · rw [hpkts]
    exact Or.inl (reads_of_append h h')
  · rw [hpkts]
    exact Or.inr (reads_of_append h' h)
  · exact Or.inl (reads_of_zeroLast h hzero)
  · exact Or.inr (reads_of_zeroLast h' hzero)

/-!
## Tables that are mixed
-/

theorem zeroLast_of_traverse {ft ft' : SentTable}
    {front back : List PtpTracker} {last : PtpTracker}
    (hempty : ft'.nodes = [])
    (hnodes : nodePackets ft = front ++ (back ++ [last]))
    (h : traverse ((front ++ headerOf ft' :: back).map PtpTracker.file) =
      some (ft.nodes.map Placed.value)) :
    ZeroLast ft ft' (headerOf ft :: (front ++ headerOf ft' :: (back ++ [last])))
    := by
  rcases traverse_eq_some h with ⟨hterminated, hvalues⟩
  have hlink : link ft.nodes = front.map PtpTracker.file ++
      (back.map PtpTracker.file ++ [last.file]) := by
    rw [← files_nodePackets, hnodes, List.map_append, List.map_append,
      List.map_singleton]
  rw [← values_link, hlink] at hvalues
  have hlastLink := nullTerminated_link ft.nodes
  cases List.eq_nil_or_concat back with
  | inl hback =>
      -- the last link is `NULL`, so the values decide
      rw [hback] at hlink hvalues hnodes ⊢
      rw [hlink, List.map_nil, List.nil_append,
        nullTerminated_concat] at hlastLink
      have hvalue : zeroImage.value = last.file.value := by
        simp only [List.map_append, List.map_cons, List.map_nil,
          List.nil_append] at hvalues
        exact List.singleton_inj.mp (List.append_cancel_left hvalues)
      refine ⟨hempty, headerOf ft :: front, last, ?_, List.cons_ne_nil _ _,
        ?_, ?_⟩
      · rw [trackerSendpkt_eq, hnodes]
        rfl
      · cases hfile : last.file with
        | mk value pNext =>
            rw [hfile] at hvalue hlastLink
            cases hvalue
            cases hlastLink
            rfl
      · rw [trackerSendpkt_of_empty hempty]
        simp only [List.cons_append, List.append_assoc, List.nil_append]
  | inr hback =>
      -- the last node read is one from inside the list of the sender
      rcases hback with ⟨before, inner, hback⟩
      rw [List.concat_eq_append] at hback
      rw [hback] at hlink hterminated
      have hconcat : (front ++ headerOf ft' :: (before ++ [inner])).map
          PtpTracker.file =
            (front ++ headerOf ft' :: before).map PtpTracker.file ++
              [inner.file] := by
        simp only [List.map_append, List.map_cons, List.map_nil,
          List.append_assoc, List.cons_append]
      have hinside : link ft.nodes =
          (front ++ before).map PtpTracker.file ++
            inner.file :: last.file :: [] := by
        rw [hlink]
        simp only [List.map_append, List.map_cons, List.map_nil,
          List.append_assoc, List.cons_append, List.nil_append]
      rw [hconcat, nullTerminated_concat] at hterminated
      exact absurd hterminated (pNext_ne_zero_of_link hinside)

theorem readsBoth_of_node {ft ft' : SentTable} (h : ft.Countable)
    {filed : List PtpTracker} {next : PtpTracker} {later : List PtpTracker}
    (hfiled : filed.length = ft.nodes.length)
    (hnext : next.file_table_size = -1)
    (hreads : ReadsBoth (headerOf ft :: filed ++ next :: later) ft ft') :
    (traverse (filed.map PtpTracker.file) =
        some (ft.nodes.map Placed.value) ∨
      traverse (filed.map PtpTracker.file) =
        some (ft'.nodes.map Placed.value)) ∧
      forall j, (successive j (sent later)).map (Option.map traverse) =
        List.replicate j none := by
  rcases reads_mixed ft h later hfiled hnext with ⟨hfirst, hsecond⟩
  cases hreads with
  | inl hreads =>
      have hboth := reads_two_iff.mp hreads
      rw [hfirst, hsecond] at hboth
      exact ⟨Or.inl (Option.some.inj hboth.left), hboth.right.right⟩
  | inr hreads =>
      have hboth := reads_two_iff.mp hreads
      rw [hfirst, hsecond] at hboth
      exact ⟨Or.inr (Option.some.inj hboth.left), hboth.right.right⟩

theorem apart_of_header {ft ft' : SentTable} {front back : List PtpTracker}
    (hempty : ft'.nodes = []) (hnodes : nodePackets ft = front ++ back)
    (hfirst :
      traverse (((front ++ headerOf ft' :: back).take ft.nodes.length).map
          PtpTracker.file) = some (ft.nodes.map Placed.value) ∨
        traverse (((front ++ headerOf ft' :: back).take ft.nodes.length).map
          PtpTracker.file) = some (ft'.nodes.map Placed.value)) :
    Apart ft ft' (headerOf ft :: (front ++ headerOf ft' :: back)) := by
  have hlength := length_nodePackets ft
  cases List.eq_nil_or_concat back with
  | inl hback =>
      left
      rw [hback, List.append_nil] at hnodes
      rw [trackerSendpkt_eq, hnodes, trackerSendpkt_of_empty hempty, hback]
      rfl
  | inr hback =>
      rcases hback with ⟨before, last, hback⟩
      rw [List.concat_eq_append] at hback
      rw [hback] at hnodes hfirst ⊢
      rw [hnodes, List.length_append, List.length_append,
        List.length_singleton] at hlength
      have hsplit : front ++ headerOf ft' :: (before ++ [last]) =
          (front ++ headerOf ft' :: before) ++ [last] := by
        rw [List.append_assoc, List.cons_append]
      have hfiled : (front ++ headerOf ft' :: before).length =
          ft.nodes.length := by
        rw [List.length_append, List.length_cons]
        omega
      rw [hsplit, List.take_left' hfiled] at hfirst
      cases hfirst with
      | inl hfirst =>
          exact Or.inr (Or.inr
            (Or.inl (zeroLast_of_traverse hempty hnodes hfirst)))
      | inr hfirst =>
          have hnil := (traverse_eq_some hfirst).right
          rw [hempty, List.map_nil, List.map_eq_nil_iff, List.map_eq_nil_iff,
            List.append_eq_nil_iff] at hnil
          cases hnil.right

theorem apart_of_left {ft ft' : SentTable} {pkts : List PtpTracker}
    (h : ft.Countable)
    (hshuffle : Shuffle (nodePackets ft) (trackerSendpkt ft') pkts)
    (hreads : ReadsBoth (headerOf ft :: pkts) ft ft') :
    Apart ft ft' (headerOf ft :: pkts) := by
  have hlength := hshuffle.length_eq
  rw [length_trackerSendpkt, length_nodePackets] at hlength
  rw [trackerSendpkt_eq ft'] at hshuffle
  cases hshuffle.drop_length with
  | inl hwhole =>
      left
      rw [hwhole, trackerSendpkt_eq, trackerSendpkt_eq]
      rfl
  | inr hrest =>
      rw [length_nodePackets] at hrest
      cases hdrop : pkts.drop ft.nodes.length with
      | nil =>
          rw [List.drop_eq_nil_iff] at hdrop
          omega
      | cons next later =>
          have hnode : forall pkt, pkt ∈ next :: later ->
              pkt.file_table_size = -1 := by
            intro pkt hpkt
            rw [← hdrop] at hpkt
            cases hrest pkt hpkt with
            | inl hleft => exact size_nodePackets hleft
            | inr hright => exact size_nodePackets hright
          have hfiled : (pkts.take ft.nodes.length).length =
              ft.nodes.length := by
            rw [List.length_take]
            omega
          have hsplit : headerOf ft :: pkts =
              headerOf ft :: pkts.take ft.nodes.length ++ next :: later := by
            rw [List.cons_append, ← hdrop, List.take_append_drop]
          rw [hsplit] at hreads
          rcases readsBoth_of_node h hfiled (hnode next List.mem_cons_self)
            hreads with ⟨hfirst, hend⟩
          -- a third header would be read as one more table
          cases later with
          | cons pkt later =>
              have hthird := hend 1
              rw [successive, peerRecvpkt_node (hnode pkt (by simp))] at hthird
              cases hthird
          | nil =>
              have hdropLength := congrArg List.length hdrop
              rw [List.length_drop, List.length_singleton] at hdropLength
              have hempty : ft'.nodes = [] := by
                apply List.length_eq_zero_iff.mp
                omega
              rw [← trackerSendpkt_eq, trackerSendpkt_of_empty hempty]
                at hshuffle
              rcases hshuffle.split_of_singleton with
                ⟨front, back, hnodes, hpkts⟩
              rw [hpkts] at hfirst ⊢
              exact apart_of_header hempty hnodes hfirst

/-!
## The result
-/

/-- The peer reads both tables exactly when they fit an `int` and are kept
apart. -/
theorem readsBoth_iff {ft ft' : SentTable} {pkts : List PtpTracker}
    (hshuffle : Shuffle (trackerSendpkt ft) (trackerSendpkt ft') pkts) :
    ReadsBoth pkts ft ft' <->
      ft.Countable ∧ ft'.Countable ∧ Apart ft ft' pkts := by
  constructor
  · intro hreads
    have hcountable := hreads.countable
    refine ⟨hcountable.left, hcountable.right, ?_⟩
    rw [trackerSendpkt_eq, trackerSendpkt_eq] at hshuffle
    cases hshuffle with
    | left hrest =>
        rw [← trackerSendpkt_eq] at hrest
        exact apart_of_left hcountable.left hrest hreads
    | right hrest =>
        rw [← trackerSendpkt_eq] at hrest
        exact (apart_of_left hcountable.right hrest.symm hreads.symm).symm
  · intro h
    exact readsBoth_of_apart h.left h.right.left h.right.right

def Sample.image (status : Int16) : SentTable :=
  some [Sample.placed { zeroImage.value with status := status }]

def Sample.imagePacket (status : Int16) : PtpTracker where
  file_table_size := -1
  file := { zeroImage with value.status := status }

theorem countable_image (status : Int16) : (Sample.image status).Countable := by
  show 1 < 2 ^ 31
  decide

theorem readsBoth_zeroNode :
    ReadsBoth [headerOf (Sample.image 0), headerOf none,
        Sample.imagePacket 0] (Sample.image 0) none := by
  have hshuffle : Shuffle (trackerSendpkt (Sample.image 0)) (trackerSendpkt none)
      [headerOf (Sample.image 0), headerOf none, Sample.imagePacket 0] :=
    Shuffle.left (Shuffle.right (Shuffle.left Shuffle.nil))
  apply (readsBoth_iff hshuffle).mpr
  refine ⟨countable_image 0, Nat.zero_lt_succ _, ?_⟩
  right
  right
  left
  refine ⟨rfl, [headerOf (Sample.image 0)], _, rfl, ?_, rfl, rfl⟩
  exact List.cons_ne_nil _ _

/-- Two threads send their headers before their nodes. -/
theorem not_readsBoth_headers_first :
    ¬ forall (ft ft' : SentTable) (pkts : List PtpTracker),
      Shuffle (trackerSendpkt ft) (trackerSendpkt ft') pkts ->
      ReadsBoth pkts ft ft' := by
  intro h
  have hshuffle : Shuffle (trackerSendpkt (Sample.image 1))
      (trackerSendpkt (Sample.image 2))
      (headerOf (Sample.image 1) :: [headerOf (Sample.image 2)] ++
        Sample.imagePacket 1 :: [Sample.imagePacket 2]) :=
    Shuffle.left (Shuffle.right (Shuffle.left (Shuffle.right Shuffle.nil)))
  have hend := (readsBoth_of_node (countable_image 1) rfl rfl
    (h _ _ _ hshuffle)).right 1
  rw [successive, peerRecvpkt_node rfl] at hend
  cases hend

end Tracker
end DartSync
