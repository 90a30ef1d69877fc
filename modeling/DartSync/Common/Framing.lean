import DartSync.Common.Wire

/-!
# Framing of the tables

Tables sent one after the other are read back one after the other, wherever the
connection ends.  The tables must have fewer than `2^31` nodes: the header
counts them in an `int`.
-/

namespace DartSync

open Foundation

def sentTables (tables : List SentTable) : List UInt8 :=
  sent (tables.flatMap trackerSendpkt)

def SentTable.Countable (ft : SentTable) : Prop :=
  ft.nodes.length < 2 ^ 31

def headerOf (ft : SentTable) : PtpTracker where
  file_table_size := Int32.ofNat ft.nodes.length
  file := zeroImage

def nodePackets (ft : SentTable) : List PtpTracker :=
  (link ft.nodes).map fun ftemp => { file_table_size := -1, file := ftemp }

theorem trackerSendpkt_eq (ft : SentTable) :
    trackerSendpkt ft = headerOf ft :: nodePackets ft := by
  cases ft <;> rfl

theorem length_nodePackets (ft : SentTable) :
    (nodePackets ft).length = ft.nodes.length := by
  rw [nodePackets, List.length_map, length_link]

theorem files_nodePackets (ft : SentTable) :
    (nodePackets ft).map PtpTracker.file = link ft.nodes := by
  rw [nodePackets, List.map_map]
  exact List.map_id _

theorem length_trackerSendpkt (ft : SentTable) :
    (trackerSendpkt ft).length = ft.nodes.length + 1 := by
  rw [trackerSendpkt_eq, List.length_cons, length_nodePackets]

theorem SentTable.Countable.announced {ft : SentTable} (h : ft.Countable) :
    (headerOf ft).file_table_size.toInt.toNat = (nodePackets ft).length := by
  show (Int32.ofNat ft.nodes.length).toInt.toNat = _
  rw [Int32.toInt_ofNat_of_lt h, length_nodePackets, Int.toNat_natCast]

theorem peerRecvpkt_trackerSendpkt {ft : SentTable} (h : ft.Countable)
    (later : List PtpTracker) (tail : List UInt8) :
    peerRecvpkt (sent (trackerSendpkt ft ++ later) ++ tail) =
      (some (link ft.nodes), sent later ++ tail) := by
  rw [trackerSendpkt_eq, peerRecvpkt_of_complete h.announced,
    files_nodePackets]

theorem peerRecvpkt_take {ft : SentTable} (h : ft.Countable) {i : Nat}
    (hi : i < (trackerSendpkt ft).length) {tail : List UInt8}
    (htail : tail.length < trackerCodec.size) :
    peerRecvpkt (sent ((trackerSendpkt ft).take i) ++ tail) = (none, []) := by
  rw [trackerSendpkt_eq] at hi ⊢
  cases i with
  | zero => exact peerRecvpkt_of_end htail
  | succ i =>
      rw [List.take_succ_cons]
      apply peerRecvpkt_of_short _ htail
      rw [h.announced, List.length_take]
      rw [List.length_cons] at hi
      omega

theorem successive_take (tables : List SentTable)
    (h : forall ft, ft ∈ tables -> ft.Countable) (i : Nat)
    {tail : List UInt8} (htail : tail.length < trackerCodec.size) :
    exists m, m ≤ tables.length ∧
      (tables.take m).flatMap trackerSendpkt <+:
        (tables.flatMap trackerSendpkt).take i ∧
      (m < tables.length ->
        i < ((tables.take (m + 1)).flatMap trackerSendpkt).length) ∧
      forall j,
        successive (m + j)
            (sent ((tables.flatMap trackerSendpkt).take i) ++ tail) =
          (tables.take m).map (fun ft => some (link ft.nodes)) ++
            List.replicate j none := by
  induction tables generalizing i with
  | nil =>
      refine ⟨0, Nat.le_refl 0, List.nil_prefix, ?_, ?_⟩
      · intro hlt
        cases hlt
      · intro j
        rw [Nat.zero_add, List.flatMap_nil, List.take_nil]
        exact successive_of_none (peerRecvpkt_of_end htail) j
  | cons ft rest ih =>
      rw [List.forall_mem_cons] at h
      rw [List.flatMap_cons]
      cases Nat.lt_or_ge i (trackerSendpkt ft).length with
      | inl hinside =>
          have hcut := peerRecvpkt_take h.left hinside htail
          rw [List.take_append_of_le_length (Nat.le_of_lt hinside)]
          refine ⟨0, Nat.zero_le _, List.nil_prefix, ?_, ?_⟩
          · intro _
            rw [List.take_succ_cons, List.take_zero, List.flatMap_singleton]
            exact hinside
          · intro j
            rw [Nat.zero_add]
            exact successive_of_none hcut j
      | inr hwhole =>
          rcases ih h.right (i - (trackerSendpkt ft).length) with
            ⟨m, hm, hprefix, hnext, hsuccessive⟩
          rw [List.take_append, List.take_of_length_le hwhole]
          refine ⟨m + 1, Nat.succ_le_succ hm, ?_, ?_, ?_⟩
          · rw [List.take_succ_cons, List.flatMap_cons,
              List.prefix_append_right_inj]
            exact hprefix
          · intro hlt
            have hlast := hnext (Nat.lt_of_succ_lt_succ hlt)
            rw [List.take_succ_cons, List.flatMap_cons, List.length_append]
            omega
          · intro j
            rw [Nat.add_right_comm, successive,
              peerRecvpkt_trackerSendpkt h.left]
            dsimp only
            rw [hsuccessive]
            rfl

/-- Successive calls return the tables, each with its nodes in order and its own
end, and then fail. -/
def Reads (conn : List UInt8) (tables : List SentTable) : Prop :=
  forall j,
    (successive (tables.length + j) conn).map (Option.map traverse) =
      tables.map (fun ft => some (some (ft.nodes.map Placed.value))) ++
        List.replicate j none

/-- The tables read are those that the bytes contain completely. -/
def Framed (tables : List SentTable) (conn : List UInt8) : Prop :=
  exists m, m ≤ tables.length ∧ sentTables (tables.take m) <+: conn ∧
    (m < tables.length -> ¬ sentTables (tables.take (m + 1)) <+: conn) ∧
    Reads conn (tables.take m)

theorem framed_of_prefix {tables : List SentTable} {conn : List UInt8}
    (h : forall ft, ft ∈ tables -> ft.Countable)
    (hconn : conn <+: sentTables tables) : Framed tables conn := by
  rcases trackerCodec.prefix_flatMap_encode (by decide) _ hconn with
    ⟨i, tail, hsplit, hi, htail⟩
  rcases successive_take tables h i htail with
    ⟨m, hm, hprefix, hnext, hsuccessive⟩
  refine ⟨m, hm, ?_, ?_, ?_⟩
  · rcases hprefix with ⟨later, hlater⟩
    rw [hsplit, ← hlater, List.flatMap_append, List.append_assoc]
    exact List.prefix_append _ _
  · intro hlt hcontained
    have hlength := hcontained.length_le
    unfold sentTables sent at hlength
    rw [hsplit, List.length_append, trackerCodec.length_flatMap_encode,
      trackerCodec.length_flatMap_encode, List.length_take,
      Nat.min_eq_left hi] at hlength
    have hmore := Nat.mul_le_mul_right trackerCodec.size (hnext hlt)
    rw [Nat.succ_mul] at hmore
    omega
  · intro j
    have hread := hsuccessive j
    unfold sent at hread
    rw [List.length_take, Nat.min_eq_left hm, hsplit, hread, List.map_append, List.map_map, List.map_replicate]
    congr 1
    apply List.map_congr_left
    intro ft _
    exact congrArg some (traverse_link ft.nodes)

theorem framed_of_prefix_two :
    Framed [none, some [Sample.placed zeroImage.value]]
      ((sentTables [none, some [Sample.placed zeroImage.value]]).take 700) := by
  apply framed_of_prefix
  · intro ft hft
    cases hft with
    | head => exact Nat.zero_lt_succ _
    | tail _ hft =>
        cases List.mem_singleton.mp hft
        show 1 < 2 ^ 31
        decide
  · exact List.take_prefix _ _

theorem not_framed_of_wrapped {nodes : List (Placed NodeImage)}
    (hwrapped : (Int32.ofNat nodes.length).toInt.toNat = 0)
    (hne : nodes ≠ []) : ¬ Framed [some nodes] (sentTables [some nodes]) := by
  intro hframed
  rcases hframed with ⟨m, hm, _, hall, hread⟩
  have hone : m = 1 := by
    cases m with
    | zero => exact absurd (List.prefix_refl _) (hall Nat.zero_lt_one)
    | succ m =>
        rw [Nat.le_zero.mp (Nat.le_of_succ_le_succ hm)]
  have hempty : peerRecvpkt (sentTables [some nodes]) =
      (some [], sent (nodePackets (some nodes)) ++ []) := by
    have hheader := @peerRecvpkt_of_complete (headerOf (some nodes)) [] hwrapped
      (nodePackets (some nodes)) []
    rw [List.append_nil] at hheader
    unfold sentTables
    rw [List.flatMap_singleton, trackerSendpkt_eq]
    exact hheader
  have hfirst := hread 0
  rw [hone, List.take_succ_cons, List.take_zero, List.length_singleton,
    Nat.add_zero, successive, hempty] at hfirst
  cases nodes with
  | nil => exact hne rfl
  | cons node rest => cases hfirst

/-- A table whose size wraps to a negative header is read as an empty one. -/
theorem not_framed_large :
    ¬ forall (tables : List SentTable) (conn : List UInt8),
      conn <+: sentTables tables -> Framed tables conn := by
  intro h
  have hlength :
      (List.replicate (2 ^ 31)
        (Sample.placed zeroImage.value)).length = 2 ^ 31 :=
    List.length_replicate
  apply not_framed_of_wrapped _ _ (h _ _ (List.prefix_refl _))
  · exact List.replicate (2 ^ 31) (Sample.placed zeroImage.value)
  · rw [hlength]
    decide
  · intro hnil
    rw [hnil] at hlength
    cases hlength

end DartSync
