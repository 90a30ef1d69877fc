import DartSync.Foundation.Parts
import DartSync.Transfer.Piece

/-!
# The frames of both sides

`upload_send` of `peer/p2p.c` and `piece_download` of `peer/peer.c` each compute
how many packets a piece has and where they begin.  Here are these computations
in `int`, with their overflows, and the windows of the piece that they lead to.
-/

namespace DartSync
namespace Transfer

open Foundation

/-- The value of an `int` expression; `none` where it overflows. -/
def checked (x : Int) : Option Int :=
  if -2 ^ 31 ≤ x ∧ x < 2 ^ 31 then some x else none

/-- `pkt_count` and `remainder_len`: the same lines in both programs. -/
def countPackets (fileLen : Int) : Option (Int × Int) :=
  (checked (fileLen.tdiv MAX_DATA_LEN)).bind fun pkt_count =>
    (checked (fileLen.tmod MAX_DATA_LEN)).bind fun remainder_len =>
      if remainder_len > 0 then
        (checked (pkt_count + 1)).map fun pkt_count =>
          (pkt_count, remainder_len)
      else some (pkt_count, remainder_len)

/-- The loop of `upload_send` from `i` on: offset and length of the range that is
copied into each frame.  It ends within `turns` turns, or the result is
`none`. -/
def uploadLoop (pkt_count remainder_len : Int) :
    Nat -> Int -> Option (List (Int × Int))
  | 0, _ => none
  | turns + 1, i =>
      if i < pkt_count then
        (checked (pkt_count - 1)).bind fun last =>
          let length : Int :=
            if remainder_len > 0 ∧ i = last then remainder_len
            else MAX_DATA_LEN
          (checked (i * MAX_DATA_LEN)).bind fun offset =>
            (checked (i + 1)).bind fun next =>
              (uploadLoop pkt_count remainder_len turns next).map
                ((offset, length) :: ·)
      else some []

def uploadFrames (size : UInt64) : Option (List (Int × Int)) :=
  (countPackets (Int32.ofNat size.toNat).toInt).bind fun count =>
    uploadLoop count.1 count.2 (count.1.toNat + 1) 0

def downloadLoop (pkt_count : Int) : Nat -> Int -> Option (List Int)
  | 0, _ => none
  | turns + 1, i =>
      if i < pkt_count then
        (checked (i * MAX_DATA_LEN)).bind fun offset =>
          (checked (i + 1)).bind fun next =>
            (downloadLoop pkt_count turns next).map (offset :: ·)
      else some []

def downloadPlaces (size : UInt64) : Option (List Int) :=
  (countPackets (Int32.ofNat size.toNat).toInt).bind fun count =>
    downloadLoop count.1 (count.1.toNat + 1) 0

/-- The frames that are sent fill the piece, and fill the buffer of the other side
at the places where that side puts them. -/
structure FramesAgree (size : Int) (frames : List (Int × Int))
    (places : List Int) : Prop where
  count : frames.length = places.length
  tiles : Tiles 0 size frames
  bounded : forall w, w ∈ frames -> 1 ≤ w.2 ∧ w.2 ≤ MAX_DATA_LEN
  starts : forall (i : Nat) (offset : Int), places[i]? = some offset ->
    offset = i * MAX_DATA_LEN
  inside : forall w, w ∈ places.zip (frames.map Prod.snd) ->
    0 ≤ w.1 ∧ w.1 + w.2 ≤ size
  disjoint : (places.zip (frames.map Prod.snd)).Pairwise
    fun w w' => w.1 + w.2 ≤ w'.1

/-!
## The loops
-/

theorem checked_of_bounds {x : Int} (h : 0 ≤ x) (hlt : x < 2 ^ 31) :
    checked x = some x := by
  unfold checked
  rw [if_pos (by omega)]

section Loops

variable {n left i turns : Nat}

theorem pktCount_bounds (n : Nat) :
    n ≤ pktCount n * MAX_DATA_LEN ∧
      pktCount n * MAX_DATA_LEN < n + MAX_DATA_LEN := by
  unfold pktCount
  simp only [MAX_DATA_LEN]
  split <;> omega

theorem countPackets_eq (h : n < 2 ^ 31) :
    countPackets n =
      some ((pktCount n : Int), ((n % MAX_DATA_LEN : Nat) : Int)) := by
  have hquotient : Int.tdiv n MAX_DATA_LEN = (n / MAX_DATA_LEN : Nat) := rfl
  have hremainder : Int.tmod n MAX_DATA_LEN = (n % MAX_DATA_LEN : Nat) := rfl
  have hdiv : n / MAX_DATA_LEN ≤ n := Nat.div_le_self _ _
  have hmod : n % MAX_DATA_LEN < MAX_DATA_LEN := Nat.mod_lt _ (by decide)
  have hsmall : n / MAX_DATA_LEN + 1 < 2 ^ 31 := by
    simp only [MAX_DATA_LEN]
    omega
  simp only [MAX_DATA_LEN] at hmod
  unfold countPackets pktCount
  rw [hquotient, hremainder]
  generalize n / MAX_DATA_LEN = quotient at hdiv hsmall ⊢
  generalize n % MAX_DATA_LEN = remainder at hmod ⊢
  rw [checked_of_bounds (by omega) (by omega), Option.bind_some,
    checked_of_bounds (by omega) (by omega), Option.bind_some]
  split
  · next hrest =>
      rw [checked_of_bounds (by omega) (by omega), if_pos (by omega)]
      rfl
  · next hrest => rw [if_neg (by omega), Nat.add_zero]

theorem packet_bounds (hn : n < 2 ^ 31) (hi : i < pktCount n) :
    (0 ≤ (i : Int) * MAX_DATA_LEN ∧ (i : Int) * MAX_DATA_LEN < 2 ^ 31) ∧
      (pktCount n : Int) < 2 ^ 31 := by
  have hbounds := pktCount_bounds n
  simp only [MAX_DATA_LEN] at hbounds ⊢
  omega

theorem uploadLoop_eq (hn : n < 2 ^ 31) (hcount : i + left = pktCount n)
    (hturns : left < turns) :
    uploadLoop (pktCount n) (n % MAX_DATA_LEN : Nat) turns i =
      some ((List.range' i left).map fun k =>
        (((k * MAX_DATA_LEN : Nat) : Int), ((pktLength n k : Nat) : Int))) := by
  induction left generalizing i turns with
  | zero =>
      cases turns with
      | zero => cases hturns
      | succ turns =>
          rw [uploadLoop, if_neg (by omega)]
          rfl
  | succ left ih =>
      cases turns with
      | zero => cases hturns
      | succ turns =>
          have hrest := @ih (i + 1) turns (by omega)
            (Nat.lt_of_succ_lt_succ hturns)
          have hlength : (if ((n % MAX_DATA_LEN : Nat) : Int) > 0 ∧
              (i : Int) = (pktCount n : Int) - 1 then
                ((n % MAX_DATA_LEN : Nat) : Int)
              else (MAX_DATA_LEN : Int)) = (pktLength n i : Nat) := by
            unfold pktLength
            split
            · rw [if_pos (by omega)]
            · rw [if_neg (by omega)]
          have hi : i < pktCount n := by omega
          rcases packet_bounds hn hi with ⟨hoffset, hindex⟩
          rw [Int.natCast_succ] at hrest
          rw [uploadLoop, if_pos (by omega),
            checked_of_bounds (by omega) (by omega), Option.bind_some,
            checked_of_bounds hoffset.left hoffset.right, Option.bind_some,
            checked_of_bounds (by omega) (by omega), Option.bind_some, hrest,
            Option.map_some, List.range'_succ, List.map_cons, hlength,
            Int.natCast_mul]

theorem downloadLoop_eq (hn : n < 2 ^ 31) (hcount : i + left = pktCount n)
    (hturns : left < turns) :
    downloadLoop (pktCount n) turns i =
      some ((List.range' i left).map fun k =>
        ((k * MAX_DATA_LEN : Nat) : Int)) := by
  induction left generalizing i turns with
  | zero =>
      cases turns with
      | zero => cases hturns
      | succ turns =>
          rw [downloadLoop, if_neg (by omega)]
          rfl
  | succ left ih =>
      cases turns with
      | zero => cases hturns
      | succ turns =>
          have hrest := @ih (i + 1) turns (by omega)
            (Nat.lt_of_succ_lt_succ hturns)
          have hi : i < pktCount n := by omega
          rcases packet_bounds hn hi with ⟨hoffset, hindex⟩
          rw [Int.natCast_succ] at hrest
          rw [downloadLoop, if_pos (by omega),
            checked_of_bounds hoffset.left hoffset.right, Option.bind_some,
            checked_of_bounds (by omega) (by omega), Option.bind_some, hrest,
            Option.map_some, List.range'_succ, List.map_cons, Int.natCast_mul]

end Loops

/-!
## The windows
-/

def packetWindows (n : Nat) : List (Int × Int) :=
  (List.range (pktCount n)).map fun k =>
    (((k * MAX_DATA_LEN : Nat) : Int), ((pktLength n k : Nat) : Int))

section Windows

variable {n : Nat} {size : UInt64}

theorem uploadFrames_eq (h : size.toNat < 2 ^ 31) :
    uploadFrames size = some (packetWindows size.toNat) := by
  have hint : (Int32.ofNat size.toNat).toInt = size.toNat :=
    Int32.toInt_ofNat_of_lt h
  have hloop := @uploadLoop_eq size.toNat (pktCount size.toNat) 0
    (pktCount size.toNat + 1) h (Nat.zero_add _) (Nat.lt_succ_self _)
  unfold uploadFrames packetWindows
  rw [hint, countPackets_eq h, Option.bind_some, List.range_eq_range']
  exact hloop

theorem downloadPlaces_eq (h : size.toNat < 2 ^ 31) :
    downloadPlaces size = some ((packetWindows size.toNat).map Prod.fst) := by
  have hint : (Int32.ofNat size.toNat).toInt = size.toNat :=
    Int32.toInt_ofNat_of_lt h
  have hloop := @downloadLoop_eq size.toNat (pktCount size.toNat) 0
    (pktCount size.toNat + 1) h (Nat.zero_add _) (Nat.lt_succ_self _)
  unfold downloadPlaces packetWindows
  rw [hint, countPackets_eq h, Option.bind_some, List.map_map,
    List.range_eq_range']
  exact hloop

theorem tiles_packetWindows (n : Nat) : Tiles 0 n (packetWindows n) := by
  have hwidth : 0 < MAX_DATA_LEN := by decide
  have hdivision := Nat.div_add_mod' n MAX_DATA_LEN
  have htiles := tiles_range (n / MAX_DATA_LEN) hwidth
  have hfull : (List.range (n / MAX_DATA_LEN)).map (fun k =>
      (((k * MAX_DATA_LEN : Nat) : Int), ((pktLength n k : Nat) : Int))) =
      (List.range (n / MAX_DATA_LEN)).map fun k =>
        (((k * MAX_DATA_LEN : Nat) : Int), ((MAX_DATA_LEN : Nat) : Int)) := by
    apply List.map_congr_left
    intro k hk
    have hlt := List.mem_range.mp hk
    unfold pktLength pktCount
    rw [if_neg]
    split <;> omega
  unfold packetWindows pktCount
  split
  · next hrest =>
      rw [List.range_succ, List.map_append, hfull]
      apply htiles.append
      have hlast : pktLength n (n / MAX_DATA_LEN) = n % MAX_DATA_LEN := by
        unfold pktLength pktCount
        rw [if_pos hrest, if_pos ⟨hrest, rfl⟩]
      refine ⟨rfl, ?_, ?_⟩
      · change (0 : Int) < (pktLength n (n / MAX_DATA_LEN) : Nat)
        rw [hlast]
        exact Int.natCast_pos.mpr hrest
      · change ((n / MAX_DATA_LEN * MAX_DATA_LEN : Nat) : Int) +
          (pktLength n (n / MAX_DATA_LEN) : Nat) = n
        rw [hlast, ← Int.natCast_add, hdivision]
  · next hexact =>
      have hzero : n % MAX_DATA_LEN = 0 := Nat.eq_zero_of_not_pos hexact
      rw [hzero, Nat.add_zero] at hdivision
      rw [hdivision] at htiles
      rw [Nat.add_zero, hfull]
      exact htiles

theorem pktLength_le (n i : Nat) : pktLength n i ≤ MAX_DATA_LEN := by
  unfold pktLength
  split
  · exact Nat.le_of_lt (Nat.mod_lt n (by decide))
  · exact Nat.le_refl _

theorem zip_packetWindows (n : Nat) :
    ((packetWindows n).map Prod.fst).zip ((packetWindows n).map Prod.snd) =
      packetWindows n :=
  (List.zip_of_prod rfl rfl).symm

/-- Both sides have the same frames, for every size that is an `int`. -/
theorem uploadFrames_agree (h : size.toNat < 2 ^ 31) :
    exists frames places, uploadFrames size = some frames ∧
      downloadPlaces size = some places ∧
      FramesAgree size.toNat frames places := by
  have htiles := tiles_packetWindows size.toNat
  refine ⟨_, _, uploadFrames_eq h, downloadPlaces_eq h, ?_⟩
  constructor
  · rw [List.length_map]
  · exact htiles
  · intro w hw
    refine ⟨(htiles.bounds hw).right.left, ?_⟩
    rcases List.mem_map.mp hw with ⟨i, _, rfl⟩
    exact Int.ofNat_le.mpr (pktLength_le size.toNat i)
  · intro i offset hi
    unfold packetWindows at hi
    rw [List.map_map, List.getElem?_map, Option.map_eq_some_iff] at hi
    rcases hi with ⟨k, hk, rfl⟩
    rcases List.getElem?_eq_some_iff.mp hk with ⟨hlt, hget⟩
    rw [List.getElem_range] at hget
    rw [← hget]
    exact Int.natCast_mul i MAX_DATA_LEN
  · intro w hw
    rw [zip_packetWindows] at hw
    have hbounds := htiles.bounds hw
    exact ⟨hbounds.left, hbounds.right.right⟩
  · rw [zip_packetWindows]
    exact htiles.disjoint

end Windows

theorem three_frames_agree :
    exists frames places, uploadFrames 3000 = some frames ∧
      downloadPlaces 3000 = some places ∧ FramesAgree 3000 frames places :=
  @uploadFrames_agree 3000 (by decide)

end Transfer
end DartSync
