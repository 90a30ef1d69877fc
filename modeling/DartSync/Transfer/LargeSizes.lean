import Mathlib.Algebra.BigOperators.Ring.Finset
import DartSync.Transfer.FrameWindows
import DartSync.Transfer.Layout

/-!
# Large sizes

Sizes are `unsigned long` in the table and in a request, but `ptp_download` and
`piece_download` of `peer/peer.c` and `upload_send` of `peer/p2p.c` have them in
`int` variables.
-/

namespace DartSync
namespace Transfer

open Foundation

def tempLength (temp : Option (List UInt8)) : Nat :=
  (temp.getD []).length

def fetchedLength (sources size : Nat) (temps : Temps) (i : Nat) : Nat :=
  tempLength (temps i) +
    if tempLength (temps i) < pieceLength sources size i then
      pieceLength sources size i
    else 0

/-- The variables of a piece that is requested: `size` in `piece_download` is
`fileLen` in `upload_send`, and the frames cover the piece. -/
structure RequestKept (sources size i : Nat) : Prop where
  narrowed : int ((plan sources size).size i) = pieceLength sources size i
  packets : countPackets (int ((plan sources size).size i)) =
    some ((((pieceLength sources size i + (MAX_DATA_LEN - 1)) /
        MAX_DATA_LEN : Nat) : Int),
      ((pieceLength sources size i % MAX_DATA_LEN : Nat) : Int))
  frames : exists frames places,
    uploadFrames ((plan sources size).sizeWord i) = some frames ∧
      downloadPlaces ((plan sources size).sizeWord i) = some places ∧
      FramesAgree (pieceLength sources size i) frames places

/-- The variables of a piece: `curLength` and the `fileLen` of the assembly are
lengths, and the pieces that are requested are the incomplete ones. -/
structure PieceKept (sources size : Nat) (temps : Temps) (i : Nat) : Prop where
  found : curLength (temps i) = tempLength (temps i)
  requested : (plan sources size).needs i (curLength (temps i)) =
      true <->
    tempLength (temps i) < pieceLength sources size i
  request : tempLength (temps i) < pieceLength sources size i ->
    RequestKept sources size i
  fileLen : int (fetchedLength sources size temps i) =
    fetchedLength sources size temps i

structure SizesKept (sources size : Nat) (temps : Temps) : Prop where
  remainderLen :
    (plan sources size).remainderLen = pieceRest sources size
  pieces : forall i, i < (plan sources size).count ->
    PieceKept sources size temps i
  total : ((List.range (plan sources size).count).map fun i : Nat =>
    (plan sources size).size i).sum = size

/-- Pieces and temporary files of less than 2^31 bytes, and no second source for
a file of one byte. -/
structure SmallSizes (sources size : Nat) (temps : Temps) : Prop where
  width : pieceWidth sources size < 2 ^ 31
  pieces : ¬ (sources = 2 ∧ size = 1)
  temps : forall i, i < pieceTotal sources size ->
    tempLength (temps i) < 2 ^ 31 ∧ fetchedLength sources size temps i < 2 ^ 31

section Sizes

variable {sources size i : Nat} {temps : Temps}

theorem count_plan_eq (h : 1 ≤ sources) (hsources : sources < 2 ^ 31) :
    (plan sources size).count = pieceTotal sources size := by
  rcases sources_cases h with rfl | rfl | hmany
  · rfl
  · rfl
  · rw [plan_eq_many size hmany hsources]
    exact Int.toNat_natCast _

theorem curLength_of_short {temp : Option (List UInt8)}
    (h : tempLength temp < 2 ^ 31) : curLength temp = tempLength temp := by
  cases temp with
  | none => rfl
  | some bytes =>
      have hlt : bytes.length < 2 ^ 31 := h
      exact int_of_small (by omega) (by omega)

theorem pktCount_eq_ceil (n : Nat) :
    pktCount n = (n + (MAX_DATA_LEN - 1)) / MAX_DATA_LEN := by
  unfold pktCount
  simp only [MAX_DATA_LEN]
  split <;> omega

theorem pieceRest_le (h : 1 ≤ sources) :
    pieceRest sources size < max (pieceWidth sources size + 1) sources := by
  rcases sources_cases h with rfl | rfl | hmany
  · exact Nat.lt_of_lt_of_le Nat.one_pos (Nat.le_max_right _ _)
  · change size / 2 < max ((size + 1) / 2 + 1) 2
    omega
  · have hrest := Nat.mod_lt size (show 0 < sources - 1 by omega)
    rw [pieceRest_many size hmany]
    omega

theorem pieceLength_lt (h : 1 ≤ sources) (hsources : sources < 2 ^ 31)
    (hwidth : pieceWidth sources size < 2 ^ 31) (i : Nat) :
    pieceLength sources size i < 2 ^ 31 := by
  have hrest := @pieceRest_le sources size h
  unfold pieceLength
  split <;> omega

theorem pieceLength_zero (h : 1 ≤ sources) :
    pieceLength sources size 0 = pieceWidth sources size := by
  unfold pieceLength
  rw [if_neg]
  intro hlast
  have htotal := pieceTotal_of_rest hlast.left
  have hone : sources = 1 := by omega
  subst hone
  exact Nat.lt_irrefl 0 hlast.left

theorem sum_pieceLength (h : 1 ≤ sources)
    (htwo : ¬ (sources = 2 ∧ size = 1)) :
    ((List.range (pieceTotal sources size)).map
      (pieceLength sources size)).sum = size := by
  rcases Nat.exists_eq_add_of_le' (@one_le_pieceTotal sources size h) with
    ⟨m, hm⟩
  have hfull : ((List.range m).map (pieceLength sources size)).sum =
      m * pieceWidth sources size := by
    have hwidth : (List.range m).map (pieceLength sources size) =
        List.replicate m (pieceWidth sources size) := by
      rw [List.eq_replicate_iff, List.length_map, List.length_range]
      refine ⟨rfl, ?_⟩
      intro length hlength
      rcases List.mem_map.mp hlength with ⟨i, hi, rfl⟩
      have hlt := List.mem_range.mp hi
      unfold pieceLength
      rw [if_neg (by omega)]
    rw [hwidth, List.sum_replicate_nat]
  rw [hm, List.range_succ, List.map_append, List.sum_append, hfull,
    List.map_singleton, List.sum_singleton]
  cases Nat.eq_zero_or_pos size with
  | inl hzero =>
      subst hzero
      have hwidth : pieceWidth sources 0 = 0 := by
        unfold pieceWidth
        repeat' split
        all_goals simp
      have hrest : pieceRest sources 0 = 0 := by
        unfold pieceRest
        repeat' split
        all_goals simp
      unfold pieceLength
      rw [hwidth, hrest]
      simp
  | inr hpos =>
      have hfill := pieces_fill h hpos htwo
      unfold pieceLength
      rw [hm, Nat.add_sub_cancel] at hfill
      rw [hm]
      simp only [and_true]
      exact hfill

end Sizes

section Kept

variable {sources size i : Nat} {temps : Temps}

theorem requestKept_of_small (h : 1 ≤ sources) (hsources : sources < 2 ^ 31)
    (hwidth : pieceWidth sources size < 2 ^ 31) :
    RequestKept sources size i := by
  have hlt := pieceLength_lt h hsources hwidth i
  have hsize := @size_plan sources i size h hsources hwidth
  have hword : ((plan sources size).sizeWord i).toNat =
      pieceLength sources size i := by
    have hlarge : pieceLength sources size i < 2 ^ 64 := by omega
    unfold Plan.sizeWord
    rw [hsize, Int.toNat_natCast]
    exact UInt64.toNat_ofNat_of_lt' hlarge
  have hint : int ((plan sources size).size i) =
      pieceLength sources size i := by
    rw [hsize]
    exact int_of_small (by omega) (by omega)
  refine ⟨hint, ?_, ?_⟩
  · rw [hint, countPackets_eq hlt, pktCount_eq_ceil]
  · have hagree := @uploadFrames_agree ((plan sources size).sizeWord i)
      (by rw [hword]; exact hlt)
    rw [hword] at hagree
    exact hagree

theorem needs_plan_iff (h : 1 ≤ sources) (hsources : sources < 2 ^ 31)
    (hwidth : pieceWidth sources size < 2 ^ 31)
    (hi : i < pieceTotal sources size) {length : Nat}
    (hlength : length < 2 ^ 31) :
    (plan sources size).needs i length = true <->
      length < pieceLength sources size i := by
  have hulong : ulong length = length :=
    ulong_of_small (by omega) (by omega)
  rw [needs_iff, plan_eq h hsources hwidth, hulong]
  dsimp only
  unfold pieceLength
  split <;> omega

theorem sizesKept_of_small (h : 1 ≤ sources) (hsources : sources < 2 ^ 31)
    (hsmall : SmallSizes sources size temps) :
    SizesKept sources size temps := by
  have hcount := @count_plan_eq sources size h hsources
  constructor
  · rw [plan_eq h hsources hsmall.width]
  · intro i hi
    rw [hcount] at hi
    rcases hsmall.temps i hi with ⟨htemp, hfetched⟩
    have hfound := curLength_of_short htemp
    refine ⟨hfound, ?_, ?_, ?_⟩
    · rw [hfound]
      exact needs_plan_iff h hsources hsmall.width hi htemp
    · intro _
      exact requestKept_of_small h hsources hsmall.width
    · exact int_of_small (by omega) (by omega)
  · have hsizes : (List.range (pieceTotal sources size)).map (fun i : Nat =>
        (plan sources size).size i) =
        ((List.range (pieceTotal sources size)).map
          (pieceLength sources size)).map Nat.cast := by
      rw [List.map_map]
      apply List.map_congr_left
      intro i _
      exact size_plan h hsources hsmall.width
    rw [hcount, hsizes, ← Nat.cast_list_sum,
      sum_pieceLength h hsmall.pieces]

theorem smallSizes_of_kept (h : 1 ≤ sources) (hsources : sources < 2 ^ 31)
    (hkept : SizesKept sources size temps) :
    SmallSizes sources size temps := by
  have hcount := @count_plan_eq sources size h hsources
  have hpieces := hkept.pieces
  rw [hcount] at hpieces
  constructor
  · by_contra hlarge
    have hfirst := hpieces 0 (one_le_pieceTotal h)
    have hbounds := curLength_bounds (temps 0)
    rw [hfirst.found] at hbounds
    have hzero := @pieceLength_zero sources size h
    have hsize := (hfirst.request (by omega)).narrowed
    rw [hzero] at hsize
    have hint := hsize ▸ int_lt ((plan sources size).size ((0 : Nat) : Int))
    omega
  · intro htwo
    rcases htwo with ⟨rfl, rfl⟩
    have htotal := hkept.total
    revert htotal
    decide
  · intro i hi
    have hpiece := hpieces i hi
    have hbounds := curLength_bounds (temps i)
    have hint := int_lt (fetchedLength sources size temps i)
    rw [hpiece.found] at hbounds
    rw [hpiece.fileLen] at hint
    exact ⟨by omega, by omega⟩

end Kept

/-- The variables of a download hold what they stand for exactly when its sizes
are small. -/
theorem sizesKept_iff {sources size : Nat} (h : 1 ≤ sources)
    (hsources : sources < 2 ^ 31) (temps : Temps) :
    SizesKept sources size temps <-> SmallSizes sources size temps :=
  ⟨smallSizes_of_kept h hsources, sizesKept_of_small h hsources⟩

theorem small_download_kept :
    SizesKept 3 7 (fun i => if i = 1 then some [98, 99] else none) := by
  apply (sizesKept_iff (by decide) (by decide) _).mpr
  refine ⟨by decide, by decide, ?_⟩
  intro i hi
  have hlt : i < 3 := hi
  have hcases : i = 0 ∨ i = 1 ∨ i = 2 := by omega
  rcases hcases with rfl | rfl | rfl <;> decide

/-- The `int` variables are too small for a file of 2^32 bytes. -/
theorem not_sizesKept_large :
    ¬ forall (sources size : Nat) (temps : Temps), 1 ≤ sources ->
      sources ≤ MAX_PEER_NUM -> size < 2 ^ 63 ->
      (forall i, temps i = none) -> ¬ (sources = 2 ∧ size = 1) ->
      SizesKept sources size temps := by
  intro h
  have hkept := h 1 (2 ^ 32) (fun _ => none) (by decide) (by decide)
    (by decide) (fun _ => rfl) (by decide)
  have hpiece := hkept.pieces 0 (by decide)
  have hsize := (hpiece.request (by decide)).narrowed
  revert hsize
  decide

end Transfer
end DartSync
