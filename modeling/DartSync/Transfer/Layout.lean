import DartSync.Transfer.Plan

/-!
# How a plan cuts the content

The pieces without machine words: their width, how many there are, and which
part of the content each holds.  The plan of `ptp_download` has these pieces as
long as they are shorter than 2^31 bytes.
-/

namespace DartSync
namespace Transfer

open Foundation

def pieceWidth (sources size : Nat) : Nat :=
  if sources = 1 then size
  else if sources = 2 then (size + 1) / 2
  else size / (sources - 1)

def pieceRest (sources size : Nat) : Nat :=
  if sources = 1 then 0
  else if sources = 2 then size / 2
  else size % (sources - 1)

def pieceTotal (sources size : Nat) : Nat :=
  if sources = 1 then 1
  else if sources = 2 then 2
  else if size % (sources - 1) > 0 then sources
  else sources - 1

def piece (sources : Nat) (content : List UInt8) (i : Nat) : List UInt8 :=
  let rest := content.drop (i * pieceWidth sources content.length)
  if i + 1 = pieceTotal sources content.length then rest
  else rest.take (pieceWidth sources content.length)

section Pieces

variable {sources size : Nat} {content : List UInt8}

theorem pieceWidth_many (size : Nat) (h : 3 ≤ sources) :
    pieceWidth sources size = size / (sources - 1) := by
  unfold pieceWidth
  rw [if_neg (by omega), if_neg (by omega)]

theorem pieceRest_many (size : Nat) (h : 3 ≤ sources) :
    pieceRest sources size = size % (sources - 1) := by
  unfold pieceRest
  rw [if_neg (by omega), if_neg (by omega)]

theorem pieceTotal_many (size : Nat) (h : 3 ≤ sources) :
    pieceTotal sources size =
      if size % (sources - 1) > 0 then sources else sources - 1 := by
  unfold pieceTotal
  rw [if_neg (by omega), if_neg (by omega)]

theorem pieceWidth_le {sources' : Nat} (size : Nat) (h : 1 ≤ sources)
    (hle : sources ≤ sources') :
    pieceWidth sources' size ≤ pieceWidth sources size := by
  cases Nat.lt_or_ge sources' 3 with
  | inl hfew =>
      unfold pieceWidth
      repeat' split
      all_goals omega
  | inr hmany' =>
      rw [pieceWidth_many size hmany']
      cases Nat.lt_or_ge sources 3 with
      | inl hfew =>
          have htwo : size / (sources' - 1) ≤ size / 2 :=
            Nat.div_le_div_left (by omega) (by decide)
          unfold pieceWidth
          repeat' split
          all_goals omega
      | inr hmany =>
          rw [pieceWidth_many size hmany]
          exact Nat.div_le_div_left (by omega) (by omega)

theorem pieceTotal_of_rest (h : 0 < pieceRest sources size) :
    pieceTotal sources size = sources := by
  unfold pieceRest at h
  unfold pieceTotal
  repeat' split at h
  · cases h
  · next htwo => simp [htwo]
  · next hone htwo => rw [if_neg hone, if_neg htwo, if_pos h]

theorem one_le_pieceTotal (h : 1 ≤ sources) : 1 ≤ pieceTotal sources size := by
  unfold pieceTotal
  repeat' split
  all_goals omega

theorem join_piece (h : 1 ≤ sources) :
    join (pieceTotal sources content.length) (piece sources content) =
      content := by
  have hone : 1 ≤ pieceTotal sources content.length := one_le_pieceTotal h
  rcases Nat.exists_eq_add_of_le' hone with ⟨m, hm⟩
  have hfull : join m (piece sources content) =
      content.take (m * pieceWidth sources content.length) := by
    rw [← join_windows]
    apply join_congr
    intro i hi
    unfold piece
    rw [if_neg (by omega)]
  have hlast : piece sources content m =
      content.drop (m * pieceWidth sources content.length) := by
    unfold piece
    rw [if_pos hm.symm]
  rw [hm, join_succ, hfull, hlast, List.take_append_drop]

theorem plan_eq_many (size : Nat) (h : 3 ≤ sources)
    (hsources : sources < 2 ^ 31) :
    plan sources size =
      { peerNum := pieceTotal sources size
        pieceSize := pieceWidth sources size
        remainderLen := pieceRest sources size } := by
  have hpeers : ((sources - 1 : Nat) : Int) = sources - 1 := by omega
  have hdiv : ((size / (sources - 1) : Nat) : Int) =
      size / (sources - 1 : Int) := by
    rw [Int.natCast_ediv, hpeers]
  have hmod : ((size % (sources - 1) : Nat) : Int) =
      size % (sources - 1 : Int) := by
    rw [Int.natCast_emod, hpeers]
  have htotal : ((pieceTotal sources size : Nat) : Int) =
      if size % (sources - 1 : Int) > 0 then (sources : Int)
      else sources - 1 := by
    rw [pieceTotal_many size h, ← hmod]
    split
    · next hrest => rw [if_pos (by omega)]
    · next hrest =>
        rw [if_neg (by omega)]
        exact hpeers
  rw [plan_many (by omega) (by omega), htotal, pieceWidth_many size h,
    pieceRest_many size h, hdiv, hmod]

theorem plan_eq (h : 1 ≤ sources) (hsources : sources < 2 ^ 31)
    (hwidth : pieceWidth sources size < 2 ^ 31) :
    plan sources size =
      { peerNum := pieceTotal sources size
        pieceSize := pieceWidth sources size
        remainderLen := pieceRest sources size } := by
  rcases sources_cases h with rfl | rfl | hmany
  · rfl
  · change (size + 1) / 2 < 2 ^ 31 at hwidth
    have hpiece : ulong ((size : Int) + 1) / 2 =
        ((size + 1) / 2 : Nat) := by
      rw [ulong_of_small (by omega) (by omega)]
      omega
    have hrest : int (ulong ((size : Int) - ((size + 1) / 2 : Nat))) =
        (size / 2 : Nat) := by
      rw [ulong_of_small (by omega) (by omega),
        int_of_small (by omega) (by omega)]
      omega
    change plan 2 size = _
    rw [plan_two, hpiece, hrest]
    rfl
  · exact plan_eq_many size hmany hsources

theorem pieces_fill (h : 1 ≤ sources) (hsize : 1 ≤ size)
    (htwo : ¬ (sources = 2 ∧ size = 1)) :
    (pieceTotal sources size - 1) * pieceWidth sources size +
      (if pieceRest sources size > 0 then pieceRest sources size
        else pieceWidth sources size) = size := by
  rcases sources_cases h with rfl | rfl | hmany
  · change 0 * size + size = size
    omega
  · change 1 * ((size + 1) / 2) +
      (if size / 2 > 0 then size / 2 else (size + 1) / 2) = size
    split <;> omega
  · have hdivision := Nat.div_add_mod size (sources - 1)
    rw [pieceTotal_many size hmany, pieceWidth_many size hmany,
      pieceRest_many size hmany]
    split
    · exact hdivision
    · next hexact =>
        have hmod : size % (sources - 1) = 0 := by omega
        have hpred : (sources - 1 - 1).succ = sources - 1 := by omega
        rw [hmod, Nat.add_zero] at hdivision
        rw [← Nat.succ_mul, hpred]
        exact hdivision

def pieceLength (sources size i : Nat) : Nat :=
  if pieceRest sources size > 0 ∧ i + 1 = pieceTotal sources size then
    pieceRest sources size
  else pieceWidth sources size

theorem mul_pieceWidth_le (h : 1 ≤ sources) (hsize : 1 ≤ size)
    (htwo : ¬ (sources = 2 ∧ size = 1)) {i : Nat}
    (hi : i < pieceTotal sources size) :
    i * pieceWidth sources size ≤ size := by
  have hfill := pieces_fill h hsize htwo
  have hbefore : i * pieceWidth sources size ≤
      (pieceTotal sources size - 1) * pieceWidth sources size :=
    Nat.mul_le_mul_right _ (by omega)
  omega

theorem length_piece (h : 1 ≤ sources) (hsize : 1 ≤ content.length)
    (htwo : ¬ (sources = 2 ∧ content.length = 1)) {i : Nat}
    (hi : i < pieceTotal sources content.length) :
    (piece sources content i).length =
      pieceLength sources content.length i := by
  have hfill := pieces_fill h hsize htwo
  unfold piece pieceLength
  dsimp only
  cases Classical.em (i + 1 = pieceTotal sources content.length) with
  | inl hlast =>
      rw [← hlast, Nat.add_sub_cancel] at hfill
      rw [if_pos hlast, List.length_drop]
      simp only [hlast, and_true]
      omega
  | inr hbefore =>
      have hnext := mul_pieceWidth_le h hsize htwo
        (show i + 1 < pieceTotal sources content.length by omega)
      rw [Nat.succ_mul] at hnext
      rw [if_neg hbefore, if_neg fun hrest => hbefore hrest.right,
        List.length_take, List.length_drop]
      omega

theorem piece_eq_take (h : 1 ≤ sources) (hsize : 1 ≤ content.length)
    (htwo : ¬ (sources = 2 ∧ content.length = 1)) {i : Nat}
    (hi : i < pieceTotal sources content.length) :
    piece sources content i =
      (content.drop (i * pieceWidth sources content.length)).take
        (pieceLength sources content.length i) := by
  have hlength := length_piece h hsize htwo hi
  unfold piece pieceLength at *
  dsimp only at *
  cases Classical.em (i + 1 = pieceTotal sources content.length) with
  | inl hlast =>
      rw [if_pos hlast] at hlength ⊢
      rw [List.take_of_length_le (Nat.le_of_eq hlength)]
  | inr hbefore =>
      rw [if_neg hbefore, if_neg fun hrest => hbefore hrest.right]

end Pieces

/-!
## The pieces of the plan
-/

section PlanPieces

variable {sources i : Nat} {content : List UInt8}

theorem count_plan {size : Nat} (h : 1 ≤ sources) (hsources : sources < 2 ^ 31)
    (hwidth : pieceWidth sources size < 2 ^ 31) :
    (plan sources size).count = pieceTotal sources size := by
  rw [plan_eq h hsources hwidth]
  exact Int.toNat_natCast _

theorem count_plan_le (size : Nat) (hsources : sources < 2 ^ 31) :
    (plan sources size).count ≤ sources := by
  cases Nat.eq_zero_or_pos sources with
  | inl hzero =>
      subst hzero
      exact Nat.le_of_eq (count_plan_zero size)
  | inr hpos =>
      rcases sources_cases hpos with rfl | rfl | hmany
      · exact Nat.le_refl 1
      · exact Nat.le_refl 2
      · rw [plan_many (by omega) (by omega)]
        unfold Plan.count
        dsimp only
        split <;> omega

theorem size_plan {size : Nat} (h : 1 ≤ sources) (hsources : sources < 2 ^ 31)
    (hwidth : pieceWidth sources size < 2 ^ 31) :
    (plan sources size).size i = pieceLength sources size i := by
  rw [plan_eq h hsources hwidth]
  unfold Plan.size pieceLength
  dsimp only
  split
  · rw [if_pos (by omega)]
  · rw [if_neg (by omega)]

theorem offset_plan {size : Nat} (h : 1 ≤ sources) (hsources : sources < 2 ^ 31)
    (hwidth : pieceWidth sources size < 2 ^ 31) (hsize : 1 ≤ size)
    (hlt : size < 2 ^ 64) (htwo : ¬ (sources = 2 ∧ size = 1))
    (hi : i < pieceTotal sources size) :
    (plan sources size).offset i = (i * pieceWidth sources size : Nat) := by
  have hbefore := mul_pieceWidth_le h hsize htwo hi
  rw [plan_eq h hsources hwidth, Plan.offset, Int.natCast_mul]
  dsimp only
  rw [← Int.natCast_mul]
  exact ulong_of_small (Int.natCast_nonneg _) (by omega)

theorem delivered_plan (h : 1 ≤ sources) (hsources : sources < 2 ^ 31)
    (hwidth : pieceWidth sources content.length < 2 ^ 31)
    (hsize : 1 ≤ content.length) (hlt : content.length < 2 ^ 64)
    (htwo : ¬ (sources = 2 ∧ content.length = 1))
    (hi : i < pieceTotal sources content.length) :
    (plan sources content.length).delivered content i =
      piece sources content i := by
  unfold Plan.delivered
  rw [offset_plan h hsources hwidth hsize hlt htwo hi,
    size_plan h hsources hwidth, Int.toNat_natCast,
    Int.toNat_natCast, ← piece_eq_take h hsize htwo hi,
    ← length_piece h hsize htwo hi]
  exact pad_length _

end PlanPieces

end Transfer
end DartSync
