import DartSync.Transfer.Layout

/-!
# What a plan requests

The requests of a download that finds no temporary files, and when they divide
the file among the sources.
-/

namespace DartSync
namespace Transfer

open Foundation

/-- What `piece_download` is asked for. -/
structure Request where
  pieceNum : Nat
  offset : Int
  size : Int
deriving DecidableEq

def Plan.requests (p : Plan) : List Request :=
  ((List.range p.count).filter fun i : Nat => p.needs i (curLength none)).map
    fun i => { pieceNum := i, offset := p.offset i, size := p.size i }

/-- The requests divide the file among the sources, and the loops that join and
assemble the pieces visit no other piece. -/
structure Partitions (sources : Nat) (fileSize : Int) (p : Plan) : Prop where
  nonempty : forall r, r ∈ p.requests -> 0 < r.size
  disjoint : p.requests.Pairwise fun r r' => r.offset + r.size ≤ r'.offset
  consecutive :
    Tiles 0 fileSize (p.requests.map fun r => (r.offset, r.size))
  covers : forall k : Int,
    (exists r, r ∈ p.requests ∧ r.offset ≤ k ∧ k < r.offset + r.size) <->
      0 ≤ k ∧ k < fileSize
  sources : forall r, r ∈ p.requests -> r.pieceNum < sources
  visited : forall i, i < p.count ->
    exists r, r ∈ p.requests ∧ r.pieceNum = i

theorem partitions_of_tiles {sources : Nat} {fileSize : Int} {p : Plan}
    (htiles : Tiles 0 fileSize (p.requests.map fun r => (r.offset, r.size)))
    (hneeds : forall i : Nat, i < p.count -> p.needs i (curLength none) = true)
    (hcount : p.count ≤ sources) : Partitions sources fileSize p where
  nonempty := by
    intro r hr
    exact (htiles.bounds (List.mem_map_of_mem hr)).right.left
  disjoint := List.pairwise_map.mp htiles.disjoint
  consecutive := htiles
  covers := by
    intro k
    rw [← htiles.covers k]
    simp
  sources := by
    intro r hr
    rcases List.mem_map.mp hr with ⟨i, hi, rfl⟩
    have hlt := List.mem_range.mp (List.mem_filter.mp hi).left
    exact Nat.lt_of_lt_of_le hlt hcount
  visited := by
    intro i hi
    refine ⟨_, List.mem_map_of_mem (List.mem_filter.mpr
      ⟨List.mem_range.mpr hi, hneeds i hi⟩), rfl⟩

section Pieces

variable {sources size i : Nat}

theorem pieceWidth_pos_iff (h : 1 ≤ sources) (hsize : 1 ≤ size) :
    0 < pieceWidth sources size <-> sources = 1 ∨ sources = 2 ∨
      sources - 1 ≤ size := by
  rcases sources_cases h with rfl | rfl | hmany
  · exact iff_of_true hsize (Or.inl rfl)
  · apply iff_of_true
    · change 0 < (size + 1) / 2
      omega
    · exact Or.inr (Or.inl rfl)
  · rw [pieceWidth_many size hmany, Nat.div_pos_iff]
    omega

theorem pieceWidth_lt (h : 1 ≤ sources) (hlt : size < 2 ^ 31) :
    pieceWidth sources size < 2 ^ 31 :=
  Nat.lt_of_le_of_lt (pieceWidth_le size (Nat.le_refl 1) h) hlt

theorem needs_iff_pieceWidth_pos (h : 1 ≤ sources)
    (hsources : sources < 2 ^ 31) (hlt : size < 2 ^ 31)
    (hi : i < pieceTotal sources size) :
    (plan sources size).needs i (curLength none) = true <->
      0 < pieceWidth sources size ∨
        (i + 1 = pieceTotal sources size ∧ 0 < pieceRest sources size) := by
  rw [plan_eq h hsources (pieceWidth_lt h hlt), needs_iff, curLength,
    ulong_of_small (by decide) (by decide)]
  dsimp only
  omega

theorem requests_plan (h : 1 ≤ sources) (hsources : sources < 2 ^ 31)
    (hsize : 1 ≤ size) (hlt : size < 2 ^ 31)
    (htwo : ¬ (sources = 2 ∧ size = 1)) (hwidth : 0 < pieceWidth sources size) :
    (plan sources size).requests =
      (List.range (pieceTotal sources size)).map fun i =>
        { pieceNum := i
          offset := (i * pieceWidth sources size : Nat)
          size := pieceLength sources size i } := by
  have hshort := pieceWidth_lt h hlt
  unfold Plan.requests
  rw [count_plan h hsources hshort, List.filter_eq_self.mpr]
  · apply List.map_congr_left
    intro i hi
    rw [size_plan h hsources hshort, offset_plan h hsources hshort hsize
      (by omega) htwo (List.mem_range.mp hi)]
  · intro i hi
    rw [needs_iff_pieceWidth_pos h hsources hlt (List.mem_range.mp hi)]
    exact Or.inl hwidth

theorem tiles_requests (h : 1 ≤ sources) (hsources : sources < 2 ^ 31)
    (hsize : 1 ≤ size) (hlt : size < 2 ^ 31)
    (htwo : ¬ (sources = 2 ∧ size = 1)) (hwidth : 0 < pieceWidth sources size) :
    Tiles 0 size ((plan sources size).requests.map fun r =>
      (r.offset, r.size)) := by
  have hone : 1 ≤ pieceTotal sources size := one_le_pieceTotal h
  have hfill := pieces_fill h hsize htwo
  rcases Nat.exists_eq_add_of_le' hone with ⟨m, hm⟩
  rw [requests_plan h hsources hsize hlt htwo hwidth, List.map_map, hm,
    List.range_succ, List.map_append]
  rw [hm, Nat.add_sub_cancel] at hfill
  have hfirst : (List.range m).map ((fun r : Request => (r.offset, r.size)) ∘
      fun i => { pieceNum := i
                 offset := (i * pieceWidth sources size : Nat)
                 size := pieceLength sources size i }) =
      (List.range m).map fun i =>
        (((i * pieceWidth sources size : Nat) : Int),
          (pieceWidth sources size : Int)) := by
    apply List.map_congr_left
    intro i hi
    have hi' := List.mem_range.mp hi
    have hlength : pieceLength sources size i = pieceWidth sources size :=
      if_neg (by omega)
    simp only [Function.comp_apply, hlength]
  rw [hfirst]
  apply (tiles_range m hwidth).append
  have hlast : pieceLength sources size m =
      if pieceRest sources size > 0 then pieceRest sources size
      else pieceWidth sources size := by
    unfold pieceLength
    simp only [hm, and_true]
  refine ⟨rfl, ?_, ?_⟩
  · change (0 : Int) < (pieceLength sources size m : Nat)
    rw [hlast]
    split <;> omega
  · change ((m * pieceWidth sources size : Nat) : Int) +
      (pieceLength sources size m : Nat) = size
    rw [hlast, ← Int.natCast_add, hfill]

end Pieces

/-- The plan divides the file exactly if there is one source, or at least two
bytes and one for each source but the last. -/
theorem plan_partitions_iff {sources size : Nat} (h : 1 ≤ sources)
    (hsources : sources ≤ MAX_PEER_NUM) (hsize : 1 ≤ size)
    (hlt : size < 2 ^ 31) :
    Partitions sources size (plan sources size) <->
      sources = 1 ∨ (2 ≤ size ∧ sources - 1 ≤ size) := by
  have hfew : sources < 2 ^ 31 := Nat.lt_of_le_of_lt hsources (by decide)
  have hshort := pieceWidth_lt h hlt
  constructor
  · intro hpartitions
    by_contra hnot
    rw [not_or] at hnot
    cases Classical.em (sources = 2) with
    | inl htwo =>
        subst htwo
        have hbyte : size = 1 := by omega
        subst hbyte
        -- The second source is asked for the byte behind the end.
        have hbehind : { pieceNum := 1, offset := 1, size := 1 } ∈
            (plan 2 1).requests := by decide
        have hcovered := (hpartitions.covers 1).mp
          ⟨_, hbehind, by decide, by decide⟩
        exact absurd hcovered.right (by decide)
    | inr hmany =>
        have hwidth : ¬ 0 < pieceWidth sources size := by
          rw [pieceWidth_pos_iff h hsize]
          omega
        -- The first piece is visited but has no byte.
        have hfirst : 0 < (plan sources size).count := by
          rw [count_plan h hfew hshort]
          exact one_le_pieceTotal h
        rcases hpartitions.visited 0 hfirst with ⟨r, hr, hzero⟩
        rcases List.mem_map.mp hr with ⟨i, hi, rfl⟩
        change i = 0 at hzero
        subst hzero
        have hneeds := (needs_iff_pieceWidth_pos h hfew hlt
          (one_le_pieceTotal h)).mp (List.mem_filter.mp hi).right
        rcases hneeds with hpos | ⟨htotal, hrest⟩
        · exact hwidth hpos
        · rw [pieceTotal_of_rest hrest] at htotal
          exact hnot.left htotal.symm
  · intro hcondition
    have htwo : ¬ (sources = 2 ∧ size = 1) := by omega
    have hwidth : 0 < pieceWidth sources size := by
      rw [pieceWidth_pos_iff h hsize]
      omega
    apply partitions_of_tiles
    · exact tiles_requests h hfew hsize hlt htwo hwidth
    · intro i hi
      rw [count_plan h hfew hshort] at hi
      exact (needs_iff_pieceWidth_pos h hfew hlt hi).mpr (Or.inl hwidth)
    · exact count_plan_le size hfew

theorem two_sources_partition : Partitions 2 5 (plan 2 5) :=
  (plan_partitions_iff (by decide) (by decide) (by decide) (by decide)).mpr
    (Or.inr ⟨by decide, by decide⟩)

/-- One byte: of two sources the second is asked for a byte behind the end, and
of three only the last is asked for anything. -/
theorem one_byte_not_partitioned :
    ¬ Partitions 2 1 (plan 2 1) ∧ (plan 2 1).requests =
        [{ pieceNum := 0, offset := 0, size := 1 },
          { pieceNum := 1, offset := 1, size := 1 }] ∧
      ¬ Partitions 3 1 (plan 3 1) ∧ (plan 3 1).count = 3 ∧
        (plan 3 1).requests =
          [{ pieceNum := 2, offset := 0, size := 1 }] := by
  refine ⟨?_, by decide, ?_, by decide, by decide⟩
  · intro h
    have hcovered := (h.covers 1).mp
      ⟨{ pieceNum := 1, offset := 1, size := 1 }, by decide, by decide,
        by decide⟩
    exact absurd hcovered.right (by decide)
  · intro h
    rcases h.visited 0 (by decide) with ⟨r, hr, hzero⟩
    have hrequests : (plan 3 1).requests =
        [{ pieceNum := 2, offset := 0, size := 1 }] := by decide
    rw [hrequests, List.mem_singleton] at hr
    rw [hr] at hzero
    cases hzero

end Transfer
end DartSync
