import DartSync.Transfer.Layout

/-!
# Resumed downloads

When the file that a run of `ptp_download` assembles, over what an interrupted
run with another number of sources has left, is the content.
-/

namespace DartSync
namespace Transfer

open Foundation

/-!
## One temporary file
-/

/-- A temporary file over which a piece is correctly resumed: it looks empty, and
there is something to request.  A length that is a multiple of 2^32 looks empty,
being kept in an `int`. -/
def Ready (piece : List UInt8) : Option (List UInt8) -> Prop
  | none => piece ≠ []
  | some bytes =>
      piece ≠ [] ∧ int bytes.length = 0 ∧ (bytes = [] ∨ piece <+: bytes)

def fetchPiece (needed : Bool) (piece : List UInt8)
    (temp : Option (List UInt8)) : Option (List UInt8) :=
  if needed then some (temp.getD [] ++ piece) else temp

theorem readBack_eq_some_iff {temp : Option (List UInt8)} {r : List UInt8} :
    readBack temp = some r <->
      exists bytes, temp = some bytes ∧ r <+: bytes ∧
        (r.length : Int) = int bytes.length := by
  cases temp with
  | none => simp [readBack]
  | some bytes =>
      have hle := int_le_self (Int.natCast_nonneg bytes.length)
      rw [readBack]
      constructor
      · intro h
        split at h
        · cases h
        · next hnonneg =>
            rw [Option.some_inj] at h
            subst h
            refine ⟨bytes, rfl, List.take_prefix _ _, ?_⟩
            rw [List.length_take]
            omega
      · intro h
        rcases h with ⟨bytes', hbytes, hprefix, hlength⟩
        cases hbytes
        rw [if_neg (by omega), ← hlength, Int.toNat_natCast]
        congr 1
        exact (List.prefix_iff_eq_take.mp hprefix).symm

theorem curLength_eq (temp : Option (List UInt8)) :
    curLength temp = int (temp.getD []).length := by
  cases temp with
  | none => rfl
  | some bytes => rfl

section OneFile

variable {temp : Option (List UInt8)} {piece r : List UInt8} {needed : Bool}

theorem length_readBack_lt (h : readBack temp = some r) :
    r.length < 2 ^ 31 := by
  rcases readBack_eq_some_iff.mp h with ⟨bytes, _, _, hlength⟩
  have hlt := int_lt bytes.length
  omega

theorem readBack_of_prefix {bytes : List UInt8} (h : r <+: bytes)
    (hlength : (r.length : Int) = int bytes.length) :
    readBack (some bytes) = some r :=
  readBack_eq_some_iff.mpr ⟨bytes, rfl, h, hlength⟩

theorem length_le_readBack (hpiece : piece.length < 2 ^ 31)
    (hneeded : needed = true <->
      0 ≤ curLength temp ∧ curLength temp < piece.length)
    (hread : readBack (fetchPiece needed piece temp) = some r) :
    piece.length ≤ r.length := by
  rcases readBack_eq_some_iff.mp hread with ⟨bytes, hbytes, _, hlength⟩
  unfold fetchPiece at hbytes
  cases temp with
  | none =>
      rw [curLength] at hneeded
      split at hbytes
      · cases hbytes
        rw [Option.getD_none, List.nil_append] at hlength
        unfold int at hlength
        omega
      · cases hbytes
  | some old =>
      rw [curLength] at hneeded
      split at hbytes
      · next hrequested =>
          cases hbytes
          rcases hneeded.mp hrequested with ⟨hnonneg, hshort⟩
          clear hneeded
          rw [Option.getD_some, List.length_append] at hlength
          unfold int at hlength hnonneg hshort
          omega
      · next hrequested =>
          cases hbytes
          rw [hneeded] at hrequested
          omega

theorem ready_iff (hpiece : piece.length < 2 ^ 31)
    (hneeded : needed = true <->
      0 ≤ curLength temp ∧ curLength temp < piece.length) :
    Ready piece temp <->
      needed = true ∧
        readBack (fetchPiece needed piece temp) = some piece := by
  constructor
  · intro hready
    cases temp with
    | none =>
        have hpos : 0 < piece.length := List.length_pos_iff.mpr hready
        have hrequested : needed = true := by
          rw [hneeded, curLength]
          omega
        refine ⟨hrequested, ?_⟩
        rw [fetchPiece, if_pos hrequested]
        exact readBack_of_prefix (List.prefix_refl piece)
          (int_of_small (by omega) (by omega)).symm
    | some bytes =>
        rcases hready with ⟨hne, hempty, hstart⟩
        have hpos : 0 < piece.length := List.length_pos_iff.mpr hne
        have hrequested : needed = true := by
          rw [hneeded, curLength]
          omega
        refine ⟨hrequested, ?_⟩
        rw [fetchPiece, if_pos hrequested, Option.getD_some]
        apply readBack_of_prefix
        · rcases hstart with rfl | hstart
          · exact List.prefix_refl piece
          · exact hstart.trans (List.prefix_append bytes piece)
        · rw [List.length_append]
          unfold int at hempty ⊢
          omega
  · intro h
    rcases h with ⟨hrequested, hread⟩
    rcases readBack_eq_some_iff.mp hread with ⟨bytes, hbytes, hprefix, hlength⟩
    rcases hneeded.mp hrequested with ⟨hnonneg, hshort⟩
    rw [fetchPiece, if_pos hrequested, Option.some_inj] at hbytes
    subst hbytes
    have hne : piece ≠ [] := by
      apply List.ne_nil_of_length_pos
      omega
    cases temp with
    | none => exact hne
    | some old =>
        rw [curLength] at hnonneg hshort
        rw [Option.getD_some] at hprefix hlength
        rw [List.length_append] at hlength
        have hempty : int old.length = 0 := by
          unfold int at hnonneg hshort hlength ⊢
          omega
        refine ⟨hne, hempty, ?_⟩
        cases Nat.eq_zero_or_pos old.length with
        | inl hzero => exact Or.inl (List.length_eq_zero_iff.mp hzero)
        | inr hpos =>
            -- some 2^32 bytes or more, so the piece lies inside
            right
            apply List.prefix_of_prefix_length_le hprefix
              (List.prefix_append old piece)
            unfold int at hempty
            omega

end OneFile

/-!
## The assembled file
-/

def readParts (temps : Temps) (i : Nat) : List UInt8 :=
  (readBack (temps i)).getD []

theorem assemble_eq_some_iff {temps : Temps} {n : Nat} {out : List UInt8} :
    assemble temps n = some out <->
      (forall i, i < n -> readBack (temps i) = some (readParts temps i)) ∧
        join n (readParts temps) = out := by
  induction n generalizing out with
  | zero => simp [assemble]
  | succ n ih =>
      rw [assemble, Option.bind_eq_some_iff]
      constructor
      · intro h
        rcases h with ⟨written, hwritten, hlast⟩
        rcases Option.map_eq_some_iff.mp hlast with ⟨r, hr, rfl⟩
        rcases ih.mp hwritten with ⟨hread, rfl⟩
        have hpart : readParts temps n = r := by
          rw [readParts, hr]
          rfl
        constructor
        · intro i hi
          rcases Nat.lt_succ_iff_lt_or_eq.mp hi with hlt | rfl
          · exact hread i hlt
          · rw [hpart]
            exact hr
        · rw [join_succ, hpart]
      · intro h
        rcases h with ⟨hread, rfl⟩
        refine ⟨join n (readParts temps), ih.mpr ⟨?_, rfl⟩, ?_⟩
        · intro i hi
          exact hread i (Nat.lt_succ_of_lt hi)
        · rw [hread n (Nat.lt_succ_self n), join_succ]
          rfl

theorem fetch_eq (p : Plan) (content : List UInt8) (temps : Temps) (i : Nat) :
    fetch p content temps i =
      fetchPiece (p.needs i (curLength (temps i))) (p.delivered content i)
        (temps i) := rfl

/-- The run assembles the content, and no piece is read that the run did not
request and that was not complete. -/
structure Resumes (p : Plan) (content : List UInt8) (temps : Temps) :
    Prop where
  assembled : ptpDownload p content temps = some content
  pieces : forall i : Nat, i < p.count ->
    p.needs i (curLength (temps i)) = true ∨
      temps i = some (p.delivered content i)

/-- What an interrupted run leaves of each piece: nothing, or a part of it from
its start on. -/
def LeftBy (p : Plan) (content : List UInt8) (temps : Temps) : Prop :=
  forall i bytes, temps i = some bytes ->
    i < p.count ∧ bytes <+: p.delivered content i

section Run

variable {p : Plan} {content : List UInt8} {temps : Temps}

theorem ptpDownload_eq_some_iff {out : List UInt8} :
    ptpDownload p content temps = some out <->
      p.Joins temps ∧
        (forall i, i < p.count -> readBack (fetch p content temps i) =
          some (readParts (fetch p content temps) i)) ∧
        join p.count (readParts (fetch p content temps)) = out := by
  unfold ptpDownload
  split
  · next hjoins =>
      rw [assemble_eq_some_iff]
      exact (and_iff_right hjoins).symm
  · next hjoins =>
      constructor
      · intro hnone
        cases hnone
      · intro hrun
        exact absurd hrun.left hjoins

/-- Pieces of fewer than 2^31 bytes, requested exactly when their files look too
short. -/
structure Tame (p : Plan) (content : List UInt8) (temps : Temps) : Prop where
  small : forall i : Nat, i < p.count ->
    (p.delivered content i).length < 2 ^ 31
  needed : forall i : Nat, i < p.count ->
    (p.needs i (curLength (temps i)) = true <->
      0 ≤ curLength (temps i) ∧
        curLength (temps i) < (p.delivered content i).length)

theorem Tame.length_join_le (h : Tame p content temps) {out : List UInt8}
    (hrun : ptpDownload p content temps = some out) :
    (join p.count fun i => p.delivered content i).length ≤ out.length := by
  rcases ptpDownload_eq_some_iff.mp hrun with ⟨_, hread, rfl⟩
  apply length_join_le_join
  intro i hi
  exact length_le_readBack (h.small i hi) (h.needed i hi) (hread i hi)

theorem Tame.resumes_iff_ready (h : Tame p content temps)
    (hjoin : join p.count (fun i => p.delivered content i) = content) :
    Resumes p content temps <->
      forall i : Nat, i < p.count ->
        Ready (p.delivered content i) (temps i) := by
  constructor
  · intro hresumes i hi
    rcases ptpDownload_eq_some_iff.mp hresumes.assembled with
      ⟨hjoins, hread, hout⟩
    have hpart : p.delivered content i =
        readParts (fetch p content temps) i := by
      apply eq_of_join_eq _ (hjoin.trans hout.symm) hi
      intro j hj
      exact length_le_readBack (h.small j hj) (h.needed j hj) (hread j hj)
    rw [ready_iff (h.small i hi) (h.needed i hi)]
    refine ⟨hjoins i hi, ?_⟩
    rw [← fetch_eq, hread i hi, hpart]
  · intro hready
    have hpieces := fun i hi =>
      (ready_iff (h.small i hi) (h.needed i hi)).mp (hready i hi)
    constructor
    · have hparts : forall i, i < p.count ->
          readParts (fetch p content temps) i = p.delivered content i := by
        intro i hi
        rw [readParts, fetch_eq, (hpieces i hi).right]
        rfl
      rw [ptpDownload_eq_some_iff]
      refine ⟨fun i hi => (hpieces i hi).left, ?_, ?_⟩
      · intro i hi
        rw [hparts i hi]
        exact (hpieces i hi).right
      · rw [join_congr hparts]
        exact hjoin
    · intro i hi
      exact Or.inl (hpieces i hi).left

end Run

/-!
## Pieces of fewer than 2^31 bytes
-/

section Short

variable {sources : Nat} {content : List UInt8} {temps : Temps}

theorem tame_plan (h : 1 ≤ sources) (hsources : sources < 2 ^ 31)
    (hwidth : pieceWidth sources content.length < 2 ^ 31)
    (hrest : forall i, i + 1 = pieceTotal sources content.length ->
      0 < pieceRest sources content.length -> 0 ≤ curLength (temps i)) :
    Tame (plan sources content.length) content temps := by
  have hplan := plan_eq h hsources hwidth
  have hremainder := remainderLen_lt sources content.length
  rw [hplan] at hremainder
  dsimp only at hremainder
  constructor
  · intro i _
    rw [length_delivered, size_plan h hsources hwidth, Int.toNat_natCast]
    unfold pieceLength
    split <;> omega
  · intro i hi
    have hbounds := curLength_bounds (temps i)
    have hlast := hrest i
    rw [count_plan h hsources hwidth] at hi
    rw [length_delivered, size_plan h hsources hwidth, Int.toNat_natCast,
      needs_iff, hplan]
    unfold pieceLength ulong
    dsimp only
    split <;> omega

theorem LeftBy.curLength_nonneg {sources' : Nat}
    (hleft : LeftBy (plan sources content.length) content temps)
    (h : 1 ≤ sources) (hsources : sources < 2 ^ 31) (h' : 1 ≤ sources')
    (hwidth : pieceWidth sources' content.length < 2 ^ 31) {i : Nat}
    (hi : i + 1 = pieceTotal sources' content.length)
    (hrest : 0 < pieceRest sources' content.length) :
    0 ≤ curLength (temps i) := by
  cases htemp : temps i with
  | none => exact Int.le_refl 0
  | some bytes =>
      rcases hleft i bytes htemp with ⟨hcount, hprefix⟩
      have hlength := hprefix.length_le
      rw [length_delivered] at hlength
      have hremainder := remainderLen_lt sources content.length
      -- the interrupted run had at least as many sources
      have hle := count_plan_le content.length hsources
      rw [pieceTotal_of_rest hrest] at hi
      have hnarrow := pieceWidth_le content.length h'
        (show sources' ≤ sources by omega)
      have hpiece : (plan sources content.length).pieceSize < 2 ^ 31 := by
        rw [plan_eq h hsources (by omega)]
        dsimp only
        omega
      have hsize : (plan sources content.length).size i < 2 ^ 31 := by
        unfold Plan.size
        split
        · exact hremainder
        · exact hpiece
      rw [curLength, int_of_small (Int.natCast_nonneg _) (by omega)]
      exact Int.natCast_nonneg _

end Short

/-!
## Longer pieces
-/

section Long

variable {sources : Nat} {content : List UInt8} {temps : Temps}

theorem length_readBack_long {p : Plan} {i : Nat} {r : List UInt8}
    (hfull : (i : Int) < p.peerNum - 1 ∨
      ((i : Int) = p.peerNum - 1 ∧ p.remainderLen = 0))
    (hlong : 2 ^ 31 ≤ p.pieceSize) (hsize : p.pieceSize < 2 ^ 64 - 2 ^ 31)
    (hread : readBack (fetch p content temps i) = some r) :
    (r.length : Int) + 2 ^ 31 < p.pieceSize := by
  have hpiece : ((p.delivered content i).length : Int) = p.pieceSize := by
    rw [length_delivered, Plan.size, if_neg (by omega)]
    omega
  have hneeds := @needs_of_full p i (curLength (temps i)) hfull
  rcases readBack_eq_some_iff.mp hread with ⟨bytes, hbytes, _, hlength⟩
  rw [fetch_eq] at hbytes
  unfold fetchPiece at hbytes
  split at hbytes
  · next hrequested =>
      rw [Option.some_inj] at hbytes
      subst hbytes
      rw [hneeds, curLength_eq] at hrequested
      rw [List.length_append, Int.natCast_add, hpiece] at hlength
      generalize (((temps i).getD []).length : Int) = old at *
      unfold ulong at hrequested
      unfold int at *
      omega
  · next hrequested =>
      rw [hneeds, hbytes, curLength] at hrequested
      unfold ulong at hrequested
      have hlt := int_lt bytes.length
      omega

theorem mul_sub_succ_add_lt {n w d : Nat} (hn : 1 ≤ n) (hw : d < w) :
    n * (w - (d + 1)) + d < n * w := by
  have hlost : d + 1 ≤ n * (d + 1) := Nat.le_mul_of_pos_left _ hn
  calc n * (w - (d + 1)) + d
      < n * (w - (d + 1)) + n * (d + 1) := Nat.add_lt_add_left hlost _
    _ = n * w := by rw [← Nat.mul_add, Nat.sub_add_cancel hw]

theorem length_lt_of_long (h : 3 ≤ sources) (hsources : sources < 2 ^ 31)
    (hlt : content.length < 2 ^ 64)
    (hlong : 2 ^ 31 ≤ pieceWidth sources content.length)
    {out : List UInt8}
    (hrun : ptpDownload (plan sources content.length) content temps =
      some out) : out.length < content.length := by
  rcases ptpDownload_eq_some_iff.mp hrun with ⟨_, hread, rfl⟩
  have hplan := plan_eq_many content.length h hsources
  have hwidth := pieceWidth_many content.length h
  have htotal := pieceTotal_many content.length h
  have hrest := pieceRest_many content.length h
  have hcount : (plan sources content.length).count =
      pieceTotal sources content.length := by
    rw [hplan]
    exact Int.toNat_natCast _
  have hdivision := Nat.mul_div_le content.length (sources - 1)
  have hhalf : content.length / (sources - 1) ≤ content.length / 2 :=
    Nat.div_le_div_left (by omega) (by decide)
  rw [hcount] at hread ⊢
  generalize hparts :
    readParts (fetch (plan sources content.length) content temps) = parts
      at hread ⊢
  rw [← hwidth] at hdivision hhalf
  have hfull : forall i, i < sources - 1 ->
      (parts i).length + 2 ^ 31 < pieceWidth sources content.length := by
    intro i hi
    have hin : i < pieceTotal sources content.length := by
      rw [htotal]
      split <;> omega
    have hpart := length_readBack_long ?_ ?_ ?_ (hread i hin)
    · rw [hplan] at hpart
      dsimp only at hpart
      omega
    · rw [hplan]
      dsimp only
      rw [htotal, hrest]
      split <;> omega
    · rw [hplan]
      dsimp only
      omega
    · rw [hplan]
      dsimp only
      omega
  have hbefore : (join (sources - 1) parts).length ≤
      (sources - 1) * (pieceWidth sources content.length - (2 ^ 31 + 1)) :=
    length_join_le fun i hi => by
      have hpart := hfull i hi
      omega
  have hall : (join (pieceTotal sources content.length) parts).length ≤
      (join (sources - 1) parts).length + 2 ^ 31 := by
    rw [htotal]
    split
    · next hpos =>
        have hlast := length_readBack_lt (hread (sources - 1) (by
          rw [htotal, if_pos hpos]
          omega))
        have hsucc : sources = sources - 1 + 1 := by omega
        rw [hsucc, join_succ, List.length_append, ← hsucc]
        omega
    · exact Nat.le_add_right _ _
  have hwide := hfull 0 (by omega)
  have hlost := @mul_sub_succ_add_lt (sources - 1)
    (pieceWidth sources content.length) (2 ^ 31) (by omega) (by omega)
  omega

theorem ne_content_of_long (h : 1 ≤ sources) (hsources : sources < 2 ^ 31)
    (hlt : content.length < 2 ^ 64)
    (hlong : 2 ^ 31 ≤ pieceWidth sources content.length) :
    ptpDownload (plan sources content.length) content temps ≠
      some content := by
  intro hrun
  rcases ptpDownload_eq_some_iff.mp hrun with ⟨_, hread, hout⟩
  have hlength := congrArg List.length hout
  have hshort := @length_join_le _
    (readParts (fetch (plan sources content.length) content temps))
    (plan sources content.length).count (2 ^ 31 - 1) fun i hi =>
      Nat.le_sub_one_of_lt (length_readBack_lt (hread i hi))
  have hmax := hshort.trans
    (Nat.mul_le_mul_right _ (count_plan_le _ hsources))
  rcases sources_cases h with rfl | rfl | hmany
  · change 2 ^ 31 ≤ content.length at hlong
    omega
  · change 2 ^ 31 ≤ (content.length + 1) / 2 at hlong
    omega
  · exact Nat.lt_irrefl _ (length_lt_of_long hmany hsources hlt hlong hrun)

end Long

/-!
## Two runs
-/

theorem length_join_one_byte {content : List UInt8}
    (hsize : content.length = 1) :
    (join (plan 2 content.length).count fun i =>
      (plan 2 content.length).delivered content i).length = 2 := by
  have hplan : plan 2 content.length =
      { peerNum := 2, pieceSize := 1, remainderLen := 0 } := by
    rw [hsize]
    decide
  have hcount : (plan 2 content.length).count = 2 := rfl
  rw [hcount, join_succ, join_succ, join_zero, List.nil_append,
    List.length_append, length_delivered, length_delivered, hplan]
  rfl

/-- After an interrupted run, a second run resumes correctly exactly if its
pieces are shorter than 2^31 bytes, it has not two sources for one byte, and
each temporary file looks empty where there is something to request. -/
theorem resumes_iff {peerNum peerNum' : Nat} {content : List UInt8}
    {temps : Temps} (h : 1 ≤ peerNum ∧ peerNum ≤ MAX_PEER_NUM)
    (h' : 1 ≤ peerNum' ∧ peerNum' ≤ MAX_PEER_NUM)
    (hsize : 1 ≤ content.length) (hlt : content.length < 2 ^ 64)
    (hleft : LeftBy (plan peerNum content.length) content temps) :
    Resumes (plan peerNum' content.length) content temps <->
      pieceWidth peerNum' content.length < 2 ^ 31 ∧
        ¬ (peerNum' = 2 ∧ content.length = 1) ∧
        forall i : Nat, i < pieceTotal peerNum' content.length ->
          Ready (piece peerNum' content i) (temps i) := by
  have hsources : peerNum < 2 ^ 31 := Nat.lt_of_le_of_lt h.right (by decide)
  have hsources' : peerNum' < 2 ^ 31 := Nat.lt_of_le_of_lt h'.right (by decide)
  cases Nat.lt_or_ge (pieceWidth peerNum' content.length) (2 ^ 31) with
  | inr hlong =>
      constructor
      · intro hresumes
        exact absurd hresumes.assembled
          (ne_content_of_long h'.left hsources' hlt hlong)
      · intro hcondition
        exact absurd hcondition.left (Nat.not_lt.mpr hlong)
  | inl hwidth =>
      have htame : Tame (plan peerNum' content.length) content temps :=
        tame_plan h'.left hsources' hwidth fun i hi hrest =>
          hleft.curLength_nonneg h.left hsources h'.left hwidth hi hrest
      cases Classical.em (peerNum' = 2 ∧ content.length = 1) with
      | inl htwo =>
          constructor
          · intro hresumes
            rcases htwo with ⟨rfl, hone⟩
            have hjoin := htame.length_join_le hresumes.assembled
            change (join (plan 2 content.length).count fun i =>
              (plan 2 content.length).delivered content i).length ≤ _ at hjoin
            rw [length_join_one_byte hone, hone] at hjoin
            exact absurd hjoin (by decide)
          · intro hcondition
            exact absurd htwo hcondition.right.left
      | inr htwo =>
          have hcount := count_plan h'.left hsources' hwidth
          have hpieces : forall i : Nat,
              i < (plan peerNum' content.length).count ->
                (plan peerNum' content.length).delivered content i =
                  piece peerNum' content i := by
            intro i hi
            rw [hcount] at hi
            exact delivered_plan h'.left hsources' hwidth hsize hlt htwo hi
          have hjoin : join (plan peerNum' content.length).count (fun i =>
              (plan peerNum' content.length).delivered content i) =
                content := by
            rw [join_congr hpieces, hcount]
            exact join_piece h'.left
          rw [htame.resumes_iff_ready hjoin]
          constructor
          · intro hready
            refine ⟨hwidth, htwo, ?_⟩
            intro i hi
            rw [← hcount] at hi
            rw [← hpieces i hi]
            exact hready i hi
          · intro hcondition i hi
            rw [hpieces i hi]
            rw [hcount] at hi
            exact hcondition.right.right i hi

theorem leftBy_first {p : Plan} {content bytes : List UInt8}
    (hcount : 0 < p.count) (hpart : bytes <+: p.delivered content 0) :
    LeftBy p content (fun i => if i = 0 then some bytes else none) := by
  intro i left hleft
  dsimp only at hleft
  split at hleft
  · next hzero =>
      cases hleft
      subst hzero
      exact ⟨hcount, hpart⟩
  · cases hleft

theorem opened_piece_resumes :
    Resumes (plan 3 3) [1, 2, 3] (fun i => if i = 0 then some [] else none) := by
  apply (@resumes_iff 2 3 [1, 2, 3]
    (fun i => if i = 0 then some [] else none) (by decide) (by decide)
    (by decide) (by decide) ?_).mpr
  · refine ⟨by decide, by decide, ?_⟩
    intro i hi
    change i < 3 at hi
    cases i with
    | zero => exact ⟨by decide, by decide, Or.inl rfl⟩
    | succ i =>
        intro hempty
        have hlast : i = 0 ∨ i = 1 := by omega
        rcases hlast with rfl | rfl
        · exact absurd hempty (by decide)
        · exact absurd hempty (by decide)
  · exact leftBy_first (by decide) List.nil_prefix

/-- One byte of three was written when the run was interrupted; all three are
appended to it.  A complete piece is not asked for, and its thread is joined all
the same; so is that of a piece of no bytes. -/
theorem interrupted_downloads_corrupted :
    (LeftBy (plan 1 3) [1, 2, 3] (fun i => if i = 0 then some [1] else none) ∧
      ptpDownload (plan 1 3) [1, 2, 3]
          (fun i => if i = 0 then some [1] else none) =
        some [1, 1, 2, 3]) ∧
    (LeftBy (plan 2 3) [1, 2, 3]
        (fun i => if i = 0 then some [1, 2] else none) ∧
      ptpDownload (plan 2 3) [1, 2, 3]
          (fun i => if i = 0 then some [1, 2] else none) = none) ∧
    (LeftBy (plan 1 1) [1] (fun _ => none) ∧
      ptpDownload (plan 3 1) [1] (fun _ => none) = none) ∧
    ¬ Resumes (plan 1 3) [1, 2, 3]
        (fun i => if i = 0 then some [1] else none) := by
  refine ⟨⟨leftBy_first (by decide) (by decide), by decide⟩,
    ⟨leftBy_first (by decide) (by decide), by decide⟩, ⟨?_, by decide⟩, ?_⟩
  · intro i bytes hbytes
    cases hbytes
  · intro h
    exact absurd h.assembled (by decide)

end Transfer
end DartSync
