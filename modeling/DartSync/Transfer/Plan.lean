import DartSync.Foundation.Memory
import DartSync.Foundation.Parts
import DartSync.Peer.Compare

/-!
# Downloading a file in pieces

`ptp_download` of `peer/peer.c`: the number of pieces, the piece requests, and
the assembly of the file from the temporary files, one for each piece.  Machine
words are integers here, with the C conversions written out.
-/

namespace DartSync
namespace Transfer

open Foundation Peer

/-- A value converted to `int`. -/
def int (x : Int) : Int :=
  (x + 2 ^ 31) % 2 ^ 32 - 2 ^ 31

def ulong (x : Int) : Int :=
  x % 2 ^ 64

/-!
## The number of sources
-/

/-- `find -name "filename_*"` lists a file with this base name.  The file name is
taken to have no character that is special to `find` or the shell. -/
def listed (filename : FileName) (baseName : List UInt8) : Bool :=
  (filename.bytes ++ [95]).isPrefixOf baseName

/-- `peerNum` after the search for temporary files.  If it has found any file, the
lines of `tmpfiles` are counted from its end on. -/
def sourceCount (folder : List (List UInt8)) (arg : DownloadArg) : Nat :=
  if folder.any (listed arg.filename) then 0 else arg.peerNum

/-- The base name of the temporary file `.filename_i`. -/
def tempName (filename : FileName) (digits : List UInt8) : List UInt8 :=
  46 :: (filename.bytes ++ 95 :: digits)

/-!
## The pieces
-/

structure Plan where
  peerNum : Int
  pieceSize : Int
  remainderLen : Int
deriving DecidableEq

def plan (peerNum fileSize : Int) : Plan :=
  if peerNum = 1 then
    { peerNum := 1, pieceSize := fileSize, remainderLen := 0 }
  else if peerNum = 2 then
    let pieceSize := ulong (fileSize + 1) / 2
    { peerNum := 2
      pieceSize := pieceSize
      remainderLen := int (ulong (fileSize - pieceSize)) }
  else
    let peers := peerNum - 1
    let remainderLen := int (fileSize % ulong peers)
    { peerNum := if remainderLen > 0 then peers + 1 else peers
      pieceSize := fileSize / ulong peers
      remainderLen := remainderLen }

namespace Plan

/-- The number of turns of the loops `for (int i = 0; i < peerNum; i++)`. -/
def count (p : Plan) : Nat :=
  p.peerNum.toNat

def needs (p : Plan) (i curLength : Int) : Bool :=
  (i < p.peerNum - 1 ∧ ulong curLength < p.pieceSize) ∨
    (i = p.peerNum - 1 ∧ ulong curLength < p.pieceSize ∧
      p.remainderLen = 0) ∨
    (i = p.peerNum - 1 ∧ curLength < p.remainderLen ∧ p.remainderLen > 0)

def offset (p : Plan) (i : Int) : Int :=
  ulong (i * p.pieceSize)

def size (p : Plan) (i : Int) : Int :=
  if p.remainderLen > 0 ∧ i = p.peerNum - 1 then p.remainderLen
  else p.pieceSize

def offsetWord (p : Plan) (i : Nat) : UInt64 :=
  UInt64.ofNat (p.offset i).toNat

def sizeWord (p : Plan) (i : Nat) : UInt64 :=
  UInt64.ofNat (p.size i).toNat

/-- The bytes of a piece as a faultless transfer delivers them: where the
content has ended, the buffer of `piece_download` keeps its zeros. -/
def delivered (p : Plan) (content : List UInt8) (i : Int) : List UInt8 :=
  pad ((content.drop (p.offset i).toNat).take (p.size i).toNat)
    (p.size i).toNat

end Plan

/-!
## The temporary files
-/

/-- What the temporary file of each piece holds, if it is there. -/
abbrev Temps := Nat -> Option (List UInt8)

def curLength : Option (List UInt8) -> Int
  | none => 0
  | some bytes => int bytes.length

/-- The temporary file of a piece after the piece downloads; a requested piece
is appended. -/
def fetch (p : Plan) (content : List UInt8) (temps : Temps) : Temps :=
  fun i =>
    if p.needs i (curLength (temps i)) then
      some ((temps i).getD [] ++ p.delivered content i)
    else temps i

/-- A temporary file as it is read back: a missing one is read through a null
pointer, and for a negative `fileLen` there is no buffer. -/
def readBack : Option (List UInt8) -> Option (List UInt8)
  | none => none
  | some bytes =>
      let fileLen := int bytes.length
      if fileLen < 0 then none else some (bytes.take fileLen.toNat)

/-- The file written from the first `n` temporary files; `none` where the code
faults. -/
def assemble (temps : Temps) : Nat -> Option (List UInt8)
  | 0 => some []
  | n + 1 =>
      (assemble temps n).bind fun written =>
        (readBack (temps n)).map (written ++ ·)

/-- Every `tid` has been set when `pthread_join` takes it: each piece has been
requested. -/
def Plan.Joins (p : Plan) (temps : Temps) : Prop :=
  forall i, i < p.count -> p.needs i (curLength (temps i)) = true

instance decidableJoins (p : Plan) (temps : Temps) :
    Decidable (p.Joins temps) :=
  inferInstanceAs (Decidable (forall i, i < p.count -> _))

/-- The file after a run of `ptp_download` whose transfers are faultless; `none`
also where it joins a thread that it has not created. -/
def ptpDownload (p : Plan) (content : List UInt8) (temps : Temps) :
    Option (List UInt8) :=
  if p.Joins temps then assemble (fetch p content temps) p.count else none

/-!
## The search for temporary files
-/

theorem not_prefix_dotted (s rest : List UInt8) :
    ¬ (s ++ [95]) <+: (46 :: (s ++ 95 :: rest)) := by
  induction s with
  | nil => simp
  | cons a s ih =>
      intro h
      rw [List.cons_append, List.cons_append, List.cons_prefix_cons] at h
      rcases h with ⟨rfl, hrest⟩
      exact ih hrest

theorem listed_tempName (filename : FileName) (digits : List UInt8) :
    listed filename (tempName filename digits) = false := by
  unfold listed tempName
  rw [Bool.eq_false_iff, ne_eq, List.isPrefixOf_iff_prefix]
  exact not_prefix_dotted filename.bytes digits

theorem sourceCount_of_not_listed {folder : List (List UInt8)}
    {arg : DownloadArg}
    (h : forall baseName, baseName ∈ folder ->
      listed arg.filename baseName = false) :
    sourceCount folder arg = arg.peerNum := by
  have hnone : folder.any (listed arg.filename) = false := by
    rw [List.any_eq_false]
    intro baseName hmem
    simp [h baseName hmem]
  unfold sourceCount
  rw [hnone]
  rfl

theorem sourceCount_of_listed {folder : List (List UInt8)} {arg : DownloadArg}
    {baseName : List UInt8} (hmem : baseName ∈ folder)
    (h : listed arg.filename baseName = true) : sourceCount folder arg = 0 :=
  if_pos (List.any_eq_true.mpr ⟨baseName, hmem, h⟩)

theorem sourceCount_of_temps {folder : List (List UInt8)} {arg : DownloadArg}
    (h : forall baseName, baseName ∈ folder ->
      exists digits, baseName = tempName arg.filename digits) :
    sourceCount folder arg = arg.peerNum := by
  apply sourceCount_of_not_listed
  intro baseName hmem
  rcases h baseName hmem with ⟨digits, rfl⟩
  exact listed_tempName arg.filename digits

theorem length_peers_le (n : Node) : n.peers.length ≤ MAX_PEER_NUM := by
  have hle := (List.takeWhile_prefix
    (p := fun a => decide (a ≠ CString.empty)) (l := n.newpeerip.toList)).length_le
  rw [Vector.length_toList] at hle
  exact hle

/-!
## Machine words
-/

theorem int_of_small {x : Int} (h : 0 ≤ x) (hx : x < 2 ^ 31) : int x = x := by
  unfold int
  omega

theorem int_lt (x : Int) : int x < 2 ^ 31 := by
  unfold int
  omega

theorem int_le_self {x : Int} (h : 0 ≤ x) : int x ≤ x := by
  unfold int
  omega

theorem ulong_of_small {x : Int} (h : 0 ≤ x) (hx : x < 2 ^ 64) :
    ulong x = x := by
  unfold ulong
  omega

/-!
## The values of a plan
-/

theorem needs_iff {p : Plan} {i curLength : Int} :
    p.needs i curLength = true <->
      (i < p.peerNum - 1 ∧ ulong curLength < p.pieceSize) ∨
        (i = p.peerNum - 1 ∧ ulong curLength < p.pieceSize ∧
          p.remainderLen = 0) ∨
        (i = p.peerNum - 1 ∧ curLength < p.remainderLen ∧
          p.remainderLen > 0) := by
  rw [Plan.needs, decide_eq_true_eq]

theorem sources_cases {sources : Nat} (h : 1 ≤ sources) :
    sources = 1 ∨ sources = 2 ∨ 3 ≤ sources := by
  omega

theorem plan_two (fileSize : Int) : plan 2 fileSize =
    { peerNum := 2
      pieceSize := ulong (fileSize + 1) / 2
      remainderLen :=
        int (ulong (fileSize - ulong (fileSize + 1) / 2)) } := rfl

theorem count_plan_zero (fileSize : Int) : (plan 0 fileSize).count = 0 := by
  unfold Plan.count plan
  rw [if_neg (by decide), if_neg (by decide)]
  dsimp only
  split <;> rfl

theorem plan_many {sources fileSize : Int} (h : 3 ≤ sources)
    (hsources : sources < 2 ^ 31) :
    plan sources fileSize =
      { peerNum :=
          if fileSize % (sources - 1) > 0 then sources else sources - 1
        pieceSize := fileSize / (sources - 1)
        remainderLen := fileSize % (sources - 1) } := by
  have hpeers : ulong (sources - 1) = sources - 1 :=
    ulong_of_small (by omega) (by omega)
  have hpos := Int.emod_nonneg fileSize (show sources - 1 ≠ 0 by omega)
  have hlt := Int.emod_lt_of_pos fileSize (show 0 < sources - 1 by omega)
  have hremainder : int (fileSize % (sources - 1)) =
      fileSize % (sources - 1) := int_of_small hpos (by omega)
  unfold plan
  rw [if_neg (by omega), if_neg (by omega)]
  dsimp only
  rw [hpeers, hremainder, Int.sub_add_cancel]

theorem needs_of_full {p : Plan} {i curLength : Int}
    (h : i < p.peerNum - 1 ∨ (i = p.peerNum - 1 ∧ p.remainderLen = 0)) :
    p.needs i curLength = true <-> ulong curLength < p.pieceSize := by
  rw [needs_iff]
  omega

theorem length_delivered (p : Plan) (content : List UInt8) (i : Int) :
    (p.delivered content i).length = (p.size i).toNat :=
  length_pad (List.length_take_le _ _)

theorem remainderLen_lt (sources fileSize : Int) :
    (plan sources fileSize).remainderLen < 2 ^ 31 := by
  unfold plan
  split
  · exact Int.pow_pos (by decide)
  · split
    · exact int_lt _
    · exact int_lt _

theorem size_plan_bounds {peerNum fileSize : Int} (h : 0 ≤ fileSize)
    (hlt : fileSize < 2 ^ 64) (i : Int) :
    0 ≤ (plan peerNum fileSize).size i ∧
      (plan peerNum fileSize).size i < 2 ^ 64 := by
  have hpiece : 0 ≤ (plan peerNum fileSize).pieceSize ∧
      (plan peerNum fileSize).pieceSize < 2 ^ 64 := by
    unfold plan
    split
    · exact ⟨h, hlt⟩
    · split
      · dsimp only
        unfold ulong
        omega
      · have hpeers : 0 ≤ ulong (peerNum - 1) := by
          unfold ulong
          omega
        exact ⟨Int.ediv_nonneg h hpeers,
          Int.lt_of_le_of_lt (Int.ediv_le_self _ h) hlt⟩
  have hremainder := remainderLen_lt peerNum fileSize
  unfold Plan.size
  split <;> omega

theorem curLength_bounds (temp : Option (List UInt8)) :
    -2 ^ 31 ≤ curLength temp ∧ curLength temp < 2 ^ 31 := by
  cases temp with
  | none => decide
  | some bytes =>
      rw [curLength]
      unfold int
      omega

end Transfer
end DartSync
