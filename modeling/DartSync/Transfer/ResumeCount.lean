import Mathlib.Data.List.Perm.Subperm
import DartSync.Transfer.Layout

/-!
# Counting temporary files

The search of `ptp_download` for what an earlier run has left.  It looks for
`filename_*`, but `piece_download` writes `.filename_i`; and it counts the lines
of what `find` has written from the end on, where `fseek` has left the file.
-/

namespace DartSync
namespace Transfer

open Foundation Peer

abbrev FindName := List UInt8 -> List UInt8 -> Bool

def pattern (filename : FileName) : List UInt8 :=
  filename.bytes ++ [95, 42]

/-- What `find` does if the file name has no character that is special to it or
to the shell: these stand for themselves, and `*` for any rest. -/
def Literal (find : FindName) (filename : FileName) : Prop :=
  forall baseName, find (pattern filename) baseName = listed filename baseName

structure SyncFolder where
  /-- What `readConfigFile` returns. -/
  dir : CString FILE_NAME_LEN
  /-- The paths of all files below it, without `dir`. -/
  paths : List (List UInt8)
  proper : [] ∉ paths
  distinct : paths.Nodup

/-- The last component of a path, which may end with slashes. -/
def lastComponent (path : List UInt8) : List UInt8 :=
  ((path.reverse.dropWhile fun b => b = 47).takeWhile fun b => b ≠ 47).reverse

/-- Successful calls of `fgets` with a buffer of 256 bytes, when so many bytes
of it are used. -/
def fgetsCalls : Nat -> List UInt8 -> Nat
  | used, [] => if used = 0 then 0 else 1
  | used, b :: rest =>
      if b = 10 ∨ used + 1 = 255 then fgetsCalls 0 rest + 1
      else fgetsCalls (used + 1) rest

namespace SyncFolder

/-- `find` visits the folder itself first; its path here is empty. -/
def visited (s : SyncFolder) : List (List UInt8) :=
  [] :: s.paths

def baseName (s : SyncFolder) (path : List UInt8) : List UInt8 :=
  if path = [] then lastComponent s.dir.bytes else lastComponent path

def lines (s : SyncFolder) (paths : List (List UInt8)) : List UInt8 :=
  paths.flatMap fun path => s.dir.bytes ++ path ++ [10]

def tmpfiles (s : SyncFolder) (find : FindName) (filename : FileName) :
    List UInt8 :=
  s.lines (s.visited.filter fun path =>
    find (pattern filename) (s.baseName path))

/-- The `sprintf` of the command stays inside `find[256]`. -/
def Fits (s : SyncFolder) (filename : FileName) : Prop :=
  27 + s.dir.strlen + filename.strlen < 256

instance decidableFits (s : SyncFolder) (filename : FileName) :
    Decidable (s.Fits filename) :=
  Nat.decLt _ _

/-- `tempnum` at the end of the search, given what is in `tmpfiles`.  The file is
read from where `fseek(temp, 0, SEEK_END)` has left it. -/
def tempnumOf (tmpfiles : List UInt8) : Int :=
  let position := tmpfiles.length
  if int position = 0 then 0
  else int (fgetsCalls 0 (tmpfiles.drop position))

/-- `tempnum`; `none` where the command overruns its buffer. -/
def tempnum (s : SyncFolder) (find : FindName) (filename : FileName) :
    Option Int :=
  if s.Fits filename then some (tempnumOf (s.tmpfiles find filename)) else none

/-- `download_arg->peerNum` after the search. -/
def peerNum (s : SyncFolder) (find : FindName) (arg : DownloadArg) :
    Option Int :=
  if s.Fits arg.filename then
    if int (s.tmpfiles find arg.filename).length = 0 then some arg.peerNum
    else some (tempnumOf (s.tmpfiles find arg.filename))
  else none

end SyncFolder

/-!
## Temporary files
-/

def decimal (i : Nat) : List UInt8 :=
  (Nat.toDigits 10 i).map Char.toUInt8

def numberOf (digits : List UInt8) : Nat :=
  Nat.ofDigitChars 10 (digits.map Char.ofUInt8) 0

def isTemp (filename : FileName) (path : List UInt8) : Bool :=
  path = tempName filename (decimal (numberOf
    (path.drop (filename.bytes.length + 2))))

namespace SyncFolder

def tempPieces (s : SyncFolder) (filename : FileName) : Nat :=
  (s.paths.filter (isTemp filename)).length

/-- The temporary files are pieces of a plan with so many sources. -/
def LeftBy (s : SyncFolder) (filename : FileName) (sources : Nat) : Prop :=
  exists size : Nat, forall i : Nat, tempName filename (decimal i) ∈ s.paths ->
    i < (plan sources size).count

/-- The search counts the temporary files of the file, and no planned piece is
beyond the stored addresses if they come from no more sources than that. -/
structure Resumable (s : SyncFolder) (find : FindName) (arg : DownloadArg) :
    Prop where
  count : s.tempnum find arg.filename = some (s.tempPieces arg.filename : Int)
  addresses : forall sources peerNum, sources ≤ arg.addrList.length ->
    s.LeftBy arg.filename sources -> s.peerNum find arg = some peerNum ->
      forall i : Nat, i < (plan peerNum arg.size.toNat).count ->
        i < arg.addrList.length

end SyncFolder

/-!
## The names of temporary files
-/

theorem digit_bounds {c : Char} (h : c.isDigit = true) :
    48 ≤ c.val.toNat ∧ c.val.toNat ≤ 57 := by
  unfold Char.isDigit at h
  rw [Bool.and_eq_true, decide_eq_true_iff, decide_eq_true_iff, ge_iff_le,
    UInt32.le_iff_toNat_le, UInt32.le_iff_toNat_le] at h
  exact h

theorem ofUInt8_toUInt8 {c : Char} (h : c.isDigit = true) :
    Char.ofUInt8 c.toUInt8 = c := by
  have hbounds := digit_bounds h
  apply Char.ext
  apply UInt32.toNat_inj.mp
  change c.val.toUInt8.toUInt32.toNat = c.val.toNat
  rw [UInt8.toNat_toUInt32, UInt32.toNat_toUInt8]
  omega

theorem numberOf_decimal (i : Nat) : numberOf (decimal i) = i := by
  have hmap : (decimal i).map Char.ofUInt8 = Nat.toDigits 10 i := by
    unfold decimal
    rw [List.map_map]
    calc
      _ = (Nat.toDigits 10 i).map id := by
        apply List.map_congr_left
        intro c hc
        exact ofUInt8_toUInt8
          (Nat.isDigit_of_mem_toDigits (by decide) (by decide) hc)
      _ = Nat.toDigits 10 i := List.map_id _
  unfold numberOf
  rw [hmap]
  exact Nat.ofDigitChars_ten_toDigits

theorem isTemp_iff {filename : FileName} {path : List UInt8} :
    isTemp filename path = true <->
      exists i, path = tempName filename (decimal i) := by
  unfold isTemp
  rw [decide_eq_true_iff]
  constructor
  · intro h
    exact ⟨_, h⟩
  · intro h
    rcases h with ⟨i, rfl⟩
    have hdigits : (tempName filename (decimal i)).drop
        (filename.bytes.length + 2) = decimal i := by
      unfold tempName
      rw [List.drop_succ_cons, ← List.drop_drop]
      simp
    rw [hdigits, numberOf_decimal]

theorem slash_notMem_decimal (i : Nat) : (47 : UInt8) ∉ decimal i := by
  intro h
  rcases List.mem_map.mp h with ⟨c, hc, hslash⟩
  have hbounds := digit_bounds
    (Nat.isDigit_of_mem_toDigits (by decide) (by decide) hc)
  have hnat := congrArg UInt8.toNat hslash
  change c.val.toUInt8.toNat = 47 at hnat
  rw [UInt32.toNat_toUInt8] at hnat
  omega

theorem slash_notMem_lastComponent (path : List UInt8) :
    (47 : UInt8) ∉ lastComponent path := by
  unfold lastComponent
  intro h
  have hne := List.mem_takeWhile_imp (List.mem_reverse.mp h)
  simp at hne

theorem lastComponent_of_notMem {path : List UInt8}
    (h : (47 : UInt8) ∉ path) : lastComponent path = path := by
  have hreverse : forall b, b ∈ path.reverse -> b ≠ 47 := by
    intro b hb hslash
    rw [List.mem_reverse, hslash] at hb
    exact h hb
  unfold lastComponent
  rw [List.dropWhile_eq_self_iff.mpr, List.takeWhile_eq_self_iff.mpr,
    List.reverse_reverse]
  · intro b hb
    exact decide_eq_true (hreverse b hb)
  · intro hlength
    rw [decide_eq_true_iff]
    exact hreverse _ (List.getElem_mem hlength)

theorem not_listed_of_isTemp {s : SyncFolder} {filename : FileName}
    {path : List UInt8} (h : isTemp filename path = true) :
    listed filename (s.baseName path) = false := by
  rcases isTemp_iff.mp h with ⟨i, rfl⟩
  rw [Bool.eq_false_iff]
  intro hlisted
  have hbase : s.baseName (tempName filename (decimal i)) =
      lastComponent (tempName filename (decimal i)) :=
    if_neg (List.cons_ne_nil _ _)
  rw [hbase] at hlisted
  have hprefix := List.isPrefixOf_iff_prefix.mp hlisted
  have hname : (47 : UInt8) ∉ filename.bytes := by
    intro hslash
    apply slash_notMem_lastComponent (tempName filename (decimal i))
    exact hprefix.subset (List.mem_append_left _ hslash)
  have htemp : (47 : UInt8) ∉ tempName filename (decimal i) := by
    unfold tempName
    simp [hname, slash_notMem_decimal i]
  rw [lastComponent_of_notMem htemp] at hprefix
  exact not_prefix_dotted filename.bytes (decimal i) hprefix

/-!
## What is counted
-/

section Count

variable {s : SyncFolder} {find : FindName} {filename : FileName}

theorem tempnumOf_eq_zero (tmpfiles : List UInt8) :
    SyncFolder.tempnumOf tmpfiles = 0 := by
  unfold SyncFolder.tempnumOf
  dsimp only
  rw [List.drop_length]
  split <;> rfl

theorem tempnum_eq (s : SyncFolder) (find : FindName) (filename : FileName) :
    s.tempnum find filename = if s.Fits filename then some 0 else none := by
  unfold SyncFolder.tempnum
  rw [tempnumOf_eq_zero]

theorem lt_of_peerNum {entry : Node} {peerNum : Int} {i : Nat}
    (hpeerNum : s.peerNum find (downloadArg entry.name entry) = some peerNum)
    (hi : i < (plan peerNum entry.size.toNat).count) :
    i < entry.peers.length := by
  unfold SyncFolder.peerNum at hpeerNum
  rw [tempnumOf_eq_zero] at hpeerNum
  split at hpeerNum
  · split at hpeerNum
    · cases hpeerNum
      have hmax : entry.peers.length < 2 ^ 31 :=
        Nat.lt_of_le_of_lt (length_peers_le entry) (by decide)
      exact Nat.lt_of_lt_of_le hi (count_plan_le _ hmax)
    · cases hpeerNum
      rw [count_plan_zero] at hi
      exact absurd hi (Nat.not_lt_zero i)
  · cases hpeerNum

/-- The search counts the temporary files exactly if there are none and the
command fits its buffer. -/
theorem resumable_iff {entry : Node} :
    s.Resumable find (downloadArg entry.name entry) <->
      s.Fits entry.name ∧ s.tempPieces entry.name = 0 := by
  constructor
  · intro h
    have hcount : s.tempnum find entry.name =
        some (s.tempPieces entry.name : Int) := h.count
    rw [tempnum_eq] at hcount
    split at hcount
    · next hfits =>
        rw [Option.some_inj] at hcount
        exact ⟨hfits, Int.natCast_eq_zero.mp hcount.symm⟩
    · cases hcount
  · intro h
    constructor
    · change s.tempnum find entry.name = _
      rw [tempnum_eq, if_pos h.left, show s.tempPieces (downloadArg entry.name
        entry).filename = 0 from h.right]
      rfl
    · intro _ peerNum _ _ hpeerNum i hi
      exact lt_of_peerNum hpeerNum hi

/-!
## The override
-/

theorem tmpfiles_eq (h : Literal find filename) :
    s.tmpfiles find filename = s.lines (s.visited.filter fun path =>
      listed filename (s.baseName path)) := by
  unfold SyncFolder.tmpfiles
  congr 1
  apply List.filter_congr
  intro path _
  exact h _

theorem length_le_lines (paths : List (List UInt8)) :
    paths.length ≤ (s.lines paths).length := by
  induction paths with
  | nil => exact Nat.le_refl 0
  | cons path rest ih =>
      change rest.length + 1 ≤
        ((s.dir.bytes ++ path ++ [10]) ++ s.lines rest).length
      rw [List.length_append, List.length_append, List.length_singleton]
      omega

theorem peerNum_eq_sourceCount {arg : DownloadArg}
    (hfind : Literal find arg.filename) (hfits : s.Fits arg.filename)
    (hlength : (s.tmpfiles find arg.filename).length < 2 ^ 31) :
    s.peerNum find arg =
      some (sourceCount (s.visited.map s.baseName) arg : Int) := by
  have hint := int_of_small (Int.natCast_nonneg _)
    (show ((s.tmpfiles find arg.filename).length : Int) < 2 ^ 31 by omega)
  unfold SyncFolder.peerNum
  rw [if_pos hfits, hint, tempnumOf_eq_zero, tmpfiles_eq hfind]
  cases hlisted : s.visited.filter fun path =>
      listed arg.filename (s.baseName path) with
  | nil =>
      rw [sourceCount_of_not_listed]
      · rfl
      · intro baseName hmem
        rcases List.mem_map.mp hmem with ⟨path, hpath, rfl⟩
        have hnone := List.filter_eq_nil_iff.mp hlisted path hpath
        simpa using hnone
  | cons path rest =>
      have hmem : path ∈ s.visited.filter fun path =>
          listed arg.filename (s.baseName path) := by
        rw [hlisted]
        exact List.mem_cons_self
      have hle := length_le_lines (path :: rest) (s := s)
      rw [List.length_cons] at hle
      have hfound := List.mem_filter.mp hmem
      rw [if_neg (by omega), sourceCount_of_listed
        (List.mem_map_of_mem hfound.left) hfound.right]
      rfl

end Count

def Sample.find : FindName :=
  fun pattern baseName => pattern.dropLast.isPrefixOf baseName

theorem Sample.literal_find (filename : FileName) :
    Literal Sample.find filename := by
  intro baseName
  have hpattern : pattern filename = (filename.bytes ++ [95]) ++ [42] := by
    rw [List.append_assoc]
    rfl
  unfold Sample.find listed
  rw [hpattern, List.dropLast_concat]

def Sample.twoTemps : SyncFolder where
  dir := ⟨[100, 47], by decide, by decide⟩
  paths := [[46, 97, 95, 48], [46, 97, 95, 49]]
  proper := by decide
  distinct := by decide

def Sample.twoOthers : SyncFolder where
  dir := Sample.twoTemps.dir
  paths := [[46, 97, 95, 48], [46, 97, 95, 49], [97, 95, 120], [97, 95, 121]]
  proper := by decide
  distinct := by decide

/-- Two temporary files are not found.  With two other files that are found none
is counted, and all sources are dropped. -/
theorem pieces_miscounted :
    (Literal Sample.find Sample.fileA ∧
      Sample.twoTemps.tempPieces Sample.fileA = 2 ∧
      Sample.twoTemps.tempnum Sample.find Sample.fileA = some 0 ∧
      ¬ Sample.twoTemps.Resumable Sample.find (downloadArg Sample.fileA
        (Sample.node Sample.ipA Sample.fileA 100 5 FILE_CREATE))) ∧
    Sample.twoOthers.tempPieces Sample.fileA = 2 ∧
      Sample.twoOthers.tempnum Sample.find Sample.fileA = some 0 ∧
      Sample.twoOthers.peerNum Sample.find (downloadArg Sample.fileA
        (Sample.node Sample.ipA Sample.fileA 100 5 FILE_CREATE)) = some 0 ∧
      ¬ Sample.twoOthers.Resumable Sample.find (downloadArg Sample.fileA
        (Sample.node Sample.ipA Sample.fileA 100 5 FILE_CREATE)) := by
  refine ⟨⟨Sample.literal_find _, by decide, by decide, ?_⟩, by decide,
    by decide, by decide, ?_⟩
  · intro h
    exact absurd h.count (by decide)
  · intro h
    exact absurd h.count (by decide)

end Transfer
end DartSync
