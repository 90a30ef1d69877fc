import DartSync.Transfer.BrokenSource
import DartSync.Transfer.Exchange
import DartSync.Transfer.TempNames

/-!
# The files of a download

`ptp_download` and the file side of `piece_download` in `peer/peer.c`, over the
files of the peer: each piece is appended to a temporary file in the sync folder,
and the temporary files are read, removed and written to the file one after the
other.  `piece_download` reads the number of its piece from the request, which
`download_send` has freed; it is taken to be still there.
-/

namespace DartSync
namespace Transfer

open Foundation Peer

/-- Opening a path to write or append to it makes a file where none is, if the
folder lets it: `creatable`. -/
def canOpen (creatable : List UInt8 -> Bool) (files : Files)
    (path : List UInt8) : Bool :=
  (files path).isSome || creatable path

/-- `fwrite` at the end of a file that was opened to append or was emptied. -/
def appendTo (files : Files) (path bytes : List UInt8) : Files :=
  Function.update files path (some ((files path).getD [] ++ bytes))

def filePath (dir : SyncDir) (filename : FileName) : Option (List UInt8) :=
  strcat FILE_NAME_LEN dir.path filename.bytes

section Run

variable (creatable : List UInt8 -> Bool) (dir : SyncDir)
  (filename : FileName) (p : Plan)

/-- The files when the threads of the first `n` pieces are joined; the join of a
piece that was not requested, on a `tid` that was never set, fails. -/
def fetchFiles (downloads : Nat -> Option (List UInt8)) (files : Files) :
    Nat -> Option Files
  | 0 => some files
  | n + 1 =>
      (fetchFiles downloads files n).bind fun fetched =>
        (tempPath dir filename n).bind fun fname =>
          if p.needs n (curLength (fetched fname)) then
            (downloads n).bind fun buffer =>
              if canOpen creatable fetched fname then
                some (appendTo fetched fname buffer)
              else none
          else none

def joinFiles (filepath : List UInt8) : Nat -> Nat -> Files -> Option Files
  | 0, _, files => some files
  | left + 1, i, files =>
      (tempPath dir filename i).bind fun temp_filename =>
        (readBack (files temp_filename)).bind fun buffer =>
          joinFiles filepath left (i + 1)
            (appendTo (Function.update files temp_filename none) filepath
              buffer)

/-- A run of `ptp_download` with the pieces that its threads get. -/
def downloadFiles (downloads : Nat -> Option (List UInt8)) (files : Files) :
    Option Files :=
  (fetchFiles creatable dir filename p downloads files p.count).bind
    fun fetched =>
      (filePath dir filename).bind fun filepath =>
        if canOpen creatable fetched filepath then
          joinFiles dir filename filepath p.count 0
            (Function.update fetched filepath (some []))
        else none

end Run

def tempsIn (dir : SyncDir) (filename : FileName) (files : Files) : Temps :=
  fun i => files (dir.path ++ tempName filename (decimal i))

/-- The files after a run that writes `file`: the first `n` temporary files are
gone, the others are as they were. -/
def replaced (dir : SyncDir) (filename : FileName) (n : Nat)
    (file : List UInt8) (files : Files) : Files :=
  fun path =>
    if path = dir.path ++ filename.bytes then some file
    else if exists i, i < n ∧ path = dir.path ++ tempName filename (decimal i)
      then none
    else files path

/-!
## The paths
-/

theorem decimal_injective {i j : Nat} (h : decimal i = decimal j) : i = j := by
  rw [← numberOf_decimal i, h, numberOf_decimal]

section Paths

variable {dir : SyncDir} {filename : FileName} {i j : Nat}

theorem temp_injective (h : dir.path ++ tempName filename (decimal i) =
    dir.path ++ tempName filename (decimal j)) : i = j := by
  have htemp := List.append_cancel_left h
  unfold tempName at htemp
  rw [List.cons_inj_right, List.append_cancel_left_eq,
    List.cons_inj_right] at htemp
  exact decimal_injective htemp

theorem temp_ne_file : dir.path ++ tempName filename (decimal i) ≠
    dir.path ++ filename.bytes := by
  intro h
  have hlength := congrArg List.length (List.append_cancel_left h)
  unfold tempName at hlength
  rw [List.length_cons, List.length_append] at hlength
  omega

end Paths

/-!
## The run and its pieces
-/

section Refinement

variable {creatable : List UInt8 -> Bool} {dir : SyncDir}
  {filename : FileName} {p : Plan} {downloads : Nat -> Option (List UInt8)}
  {files : Files}

/-- A download whose paths fit their arrays, in a folder that takes new files. -/
structure Placeable (creatable : List UInt8 -> Bool) (dir : SyncDir)
    (filename : FileName) (n : Nat) : Prop where
  file : dir.path.length + filename.bytes.length < FILE_NAME_LEN
  temp : forall i, i < n ->
    (dir.path ++ tempName filename (decimal i)).length < FILE_NAME_LEN
  openFile : creatable (dir.path ++ filename.bytes) = true
  openTemp : forall i, i < n ->
    creatable (dir.path ++ tempName filename (decimal i)) = true

theorem canOpen_of_creatable {path : List UInt8}
    (h : creatable path = true) : canOpen creatable files path = true := by
  unfold canOpen
  rw [h, Bool.or_true]

theorem fetchFiles_eq {n : Nat} (hplace : Placeable creatable dir filename n) :
    (fetchFiles creatable dir filename p downloads files n = none ∧
      fetchPieces p downloads (tempsIn dir filename files) n = none) ∨
    exists fetched temps,
      fetchFiles creatable dir filename p downloads files n = some fetched ∧
      fetchPieces p downloads (tempsIn dir filename files) n = some temps ∧
      tempsIn dir filename fetched = temps ∧
      (forall i, n ≤ i -> temps i = tempsIn dir filename files i) ∧
      forall path, (forall i, i < n ->
        path ≠ dir.path ++ tempName filename (decimal i)) ->
          fetched path = files path := by
  induction n with
  | zero => exact Or.inr ⟨files, _, rfl, rfl, rfl, fun _ _ => rfl,
      fun _ _ => rfl⟩
  | succ n ih =>
      have hbefore : Placeable creatable dir filename n :=
        ⟨hplace.file, fun i hi => hplace.temp i (Nat.lt_succ_of_lt hi),
          hplace.openFile, fun i hi => hplace.openTemp i (Nat.lt_succ_of_lt hi)⟩
      have hpath : tempPath dir filename n =
          some (dir.path ++ tempName filename (decimal n)) :=
        tempPath_eq_some.mpr ⟨rfl, hplace.temp n (Nat.lt_succ_self n)⟩
      rw [fetchFiles, fetchPieces]
      rcases ih hbefore with ⟨hfiles, hpieces⟩ |
        ⟨fetched, temps, hfiles, hpieces, htemps, hlater, hother⟩
      · left
        rw [hfiles, hpieces]
        exact ⟨rfl, rfl⟩
      · have hsame : fetched (dir.path ++ tempName filename (decimal n)) =
            tempsIn dir filename files n := by
          rw [← hlater n (Nat.le_refl n), ← htemps]
          rfl
        rw [hfiles, hpieces, Option.bind_some, Option.bind_some, hpath,
          Option.bind_some, hsame]
        cases p.needs n (curLength (tempsIn dir filename files n)) with
        | false => exact Or.inl ⟨rfl, rfl⟩
        | true =>
            rw [if_pos rfl, if_pos rfl]
            cases downloads n with
            | none => exact Or.inl ⟨rfl, rfl⟩
            | some buffer =>
                have hopen := @canOpen_of_creatable _ fetched _
                  (hplace.openTemp n (Nat.lt_succ_self n))
                right
                rw [Option.bind_some, if_pos hopen, Option.map_some]
                refine ⟨_, _, rfl, rfl, ?_, ?_, ?_⟩
                · funext i
                  unfold tempsIn appendTo
                  cases Classical.em (i = n) with
                  | inl hi =>
                      rw [hi, Function.update_self, if_pos rfl, hsame]
                      rfl
                  | inr hi =>
                      rw [Function.update_of_ne fun h => hi (temp_injective h),
                        if_neg hi, ← htemps]
                      rfl
                · intro i hi
                  rw [if_neg (by omega)]
                  exact hlater i (Nat.le_of_succ_le hi)
                · intro path hpath
                  unfold appendTo
                  rw [Function.update_of_ne (hpath n (Nat.lt_succ_self n))]
                  exact hother path fun i hi => hpath i (Nat.lt_succ_of_lt hi)

theorem assemble_of_le {temps : Temps} {i n : Nat} (hle : i ≤ n)
    (h : assemble temps i = none) : assemble temps n = none := by
  induction n with
  | zero =>
      rw [Nat.le_zero.mp hle] at h
      exact h
  | succ n ih =>
      cases Nat.lt_or_ge n i with
      | inl hlt =>
          have hi : i = n + 1 := by omega
          rw [← hi]
          exact h
      | inr hge =>
          rw [assemble, ih hge]
          rfl

theorem joinFiles_eq {n left i : Nat} {temps : Temps} {written : List UInt8}
    (hplace : Placeable creatable dir filename n) (hn : n = i + left)
    (htemps : forall j, i ≤ j -> tempsIn dir filename files j = temps j)
    (hwritten : files (dir.path ++ filename.bytes) = some written)
    (hassemble : assemble temps i = some written) :
    (joinFiles dir filename (dir.path ++ filename.bytes) left i files = none ∧
      assemble temps n = none) ∨
    exists joined out,
      joinFiles dir filename (dir.path ++ filename.bytes) left i files =
        some joined ∧ assemble temps n = some out ∧
      joined (dir.path ++ filename.bytes) = some out ∧
      (forall j, i ≤ j -> j < n -> tempsIn dir filename joined j = none) ∧
      forall path, path ≠ dir.path ++ filename.bytes ->
        (forall j, i ≤ j -> j < n ->
          path ≠ dir.path ++ tempName filename (decimal j)) ->
          joined path = files path := by
  induction left generalizing i files written with
  | zero =>
      rw [Nat.add_zero] at hn
      right
      refine ⟨files, written, rfl, ?_, hwritten, ?_, fun _ _ _ => rfl⟩
      · rw [hn]
        exact hassemble
      · intro j hij hjn
        omega
  | succ left ih =>
      have hpath : tempPath dir filename i =
          some (dir.path ++ tempName filename (decimal i)) :=
        tempPath_eq_some.mpr ⟨rfl, hplace.temp i (by omega)⟩
      have hsame : files (dir.path ++ tempName filename (decimal i)) =
          temps i := htemps i (Nat.le_refl i)
      have hnext : assemble temps (i + 1) =
          (readBack (temps i)).map (written ++ ·) := by
        rw [assemble, hassemble, Option.bind_some]
      rw [joinFiles, hpath, Option.bind_some, hsame]
      cases hread : readBack (temps i) with
      | none =>
          rw [hread] at hnext
          exact Or.inl ⟨rfl, assemble_of_le (by omega) hnext⟩
      | some buffer =>
          rw [hread] at hnext
          rw [Option.bind_some]
          generalize hfiles : appendTo (Function.update files
            (dir.path ++ tempName filename (decimal i)) none)
            (dir.path ++ filename.bytes) buffer = files'
          have hkept : forall path, path ≠ dir.path ++ filename.bytes ->
              path ≠ dir.path ++ tempName filename (decimal i) ->
              files' path = files path := by
            intro path hfile htemp
            rw [← hfiles, appendTo, Function.update_of_ne hfile,
              Function.update_of_ne htemp]
          have hgone : files' (dir.path ++ tempName filename (decimal i)) =
              none := by
            rw [← hfiles, appendTo, Function.update_of_ne temp_ne_file,
              Function.update_self]
          have hwritten' : files' (dir.path ++ filename.bytes) =
              some (written ++ buffer) := by
            rw [← hfiles, appendTo, Function.update_self,
              Function.update_of_ne temp_ne_file.symm, hwritten]
            rfl
          have htemps' : forall j, i + 1 ≤ j ->
              tempsIn dir filename files' j = temps j := by
            intro j hj
            rw [← htemps j (Nat.le_of_succ_le hj)]
            apply hkept _ temp_ne_file
            intro heq
            have hji := temp_injective heq
            omega
          cases ih (by omega) htemps' hwritten' hnext with
          | inl hnone => exact Or.inl hnone
          | inr hsome =>
              rcases hsome with
                ⟨joined, out, hjoined, hout, hfile, hremoved, hother⟩
              right
              refine ⟨joined, out, hjoined, hout, hfile, ?_, ?_⟩
              · intro j hij hjn
                cases Classical.em (j = i) with
                | inl heq =>
                    rw [heq, tempsIn, hother _ temp_ne_file, hgone]
                    intro k hik _ hk
                    have hki := temp_injective hk
                    omega
                | inr hne => exact hremoved j (by omega) hjn
              · intro path hpath htemp
                rw [hother path hpath fun j hij hjn =>
                  htemp j (Nat.le_of_succ_le hij) hjn]
                exact hkept path hpath (htemp i (Nat.le_refl i) (by omega))

/-- The run over files is the run over pieces, and it touches no file but the
temporary files of the pieces and the file itself. -/
theorem downloadFiles_eq (hplace : Placeable creatable dir filename p.count) :
    downloadFiles creatable dir filename p downloads files =
      (ptpDownloadFrom p downloads (tempsIn dir filename files)).map
        fun result =>
          replaced dir filename p.count result.file files := by
  have hpath : filePath dir filename =
      some (dir.path ++ filename.bytes) := by
    unfold filePath strcat
    rw [cstr_of_no_zero filename.noNul, if_pos hplace.file]
  unfold downloadFiles ptpDownloadFrom
  rcases fetchFiles_eq hplace with ⟨hfiles, hpieces⟩ |
    ⟨fetched, temps, hfiles, hpieces, htemps, _, hother⟩
  · rw [hfiles, hpieces]
    rfl
  · have hopen := @canOpen_of_creatable _ fetched _ hplace.openFile
    rw [hfiles, hpieces, Option.bind_some, Option.bind_some, hpath,
      Option.bind_some, if_pos hopen]
    generalize hemptied : Function.update fetched
      (dir.path ++ filename.bytes) (some []) = emptied
    have htemps' : forall j, 0 ≤ j ->
        tempsIn dir filename emptied j = temps j := by
      intro j _
      rw [← htemps, ← hemptied]
      exact Function.update_of_ne temp_ne_file _ _
    have hempty : emptied (dir.path ++ filename.bytes) = some [] := by
      rw [← hemptied, Function.update_self]
    rcases joinFiles_eq hplace (Nat.zero_add p.count).symm htemps' hempty rfl
      with ⟨hjoined, hassemble⟩ |
        ⟨joined, out, hjoined, hassemble, hfile, hremoved, hkept⟩
    · rw [hjoined, hassemble]
      rfl
    · rw [hjoined, hassemble]
      apply congrArg some
      funext path
      unfold replaced
      dsimp only
      split
      · next hpath =>
          rw [hpath]
          exact hfile
      · next hpath =>
          split
          · next htemp =>
              rcases htemp with ⟨i, hi, heq⟩
              rw [heq]
              exact hremoved i (Nat.zero_le i) hi
          · next htemp =>
              have hnot : forall i, i < p.count ->
                  path ≠ dir.path ++ tempName filename (decimal i) := by
                intro i hi heq
                exact htemp ⟨i, hi, heq⟩
              rw [hkept path hpath fun i _ hi => hnot i hi, ← hemptied,
                Function.update_of_ne hpath]
              exact hother path hnot

end Refinement

end Transfer
end DartSync
