import DartSync.Peer.Watches
import DartSync.Transfer.Requests

/-!
# The configuration file

`readConfigFile` of `peer/monitor.c`: the first line of `config.data` is the sync
folder.  `fgets` keeps the newline at the end of a line, and nothing removes it,
so the folder that is meant is the one that is read only where the line is ended
by the end of the file.
-/

namespace DartSync
namespace Peer

open Foundation Transfer

def lineOf : Nat -> List UInt8 -> List UInt8
  | 0, _ => []
  | _ + 1, [] => []
  | room + 1, c :: rest => if c = 10 then [c] else c :: lineOf room rest

/-- `fgets` to an array; `none` at the end of the file. -/
def fgets (capacity : Nat) (file : List UInt8) : Option (List UInt8) :=
  if file = [] then none else some (lineOf (capacity - 1) file)

/-- `sync_dir`, and whether it had to be made.  `none` where there is no file,
where `line` is read without having been written, where it has no last
character, and where the slash does not fit. -/
def readConfigFile (isThere : Path -> Bool) (file? : Option (List UInt8)) :
    Option (Path × Bool) :=
  file?.bind fun file =>
    (fgets FILE_NAME_LEN file).bind fun bytes =>
      match (cstr bytes).getLast? with
      | none => none
      | some last =>
          let line? :=
            if last ≠ 47 then strcat FILE_NAME_LEN (cstr bytes) [47]
            else some (cstr bytes)
          line?.bind fun line =>
            (strcpy FILE_NAME_LEN line).map fun sync_dir =>
              (sync_dir, !isThere line)

section Config

variable {isThere : Path -> Bool} {line file rest : List UInt8} {room : Nat}
  {made : Bool} {sync_dir : Path}

theorem length_lineOf_le (room : Nat) (file : List UInt8) :
    (lineOf room file).length ≤ room := by
  induction room generalizing file with
  | zero => exact le_refl 0
  | succ room ih =>
      cases file with
      | nil => exact Nat.zero_le _
      | cons c rest =>
          rw [lineOf]
          split
          · exact Nat.succ_le_succ (Nat.zero_le _)
          · exact Nat.succ_le_succ (ih rest)

theorem lineOf_end (h : (10 : UInt8) ∉ line) (hroom : line.length ≤ room) :
    lineOf room line = line := by
  induction line generalizing room with
  | nil => cases room <;> rfl
  | cons c line ih =>
      rw [List.mem_cons, not_or] at h
      cases room with
      | zero => cases hroom
      | succ room =>
          rw [lineOf, if_neg (Ne.symm h.left),
            ih h.right (Nat.le_of_succ_le_succ hroom)]

theorem lineOf_newline (h : (10 : UInt8) ∉ line) (hroom : line.length < room) :
    lineOf room (line ++ 10 :: rest) = line ++ [10] := by
  induction line generalizing room with
  | nil =>
      cases room with
      | zero => cases hroom
      | succ room => rfl
  | cons c line ih =>
      rw [List.mem_cons, not_or] at h
      cases room with
      | zero => cases hroom
      | succ room =>
          rw [List.cons_append, lineOf, if_neg (Ne.symm h.left),
            ih h.right (Nat.lt_of_succ_lt_succ hroom), List.cons_append]

theorem path_of_getLast? (hzero : (0 : UInt8) ∉ line)
    (hlength : line.length < FILE_NAME_LEN) (hlast : line.getLast? = some 47) :
    exists dir : SyncDir, line = dir.path := by
  have hsplit := List.dropLast_append_getLast? 47 hlast
  have hshort : line.dropLast.length + 1 = line.length := by
    have hlengths := congrArg List.length hsplit
    rw [List.length_append] at hlengths
    exact hlengths
  refine ⟨⟨line.dropLast, ?_, ?_⟩, hsplit.symm⟩
  · intro hmem
    exact hzero (List.dropLast_subset line hmem)
  · rw [hshort]
    exact hlength

theorem syncDir_of_readConfigFile {file? : Option (List UInt8)}
    (h : readConfigFile isThere file? = some (sync_dir, made)) :
    exists dir : SyncDir, sync_dir = dir.path := by
  unfold readConfigFile at h
  rcases Option.bind_eq_some_iff.mp h with ⟨file, _, h⟩
  rcases Option.bind_eq_some_iff.mp h with ⟨bytes, hbytes, h⟩
  have hzero := zero_not_mem_cstr bytes
  have hlength : (cstr bytes).length < FILE_NAME_LEN := by
    unfold fgets at hbytes
    split at hbytes
    · cases hbytes
    · cases hbytes
      exact Nat.lt_of_le_of_lt (length_cstr_le _)
        (Nat.lt_succ_of_le (length_lineOf_le (FILE_NAME_LEN - 1) file))
  split at h
  · cases h
  · next last hlast =>
      rcases Option.bind_eq_some_iff.mp h with ⟨line, hline, h⟩
      rcases Option.map_eq_some_iff.mp h with ⟨copied, hcopied, hpair⟩
      cases hpair
      have hpath : exists dir : SyncDir, line = dir.path := by
        split at hline
        · unfold strcat at hline
          split at hline
          · next hfits =>
              cases hline
              exact ⟨⟨cstr bytes, hzero, hfits⟩, rfl⟩
          · cases hline
        · next hslash =>
            cases hline
            rw [not_not.mp hslash] at hlast
            exact path_of_getLast? hzero hlength hlast
      rcases hpath with ⟨dir, rfl⟩
      refine ⟨dir, ?_⟩
      unfold strcpy at hcopied
      split at hcopied
      · cases hcopied
        exact cstr_path dir
      · cases hcopied

theorem readConfigFile_of_line (hfile : file ≠ [])
    (hline : lineOf (FILE_NAME_LEN - 1) file = line)
    (hzero : (0 : UInt8) ∉ line) {last : UInt8}
    (hlast : line.getLast? = some last) (hslash : last ≠ 47)
    (hfits : line.length + 1 < FILE_NAME_LEN) :
    readConfigFile isThere (some file) =
      some (line ++ [47], !isThere (line ++ [47])) := by
  have hcstr : cstr line = line := cstr_of_no_zero hzero
  have hpath : cstr (line ++ [47]) = line ++ [47] :=
    cstr_path ⟨line, hzero, hfits⟩
  have hcat : strcat FILE_NAME_LEN line [47] = some (line ++ [47]) := by
    unfold strcat
    exact if_pos hfits
  have hcopy : strcpy FILE_NAME_LEN (line ++ [47]) = some (line ++ [47]) := by
    unfold strcpy
    rw [hpath, List.length_append]
    exact if_pos hfits
  unfold readConfigFile fgets
  rw [Option.bind_some, if_neg hfile, hline, Option.bind_some, hcstr, hlast]
  dsimp only
  rw [if_pos hslash, hcat, Option.bind_some, hcopy, Option.map_some]

theorem readConfigFile_folder (dir : SyncDir) {last : UInt8}
    (hlast : dir.folder.getLast? = some last) (hslash : last ≠ 47)
    (hline : (10 : UInt8) ∉ dir.folder) :
    readConfigFile isThere (some dir.folder) =
      some (dir.path, !isThere dir.path) := by
  apply readConfigFile_of_line ?_ ?_ dir.noNul hlast hslash dir.fits
  · intro hnil
    rw [hnil] at hlast
    cases hlast
  · apply lineOf_end hline
    have hfits := dir.fits
    omega

theorem readConfigFile_newline (dir : SyncDir)
    (hline : (10 : UInt8) ∉ dir.folder)
    (hfits : dir.folder.length + 2 < FILE_NAME_LEN) (rest : List UInt8) :
    readConfigFile isThere (some (dir.folder ++ 10 :: rest)) =
      some (dir.folder ++ [10, 47], !isThere (dir.folder ++ [10, 47])) := by
  have hread := @readConfigFile_of_line isThere (dir.folder ++ [10])
    (dir.folder ++ 10 :: rest) ?_ ?_ ?_ 10 ?_ (by decide) ?_
  · rw [List.append_assoc] at hread
    exact hread
  · exact List.append_ne_nil_of_right_ne_nil _ (List.cons_ne_nil _ _)
  · apply lineOf_newline hline
    omega
  · rw [List.mem_append, not_or]
    exact ⟨dir.noNul, by decide⟩
  · exact List.getLast?_concat
  · rw [List.length_append]
    exact hfits

theorem readConfigFile_eq_path_iff (dir : SyncDir) {last : UInt8}
    (hlast : dir.folder.getLast? = some last) (hslash : last ≠ 47)
    (hline : (10 : UInt8) ∉ dir.folder)
    (hfits : dir.folder.length + 2 < FILE_NAME_LEN)
    (hfile : rest = [] ∨ exists later, rest = 10 :: later) :
    readConfigFile isThere (some (dir.folder ++ rest)) =
      some (dir.path, !isThere dir.path) <-> rest = [] := by
  cases hfile with
  | inl hend =>
      rw [hend, List.append_nil]
      exact iff_of_true (readConfigFile_folder dir hlast hslash hline) rfl
  | inr hnewline =>
      rcases hnewline with ⟨later, hrest⟩
      rw [hrest, readConfigFile_newline dir hline hfits]
      apply iff_of_false
      · intro h
        have hpaths := congrArg Prod.fst (Option.some.inj h)
        have hends := List.append_cancel_left hpaths
        exact absurd hends (by decide)
      · exact List.cons_ne_nil _ _

end Config

end Peer
end DartSync
