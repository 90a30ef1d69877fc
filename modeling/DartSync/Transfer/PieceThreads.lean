import DartSync.Foundation.Transition
import DartSync.Transfer.TempFiles

/-!
# The threads of a download

`ptp_download` creates a `piece_download` thread for each piece that it asks for
and goes on to the next piece at once.  The threads run side by side until all
are joined, then `ptp_download` puts the pieces together.  What is written to a
stream gets into its file by and by, at the latest when the stream is closed.
-/

namespace DartSync
namespace Transfer

open Foundation Peer

inductive PieceThread where
  | waiting
  /-- The piece is not asked for. -/
  | skipped
  | started
  | opened
  /-- The buffer is full, and `rest` of it is not in the file. -/
  | writing (rest : List UInt8)
  | finished
deriving DecidableEq

def PieceThread.running : PieceThread -> Bool
  | started => true
  | opened => true
  | writing _ => true
  | _ => false

inductive MainThread where
  /-- Before turn `i` of the loop that creates the threads. -/
  | creating (i : Nat)
  /-- Before turn `i` of the loop that puts the pieces together; `pending` is in
  the stream and not in the file. -/
  | joining (i : Nat) (pending : List UInt8)
  | ended
deriving DecidableEq

/-- The temporary file of piece `i` of `count` is read and removed. -/
def MainThread.Took (count i : Nat) : MainThread -> Prop
  | creating _ => False
  | joining n _ => i < n
  | ended => i < count

structure DownloadState where
  files : Files
  main : MainThread
  threads : Nat -> PieceThread

inductive DownloadAction where
  | createThread
  | openTemp (i : Nat)
  | receivePiece (i : Nat)
  | writeTemp (i n : Nat)
  | closeTemp (i : Nat)
  /-- All threads are joined, and the file is opened. -/
  | openFile
  /-- A temporary file is read, removed and written to the stream. -/
  | joinPiece
  | writeFile (n : Nat)
  | closeFile

namespace DownloadState

def start (files : Files) : DownloadState where
  files := files
  main := MainThread.creating 0
  threads := fun _ => PieceThread.waiting

def setThread (s : DownloadState) (i : Nat) (files : Files)
    (t : PieceThread) : DownloadState :=
  { s with files := files, threads := Function.update s.threads i t }

def setMain (s : DownloadState) (files : Files) (main : MainThread) :
    DownloadState :=
  { s with files := files, main := main }

end DownloadState

section Step

variable (creatable : List UInt8 -> Bool) (dir : SyncDir)
  (filename : FileName) (p : Plan) (downloads : Nat -> Option (List UInt8))

/-- A thread whose next call ends the process has no step: what the others do
until then may have been done before.  No step either joins a piece that is not
asked for, whose `tid` has never been set. -/
def downloadStep (s : DownloadState) : DownloadAction -> Option DownloadState
  | DownloadAction.createThread =>
      match s.main with
      | MainThread.creating i =>
          if i < p.count then
            (tempPath dir filename i).map fun fname =>
              (s.setThread i s.files
                (if p.needs i (curLength (s.files fname)) then
                  PieceThread.started
                else PieceThread.skipped)).setMain s.files
                  (MainThread.creating (i + 1))
          else none
      | _ => none
  | DownloadAction.openTemp i =>
      match s.threads i with
      | PieceThread.started =>
          (tempPath dir filename i).bind fun temp_filename =>
            if canOpen creatable s.files temp_filename then
              some (s.setThread i (appendTo s.files temp_filename [])
                PieceThread.opened)
            else none
      | _ => none
  | DownloadAction.receivePiece i =>
      match s.threads i with
      | PieceThread.opened =>
          (downloads i).map fun buffer =>
            s.setThread i s.files (PieceThread.writing buffer)
      | _ => none
  | DownloadAction.writeTemp i n =>
      match s.threads i with
      | PieceThread.writing rest =>
          if 0 < n ∧ n ≤ rest.length then
            (tempPath dir filename i).map fun temp_filename =>
              s.setThread i (appendTo s.files temp_filename (rest.take n))
                (PieceThread.writing (rest.drop n))
          else none
      | _ => none
  | DownloadAction.closeTemp i =>
      match s.threads i with
      | PieceThread.writing [] =>
          some (s.setThread i s.files PieceThread.finished)
      | _ => none
  | DownloadAction.openFile =>
      match s.main with
      | MainThread.creating i =>
          if i = p.count ∧ forall j, j < p.count ->
              s.threads j = PieceThread.finished then
            (filePath dir filename).bind fun filepath =>
              if canOpen creatable s.files filepath then
                some (s.setMain (Function.update s.files filepath (some []))
                  (MainThread.joining 0 []))
              else none
          else none
      | _ => none
  | DownloadAction.joinPiece =>
      match s.main with
      | MainThread.joining i pending =>
          if i < p.count then
            (tempPath dir filename i).bind fun temp_filename =>
              (readBack (s.files temp_filename)).map fun buffer =>
                s.setMain (Function.update s.files temp_filename none)
                  (MainThread.joining (i + 1) (pending ++ buffer))
          else none
      | _ => none
  | DownloadAction.writeFile n =>
      match s.main with
      | MainThread.joining i pending =>
          if 0 < n ∧ n ≤ pending.length then
            (filePath dir filename).map fun filepath =>
              s.setMain (appendTo s.files filepath (pending.take n))
                (MainThread.joining i (pending.drop n))
          else none
      | _ => none
  | DownloadAction.closeFile =>
      match s.main with
      | MainThread.joining i [] =>
          if i = p.count then some (s.setMain s.files MainThread.ended)
          else none
      | _ => none

/-!
## What a step does
-/

inductive DownloadChange (s : DownloadState) :
    DownloadAction -> DownloadState -> Prop where
  | created {i : Nat} : s.main = MainThread.creating i -> i < p.count ->
      (dir.path ++ tempName filename (decimal i)).length < FILE_NAME_LEN ->
        DownloadChange s DownloadAction.createThread
          ((s.setThread i s.files
            (if p.needs i (curLength (tempsIn dir filename s.files i)) then
              PieceThread.started
            else PieceThread.skipped)).setMain s.files
              (MainThread.creating (i + 1)))
  | opened {i : Nat} : s.threads i = PieceThread.started ->
      (dir.path ++ tempName filename (decimal i)).length < FILE_NAME_LEN ->
      canOpen creatable s.files
          (dir.path ++ tempName filename (decimal i)) = true ->
        DownloadChange s (DownloadAction.openTemp i)
          (s.setThread i (appendTo s.files
            (dir.path ++ tempName filename (decimal i)) [])
              PieceThread.opened)
  | received {i : Nat} {buffer : List UInt8} :
      s.threads i = PieceThread.opened -> downloads i = some buffer ->
        DownloadChange s (DownloadAction.receivePiece i)
          (s.setThread i s.files (PieceThread.writing buffer))
  | wrote {i n : Nat} {rest : List UInt8} :
      s.threads i = PieceThread.writing rest -> 0 < n -> n ≤ rest.length ->
      (dir.path ++ tempName filename (decimal i)).length < FILE_NAME_LEN ->
        DownloadChange s (DownloadAction.writeTemp i n)
          (s.setThread i (appendTo s.files
            (dir.path ++ tempName filename (decimal i)) (rest.take n))
              (PieceThread.writing (rest.drop n)))
  | closed {i : Nat} : s.threads i = PieceThread.writing [] ->
        DownloadChange s (DownloadAction.closeTemp i)
          (s.setThread i s.files PieceThread.finished)
  | openedFile : s.main = MainThread.creating p.count ->
      (forall j, j < p.count -> s.threads j = PieceThread.finished) ->
      dir.path.length + filename.bytes.length < FILE_NAME_LEN ->
      canOpen creatable s.files (dir.path ++ filename.bytes) = true ->
        DownloadChange s DownloadAction.openFile
          (s.setMain (Function.update s.files (dir.path ++ filename.bytes)
            (some [])) (MainThread.joining 0 []))
  | joined {i : Nat} {pending buffer : List UInt8} :
      s.main = MainThread.joining i pending -> i < p.count ->
      (dir.path ++ tempName filename (decimal i)).length < FILE_NAME_LEN ->
      readBack (tempsIn dir filename s.files i) = some buffer ->
        DownloadChange s DownloadAction.joinPiece
          (s.setMain (Function.update s.files
            (dir.path ++ tempName filename (decimal i)) none)
              (MainThread.joining (i + 1) (pending ++ buffer)))
  | wroteFile {i n : Nat} {pending : List UInt8} :
      s.main = MainThread.joining i pending -> 0 < n ->
      n ≤ pending.length ->
      dir.path.length + filename.bytes.length < FILE_NAME_LEN ->
        DownloadChange s (DownloadAction.writeFile n)
          (s.setMain (appendTo s.files (dir.path ++ filename.bytes)
            (pending.take n)) (MainThread.joining i (pending.drop n)))
  | closedFile : s.main = MainThread.joining p.count [] ->
        DownloadChange s DownloadAction.closeFile
          (s.setMain s.files MainThread.ended)

end Step

section Change

variable {creatable : List UInt8 -> Bool} {dir : SyncDir}
  {filename : FileName} {p : Plan} {downloads : Nat -> Option (List UInt8)}
  {s s' : DownloadState} {a : DownloadAction}

theorem filePath_eq_some {path : List UInt8} :
    filePath dir filename = some path <->
      path = dir.path ++ filename.bytes ∧
        dir.path.length + filename.bytes.length < FILE_NAME_LEN := by
  unfold filePath strcat
  rw [cstr_of_no_zero filename.noNul]
  split
  · next hfits =>
      rw [Option.some_inj]
      constructor
      · intro h
        exact ⟨h.symm, hfits⟩
      · intro h
        exact h.left.symm
  · next hlong =>
      constructor
      · intro h
        cases h
      · intro h
        exact absurd h.right hlong

theorem downloadStep_change
    (h : downloadStep creatable dir filename p downloads s a = some s') :
    DownloadChange creatable dir filename p downloads s a s' := by
  cases a with
  | createThread =>
      dsimp only [downloadStep] at h
      split at h
      · next i hmain =>
          split at h
          · next hi =>
              rcases Option.map_eq_some_iff.mp h with ⟨fname, hpath, rfl⟩
              rcases tempPath_eq_some.mp hpath with ⟨rfl, hfits⟩
              exact DownloadChange.created hmain hi hfits
          · cases h
      · cases h
  | openTemp i =>
      dsimp only [downloadStep] at h
      split at h
      · next hthread =>
          rcases Option.bind_eq_some_iff.mp h with ⟨fname, hpath, hrest⟩
          rcases tempPath_eq_some.mp hpath with ⟨rfl, hfits⟩
          split at hrest
          · next hopen =>
              cases hrest
              exact DownloadChange.opened hthread hfits hopen
          · cases hrest
      · cases h
  | receivePiece i =>
      dsimp only [downloadStep] at h
      split at h
      · next hthread =>
          rcases Option.map_eq_some_iff.mp h with ⟨buffer, hbuffer, rfl⟩
          exact DownloadChange.received hthread hbuffer
      · cases h
  | writeTemp i n =>
      dsimp only [downloadStep] at h
      split at h
      · next rest hthread =>
          split at h
          · next hn =>
              rcases Option.map_eq_some_iff.mp h with ⟨fname, hpath, rfl⟩
              rcases tempPath_eq_some.mp hpath with ⟨rfl, hfits⟩
              exact DownloadChange.wrote hthread hn.left hn.right hfits
          · cases h
      · cases h
  | closeTemp i =>
      dsimp only [downloadStep] at h
      split at h
      · next hthread =>
          cases h
          exact DownloadChange.closed hthread
      · cases h
  | openFile =>
      dsimp only [downloadStep] at h
      split at h
      · next i hmain =>
          split at h
          · next hjoined =>
              rcases Option.bind_eq_some_iff.mp h with ⟨path, hpath, hrest⟩
              rcases filePath_eq_some.mp hpath with ⟨rfl, hfits⟩
              split at hrest
              · next hopen =>
                  cases hrest
                  rw [hjoined.left] at hmain
                  exact DownloadChange.openedFile hmain hjoined.right hfits
                    hopen
              · cases hrest
          · cases h
      · cases h
  | joinPiece =>
      dsimp only [downloadStep] at h
      split at h
      · next i pending hmain =>
          split at h
          · next hi =>
              rcases Option.bind_eq_some_iff.mp h with ⟨fname, hpath, hrest⟩
              rcases tempPath_eq_some.mp hpath with ⟨rfl, hfits⟩
              rcases Option.map_eq_some_iff.mp hrest with
                ⟨buffer, hbuffer, rfl⟩
              exact DownloadChange.joined hmain hi hfits hbuffer
          · cases h
      · cases h
  | writeFile n =>
      dsimp only [downloadStep] at h
      split at h
      · next i pending hmain =>
          split at h
          · next hn =>
              rcases Option.map_eq_some_iff.mp h with ⟨path, hpath, rfl⟩
              rcases filePath_eq_some.mp hpath with ⟨rfl, hfits⟩
              exact DownloadChange.wroteFile hmain hn.left hn.right hfits
          · cases h
      · cases h
  | closeFile =>
      dsimp only [downloadStep] at h
      split at h
      · next i hmain =>
          split at h
          · next hi =>
              cases h
              rw [hi] at hmain
              exact DownloadChange.closedFile hmain
          · cases h
      · cases h

theorem downloadStep_of_change
    (h : DownloadChange creatable dir filename p downloads s a s') :
    downloadStep creatable dir filename p downloads s a = some s' := by
  have htemp : forall i,
      (dir.path ++ tempName filename (decimal i)).length < FILE_NAME_LEN ->
      tempPath dir filename i =
        some (dir.path ++ tempName filename (decimal i)) :=
    fun i hfits => tempPath_eq_some.mpr ⟨rfl, hfits⟩
  have hfile : dir.path.length + filename.bytes.length < FILE_NAME_LEN ->
      filePath dir filename = some (dir.path ++ filename.bytes) :=
    fun hfits => filePath_eq_some.mpr ⟨rfl, hfits⟩
  cases h with
  | created hmain hi hfits =>
      dsimp only [downloadStep]
      rw [hmain]
      dsimp only
      rw [if_pos hi, htemp _ hfits]
      rfl
  | opened hthread hfits hopen =>
      dsimp only [downloadStep]
      rw [hthread, htemp _ hfits]
      exact if_pos hopen
  | received hthread hbuffer =>
      dsimp only [downloadStep]
      rw [hthread, hbuffer]
      rfl
  | wrote hthread hpos hn hfits =>
      dsimp only [downloadStep]
      rw [hthread, htemp _ hfits]
      exact if_pos ⟨hpos, hn⟩
  | closed hthread =>
      dsimp only [downloadStep]
      rw [hthread]
  | openedFile hmain hfinished hfits hopen =>
      dsimp only [downloadStep]
      rw [hmain]
      dsimp only
      rw [if_pos ⟨rfl, hfinished⟩, hfile hfits]
      exact if_pos hopen
  | joined hmain hi hfits hread =>
      dsimp only [downloadStep]
      rw [hmain]
      dsimp only
      unfold tempsIn at hread
      rw [if_pos hi, htemp _ hfits, Option.bind_some, hread]
      rfl
  | wroteFile hmain hpos hn hfits =>
      dsimp only [downloadStep]
      rw [hmain, hfile hfits]
      exact if_pos ⟨hpos, hn⟩
  | closedFile hmain =>
      dsimp only [downloadStep]
      rw [hmain]
      exact if_pos rfl

end Change

/-!
## Files that are appended to
-/

section Append

variable {creatable : List UInt8 -> Bool} {files files' : Files}
  {path other : List UInt8}

theorem appendTo_self (files : Files) (path bytes : List UInt8) :
    appendTo files path bytes path =
      some ((files path).getD [] ++ bytes) :=
  Function.update_self _ _ _

theorem appendTo_of_ne (bytes : List UInt8) (h : other ≠ path) :
    appendTo files path bytes other = files other :=
  Function.update_of_ne h _ _

theorem appendTo_nil {written : List UInt8} (h : files path = some written) :
    appendTo files path [] = files := by
  unfold appendTo
  rw [h, Option.getD_some, List.append_nil, ← h, Function.update_eq_self]

theorem appendTo_appendTo (bytes rest : List UInt8) :
    appendTo (appendTo files path bytes) path rest =
      appendTo files path (bytes ++ rest) := by
  unfold appendTo
  rw [Function.update_self, Function.update_idem, Option.getD_some,
    List.append_assoc]

theorem appendTo_update (bytes : List UInt8) (temp : Option (List UInt8))
    (h : other ≠ path) :
    Function.update (appendTo files path bytes) other temp =
      appendTo (Function.update files other temp) path bytes := by
  unfold appendTo
  rw [Function.update_of_ne h.symm, Function.update_comm h]

theorem canOpen_congr (h : files path = files' path) :
    canOpen creatable files path = canOpen creatable files' path := by
  unfold canOpen
  rw [h]

end Append

/-!
## The files between two steps
-/

section Threads

variable (creatable : List UInt8 -> Bool) (dir : SyncDir)
  (filename : FileName) (p : Plan) (downloads : Nat -> Option (List UInt8))

/-- What is left to a thread of the temporary file that it found, and how it
came to be where it is. -/
def Stands (files : Files) (i : Nat) (temp : Option (List UInt8)) :
    PieceThread -> Prop
  | PieceThread.waiting => temp = tempsIn dir filename files i
  | PieceThread.skipped =>
      p.needs i (curLength (tempsIn dir filename files i)) = false ∧
        temp = tempsIn dir filename files i
  | PieceThread.started =>
      p.needs i (curLength (tempsIn dir filename files i)) = true ∧
        temp = tempsIn dir filename files i
  | PieceThread.opened =>
      p.needs i (curLength (tempsIn dir filename files i)) = true ∧
        canOpen creatable files
          (dir.path ++ tempName filename (decimal i)) = true ∧
        temp = some ((tempsIn dir filename files i).getD [])
  | PieceThread.writing rest =>
      p.needs i (curLength (tempsIn dir filename files i)) = true ∧
        canOpen creatable files
          (dir.path ++ tempName filename (decimal i)) = true ∧
        exists written, downloads i = some (written ++ rest) ∧
          temp = some ((tempsIn dir filename files i).getD [] ++ written)
  | PieceThread.finished =>
      p.needs i (curLength (tempsIn dir filename files i)) = true ∧
        canOpen creatable files
          (dir.path ++ tempName filename (decimal i)) = true ∧
        exists buffer, downloads i = some buffer ∧
          temp = some ((tempsIn dir filename files i).getD [] ++ buffer)

structure Creating (files : Files) (s : DownloadState) (n : Nat) : Prop where
  turn : n ≤ p.count
  begun : forall i, s.threads i = PieceThread.waiting <-> n ≤ i
  fits : forall i, i < n ->
    (dir.path ++ tempName filename (decimal i)).length < FILE_NAME_LEN
  pieces : forall i, Stands creatable dir filename p downloads files i
    (tempsIn dir filename s.files i) (s.threads i)
  others : forall path, (forall i, i < p.count ->
    path ≠ dir.path ++ tempName filename (decimal i)) ->
      s.files path = files path

structure Joining (files : Files) (s : DownloadState) (i : Nat)
    (pending : List UInt8) : Prop where
  turn : i ≤ p.count
  stopped : forall j, (s.threads j).running = false
  gone : forall j, j < i -> tempsIn dir filename s.files j = none
  pieces : forall j, i ≤ j -> Stands creatable dir filename p downloads files j
    (tempsIn dir filename s.files j) (s.threads j)
  fits : dir.path.length + filename.bytes.length < FILE_NAME_LEN
  file : exists written,
    s.files (dir.path ++ filename.bytes) = some written
  result : joinFiles dir filename (dir.path ++ filename.bytes) (p.count - i) i
      (appendTo s.files (dir.path ++ filename.bytes) pending) =
    downloadFiles creatable dir filename p downloads files

structure Ended (files : Files) (s : DownloadState) : Prop where
  stopped : forall j, (s.threads j).running = false
  gone : forall j, j < p.count -> tempsIn dir filename s.files j = none
  pieces : forall j, p.count ≤ j -> Stands creatable dir filename p downloads
    files j (tempsIn dir filename s.files j) (s.threads j)
  result : downloadFiles creatable dir filename p downloads files =
    some s.files

def DownloadInvariant (files : Files) (s : DownloadState) : Prop :=
  match s.main with
  | MainThread.creating n => Creating creatable dir filename p downloads files s n
  | MainThread.joining i pending =>
      Joining creatable dir filename p downloads files s i pending
  | MainThread.ended => Ended creatable dir filename p downloads files s

end Threads

section Invariant

variable {creatable : List UInt8 -> Bool} {dir : SyncDir}
  {filename : FileName} {p : Plan} {downloads : Nat -> Option (List UInt8)}
  {files files' : Files} {s s' : DownloadState} {a : DownloadAction} {n : Nat}

theorem temp_ne_temp {i j : Nat} (h : i ≠ j) :
    dir.path ++ tempName filename (decimal i) ≠
      dir.path ++ tempName filename (decimal j) :=
  fun heq => h (temp_injective heq)

theorem fetchFiles_succ_eq_some_iff {fetched : Files} :
    fetchFiles creatable dir filename p downloads files (n + 1) =
        some fetched <->
      exists before,
        fetchFiles creatable dir filename p downloads files n = some before ∧
        (dir.path ++ tempName filename (decimal n)).length < FILE_NAME_LEN ∧
        p.needs n (curLength (tempsIn dir filename before n)) = true ∧
        canOpen creatable before
          (dir.path ++ tempName filename (decimal n)) = true ∧
        exists buffer, downloads n = some buffer ∧
          appendTo before (dir.path ++ tempName filename (decimal n)) buffer =
            fetched := by
  rw [fetchFiles, Option.bind_eq_some_iff]
  constructor
  · intro h
    rcases h with ⟨before, hbefore, hrest⟩
    rcases Option.bind_eq_some_iff.mp hrest with ⟨fname, hpath, hpiece⟩
    rcases tempPath_eq_some.mp hpath with ⟨rfl, hfits⟩
    split at hpiece
    · next hneeds =>
        rcases Option.bind_eq_some_iff.mp hpiece with ⟨buffer, hbuffer, hopen⟩
        split at hopen
        · next hcan =>
            exact ⟨before, hbefore, hfits, hneeds, hcan, buffer, hbuffer,
              Option.some_inj.mp hopen⟩
        · cases hopen
    · cases hpiece
  · intro h
    rcases h with ⟨before, hbefore, hfits, hneeds, hcan, buffer, hbuffer, hrest⟩
    refine ⟨before, hbefore, ?_⟩
    unfold tempsIn at hneeds
    rw [tempPath_eq_some.mpr ⟨rfl, hfits⟩, Option.bind_some, if_pos hneeds,
      hbuffer, Option.bind_some, if_pos hcan, hrest]

theorem fetchFiles_eq_some_iff {fetched : Files} :
    fetchFiles creatable dir filename p downloads files n = some fetched <->
      (forall i, i < n ->
        (dir.path ++ tempName filename (decimal i)).length < FILE_NAME_LEN ∧
          Stands creatable dir filename p downloads files i
            (tempsIn dir filename fetched i) PieceThread.finished) ∧
        forall path, (forall i, i < n ->
          path ≠ dir.path ++ tempName filename (decimal i)) ->
            fetched path = files path := by
  induction n generalizing fetched with
  | zero =>
      rw [fetchFiles, Option.some_inj]
      constructor
      · intro h
        refine ⟨fun i hi => absurd hi (Nat.not_lt_zero i), fun path _ => ?_⟩
        rw [h]
      · intro h
        funext path
        exact (h.right path fun i hi => absurd hi (Nat.not_lt_zero i)).symm
  | succ n ih =>
      rw [fetchFiles_succ_eq_some_iff]
      constructor
      · intro h
        rcases h with
          ⟨before, hbefore, hfits, hneeds, hcan, buffer, hbuffer, rfl⟩
        rcases ih.mp hbefore with ⟨hpieces, hothers⟩
        have hfound : before (dir.path ++ tempName filename (decimal n)) =
            tempsIn dir filename files n :=
          hothers _ fun i hi => temp_ne_temp (Nat.ne_of_gt hi)
        constructor
        · intro i hi
          rcases Nat.lt_succ_iff_lt_or_eq.mp hi with hlt | heq
          · rw [tempsIn, appendTo_of_ne buffer (temp_ne_temp (Nat.ne_of_lt hlt))]
            exact hpieces i hlt
          · rw [heq, tempsIn, appendTo_self, hfound]
            rw [tempsIn, hfound] at hneeds
            rw [canOpen_congr hfound] at hcan
            exact ⟨hfits, hneeds, hcan, buffer, hbuffer, rfl⟩
        · intro path hpath
          rw [appendTo_of_ne buffer (hpath n (Nat.lt_succ_self n))]
          exact hothers path fun i hi => hpath i (Nat.lt_succ_of_lt hi)
      · intro h
        rcases h with ⟨hpieces, hothers⟩
        rcases hpieces n (Nat.lt_succ_self n) with
          ⟨hfits, hneeds, hopen, buffer, hbuffer, htemp⟩
        -- the files before the last piece
        have hfound : Function.update fetched
            (dir.path ++ tempName filename (decimal n))
              (tempsIn dir filename files n)
            (dir.path ++ tempName filename (decimal n)) =
              tempsIn dir filename files n := Function.update_self _ _ _
        refine ⟨_, ih.mpr ⟨?_, ?_⟩, hfits, ?_,
          (canOpen_congr hfound).trans hopen, buffer, hbuffer, ?_⟩
        · intro i hi
          rw [tempsIn, Function.update_of_ne (temp_ne_temp (Nat.ne_of_lt hi))]
          exact hpieces i (Nat.lt_succ_of_lt hi)
        · intro path hpath
          cases Classical.em
            (path = dir.path ++ tempName filename (decimal n)) with
          | inl hlast => rw [hlast, hfound, tempsIn]
          | inr hlast =>
              rw [Function.update_of_ne hlast]
              apply hothers
              intro i hi
              rcases Nat.lt_succ_iff_lt_or_eq.mp hi with hlt | heq
              · exact hpath i hlt
              · rw [heq]
                exact hlast
        · rw [tempsIn, hfound]
          exact hneeds
        · unfold appendTo
          rw [hfound, Function.update_idem, ← htemp]
          exact Function.update_eq_self _ _

theorem Creating.setThread {i : Nat} {t : PieceThread}
    (h : Creating creatable dir filename p downloads files s n)
    (hbegun : s.threads i ≠ PieceThread.waiting)
    (ht : t ≠ PieceThread.waiting)
    (hstands : Stands creatable dir filename p downloads files i
      (tempsIn dir filename files' i) t)
    (hkept : forall path, path ≠ dir.path ++ tempName filename (decimal i) ->
      files' path = s.files path) :
    Creating creatable dir filename p downloads files (s.setThread i files' t)
      n where
  turn := h.turn
  begun := by
    intro j
    unfold DownloadState.setThread
    dsimp only
    cases Classical.em (j = i) with
    | inl hj =>
        rw [hj, Function.update_self, ← h.begun i]
        exact iff_of_false ht hbegun
    | inr hj =>
        rw [Function.update_of_ne hj]
        exact h.begun j
  fits := h.fits
  pieces := by
    intro j
    unfold DownloadState.setThread
    dsimp only
    cases Classical.em (j = i) with
    | inl hj =>
        rw [hj, Function.update_self]
        exact hstands
    | inr hj =>
        rw [Function.update_of_ne hj, tempsIn, hkept _ (temp_ne_temp hj)]
        exact h.pieces j
  others := by
    have hi : i < p.count :=
      Nat.lt_of_lt_of_le (Nat.lt_of_not_le fun hle =>
        hbegun ((h.begun i).mpr hle)) h.turn
    intro path hpath
    rw [← h.others path hpath]
    exact hkept path (hpath i hi)

theorem Creating.create
    (h : Creating creatable dir filename p downloads files s n)
    (hn : n < p.count)
    (hfits : (dir.path ++ tempName filename (decimal n)).length <
      FILE_NAME_LEN) :
    Creating creatable dir filename p downloads files
      ((s.setThread n s.files
        (if p.needs n (curLength (tempsIn dir filename s.files n)) then
          PieceThread.started
        else PieceThread.skipped)).setMain s.files
          (MainThread.creating (n + 1))) (n + 1) := by
  have hwaiting := (h.begun n).mpr (Nat.le_refl n)
  have hfound : tempsIn dir filename s.files n =
      tempsIn dir filename files n := by
    have hstands := h.pieces n
    rw [hwaiting] at hstands
    exact hstands
  constructor
  · exact hn
  · intro i
    unfold DownloadState.setMain DownloadState.setThread
    dsimp only
    cases Classical.em (i = n) with
    | inl hi =>
        rw [hi, Function.update_self]
        apply iff_of_false
        · split
          · intro heq
            cases heq
          · intro heq
            cases heq
        · exact Nat.not_succ_le_self n
    | inr hi =>
        rw [Function.update_of_ne hi, h.begun i]
        omega
  · intro i hi
    rcases Nat.lt_succ_iff_lt_or_eq.mp hi with hlt | heq
    · exact h.fits i hlt
    · rw [heq]
      exact hfits
  · intro i
    unfold DownloadState.setMain DownloadState.setThread
    dsimp only
    cases Classical.em (i = n) with
    | inl hi =>
        rw [hi, Function.update_self, hfound]
        split
        · next hneeds => exact ⟨hneeds, rfl⟩
        · next hneeds => exact ⟨eq_false_of_ne_true hneeds, rfl⟩
    | inr hi =>
        rw [Function.update_of_ne hi]
        exact h.pieces i
  · exact h.others

theorem Creating.fetchFiles_eq
    (h : Creating creatable dir filename p downloads files s p.count)
    (hfinished : forall j, j < p.count ->
      s.threads j = PieceThread.finished) :
    fetchFiles creatable dir filename p downloads files p.count =
      some s.files := by
  apply fetchFiles_eq_some_iff.mpr
  refine ⟨?_, h.others⟩
  intro i hi
  rw [← hfinished i hi]
  exact ⟨h.fits i hi, h.pieces i⟩

theorem Creating.openFile
    (h : Creating creatable dir filename p downloads files s p.count)
    (hfinished : forall j, j < p.count ->
      s.threads j = PieceThread.finished)
    (hfits : dir.path.length + filename.bytes.length < FILE_NAME_LEN)
    (hopen : canOpen creatable s.files (dir.path ++ filename.bytes) = true) :
    Joining creatable dir filename p downloads files
      (s.setMain (Function.update s.files (dir.path ++ filename.bytes)
        (some [])) (MainThread.joining 0 [])) 0 [] where
  turn := Nat.zero_le p.count
  stopped := by
    intro j
    change (s.threads j).running = false
    cases Nat.lt_or_ge j p.count with
    | inl hlt =>
        rw [hfinished j hlt]
        rfl
    | inr hge =>
        rw [(h.begun j).mpr hge]
        rfl
  gone := fun j hj => absurd hj (Nat.not_lt_zero j)
  pieces := by
    intro j _
    unfold DownloadState.setMain tempsIn
    dsimp only
    rw [Function.update_of_ne temp_ne_file]
    exact h.pieces j
  fits := hfits
  file := ⟨[], Function.update_self _ _ _⟩
  result := by
    have hemptied : (Function.update s.files (dir.path ++ filename.bytes)
        (some [])) (dir.path ++ filename.bytes) = some [] :=
      Function.update_self _ _ _
    unfold downloadFiles DownloadState.setMain
    dsimp only
    rw [h.fetchFiles_eq hfinished, Option.bind_some,
      filePath_eq_some.mpr ⟨rfl, hfits⟩, Option.bind_some, if_pos hopen,
      appendTo_nil hemptied, Nat.sub_zero]

theorem Joining.join {i : Nat} {pending buffer : List UInt8}
    (h : Joining creatable dir filename p downloads files s i pending)
    (hi : i < p.count)
    (hfits : (dir.path ++ tempName filename (decimal i)).length <
      FILE_NAME_LEN)
    (hread : readBack (tempsIn dir filename s.files i) = some buffer) :
    Joining creatable dir filename p downloads files
      (s.setMain (Function.update s.files
        (dir.path ++ tempName filename (decimal i)) none)
          (MainThread.joining (i + 1) (pending ++ buffer))) (i + 1)
            (pending ++ buffer) where
  turn := hi
  stopped := h.stopped
  gone := by
    intro j hj
    unfold DownloadState.setMain tempsIn
    dsimp only
    cases Classical.em (j = i) with
    | inl heq => rw [heq, Function.update_self]
    | inr hne =>
        rw [Function.update_of_ne (temp_ne_temp hne)]
        exact h.gone j (by omega)
  pieces := by
    intro j hj
    unfold DownloadState.setMain tempsIn
    dsimp only
    rw [Function.update_of_ne (temp_ne_temp (by omega))]
    exact h.pieces j (Nat.le_of_succ_le hj)
  fits := h.fits
  file := by
    rcases h.file with ⟨written, hwritten⟩
    refine ⟨written, ?_⟩
    unfold DownloadState.setMain
    dsimp only
    rw [Function.update_of_ne temp_ne_file.symm]
    exact hwritten
  result := by
    have hleft : p.count - i = (p.count - (i + 1)) + 1 := by omega
    have hsame : appendTo s.files (dir.path ++ filename.bytes) pending
        (dir.path ++ tempName filename (decimal i)) =
          tempsIn dir filename s.files i :=
      appendTo_of_ne pending temp_ne_file
    rw [← h.result, hleft, joinFiles, tempPath_eq_some.mpr ⟨rfl, hfits⟩,
      Option.bind_some, hsame, hread, Option.bind_some,
      appendTo_update pending none temp_ne_file, appendTo_appendTo]
    rfl

theorem Joining.write {i k : Nat} {pending : List UInt8}
    (h : Joining creatable dir filename p downloads files s i pending) :
    Joining creatable dir filename p downloads files
      (s.setMain (appendTo s.files (dir.path ++ filename.bytes)
        (pending.take k)) (MainThread.joining i (pending.drop k))) i
          (pending.drop k) where
  turn := h.turn
  stopped := h.stopped
  gone := by
    intro j hj
    unfold DownloadState.setMain tempsIn
    dsimp only
    rw [appendTo_of_ne _ temp_ne_file]
    exact h.gone j hj
  pieces := by
    intro j hj
    unfold DownloadState.setMain tempsIn
    dsimp only
    rw [appendTo_of_ne _ temp_ne_file]
    exact h.pieces j hj
  fits := h.fits
  file := ⟨_, appendTo_self _ _ _⟩
  result := by
    rw [← h.result]
    unfold DownloadState.setMain
    dsimp only
    rw [appendTo_appendTo, List.take_append_drop]

theorem Joining.close
    (h : Joining creatable dir filename p downloads files s p.count []) :
    Ended creatable dir filename p downloads files
      (s.setMain s.files MainThread.ended) where
  stopped := h.stopped
  gone := h.gone
  pieces := h.pieces
  result := by
    rcases h.file with ⟨written, hwritten⟩
    rw [← h.result, Nat.sub_self, joinFiles, appendTo_nil hwritten]
    rfl

theorem Creating.toInvariant
    (h : Creating creatable dir filename p downloads files s n)
    (hmain : s.main = MainThread.creating n) :
    DownloadInvariant creatable dir filename p downloads files s := by
  unfold DownloadInvariant
  rw [hmain]
  exact h

theorem DownloadInvariant.creating
    (h : DownloadInvariant creatable dir filename p downloads files s)
    (hmain : s.main = MainThread.creating n) :
    Creating creatable dir filename p downloads files s n := by
  unfold DownloadInvariant at h
  rw [hmain] at h
  exact h

theorem DownloadInvariant.joining {i : Nat} {pending : List UInt8}
    (h : DownloadInvariant creatable dir filename p downloads files s)
    (hmain : s.main = MainThread.joining i pending) :
    Joining creatable dir filename p downloads files s i pending := by
  unfold DownloadInvariant at h
  rw [hmain] at h
  exact h

theorem DownloadInvariant.creating_of_running {i : Nat}
    (h : DownloadInvariant creatable dir filename p downloads files s)
    (hrunning : (s.threads i).running = true) :
    exists n, s.main = MainThread.creating n ∧
      Creating creatable dir filename p downloads files s n := by
  unfold DownloadInvariant at h
  cases hmain : s.main with
  | creating n =>
      rw [hmain] at h
      exact ⟨n, rfl, h⟩
  | joining j pending =>
      rw [hmain] at h
      have hstopped := h.stopped i
      rw [hrunning] at hstopped
      cases hstopped
  | ended =>
      rw [hmain] at h
      have hstopped := h.stopped i
      rw [hrunning] at hstopped
      cases hstopped

theorem ne_waiting_of_running {t : PieceThread} (h : t.running = true) :
    t ≠ PieceThread.waiting := by
  intro heq
  rw [heq] at h
  cases h

theorem DownloadInvariant.setThread {i : Nat} {t : PieceThread}
    (h : DownloadInvariant creatable dir filename p downloads files s)
    (hrunning : (s.threads i).running = true) (ht : t ≠ PieceThread.waiting)
    (hstands : Stands creatable dir filename p downloads files i
        (tempsIn dir filename s.files i) (s.threads i) ->
      Stands creatable dir filename p downloads files i
        (tempsIn dir filename files' i) t)
    (hkept : forall path, path ≠ dir.path ++ tempName filename (decimal i) ->
      files' path = s.files path) :
    DownloadInvariant creatable dir filename p downloads files
      (s.setThread i files' t) := by
  rcases h.creating_of_running hrunning with ⟨n, hmain, hcreating⟩
  have hnext := hcreating.setThread (ne_waiting_of_running hrunning) ht
    (hstands (hcreating.pieces i)) hkept
  exact hnext.toInvariant hmain

theorem downloadInvariant_step
    (h : DownloadInvariant creatable dir filename p downloads files s)
    (hstep : downloadStep creatable dir filename p downloads s a = some s') :
    DownloadInvariant creatable dir filename p downloads files s' := by
  cases downloadStep_change hstep with
  | created hmain hi hfits =>
      exact ((h.creating hmain).create hi hfits).toInvariant rfl
  | @opened i hthread _ hopen =>
      apply h.setThread
      · rw [hthread]
        rfl
      · intro heq
        cases heq
      · intro hstands
        rw [hthread] at hstands
        rcases hstands with ⟨hneeds, hfound⟩
        rw [canOpen_congr hfound] at hopen
        refine ⟨hneeds, hopen, ?_⟩
        rw [← hfound]
        unfold tempsIn
        rw [appendTo_self, List.append_nil]
      · intro path hpath
        exact appendTo_of_ne [] hpath
  | @received i buffer hthread hbuffer =>
      apply h.setThread
      · rw [hthread]
        rfl
      · intro heq
        cases heq
      · intro hstands
        rw [hthread] at hstands
        rcases hstands with ⟨hneeds, hopen, htemp⟩
        refine ⟨hneeds, hopen, [], hbuffer, ?_⟩
        rw [List.append_nil]
        exact htemp
      · intro path _
        rfl
  | @wrote i k rest hthread _ _ _ =>
      apply h.setThread
      · rw [hthread]
        rfl
      · intro heq
        cases heq
      · intro hstands
        rw [hthread] at hstands
        rcases hstands with ⟨hneeds, hopen, written, hbuffer, htemp⟩
        refine ⟨hneeds, hopen, written ++ rest.take k, ?_, ?_⟩
        · rw [List.append_assoc, List.take_append_drop]
          exact hbuffer
        · rw [← List.append_assoc, ← Option.getD_some
            (a := (tempsIn dir filename files i).getD [] ++ written), ← htemp]
          exact appendTo_self _ _ _
      · intro path hpath
        exact appendTo_of_ne _ hpath
  | @closed i hthread =>
      apply h.setThread
      · rw [hthread]
        rfl
      · intro heq
        cases heq
      · intro hstands
        rw [hthread] at hstands
        rcases hstands with ⟨hneeds, hopen, buffer, hbuffer, htemp⟩
        rw [List.append_nil] at hbuffer
        exact ⟨hneeds, hopen, buffer, hbuffer, htemp⟩
      · intro path _
        rfl
  | openedFile hmain hfinished hfits hopen =>
      exact (h.creating hmain).openFile hfinished hfits hopen
  | joined hmain hi hfits hread =>
      exact (h.joining hmain).join hi hfits hread
  | wroteFile hmain _ _ _ => exact (h.joining hmain).write
  | closedFile hmain => exact (h.joining hmain).close

theorem creating_start (files : Files) :
    Creating creatable dir filename p downloads files
      (DownloadState.start files) 0 where
  turn := Nat.zero_le p.count
  begun := fun i => iff_of_true rfl (Nat.zero_le i)
  fits := fun i hi => absurd hi (Nat.not_lt_zero i)
  pieces := fun _ => rfl
  others := fun _ _ => rfl

theorem downloadInvariant_of_reachable
    (h : Reachable (downloadStep creatable dir filename p downloads) unguarded
      (DownloadState.start files) s) :
    DownloadInvariant creatable dir filename p downloads files s := by
  apply h.invariant
  · exact (creating_start files).toInvariant rfl
  · intro s a s' hs _ hstep
    exact downloadInvariant_step hs hstep

theorem DownloadInvariant.temp
    (h : DownloadInvariant creatable dir filename p downloads files s)
    (i : Nat) :
    (s.main.Took p.count i ∧ tempsIn dir filename s.files i = none) ∨
    (¬ s.main.Took p.count i ∧
      Stands creatable dir filename p downloads files i
        (tempsIn dir filename s.files i) (s.threads i)) := by
  unfold DownloadInvariant at h
  cases hmain : s.main with
  | creating n =>
      rw [hmain] at h
      exact Or.inr ⟨id, h.pieces i⟩
  | joining n pending =>
      rw [hmain] at h
      cases Nat.lt_or_ge i n with
      | inl hlt => exact Or.inl ⟨hlt, h.gone i hlt⟩
      | inr hge => exact Or.inr ⟨Nat.not_lt_of_le hge, h.pieces i hge⟩
  | ended =>
      rw [hmain] at h
      cases Nat.lt_or_ge i p.count with
      | inl hlt => exact Or.inl ⟨hlt, h.gone i hlt⟩
      | inr hge => exact Or.inr ⟨Nat.not_lt_of_le hge, h.pieces i hge⟩

end Invariant

end Transfer
end DartSync
