import DartSync.Foundation.SharedStore
import DartSync.Transfer.ThreadOrder

/-!
# Downloads side by side

A peer starts a `ptp_download` thread for each file that a broadcast has newer,
and all of them work in one sync folder.  Downloads of different files do not
disturb each other.
-/

namespace DartSync
namespace Transfer

open Foundation Peer

open scoped BigOperators

structure Job where
  filename : FileName
  plan : Plan
  downloads : Nat -> Option (List UInt8)

abbrev DownloadThreads := MainThread × (Nat -> PieceThread)

def DownloadState.ofStore (x : Files × DownloadThreads) : DownloadState where
  files := x.1
  main := x.2.1
  threads := x.2.2

/-- A download as one of the programs in the sync folder. -/
def downloadProgram (creatable : List UInt8 -> Bool) (dir : SyncDir)
    (job : Job) :
    Program (List UInt8) (Option (List UInt8)) DownloadThreads
      DownloadAction :=
  fun x a =>
    (downloadStep creatable dir job.filename job.plan job.downloads
      (DownloadState.ofStore x) a).map fun s =>
        (s.files, s.main, s.threads)

/-- No thread has been created. -/
def DownloadThreads.start : DownloadThreads :=
  (MainThread.creating 0, fun _ => PieceThread.waiting)

def Owns (dir : SyncDir) (filename : FileName) (path : List UInt8) : Prop :=
  path = dir.path ++ filename.bytes ∨
    exists i, path = dir.path ++ tempName filename (decimal i)

section Places

variable {dir : SyncDir} {filename filename' : FileName}
  {path : List UInt8} {i : Nat}

theorem owns_file : Owns dir filename (dir.path ++ filename.bytes) :=
  Or.inl rfl

theorem owns_temp :
    Owns dir filename (dir.path ++ tempName filename (decimal i)) :=
  Or.inr ⟨i, rfl⟩

theorem underscore_notMem_decimal (i : Nat) : (95 : UInt8) ∉ decimal i := by
  intro h
  rcases List.mem_map.mp h with ⟨c, hc, hunderscore⟩
  have hbounds := digit_bounds
    (Nat.isDigit_of_mem_toDigits (by decide) (by decide) hc)
  have hnat := congrArg UInt8.toNat hunderscore
  change c.val.toUInt8.toNat = 95 at hnat
  rw [UInt32.toNat_toUInt8] at hnat
  omega

theorem eq_of_append_cons {α : Type} {a b d e : List α} {x : α} (hd : x ∉ d)
    (he : x ∉ e) (h : a ++ x :: d = b ++ x :: e) : a = b := by
  induction a generalizing b with
  | nil =>
      cases b with
      | nil => rfl
      | cons y b =>
          rw [List.nil_append, List.cons_append, List.cons.injEq] at h
          apply absurd _ hd
          rw [h.right]
          exact List.mem_append_right b List.mem_cons_self
  | cons z a ih =>
      cases b with
      | nil =>
          rw [List.nil_append, List.cons_append, List.cons.injEq] at h
          apply absurd _ he
          rw [← h.right]
          exact List.mem_append_right a List.mem_cons_self
      | cons y b =>
          rw [List.cons_append, List.cons_append, List.cons.injEq] at h
          rw [h.left, ih h.right]

theorem filename_eq_of_temp {j : Nat}
    (h : tempName filename (decimal i) = tempName filename' (decimal j)) :
    filename.bytes = filename'.bytes := by
  unfold tempName at h
  rw [List.cons_inj_right] at h
  exact eq_of_append_cons (underscore_notMem_decimal i)
    (underscore_notMem_decimal j) h

theorem owns_apart {path : List UInt8}
    (hdiffer : filename.bytes ≠ filename'.bytes)
    (hname : forall i, filename.bytes ≠ tempName filename' (decimal i))
    (hname' : forall i, filename'.bytes ≠ tempName filename (decimal i))
    (h : Owns dir filename path) : ¬ Owns dir filename' path := by
  intro h'
  rcases h with hfile | ⟨i, htemp⟩
  · rcases h' with hfile' | ⟨j, htemp'⟩
    · rw [hfile, List.append_cancel_left_eq] at hfile'
      exact hdiffer hfile'
    · rw [hfile, List.append_cancel_left_eq] at htemp'
      exact hname j htemp'
  · rcases h' with hfile' | ⟨j, htemp'⟩
    · rw [htemp, List.append_cancel_left_eq] at hfile'
      exact hname' i hfile'.symm
    · rw [htemp, List.append_cancel_left_eq] at htemp'
      exact hdiffer (filename_eq_of_temp htemp')

end Places

/-!
## The places of a download
-/

section Local

variable {creatable : List UInt8 -> Bool} {dir : SyncDir}
  {filename : FileName} {p : Plan} {downloads : Nat -> Option (List UInt8)}
  {s s' : DownloadState} {a : DownloadAction} {files : Files}

theorem DownloadChange.keeps
    (h : DownloadChange creatable dir filename p downloads s a s')
    {path : List UInt8} (hpath : ¬ Owns dir filename path) :
    s'.files path = s.files path := by
  have hfile : path ≠ dir.path ++ filename.bytes := fun heq =>
    hpath (Or.inl heq)
  have htemp : forall i, path ≠ dir.path ++ tempName filename (decimal i) :=
    fun i heq => hpath (Or.inr ⟨i, heq⟩)
  cases h with
  | created _ _ _ => rfl
  | opened _ _ _ => exact appendTo_of_ne _ (htemp _)
  | received _ _ => rfl
  | wrote _ _ _ _ => exact appendTo_of_ne _ (htemp _)
  | closed _ => rfl
  | openedFile _ _ _ _ => exact Function.update_of_ne hfile _ _
  | joined _ _ _ _ => exact Function.update_of_ne (htemp _) _ _
  | wroteFile _ _ _ _ => exact appendTo_of_ne _ hfile
  | closedFile _ => rfl

def DownloadState.withFiles (s : DownloadState) (files : Files) :
    DownloadState :=
  { s with files := files }

theorem update_same {files files' : Files} {path other : List UInt8}
    {temp : Option (List UInt8)} (h : files other = files' other) :
    Function.update files path temp other =
      Function.update files' path temp other := by
  cases Classical.em (other = path) with
  | inl heq => rw [heq, Function.update_self, Function.update_self]
  | inr hne =>
      rw [Function.update_of_ne hne, Function.update_of_ne hne]
      exact h

theorem appendTo_same {files files' : Files} {path other bytes : List UInt8}
    (hpath : files path = files' path) (h : files other = files' other) :
    appendTo files path bytes other = appendTo files' path bytes other := by
  unfold appendTo
  rw [hpath]
  exact update_same h

theorem DownloadChange.agrees
    (h : DownloadChange creatable dir filename p downloads s a s')
    (hsame : forall path, Owns dir filename path ->
      files path = s.files path) :
    exists files', DownloadChange creatable dir filename p downloads
        (s.withFiles files) a (s'.withFiles files') ∧
      forall path, Owns dir filename path -> files' path = s'.files path := by
  have htemp : forall i, tempsIn dir filename files i =
      tempsIn dir filename s.files i := fun i => hsame _ owns_temp
  cases h with
  | @created i hmain hi hfits =>
      refine ⟨files, ?_, hsame⟩
      rw [← htemp i]
      exact DownloadChange.created hmain hi hfits
  | opened hthread hfits hopen =>
      rw [← canOpen_congr (hsame _ owns_temp)] at hopen
      refine ⟨_, DownloadChange.opened hthread hfits hopen, ?_⟩
      intro path hpath
      exact appendTo_same (hsame _ owns_temp) (hsame path hpath)
  | received hthread hbuffer =>
      exact ⟨files, DownloadChange.received hthread hbuffer, hsame⟩
  | wrote hthread hpos hn hfits =>
      refine ⟨_, DownloadChange.wrote hthread hpos hn hfits, ?_⟩
      intro path hpath
      exact appendTo_same (hsame _ owns_temp) (hsame path hpath)
  | closed hthread =>
      exact ⟨files, DownloadChange.closed hthread, hsame⟩
  | openedFile hmain hfinished hfits hopen =>
      rw [← canOpen_congr (hsame _ owns_file)] at hopen
      refine ⟨_, DownloadChange.openedFile hmain hfinished hfits hopen, ?_⟩
      intro path hpath
      exact update_same (hsame path hpath)
  | @joined i _ _ hmain hi hfits hread =>
      rw [← htemp i] at hread
      refine ⟨_, DownloadChange.joined hmain hi hfits hread, ?_⟩
      intro path hpath
      exact update_same (hsame path hpath)
  | wroteFile hmain hpos hn hfits =>
      refine ⟨_, DownloadChange.wroteFile hmain hpos hn hfits, ?_⟩
      intro path hpath
      exact appendTo_same (hsame _ owns_file) (hsame path hpath)
  | closedFile hmain =>
      exact ⟨files, DownloadChange.closedFile hmain, hsame⟩

end Local

section Jobs

variable {creatable : List UInt8 -> Bool} {dir : SyncDir} {job : Job}
  {files : Files} {x x' : Files × DownloadThreads} {a : DownloadAction}

theorem downloadProgram_eq_some
    (h : downloadProgram creatable dir job x a = some x') :
    downloadStep creatable dir job.filename job.plan job.downloads
      (DownloadState.ofStore x) a = some (DownloadState.ofStore x') := by
  rcases Option.map_eq_some_iff.mp h with ⟨s, hs, rfl⟩
  exact hs

theorem downloadProgram_worksOn (job : Job) :
    WorksOn (Owns dir job.filename)
      (downloadProgram creatable dir job) where
  keeps := by
    intro m m' l l' a h path hpath
    exact (downloadStep_change (downloadProgram_eq_some h)).keeps hpath
  agrees := by
    intro m m' l l' a n h hsame
    rcases (downloadStep_change (downloadProgram_eq_some h)).agrees hsame with
      ⟨n', hchange, hsame'⟩
    refine ⟨n', ?_, hsame'⟩
    have hstep := downloadStep_of_change hchange
    exact Option.map_eq_some_iff.mpr ⟨_, hstep, rfl⟩

theorem reachable_ofStore
    (h : Reachable (downloadProgram creatable dir job) unguarded
      (files, DownloadThreads.start) x) :
    Reachable (downloadStep creatable dir job.filename job.plan job.downloads)
      unguarded (DownloadState.start files) (DownloadState.ofStore x) := by
  induction h with
  | start => exact Reachable.start
  | step _ _ hstep ih =>
      exact Reachable.step ih trivial (downloadProgram_eq_some hstep)

end Jobs

/-!
## All downloads
-/

/-- Different files, none of which is named as a temporary file of another. -/
structure Apart {κ : Type} (job : κ -> Job) : Prop where
  names : forall k k', (job k).filename.bytes = (job k').filename.bytes ->
    k = k'
  temps : forall k k' i, (job k).filename.bytes ≠
    tempName (job k').filename (decimal i)

section SideBySide

variable {κ : Type} [DecidableEq κ] {creatable : List UInt8 -> Bool}
  {dir : SyncDir} {job : κ -> Job} {files : Files}
  {x : Files × (κ -> DownloadThreads)}

omit [DecidableEq κ] in
theorem Apart.owner {k k' : κ} (h : Apart job) {path : List UInt8}
    (hk : Owns dir (job k).filename path)
    (hk' : Owns dir (job k').filename path) : k = k' := by
  cases Classical.em (k = k') with
  | inl heq => exact heq
  | inr hne =>
      exact absurd hk' (owns_apart (fun heq => hne (h.names k k' heq))
        (h.temps k k') (h.temps k' k) hk)

theorem exists_alone (hapart : Apart job)
    (h : Reachable (sideBySide fun k =>
        downloadProgram creatable dir (job k)) unguarded
      (files, fun _ => DownloadThreads.start) x) (k : κ) :
    exists t, Reachable (downloadStep creatable dir (job k).filename
        (job k).plan (job k).downloads) unguarded
          (DownloadState.start files) (DownloadState.ofStore t) ∧
      Alike (fun k => Owns dir (job k).filename) x k t := by
  rcases exists_alike (fun k => downloadProgram_worksOn (job k))
    (fun j k i hj hk => hapart.owner hj hk) h k with ⟨t, ht, halike⟩
  exact ⟨t, reachable_ofStore ht, halike⟩

theorem stepsLeft_sideBySide [Fintype κ] (hapart : Apart job)
    {x' : Files × (κ -> DownloadThreads)} {a : κ × DownloadAction}
    (h : Reachable (sideBySide fun k =>
        downloadProgram creatable dir (job k)) unguarded
      (files, fun _ => DownloadThreads.start) x)
    (hstep : sideBySide (fun k => downloadProgram creatable dir (job k)) x a =
      some x') :
    ∑ k, stepsLeft (job k).plan.count
        (DownloadState.ofStore (files, x'.2 k)) <
      ∑ k, stepsLeft (job k).plan.count
        (DownloadState.ofStore (files, x.2 k)) := by
  rcases exists_alone hapart h a.1 with ⟨t, hreach, halike⟩
  rcases halike.own (downloadProgram_worksOn (job a.1)) hstep with
    ⟨t', ht', halike'⟩
  have hless := stepsLeft_step (downloadInvariant_of_reachable hreach)
    (downloadProgram_eq_some ht')
  apply sum_lt_of_sideBySide (fun k threads =>
    stepsLeft (job k).plan.count (DownloadState.ofStore (files, threads)))
    hstep
  rw [← halike.state, ← halike'.state]
  exact hless

end SideBySide

def Sample.letterJob (b : Bool) : Job where
  filename := if b then Sample.fileB else Sample.fileA
  plan := plan 1 1
  downloads := fun _ => some [if b then 98 else 97]

theorem Sample.letters_apart : Apart Sample.letterJob where
  names := by decide
  temps := by
    intro b b' i heq
    have hlength := congrArg List.length heq
    have hone : (Sample.letterJob b).filename.bytes.length = 1 := by
      cases b <;> rfl
    unfold tempName at hlength
    rw [hone, List.length_cons, List.length_append, List.length_cons] at hlength
    omega

end Transfer
end DartSync
