import DartSync.Foundation.Potential
import DartSync.Transfer.PieceThreads

/-!
# The order of the threads

The threads of a download in every order, compared with the loop that takes one
piece after the other.
-/

namespace DartSync
namespace Transfer

open Foundation Peer

open scoped BigOperators

/-!
## Steps that are left
-/

def MainThread.turnsLeft (count : Nat) : MainThread -> Nat
  | creating i => count - i + count + 2
  | joining i _ => count - i + 1
  | ended => 0

def MainThread.unwritten : MainThread -> Nat
  | joining _ pending => pending.length
  | _ => 0

def PieceThread.callsLeft : PieceThread -> Nat
  | started => 3
  | opened => 2
  | writing _ => 1
  | _ => 0

def PieceThread.unwritten : PieceThread -> Nat
  | writing rest => rest.length
  | _ => 0

/-- The turns of the loops outweigh the calls of the threads, and these the
bytes that are not written. -/
def stepsLeft (count : Nat) (s : DownloadState) : Layers :=
  layers (s.main.turnsLeft count)
    (∑ i : Fin count, (s.threads i).callsLeft)
    (∑ i : Fin count, (s.threads i).unwritten + s.main.unwritten)

section Progress

variable {creatable : List UInt8 -> Bool} {dir : SyncDir}
  {filename : FileName} {p : Plan} {downloads : Nat -> Option (List UInt8)}
  {files files' : Files} {s s' : DownloadState} {a : DownloadAction} {n : Nat}

theorem setThread_sum_lt {count i : Nat} {t : PieceThread}
    {g : PieceThread -> Nat} (hi : i < count)
    (hless : g t < g (s.threads i)) :
    ∑ j : Fin count, g ((s.setThread i files' t).threads j) <
      ∑ j : Fin count, g (s.threads j) := by
  apply sum_lt_of_one ⟨i, hi⟩
  · unfold DownloadState.setThread
    dsimp only
    rw [Function.update_self]
    exact hless
  · intro j hj
    unfold DownloadState.setThread
    dsimp only
    rw [Function.update_of_ne fun heq => hj (Fin.ext heq)]

theorem Creating.lt_count_of_running {i : Nat}
    (h : Creating creatable dir filename p downloads files s n)
    (hrunning : (s.threads i).running = true) : i < p.count :=
  Nat.lt_of_lt_of_le (Nat.lt_of_not_le fun hle =>
    ne_waiting_of_running hrunning ((h.begun i).mpr hle)) h.turn

theorem stepsLeft_call {i : Nat} {t : PieceThread}
    (h : DownloadInvariant creatable dir filename p downloads files s)
    (hrunning : (s.threads i).running = true)
    (hless : t.callsLeft < (s.threads i).callsLeft) :
    stepsLeft p.count (s.setThread i files' t) < stepsLeft p.count s := by
  rcases h.creating_of_running hrunning with ⟨n, _, hcreating⟩
  exact layers_lt_of_second (Nat.le_refl _)
    (setThread_sum_lt (hcreating.lt_count_of_running hrunning) hless)

theorem stepsLeft_step
    (h : DownloadInvariant creatable dir filename p downloads files s)
    (hstep : downloadStep creatable dir filename p downloads s a = some s') :
    stepsLeft p.count s' < stepsLeft p.count s := by
  cases downloadStep_change hstep with
  | @created i hmain hi _ =>
      apply layers_lt_of_first
      rw [hmain]
      change p.count - (i + 1) + p.count + 2 < p.count - i + p.count + 2
      omega
  | opened hthread _ _ =>
      apply stepsLeft_call h
      · rw [hthread]
        rfl
      · rw [hthread]
        exact Nat.lt_succ_self 2
  | received hthread _ =>
      apply stepsLeft_call h
      · rw [hthread]
        rfl
      · rw [hthread]
        exact Nat.lt_succ_self 1
  | @wrote i k rest hthread hpos hk _ =>
      have hrunning : (s.threads i).running = true := by
        rw [hthread]
        rfl
      rcases h.creating_of_running hrunning with ⟨n, _, hcreating⟩
      apply layers_lt_of_third (Nat.le_refl _)
      · apply Nat.le_of_eq
        apply Finset.sum_congr rfl
        intro j _
        unfold DownloadState.setThread
        dsimp only
        cases Classical.em ((j : Nat) = i) with
        | inl hj =>
            rw [hj, Function.update_self, hthread]
            rfl
        | inr hj => rw [Function.update_of_ne hj]
      · apply Nat.add_lt_add_right
        apply setThread_sum_lt (hcreating.lt_count_of_running hrunning)
        rw [hthread]
        change (rest.drop k).length < rest.length
        rw [List.length_drop]
        omega
  | closed hthread =>
      apply stepsLeft_call h
      · rw [hthread]
        rfl
      · rw [hthread]
        exact Nat.lt_succ_self 0
  | openedFile hmain _ _ _ =>
      apply layers_lt_of_first
      rw [hmain]
      change p.count - 0 + 1 < p.count - p.count + p.count + 2
      omega
  | @joined i _ _ hmain hi _ _ =>
      apply layers_lt_of_first
      rw [hmain]
      change p.count - (i + 1) + 1 < p.count - i + 1
      omega
  | @wroteFile i k pending hmain hpos hk _ =>
      apply layers_lt_of_third
      · rw [hmain]
        exact Nat.le_refl _
      · exact Nat.le_refl _
      · apply Nat.add_lt_add_left
        rw [hmain]
        change (pending.drop k).length < pending.length
        rw [List.length_drop]
        omega
  | closedFile hmain =>
      apply layers_lt_of_first
      rw [hmain]
      exact Nat.succ_pos _

/-!
## Steps that are not taken
-/

theorem exists_thread_step {fetched : Files} {i : Nat}
    (h : Creating creatable dir filename p downloads files s p.count)
    (hfetch : fetchFiles creatable dir filename p downloads files p.count =
      some fetched) (hi : i < p.count)
    (hunfinished : s.threads i ≠ PieceThread.finished) :
    exists a s',
      DownloadChange creatable dir filename p downloads s a s' := by
  have hstands := h.pieces i
  rcases (fetchFiles_eq_some_iff.mp hfetch).left i hi with
    ⟨_, hneeded, hopen, buffer, hbuffer, _⟩
  cases hthread : s.threads i with
  | waiting =>
      have hlate := (h.begun i).mp hthread
      omega
  | skipped =>
      rw [hthread] at hstands
      have hskipped := hstands.left
      rw [hneeded] at hskipped
      cases hskipped
  | finished => exact absurd hthread hunfinished
  | started =>
      rw [hthread] at hstands
      rw [← canOpen_congr hstands.right] at hopen
      exact ⟨_, _, DownloadChange.opened hthread (h.fits i hi) hopen⟩
  | opened => exact ⟨_, _, DownloadChange.received hthread hbuffer⟩
  | writing rest =>
      cases rest with
      | nil => exact ⟨_, _, DownloadChange.closed hthread⟩
      | cons b rest =>
          exact ⟨_, _, DownloadChange.wrote hthread Nat.one_pos
            (Nat.succ_le_succ (Nat.zero_le _)) (h.fits i hi)⟩

theorem exists_step_of_result {result : Files}
    (h : DownloadInvariant creatable dir filename p downloads files s)
    (hrun : downloadFiles creatable dir filename p downloads files =
      some result) (hmain : s.main ≠ MainThread.ended) :
    exists a s',
      DownloadChange creatable dir filename p downloads s a s' := by
  rcases Option.bind_eq_some_iff.mp hrun with ⟨fetched, hfetch, hrest⟩
  rcases Option.bind_eq_some_iff.mp hrest with ⟨filepath, hpath, hopen⟩
  rcases filePath_eq_some.mp hpath with ⟨rfl, hfile⟩
  cases hs : s.main with
  | ended => exact absurd hs hmain
  | creating n =>
      have hcreating := h.creating hs
      cases Nat.lt_or_ge n p.count with
      | inl hn =>
          have hfits := ((fetchFiles_eq_some_iff.mp hfetch).left n hn).left
          exact ⟨_, _, DownloadChange.created hs hn hfits⟩
      | inr hge =>
          have hn : n = p.count := Nat.le_antisymm hcreating.turn hge
          rw [hn] at hs hcreating
          cases Classical.em (forall j, j < p.count ->
            s.threads j = PieceThread.finished) with
          | inr hnot =>
              rw [not_forall] at hnot
              rcases hnot with ⟨j, hj⟩
              rw [Classical.not_imp] at hj
              exact exists_thread_step hcreating hfetch hj.left hj.right
          | inl hfinished =>
              have hsame := hcreating.fetchFiles_eq hfinished
              rw [hfetch, Option.some_inj] at hsame
              split at hopen
              · next hcan =>
                  rw [hsame] at hcan
                  exact ⟨_, _,
                    DownloadChange.openedFile hs hfinished hfile hcan⟩
              · cases hopen
  | joining i pending =>
      have hjoining := h.joining hs
      cases Nat.lt_or_ge i p.count with
      | inl hi =>
          have hleft : p.count - i = (p.count - (i + 1)) + 1 := by omega
          have hresult := hjoining.result
          rw [hrun, hleft, joinFiles] at hresult
          rcases Option.bind_eq_some_iff.mp hresult with
            ⟨fname, htemp, hread⟩
          rcases tempPath_eq_some.mp htemp with ⟨rfl, hfits⟩
          rcases Option.bind_eq_some_iff.mp hread with ⟨buffer, hbuffer, _⟩
          rw [appendTo_of_ne pending temp_ne_file] at hbuffer
          exact ⟨_, _, DownloadChange.joined hs hi hfits hbuffer⟩
      | inr hge =>
          have hi : i = p.count := Nat.le_antisymm hjoining.turn hge
          cases pending with
          | nil =>
              rw [hi] at hs
              exact ⟨_, _, DownloadChange.closedFile hs⟩
          | cons b rest =>
              exact ⟨_, _, DownloadChange.wroteFile hs Nat.one_pos
                (Nat.succ_le_succ (Nat.zero_le _)) hfile⟩

/-- A run that has stopped has the files of the loop that takes one piece after
the other, or it is before a call that ends the process, and so is that loop. -/
theorem stuck_result
    (h : DownloadInvariant creatable dir filename p downloads files s)
    (hstuck : forall a,
      downloadStep creatable dir filename p downloads s a = none) :
    downloadFiles creatable dir filename p downloads files =
      if s.main = MainThread.ended then some s.files else none := by
  split
  · next hmain =>
      unfold DownloadInvariant at h
      rw [hmain] at h
      exact h.result
  · next hmain =>
      cases hrun : downloadFiles creatable dir filename p downloads files with
      | none => rfl
      | some result =>
          rcases exists_step_of_result h hrun hmain with ⟨a, s', hchange⟩
          have hstep := downloadStep_of_change hchange
          rw [hstuck a] at hstep
          cases hstep

end Progress

end Transfer
end DartSync
