import DartSync.Transfer.PeerDownload
import DartSync.Transfer.PieceThreads

/-!
# Interrupted downloads

The process of a peer can end at any point of a download: a connection that
fails in one of the `piece_download` threads ends it with all the others.  What
the next run of `ptp_download` for the same file makes of the temporary files.
-/

namespace DartSync
namespace Transfer

open Foundation Peer

def DownloadState.Begun (count : Nat) (downloads : Nat -> Option (List UInt8))
    (s : DownloadState) (i : Nat) : Prop :=
  ¬ s.main.Took count i ∧ exists written rest,
    downloads i = some (written ++ rest) ∧ written ≠ [] ∧
      (s.threads i = PieceThread.writing rest ∨
        (s.threads i = PieceThread.finished ∧ rest = []))

def Restartable (p : Plan) (temps : Temps) : Prop :=
  forall i bytes, temps i = some bytes -> i < p.count ∧ bytes = []

/-- A file that the plan divides among the sources, at paths that can be used. -/
structure Dividable (creatable : List UInt8 -> Bool) (dir : SyncDir)
    (filename : FileName) (sources : Nat) (content : List UInt8) :
    Prop where
  one_le : 1 ≤ sources
  sources_le : sources ≤ MAX_PEER_NUM
  nonempty : 1 ≤ content.length
  short : content.length < 2 ^ 31
  divides : sources = 1 ∨ (2 ≤ content.length ∧ sources - 1 ≤ content.length)
  place : Placeable creatable dir filename (plan sources content.length).count

section Temps

variable {creatable : List UInt8 -> Bool} {dir : SyncDir}
  {filename : FileName} {sources : Nat} {content : List UInt8}
  {temps : Temps} {i : Nat}

theorem lt_count_of_needs {p : Plan} {c : Int} (h : p.needs i c = true) :
    i < p.count := by
  rw [needs_iff] at h
  unfold Plan.count
  omega

namespace Dividable

variable (h : Dividable creatable dir filename sources content)

include h

theorem few : sources < 2 ^ 31 :=
  Nat.lt_of_le_of_lt h.sources_le (by decide)

theorem not_two : ¬ (sources = 2 ∧ content.length = 1) := by
  have hdivides := h.divides
  omega

theorem width_pos : 0 < pieceWidth sources content.length := by
  have hdivides := h.divides
  rw [pieceWidth_pos_iff h.one_le h.nonempty]
  omega

theorem delivered_eq (hi : i < (plan sources content.length).count) :
    (plan sources content.length).delivered content i =
      piece sources content i := by
  have hwidth := pieceWidth_lt h.one_le h.short
  rw [count_plan h.one_le h.few hwidth] at hi
  exact delivered_plan h.one_le h.few hwidth h.nonempty
    (Nat.lt_trans h.short (by decide)) h.not_two hi

theorem delivered_ne_nil (hi : i < (plan sources content.length).count) :
    (plan sources content.length).delivered content i ≠ [] := by
  rw [h.delivered_eq hi]
  rw [count_plan h.one_le h.few (pieceWidth_lt h.one_le h.short)] at hi
  apply List.ne_nil_of_length_pos
  rw [length_piece h.one_le h.nonempty h.not_two hi]
  have hpos := h.width_pos
  unfold pieceLength
  split
  · next hrest => exact hrest.left
  · exact hpos

theorem join_delivered :
    (join (plan sources content.length).count fun i =>
      (plan sources content.length).delivered content i) = content := by
  rw [join_congr fun i hi => h.delivered_eq hi,
    count_plan h.one_le h.few (pieceWidth_lt h.one_le h.short)]
  exact join_piece h.one_le

theorem tame (hleft : LeftBy (plan sources content.length) content temps) :
    Tame (plan sources content.length) content temps := by
  have hwidth := pieceWidth_lt h.one_le h.short
  apply tame_plan h.one_le h.few hwidth
  intro i hi hrest
  exact hleft.curLength_nonneg h.one_le h.few h.one_le hwidth hi hrest

theorem curLength_left
    (hleft : LeftBy (plan sources content.length) content temps)
    {bytes : List UInt8} (hbytes : temps i = some bytes) :
    curLength (temps i) = bytes.length := by
  rcases hleft i bytes hbytes with ⟨hi, hpart⟩
  have hsmall := (h.tame hleft).small i hi
  have hlength := hpart.length_le
  rw [hbytes, curLength]
  exact int_of_small (by omega) (by omega)

theorem ready_iff_left
    (hleft : LeftBy (plan sources content.length) content temps)
    (hi : i < (plan sources content.length).count) :
    Ready ((plan sources content.length).delivered content i) (temps i) <->
      forall bytes, temps i = some bytes -> bytes = [] := by
  have hne := h.delivered_ne_nil hi
  cases htemp : temps i with
  | none =>
      apply iff_of_true hne
      intro bytes hbytes
      cases hbytes
  | some left =>
      have hlength := h.curLength_left hleft htemp
      rw [htemp, curLength] at hlength
      rw [Ready]
      constructor
      · intro hready bytes hbytes
        cases hbytes
        rcases hready with ⟨_, hempty, _⟩
        rw [hlength] at hempty
        exact List.length_eq_zero_iff.mp (Int.natCast_eq_zero.mp hempty)
      · intro hready
        rcases hready left rfl with rfl
        exact ⟨hne, rfl, Or.inl rfl⟩

theorem ptpDownload_eq_content_iff
    (hleft : LeftBy (plan sources content.length) content temps) :
    ptpDownload (plan sources content.length) content temps = some content <->
      Restartable (plan sources content.length) temps := by
  have hresumes := (h.tame hleft).resumes_iff_ready h.join_delivered
  constructor
  · intro hrun i bytes hbytes
    have hi := (hleft i bytes hbytes).left
    have hjoins := (ptpDownload_eq_some_iff.mp hrun).left
    have hready := hresumes.mp ⟨hrun, fun i hi =>
      Or.inl (hjoins i hi)⟩ i hi
    exact ⟨hi, (h.ready_iff_left hleft hi).mp hready bytes hbytes⟩
  · intro hrestartable
    apply Resumes.assembled
    apply hresumes.mpr
    intro i hi
    apply (h.ready_iff_left hleft hi).mpr
    intro bytes hbytes
    exact (hrestartable i bytes hbytes).right

end Dividable

end Temps

/-!
## What an ended process leaves
-/

def ReceivesParts (p : Plan) (content : List UInt8)
    (downloads : Nat -> Option (List UInt8)) : Prop :=
  forall i buffer, i < p.count -> downloads i = some buffer ->
    buffer = p.delivered content i

/-- A run that ends the process while no bytes of a piece are left, after which
the files are `files'`. -/
def Interrupted (creatable : List UInt8 -> Bool) (dir : SyncDir)
    (filename : FileName) (p : Plan) (content : List UInt8)
    (files files' : Files) : Prop :=
  exists downloads s, ReceivesParts p content downloads ∧
    Reachable (downloadStep creatable dir filename p downloads) unguarded
      (DownloadState.start files) s ∧
    (forall i, i < p.count -> ¬ s.Begun p.count downloads i) ∧
    s.files = files'

section Left

variable {creatable : List UInt8 -> Bool} {dir : SyncDir}
  {filename : FileName} {p : Plan} {sources : Nat} {content : List UInt8}
  {downloads : Nat -> Option (List UInt8)} {files : Files}
  {s : DownloadState} {i : Nat}

theorem Restartable.getD_eq {temps : Temps} (h : Restartable p temps) :
    (temps i).getD [] = [] := by
  cases htemp : temps i with
  | none => rfl
  | some bytes => exact (h i bytes htemp).right

theorem not_begun_of_unwritten
    (hwriting : forall rest, s.threads i ≠ PieceThread.writing rest)
    (hfinished : s.threads i ≠ PieceThread.finished) :
    ¬ s.Begun p.count downloads i := by
  intro hbegun
  rcases hbegun with ⟨_, written, rest, _, _, hthread⟩
  cases hthread with
  | inl hthread => exact hwriting rest hthread
  | inr hthread => exact hfinished hthread.left

theorem begun_iff (htook : ¬ s.main.Took p.count i)
    {written rest : List UInt8}
    (hbuffer : downloads i = some (written ++ rest))
    (hthread : s.threads i = PieceThread.writing rest ∨
      (s.threads i = PieceThread.finished ∧ rest = [])) :
    s.Begun p.count downloads i <-> written ≠ [] := by
  constructor
  · intro hbegun hnil
    rcases hbegun with ⟨_, written', rest', hbuffer', hsome, hthread'⟩
    have hrest : rest' = rest := by
      cases hthread with
      | inl hthread =>
          rw [hthread] at hthread'
          cases hthread' with
          | inl hsame => exact (PieceThread.writing.inj hsame).symm
          | inr hother => cases hother.left
      | inr hthread =>
          rw [hthread.left] at hthread'
          cases hthread' with
          | inl hother => cases hother
          | inr hsame => rw [hsame.right, hthread.right]
    rw [hbuffer, Option.some_inj, hrest, List.append_cancel_right_eq]
      at hbuffer'
    exact hsome (hbuffer'.symm.trans hnil)
  · intro hsome
    exact ⟨htook, written, rest, hbuffer, hsome, hthread⟩

theorem left_of_stands (hparts : ReceivesParts p content downloads)
    (hclean : Restartable p (tempsIn dir filename files))
    (htook : ¬ s.main.Took p.count i)
    (hstands : Stands creatable dir filename p downloads files i
      (tempsIn dir filename s.files i) (s.threads i))
    {bytes : List UInt8} (hbytes : tempsIn dir filename s.files i = some bytes) :
    i < p.count ∧ bytes <+: p.delivered content i ∧
      (bytes = [] <-> ¬ s.Begun p.count downloads i) := by
  -- without a byte written, the file is as empty as it was found
  have hunwritten : i < p.count ∧ bytes = [] ->
      ¬ s.Begun p.count downloads i ->
      i < p.count ∧ bytes <+: p.delivered content i ∧
        (bytes = [] <-> ¬ s.Begun p.count downloads i) := by
    intro hempty hbegun
    rw [hempty.right]
    exact ⟨hempty.left, List.nil_prefix, iff_of_true rfl hbegun⟩
  have hfound : tempsIn dir filename s.files i = tempsIn dir filename files i ->
      i < p.count ∧ bytes = [] :=
    fun hkept => hclean i bytes (hkept.symm.trans hbytes)
  -- with bytes written, they are the start of the piece
  have hwritten : forall written rest, downloads i = some (written ++ rest) ->
      (s.threads i = PieceThread.writing rest ∨
        (s.threads i = PieceThread.finished ∧ rest = [])) ->
      i < p.count -> bytes = written ->
      i < p.count ∧ bytes <+: p.delivered content i ∧
        (bytes = [] <-> ¬ s.Begun p.count downloads i) := by
    intro written rest hbuffer hthread hi heq
    rw [heq, ← hparts i _ hi hbuffer, begun_iff htook hbuffer hthread, not_not]
    exact ⟨hi, List.prefix_append _ _, Iff.rfl⟩
  cases hthread : s.threads i with
  | waiting =>
      rw [hthread] at hstands
      apply hunwritten (hfound hstands)
      apply not_begun_of_unwritten <;> simp [hthread]
  | skipped =>
      rw [hthread] at hstands
      apply hunwritten (hfound hstands.right)
      apply not_begun_of_unwritten <;> simp [hthread]
  | started =>
      rw [hthread] at hstands
      apply hunwritten (hfound hstands.right)
      apply not_begun_of_unwritten <;> simp [hthread]
  | opened =>
      rw [hthread] at hstands
      rcases hstands with ⟨hneeds, _, htemp⟩
      rw [hbytes, hclean.getD_eq, Option.some_inj] at htemp
      apply hunwritten ⟨lt_count_of_needs hneeds, htemp⟩
      apply not_begun_of_unwritten <;> simp [hthread]
  | writing rest =>
      rw [hthread] at hstands
      rcases hstands with ⟨hneeds, _, written, hbuffer, htemp⟩
      rw [hbytes, hclean.getD_eq, List.nil_append, Option.some_inj] at htemp
      exact hwritten written rest hbuffer (Or.inl hthread)
        (lt_count_of_needs hneeds) htemp
  | finished =>
      rw [hthread] at hstands
      rcases hstands with ⟨hneeds, _, buffer, hbuffer, htemp⟩
      rw [hbytes, hclean.getD_eq, List.nil_append, Option.some_inj] at htemp
      rw [← List.append_nil buffer] at hbuffer
      exact hwritten buffer [] hbuffer (Or.inr ⟨hthread, rfl⟩)
        (lt_count_of_needs hneeds) htemp

/-- A process that ends leaves of each piece a part from its start on, and the
next run can go on with it exactly if no bytes of a piece are left. -/
theorem left_of_reachable (hparts : ReceivesParts p content downloads)
    (hclean : Restartable p (tempsIn dir filename files))
    (hreach : Reachable (downloadStep creatable dir filename p downloads)
      unguarded (DownloadState.start files) s) :
    LeftBy p content (tempsIn dir filename s.files) ∧
      (Restartable p (tempsIn dir filename s.files) <->
        forall i, i < p.count -> ¬ s.Begun p.count downloads i) := by
  have hinvariant := downloadInvariant_of_reachable hreach
  have hleft : forall i bytes,
      tempsIn dir filename s.files i = some bytes ->
        i < p.count ∧ bytes <+: p.delivered content i ∧
          (bytes = [] <-> ¬ s.Begun p.count downloads i) := by
    intro i bytes hbytes
    rcases hinvariant.temp i with ⟨_, hgone⟩ | ⟨htook, hstands⟩
    · rw [hbytes] at hgone
      cases hgone
    · exact left_of_stands hparts hclean htook hstands hbytes
  constructor
  · intro i bytes hbytes
    rcases hleft i bytes hbytes with ⟨hi, hpart, _⟩
    exact ⟨hi, hpart⟩
  · constructor
    · intro hrestartable i hi hbegun
      -- a piece that has bytes has a file
      cases htemp : tempsIn dir filename s.files i with
      | some bytes =>
          exact (hleft i bytes htemp).right.right.mp
            (hrestartable i bytes htemp).right hbegun
      | none =>
          rcases hbegun with ⟨hkept, written, rest, _, _, hthread⟩
          rcases hinvariant.temp i with ⟨htook, _⟩ | ⟨_, hstands⟩
          · exact hkept htook
          · cases hthread with
            | inl hthread =>
                rw [hthread, htemp] at hstands
                rcases hstands with ⟨_, _, _, _, hsome⟩
                cases hsome
            | inr hthread =>
                rw [hthread.left, htemp] at hstands
                rcases hstands with ⟨_, _, _, _, hsome⟩
                cases hsome
    · intro hnot i bytes hbytes
      rcases hleft i bytes hbytes with ⟨hi, _, hempty⟩
      exact ⟨hi, hempty.mpr (hnot i hi)⟩

theorem restartable_of_interrupted {files' : Files}
    (hclean : Restartable p (tempsIn dir filename files))
    (hruns : Relation.ReflTransGen (Interrupted creatable dir filename p
      content) files files') :
    Restartable p (tempsIn dir filename files') := by
  induction hruns with
  | refl => exact hclean
  | tail _ hrun ih =>
      rcases hrun with ⟨downloads, s, hparts, hreach, hnot, hfiles⟩
      rw [← hfiles]
      exact (left_of_reachable hparts ih hreach).right.mpr hnot

end Left

theorem Sample.dividable_three :
    Dividable (fun _ => true) Sample.sharedDir Sample.fileA 2 [1, 2, 3] where
  one_le := by decide
  sources_le := by decide
  nonempty := by decide
  short := by decide
  divides := Or.inr ⟨by decide, by decide⟩
  place :=
    { file := by decide
      temp := by
        intro i hi
        change i < 2 at hi
        cases i with
        | zero => decide
        | succ i =>
            rw [Nat.lt_one_iff.mp (Nat.lt_of_succ_lt_succ hi)]
            decide
      openFile := rfl
      openTemp := fun _ _ => rfl }

end Transfer
end DartSync
