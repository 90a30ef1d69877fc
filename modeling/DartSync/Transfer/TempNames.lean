import DartSync.Peer.Monitor
import DartSync.Transfer.Requests
import DartSync.Transfer.ResumeCount

/-!
# The names of the temporary files

The path that `ptp_download` and `piece_download` of `peer/peer.c` compose for a
piece, the folder that it needs, and what `notify` of `peer/monitor.c` makes of
it.
-/

namespace DartSync
namespace Transfer

open Foundation Peer

/-- A file that the monitor can come upon, at any depth of the sync folder. -/
structure TrackedFile where
  name : FileName
  proper : forall c, c ∈ Paths.components name.bytes -> Paths.Proper c

/-- `sprintf(fname, "%s.%s_%d", ...)` with the sync folder, the file name and
the piece; `none` if the array is too short. -/
def tempPath (dir : SyncDir) (filename : FileName) (i : Nat) :
    Option (List UInt8) :=
  let path := dir.path ++ tempName filename (decimal i)
  if path.length < FILE_NAME_LEN then some path else none

def parent (path : List UInt8) : List (List UInt8) :=
  (Paths.place path).tail

/-- The temporary file of a piece can be made wherever the file can be, and the
monitor takes no notice of it. -/
structure TempUsable (dir : SyncDir) (filename : FileName) (i : Nat) :
    Prop where
  creatable : exists path, tempPath dir filename i = some path ∧
    forall folders, Paths.ParentClosed folders ->
      folders (parent (dir.path ++ filename.bytes)) -> folders (parent path)
  ignored : forall (kind : EventKind) (name : FileName),
    name.bytes = tempName filename (decimal i) ->
      passesFilter { kind := kind, name := name } = false

section Names

variable {dir : SyncDir} {file : TrackedFile} {filename name : FileName}
  {i : Nat}

theorem parent_of_components {path base : List UInt8} {cs : List (List UInt8)}
    (hcomponents : Paths.components path = cs ++ [base])
    (hproper : forall c, c ∈ cs ++ [base] -> Paths.Proper c) :
    parent (dir.path ++ path) = cs.reverse ++ Paths.place dir.path := by
  unfold parent
  rw [place_file_path, hcomponents, Paths.walk_of_proper hproper,
    List.reverse_append]
  rfl

theorem proper_numbered (base digits : List UInt8) :
    Paths.Proper (base ++ 95 :: digits) := by
  have hmem : (95 : UInt8) ∈ base ++ 95 :: digits := by simp
  refine ⟨?_, ?_, ?_⟩
  all_goals
    intro h
    rw [h] at hmem
    revert hmem
    decide

theorem proper_dotted {c : List UInt8} (h : Paths.Proper c) :
    Paths.Proper (46 :: c) := by
  rcases h with ⟨hempty, hdot, _⟩
  refine ⟨List.cons_ne_nil _ _, ?_, ?_⟩
  · intro heq
    cases heq
    exact hempty rfl
  · intro heq
    cases heq
    exact hdot rfl

theorem slash_notMem_tempName (h : (47 : UInt8) ∉ filename.bytes) :
    (47 : UInt8) ∉ tempName filename (decimal i) := by
  unfold tempName
  simp [h, slash_notMem_decimal i]

theorem parent_temp_of_no_slash (h : (47 : UInt8) ∉ file.name.bytes) :
    parent (dir.path ++ tempName file.name (decimal i)) =
      parent (dir.path ++ file.name.bytes) := by
  have hfile := Paths.components_of_no_slash h
  have htemp := Paths.components_of_no_slash (slash_notMem_tempName (i := i) h)
  have hproper := file.proper
  rw [hfile] at hproper
  rw [@parent_of_components dir _ _ [] hfile hproper]
  apply @parent_of_components dir _ _ [] htemp
  intro c hc
  rw [List.nil_append, List.mem_singleton] at hc
  rw [hc]
  exact proper_numbered (46 :: file.name.bytes) (decimal i)

theorem slash_notMem_numbered {base : List UInt8} (h : (47 : UInt8) ∉ base) :
    (47 : UInt8) ∉ base ++ 95 :: decimal i := by
  simp [h, slash_notMem_decimal i]

theorem tempName_of_slash {front base : List UInt8}
    (hname : filename.bytes = front ++ 47 :: base) (digits : List UInt8) :
    tempName filename digits =
      (46 :: front) ++ 47 :: (base ++ 95 :: digits) := by
  unfold tempName
  rw [hname]
  simp

theorem components_temp_of_slash {front base c : List UInt8}
    {cs : List (List UInt8)} (hname : filename.bytes = front ++ 47 :: base)
    (hbase : (47 : UInt8) ∉ base)
    (hfront : Paths.components front = c :: cs) :
    Paths.components filename.bytes = (c :: cs) ++ [base] ∧
      Paths.components (tempName filename (decimal i)) =
        ((46 :: c) :: cs) ++ [base ++ 95 :: decimal i] := by
  constructor
  · rw [hname, Paths.components_append_slash, hfront,
      Paths.components_of_no_slash hbase]
  · rw [tempName_of_slash hname, Paths.components_append_slash,
      Paths.components_cons (by decide) hfront,
      Paths.components_of_no_slash (slash_notMem_numbered hbase)]

theorem parent_temp_of_slash (h : (47 : UInt8) ∈ file.name.bytes) :
    exists c cs, parent (dir.path ++ file.name.bytes) =
        (c :: cs).reverse ++ Paths.place dir.path ∧
      parent (dir.path ++ tempName file.name (decimal i)) =
        ((46 :: c) :: cs).reverse ++ Paths.place dir.path := by
  rcases Paths.exists_last_slash h with ⟨front, base, hname, hbase⟩
  cases hfront : Paths.components front with
  | nil => exact absurd hfront (Paths.components_ne_nil front)
  | cons c cs =>
      rcases @components_temp_of_slash _ i _ _ _ _ hname hbase hfront with
        ⟨hfile, htemp⟩
      have hproper := file.proper
      rw [hfile] at hproper
      refine ⟨c, cs, parent_of_components hfile hproper,
        parent_of_components htemp ?_⟩
      intro d hd
      rcases List.mem_append.mp hd with hd | hd
      · cases hd with
        | head => exact proper_dotted (hproper c List.mem_cons_self)
        | tail _ hd =>
            exact hproper d (List.mem_cons_of_mem _ (List.mem_append_left _ hd))
      · rw [List.mem_singleton.mp hd]
        exact proper_numbered base (decimal i)

theorem not_creatable_of_slash (h : (47 : UInt8) ∈ file.name.bytes) :
    ¬ forall folders, Paths.ParentClosed folders ->
      folders (parent (dir.path ++ file.name.bytes)) ->
        folders (parent (dir.path ++ tempName file.name (decimal i))) := by
  intro hall
  rcases @parent_temp_of_slash dir file i h with ⟨c, cs, hfile, htemp⟩
  -- The folder of the file, and no more folders than it needs.
  have hsuffix := hall _ (Paths.parentClosed_suffix _) List.suffix_rfl
  rw [hfile, htemp] at hsuffix
  have heq := hsuffix.eq_of_length (by simp)
  have hcons := List.reverse_injective (List.append_cancel_right heq)
  have hlength := congrArg List.length (List.cons.inj hcons).left
  rw [List.length_cons] at hlength
  omega

theorem all_not_slash {base : List UInt8} (h : (47 : UInt8) ∉ base) :
    forall b, b ∈ base.reverse -> decide (b ≠ (47 : UInt8)) = true := by
  intro b hb
  apply decide_eq_true
  intro hslash
  rw [hslash, List.mem_reverse] at hb
  exact h hb

theorem baseName_of_no_slash (h : (47 : UInt8) ∉ name.bytes) :
    baseName name = name.bytes := by
  unfold baseName
  rw [← List.append_nil name.bytes.reverse,
    List.takeWhile_append_of_pos (all_not_slash h), List.takeWhile_nil,
    List.append_nil, List.reverse_reverse]

theorem baseName_of_slash {front base : List UInt8}
    (hname : name.bytes = front ++ 47 :: base) (hbase : (47 : UInt8) ∉ base) :
    baseName name = base := by
  unfold baseName
  rw [hname, List.reverse_append, List.reverse_cons, List.append_assoc,
    List.takeWhile_append_of_pos (all_not_slash hbase), List.singleton_append,
    List.takeWhile_cons_of_neg (by decide), List.append_nil,
    List.reverse_reverse]

theorem ignored_of_no_slash (h : (47 : UInt8) ∉ filename.bytes)
    (kind : EventKind) (hname : name.bytes = tempName filename (decimal i)) :
    passesFilter { kind := kind, name := name } = false := by
  have hbase : baseName name = tempName filename (decimal i) := by
    rw [← hname]
    apply baseName_of_no_slash
    rw [hname]
    exact slash_notMem_tempName h
  unfold passesFilter
  dsimp only
  rw [hbase]
  cases kind <;> simp [tempName]

theorem notifyEvent_temp_of_slash {front base : List UInt8}
    (hsplit : filename.bytes = front ++ 47 :: base)
    (hbase : (47 : UInt8) ∉ base) (hvisible : base.head? ≠ some 46)
    (hname : name.bytes = tempName filename (decimal i)) (hne : base ≠ [])
    (myip : Ip) (now : UInt64) (stat : FileStat) (table : List Node) :
    notifyEvent myip now (some stat)
        { kind := EventKind.create, name := name } table =
      fileAdded myip (getFileInfo name stat) table := by
  have hbaseName : baseName name = base ++ 95 :: decimal i :=
    baseName_of_slash (hname.trans (tempName_of_slash hsplit _))
      (slash_notMem_numbered hbase)
  have hhead : (base ++ 95 :: decimal i).head? ≠ some 46 := by
    cases base with
    | nil => exact absurd rfl hne
    | cons b rest => exact hvisible
  have hprobe : base ++ 95 :: decimal i ≠ [52, 57, 49, 51] := by
    intro h
    have hmem : (95 : UInt8) ∈ base ++ 95 :: decimal i := by simp
    rw [h] at hmem
    revert hmem
    decide
  have hpasses :
      passesFilter { kind := EventKind.create, name := name } = true := by
    unfold passesFilter
    dsimp only
    rw [hbaseName, decide_eq_false hhead, decide_eq_false hprobe]
    rfl
  unfold notifyEvent
  dsimp only
  rw [if_pos hpasses]

theorem notifyEvent_temp (h : TempUsable dir filename i) (kind : EventKind)
    (hname : name.bytes = tempName filename (decimal i)) (myip : Ip)
    (now : UInt64) (stat? : Option FileStat) (table : List Node) :
    notifyEvent myip now stat? { kind := kind, name := name } table =
      (table, false) := by
  unfold notifyEvent
  rw [h.ignored kind name hname]
  rfl

theorem tempPath_eq_some {path : List UInt8} :
    tempPath dir filename i = some path <->
      path = dir.path ++ tempName filename (decimal i) ∧
        path.length < FILE_NAME_LEN := by
  unfold tempPath
  dsimp only
  split
  · next hfits =>
      rw [Option.some.injEq]
      constructor
      · intro h
        exact ⟨h.symm, h ▸ hfits⟩
      · intro h
        exact h.left.symm
  · next hlong =>
      constructor
      · intro h
        cases h
      · intro h
        rw [← h.left] at hlong
        exact absurd h.right hlong

/-- Temporary files are usable for the files directly in the sync folder, if
their paths fit the array. -/
theorem tempUsable_iff :
    TempUsable dir file.name i <->
      (47 : UInt8) ∉ file.name.bytes ∧
        dir.path.length + (file.name.bytes.length +
          (decimal i).length + 2) < FILE_NAME_LEN := by
  have hlength : (dir.path ++ tempName file.name (decimal i)).length =
      dir.path.length + (file.name.bytes.length + (decimal i).length + 2) := by
    unfold tempName
    rw [List.length_append, List.length_cons, List.length_append,
      List.length_cons]
    omega
  rw [← hlength]
  constructor
  · intro h
    rcases h.creatable with ⟨path, hpath, hparent⟩
    rw [tempPath_eq_some] at hpath
    rcases hpath with ⟨rfl, hfits⟩
    refine ⟨?_, hfits⟩
    intro hslash
    exact not_creatable_of_slash hslash hparent
  · intro h
    rcases h with ⟨hslash, hfits⟩
    refine ⟨⟨_, tempPath_eq_some.mpr ⟨rfl, hfits⟩, ?_⟩, ?_⟩
    · intro folders _ hfolder
      rw [parent_temp_of_no_slash hslash]
      exact hfolder
    · intro kind name hname
      exact ignored_of_no_slash hslash kind hname

end Names

namespace Sample

def nestedFile : TrackedFile :=
  { name := ⟨[97, 47, 98], by decide, by decide⟩
    proper := by decide }

end Sample

theorem not_tempUsable_nested :
    ¬ forall (dir : SyncDir) (file : TrackedFile) (i : Nat),
      TempUsable dir file.name i := by
  intro h
  rcases (h Sample.sharedDir Sample.nestedFile 0).creatable with
    ⟨path, hpath, hparent⟩
  rw [tempPath_eq_some] at hpath
  rcases hpath with ⟨rfl, _⟩
  exact not_creatable_of_slash (by decide) hparent

end Transfer
end DartSync
