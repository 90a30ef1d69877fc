import DartSync.Transfer.LargeSizes
import DartSync.Transfer.Partition
import DartSync.Transfer.Resume
import DartSync.Transfer.TempFiles

/-!
# A file downloaded from its peers

`ptp_download` with the peers that it asks: what becomes of the files of the
peer when the others have the file.
-/

namespace DartSync
namespace Transfer

open Foundation Peer

/-- The command that searches for temporary files stays inside `find[256]`. -/
def FindFits (dir : SyncDir) (filename : FileName) : Prop :=
  27 + dir.path.length + filename.bytes.length < 256

instance decidableFindFits (dir : SyncDir) (filename : FileName) :
    Decidable (FindFits dir filename) :=
  Nat.decLt _ _

/-- A run of `ptp_download` that asks the `i`-th peer for piece `i`.  The calls
of `readConfigFile` return `config`, which is `none` if `config.data` cannot be
opened; `folder` are the base names of what `find` visits. -/
def peerDownload (z : Zlib) (creatable : List UInt8 -> Bool)
    (config : Option SyncDir) (folder : List (List UInt8)) (arg : DownloadArg)
    (uploaders : Nat -> Uploader) (m : Nat -> Surroundings) (files : Files) :
    Option Files :=
  config.bind fun dir =>
    if FindFits dir arg.filename then
      let p := plan (sourceCount folder arg) arg.size.toNat
      downloadFiles creatable dir arg.filename p
        (fun i => exchange z (uploaders i) (m i) arg.filename (p.offsetWord i)
          (p.sizeWord i) (Int32.ofNat i)) files
    else none

structure Offers (filename : FileName) (content : List UInt8)
    (uploader : Uploader) : Prop where
  fits :
    uploader.dir.path.length + filename.bytes.length < FILE_NAME_LEN
  file : uploader.files (uploader.dir.path ++ filename.bytes) = some content

def PiecesSurvive (z : Zlib) (m : Nat -> Surroundings) (sources : Nat)
    (content : List UInt8) : Prop :=
  forall i, i < pieceTotal sources content.length ->
    forall j, j < pktCount (piece sources content i).length ->
      Survives z (m i).after (piece sources content i) j

/-!
## The pieces that are fetched
-/

section Fetched

variable {p : Plan} {downloads : Nat -> Option (List UInt8)} {temps : Temps}

theorem of_fetchPieces {n : Nat} {fetched : Temps}
    (h : fetchPieces p downloads temps n = some fetched) :
    (forall i, n ≤ i -> fetched i = temps i) ∧
      forall i : Nat, i < n ->
        p.needs i (curLength (temps i)) = true ∧
          exists bytes, downloads i = some bytes ∧
            fetched i = some ((temps i).getD [] ++ bytes) := by
  induction n generalizing fetched with
  | zero =>
      cases h
      exact ⟨fun _ _ => rfl, fun i hi => absurd hi (Nat.not_lt_zero i)⟩
  | succ n ih =>
      rw [fetchPieces] at h
      rcases Option.bind_eq_some_iff.mp h with ⟨before, hbefore, hlast⟩
      rcases ih hbefore with ⟨hlater, hearlier⟩
      cases hneeds : p.needs n (curLength (temps n)) with
      | false =>
          rw [hneeds] at hlast
          cases hlast
      | true =>
          rw [hneeds, if_pos rfl] at hlast
          rcases Option.map_eq_some_iff.mp hlast with ⟨bytes, hbytes, hfetched⟩
          rw [← hfetched]
          constructor
          · intro i hi
            dsimp only
            rw [if_neg (by omega)]
            exact hlater i (Nat.le_of_succ_le hi)
          · intro i hi
            dsimp only
            rcases Nat.lt_succ_iff_lt_or_eq.mp hi with hlt | heq
            · rw [if_neg (by omega)]
              exact hearlier i hlt
            · rw [heq, if_pos rfl]
              exact ⟨hneeds, bytes, hbytes, rfl⟩

end Fetched

/-!
## The requests of a plan
-/

section Plan

variable {z : Zlib} {m : Surroundings} {uploader : Uploader}
  {filename : FileName} {content : List UInt8} {sources i : Nat}

theorem toNat_sizeWord (h : 1 ≤ sources) (hsources : sources < 2 ^ 31)
    {size : Nat} (hwidth : pieceWidth sources size < 2 ^ 31) :
    ((plan sources size).sizeWord i).toNat = pieceLength sources size i := by
  have hlt := pieceLength_lt h hsources hwidth i
  unfold Plan.sizeWord
  rw [size_plan h hsources hwidth, Int.toNat_natCast]
  exact UInt64.toNat_ofNat_of_lt' (Nat.lt_trans hlt (by decide))

theorem exchange_piece_iff (hz : z.Lawful) (h : 1 ≤ sources)
    (hsources : sources < 2 ^ 31) (hsize : 1 ≤ content.length)
    (hlt : content.length < 2 ^ 31)
    (htwo : ¬ (sources = 2 ∧ content.length = 1))
    (hi : i < pieceTotal sources content.length)
    (hoffers : Offers filename content uploader) :
    exchange z uploader m filename
        ((plan sources content.length).offsetWord i)
        ((plan sources content.length).sizeWord i) (Int32.ofNat i) =
        some (piece sources content i) <->
      forall j, j < pktCount (piece sources content i).length ->
        Survives z m.after (piece sources content i) j := by
  have hwidth := pieceWidth_lt h hlt
  have hlength := length_piece h hsize htwo hi
  have hpiece := piece_eq_take h hsize htwo hi
  have hword := @toNat_sizeWord _ i h hsources _ hwidth
  have hbound := pieceLength_lt h hsources hwidth i
  have hbefore := mul_pieceWidth_le h hsize htwo hi
  have hoffset : ((plan sources content.length).offsetWord i).toNat =
      i * pieceWidth sources content.length := by
    unfold Plan.offsetWord
    rw [offset_plan h hsources hwidth hsize (by omega) htwo hi,
      Int.toNat_natCast]
    apply UInt64.toNat_ofNat_of_lt'
    exact Nat.lt_of_le_of_lt hbefore (Nat.lt_trans hlt (by decide))
  have hpieceOf : pieceOf content
      ((plan sources content.length).offsetWord i)
      ((plan sources content.length).sizeWord i) =
        piece sources content i := by
    rw [pieceOf, hoffset, hword, ← hpiece]
  have hinside : ((plan sources content.length).offsetWord i).toNat +
      ((plan sources content.length).sizeWord i).toNat ≤ content.length := by
    have hle := congrArg List.length hpiece
    rw [hlength, List.length_take, List.length_drop] at hle
    rw [hoffset, hword]
    omega
  have hsmall : ((plan sources content.length).sizeWord i).toNat < 2 ^ 31 := by
    rw [hword]
    exact hbound
  rw [← hpieceOf, exchange_eq_piece_iff hz hoffers.fits hoffers.file hsmall
    hinside, hpieceOf, hlength, hword]

theorem length_of_exchange {offset size : UInt64} {pieceNum : Int32}
    {bytes : List UInt8}
    (h : exchange z uploader m filename offset size pieceNum = some bytes) :
    bytes.length = intOf size := by
  unfold exchange at h
  rcases Option.bind_eq_some_iff.mp h with ⟨conn, _, hdownload⟩
  exact length_of_downloadPiece hdownload

end Plan

/-!
## The whole file
-/

section Download

variable {z : Zlib} {creatable : List UInt8 -> Bool} {dir : SyncDir}
  {filename : FileName} {sources : Nat} {content : List UInt8}
  {uploaders : Nat -> Uploader} {m : Nat -> Surroundings} {files : Files}

theorem replaced_inj {n : Nat} {file file' : List UInt8} :
    replaced dir filename n file files =
      replaced dir filename n file' files <-> file = file' := by
  constructor
  · intro h
    have hpath := congrFun h (dir.path ++ filename.bytes)
    unfold replaced at hpath
    rw [if_pos rfl, if_pos rfl] at hpath
    exact Option.some_inj.mp hpath
  · intro h
    rw [h]

theorem of_ptpDownloadFrom {downloads : Nat -> Option (List UInt8)}
    (h : 1 ≤ sources) (hlt : content.length < 2 ^ 31)
    (hsources : sources < 2 ^ 31) (hclean : forall i,
      tempsIn dir filename files i = none) {result : Downloaded}
    (hlength : forall i bytes, downloads i = some bytes ->
      bytes.length = pieceLength sources content.length i)
    (hrun : ptpDownloadFrom (plan sources content.length) downloads
      (tempsIn dir filename files) = some result) :
    exists parts, (forall i, i < pieceTotal sources content.length ->
        downloads i = some (parts i) ∧
        (0 < pieceWidth sources content.length ∨
          (i + 1 = pieceTotal sources content.length ∧
            0 < pieceRest sources content.length))) ∧
      join (pieceTotal sources content.length) parts = result.file := by
  have hwidth := pieceWidth_lt h hlt
  unfold ptpDownloadFrom at hrun
  rw [count_plan h hsources hwidth] at hrun
  rcases Option.bind_eq_some_iff.mp hrun with ⟨fetched, hfetched, hassembled⟩
  rcases Option.map_eq_some_iff.mp hassembled with ⟨file, hfile, hresult⟩
  rcases assemble_eq_some_iff.mp hfile with ⟨hread, hjoin⟩
  have hpieces := (of_fetchPieces hfetched).right
  refine ⟨readParts fetched, ?_, ?_⟩
  · intro i hi
    have hneeds := needs_iff_pieceWidth_pos h hsources hlt hi
    have hpiece := hpieces i hi
    rw [hclean i] at hpiece
    rcases hpiece with ⟨hneeded, bytes, hbytes, hstored⟩
    refine ⟨?_, hneeds.mp hneeded⟩
    have hbound := pieceLength_lt h hsources hwidth i
    have hsmall := hlength i bytes hbytes
    rw [Option.getD_none, List.nil_append] at hstored
    have hwhole : readBack (fetched i) = some bytes := by
      rw [hstored]
      exact readBack_of_prefix (List.prefix_refl bytes)
        (int_of_small (by omega) (by omega)).symm
    rw [hbytes, readParts, hwhole]
    rfl
  · rw [hjoin, ← hresult]

theorem not_two_of_join {parts : Nat -> List UInt8}
    (hparts : forall i, i < pieceTotal sources content.length ->
      (parts i).length = pieceLength sources content.length i)
    (hjoin : join (pieceTotal sources content.length) parts = content) :
    ¬ (sources = 2 ∧ content.length = 1) := by
  intro htwo
  rw [htwo.left, htwo.right] at hparts hjoin
  have hlength := congrArg List.length hjoin
  change (join 2 parts).length = _ at hlength
  rw [join_succ, join_succ, join_zero, List.nil_append, List.length_append,
    hparts 0 (by decide), hparts 1 (by decide), htwo.right] at hlength
  cases hlength

theorem pieces_of_ptpDownloadFrom {downloads : Nat -> Option (List UInt8)}
    (h : 1 ≤ sources) (hsources : sources < 2 ^ 31)
    (hsize : 1 ≤ content.length) (hlt : content.length < 2 ^ 31)
    (hclean : forall i, tempsIn dir filename files i = none)
    (hlength : forall i bytes, downloads i = some bytes ->
      bytes.length = pieceLength sources content.length i)
    {result : Downloaded}
    (hrun : ptpDownloadFrom (plan sources content.length) downloads
      (tempsIn dir filename files) = some result)
    (hfile : result.file = content) :
    (sources = 1 ∨ (2 ≤ content.length ∧ sources - 1 ≤ content.length)) ∧
      forall i, i < pieceTotal sources content.length ->
        downloads i = some (piece sources content i) := by
  have hpositive := @pieceWidth_pos_iff sources content.length h hsize
  rcases of_ptpDownloadFrom h hlt hsources hclean hlength hrun with
    ⟨parts, hparts, hjoin⟩
  rw [hfile] at hjoin
  have htwo := not_two_of_join
    (fun i hi => hlength i _ (hparts i hi).left) hjoin
  have hfull : 0 < pieceWidth sources content.length := by
    cases (hparts 0 (one_le_pieceTotal h)).right with
    | inl hpos => exact hpos
    | inr hlast =>
        rw [pieceTotal_of_rest hlast.right] at hlast
        have hone : sources = 1 := by omega
        exact hpositive.mpr (Or.inl hone)
  constructor
  · have hcases := hpositive.mp hfull
    omega
  · intro i hi
    have hsame : parts i = piece sources content i := by
      apply eq_of_join_eq _ (hjoin.trans (join_piece h).symm) hi
      intro j hj
      rw [hlength j _ (hparts j hj).left, length_piece h hsize htwo hj]
    rw [(hparts i hi).left, hsame]

theorem ptpDownloadFrom_of_pieces {downloads : Nat -> Option (List UInt8)}
    (h : 1 ≤ sources) (hsources : sources < 2 ^ 31)
    (hsize : 1 ≤ content.length) (hlt : content.length < 2 ^ 31)
    (hclean : forall i, tempsIn dir filename files i = none)
    (hdivides : sources = 1 ∨
      (2 ≤ content.length ∧ sources - 1 ≤ content.length))
    (hpieces : forall i, i < pieceTotal sources content.length ->
      downloads i = some (piece sources content i)) :
    ptpDownloadFrom (plan sources content.length) downloads
        (tempsIn dir filename files) =
      some { file := content, type := FILE_DOWNLOAD } := by
  have hwidth := pieceWidth_lt h hlt
  have hcount := count_plan h hsources hwidth
  have htwo : ¬ (sources = 2 ∧ content.length = 1) := by omega
  have hfull : 0 < pieceWidth sources content.length := by
    rw [pieceWidth_pos_iff h hsize]
    omega
  have hdelivered : forall i, i < pieceTotal sources content.length ->
      (plan sources content.length).delivered content i =
        piece sources content i := fun i hi =>
    delivered_plan h hsources hwidth hsize (by omega) htwo hi
  have hfetched : forall i : Nat, i < (plan sources content.length).count ->
      (plan sources content.length).needs i
          (curLength (tempsIn dir filename files i)) = true ->
        downloads i =
          some ((plan sources content.length).delivered content i) := by
    intro i hi _
    rw [hcount] at hi
    rw [hdelivered i hi]
    exact hpieces i hi
  have hjoin : join (plan sources content.length).count (fun i =>
      (plan sources content.length).delivered content i) = content := by
    rw [hcount, join_congr hdelivered]
    exact join_piece h
  have htame : Tame (plan sources content.length) content
      (tempsIn dir filename files) := by
    apply tame_plan h hsources hwidth
    intro i _ _
    rw [hclean i]
    exact Int.le_refl 0
  have hresumes := (htame.resumes_iff_ready hjoin).mpr (by
    intro i hi
    rw [hcount] at hi
    rw [hclean i, Ready, hdelivered i hi, ← List.length_pos_iff,
      length_piece h hsize htwo hi]
    unfold pieceLength
    split
    · next hrest => exact hrest.left
    · exact hfull)
  rw [ptpDownloadFrom_of_delivered hfetched, hresumes.assembled]
  rfl

/-- A run with so many sources over clean folders ends with the content in place,
nothing else changed, exactly when the plan divides the file and all packets
survive. -/
theorem downloadFiles_eq_content_iff (hz : z.Lawful) (h : 1 ≤ sources)
    (hsources : sources ≤ MAX_PEER_NUM) (hsize : 1 ≤ content.length)
    (hlt : content.length < 2 ^ 31)
    (hplace : Placeable creatable dir filename
      (plan sources content.length).count)
    (hoffers : forall i, i < (plan sources content.length).count ->
      Offers filename content (uploaders i))
    (hclean : forall i, tempsIn dir filename files i = none) :
    downloadFiles creatable dir filename (plan sources content.length)
        (fun i => exchange z (uploaders i) (m i) filename
          ((plan sources content.length).offsetWord i)
          ((plan sources content.length).sizeWord i) (Int32.ofNat i)) files =
        some (replaced dir filename (plan sources content.length).count
          content files) <->
      (sources = 1 ∨ (2 ≤ content.length ∧ sources - 1 ≤ content.length)) ∧
        PiecesSurvive z m sources content := by
  have hfew : sources < 2 ^ 31 := Nat.lt_of_le_of_lt hsources (by decide)
  have hwidth := pieceWidth_lt h hlt
  rw [downloadFiles_eq hplace]
  rw [count_plan h hfew hwidth] at hoffers ⊢
  generalize hdownloads : (fun i => exchange z (uploaders i) (m i) filename
    ((plan sources content.length).offsetWord i)
    ((plan sources content.length).sizeWord i) (Int32.ofNat i)) = downloads
  have hlength : forall i bytes, downloads i = some bytes ->
      bytes.length = pieceLength sources content.length i := by
    intro i bytes hbytes
    have hword := @toNat_sizeWord _ i h hfew _ hwidth
    have hbound := pieceLength_lt h hfew hwidth i
    rw [← hdownloads] at hbytes
    rw [length_of_exchange hbytes, intOf_eq (by omega), hword]
  have hpiece : (sources = 1 ∨
        (2 ≤ content.length ∧ sources - 1 ≤ content.length)) -> forall i,
      i < pieceTotal sources content.length ->
      (downloads i = some (piece sources content i) <->
        forall j, j < pktCount (piece sources content i).length ->
          Survives z (m i).after (piece sources content i) j) := by
    intro hdivides i hi
    rw [← hdownloads]
    exact exchange_piece_iff hz h hfew hsize hlt (by omega) hi (hoffers i hi)
  constructor
  · intro hdone
    rcases Option.map_eq_some_iff.mp hdone with ⟨result, hrun, hresult⟩
    rcases pieces_of_ptpDownloadFrom h hfew hsize hlt hclean hlength hrun
      (replaced_inj.mp hresult) with ⟨hdivides, hpieces⟩
    exact ⟨hdivides, fun i hi => (hpiece hdivides i hi).mp (hpieces i hi)⟩
  · intro hcondition
    rcases hcondition with ⟨hdivides, hsurvive⟩
    rw [ptpDownloadFrom_of_pieces h hfew hsize hlt hclean hdivides fun i hi =>
      (hpiece hdivides i hi).mpr (hsurvive i hi)]
    rfl

theorem downloadFiles_of_no_source {downloads : Nat -> Option (List UInt8)}
    {p : Plan} (hplace : Placeable creatable dir filename p.count)
    (hcount : p.count = 0) :
    downloadFiles creatable dir filename p downloads files =
      some (replaced dir filename 0 [] files) := by
  rw [downloadFiles_eq hplace]
  unfold ptpDownloadFrom
  rw [hcount]
  rfl

end Download

section PeerDownload

variable {z : Zlib} {creatable : List UInt8 -> Bool} {dir : SyncDir}
  {folder : List (List UInt8)} {arg : DownloadArg} {content : List UInt8}
  {uploaders : Nat -> Uploader} {m : Nat -> Surroundings} {files : Files}

end PeerDownload

def Sample.lettersPeer : Uploader where
  dir := Sample.sharedDir
  files := fun path =>
    if path = Sample.sharedDir.path ++ Sample.fileA.bytes then
      some Sample.letters
    else none

def Sample.lettersArg : DownloadArg where
  filename := Sample.fileA
  size := 1465
  peerNum := 2
  timestamp := 100
  addrList := [Sample.ipA, Sample.ipB]

theorem Sample.pieces_survive :
    PiecesSurvive Sample.deflate
      (fun _ => { stale := [], behind := [], after := fun _ => [0] }) 2
      Sample.letters := by
  intro i hi j _
  have htwo : ¬ ((2 : Nat) = 2 ∧ Sample.letters.length = 1) := by
    rw [Sample.length_letters]
    decide
  have hpiece := piece_eq_take (by decide) (by
    rw [Sample.length_letters]
    decide) htwo hi
  have hlength := length_piece (by decide) (by
    rw [Sample.length_letters]
    decide) htwo hi
  apply Sample.survives_of_short
  · rw [hpiece]
    intro hmem
    exact Sample.no_zero_letters
      (List.mem_of_mem_drop (List.mem_of_mem_take hmem))
  · rw [hlength, Sample.length_letters]
    unfold pieceLength
    split <;> decide

theorem Sample.placeable_letters :
    Placeable (fun _ => true) Sample.sharedDir Sample.fileA 2 where
  file := by decide
  temp := by
    intro i hi
    cases Nat.lt_or_ge i 1 with
    | inl hfirst =>
        rw [Nat.lt_one_iff.mp hfirst]
        decide
    | inr hlast =>
        have hone : i = 1 := by omega
        rw [hone]
        decide
  openFile := rfl
  openTemp := fun _ _ => rfl

theorem Sample.offers_letters :
    Offers Sample.fileA Sample.letters Sample.lettersPeer where
  fits := by decide
  file := by
    unfold Sample.lettersPeer
    dsimp only
    rw [if_pos rfl]

def Sample.folderB : Files := fun path =>
  if path = Sample.sharedDir.path ++ [98] then some [1] else none

theorem Sample.no_temps_folderB (i : Nat) :
    tempsIn Sample.sharedDir Sample.fileA Sample.folderB i = none := by
  unfold tempsIn Sample.folderB
  rw [if_neg]
  intro heq
  have htemp := List.append_cancel_left heq
  unfold tempName at htemp
  exact absurd (List.cons.inj htemp).left (by decide)

end Transfer
end DartSync
