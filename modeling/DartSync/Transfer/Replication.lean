import DartSync.Foundation.Transition
import DartSync.Transfer.PeerDownload

/-!
# Files that spread by downloads

Peers that download from each other in any order, one download after the other:
a file that has been downloaded is a source for the next peer.  Nobody edits a
file here, so each file has one content; the names are those that the monitor
takes notice of, which do not start with a dot as the temporary files do.

A file whose name starts with that of another file and `_` is taken for a
temporary file of it, so a peer that has got `a_x` empties `a` when it downloads
it.  `readConfigFile` never closes its stream: a peer that runs for long cannot
open `config.data` any more.
-/

namespace DartSync
namespace Transfer

open Foundation Peer

variable {ι : Type} [DecidableEq ι]

structure Site where
  dir : SyncDir
  creatable : List UInt8 -> Bool

def Site.path (site : Site) (filename : FileName) : List UInt8 :=
  site.dir.path ++ filename.bytes

/-- A `ptp_download` thread of a peer: piece `i` comes from `sources i`.  `find`
visits files with the base names in `folder`; `opens` tells whether
`config.data` can be opened. -/
structure Fetch (ι : Type) where
  peer : ι
  arg : DownloadArg
  folder : List (List UInt8)
  opens : Bool
  sources : Nat -> ι
  m : Nat -> Surroundings

def Fetch.plan (a : Fetch ι) : Plan :=
  Transfer.plan a.arg.peerNum a.arg.size.toNat

def fetchStep (z : Zlib) (sites : ι -> Site) (s : ι -> Files) (a : Fetch ι) :
    Option (ι -> Files) :=
  let config := if a.opens then some (sites a.peer).dir else none
  (peerDownload z (sites a.peer).creatable config a.folder a.arg
    (fun i =>
      { dir := (sites (a.sources i)).dir
        files := s (a.sources i) }) a.m (s a.peer)).map
    (Function.update s a.peer)

def Visible (filename : FileName) : Prop :=
  filename.bytes.head? ≠ some 46

/-- All copies of a file are the same, and no download is half done. -/
structure Replicated (sites : ι -> Site) (version : FileName -> List UInt8)
    (s : ι -> Files) : Prop where
  same : forall q filename, Visible filename -> forall bytes,
    s q ((sites q).path filename) = some bytes -> bytes = version filename
  clean : forall q filename, Visible filename -> forall i,
    tempsIn (sites q).dir filename (s q) i = none

/-- No file in the folder of the peer is taken for a temporary file. -/
structure Unlisted (dir : SyncDir) (files : Files) (filename : FileName)
    (folder : List (List UInt8)) : Prop where
  visits : forall path, files (dir.path ++ path) ≠ none ->
    lastComponent path ∈ folder
  unlisted : forall baseName, baseName ∈ folder ->
    listed filename baseName = false

/-- A download with a plan that divides the file, from peers that have it, whose
packets survive. -/
structure Sound (z : Zlib) (sites : ι -> Site)
    (version : FileName -> List UInt8) (s : ι -> Files) (a : Fetch ι) :
    Prop where
  opens : a.opens = true
  visible : Visible a.arg.filename
  size : a.arg.size.toNat = (version a.arg.filename).length
  nonempty : 1 ≤ a.arg.size.toNat
  small : a.arg.size.toNat < 2 ^ 31
  peers : 1 ≤ a.arg.peerNum ∧ a.arg.peerNum ≤ MAX_PEER_NUM
  unlisted : Unlisted (sites a.peer).dir (s a.peer) a.arg.filename a.folder
  divides : a.arg.peerNum = 1 ∨
    (2 ≤ a.arg.size.toNat ∧ a.arg.peerNum - 1 ≤ a.arg.size.toNat)
  find : FindFits (sites a.peer).dir a.arg.filename
  place : Placeable (sites a.peer).creatable (sites a.peer).dir a.arg.filename
    a.plan.count
  offered : forall i, i < a.plan.count ->
    ((sites (a.sources i)).path a.arg.filename).length < FILE_NAME_LEN ∧
      s (a.sources i) ((sites (a.sources i)).path a.arg.filename) ≠ none
  survive : PiecesSurvive z a.m a.arg.peerNum (version a.arg.filename)

section Paths

variable {dir : SyncDir} {filename filename' : FileName} {i : Nat}

theorem temp_ne_visible (h : Visible filename) :
    dir.path ++ tempName filename' (decimal i) ≠
      dir.path ++ filename.bytes := by
  intro heq
  apply h
  rw [← List.append_cancel_left heq]
  rfl

theorem path_injective (h : dir.path ++ filename.bytes =
    dir.path ++ filename'.bytes) : filename = filename' :=
  CString.eq_of_bytes_eq (List.append_cancel_left h)

end Paths

section Replaced

variable {dir : SyncDir} {filename other : FileName} {n : Nat}
  {file : List UInt8} {files : Files}

theorem replaced_self :
    replaced dir filename n file files (dir.path ++ filename.bytes) =
      some file := by
  unfold replaced
  rw [if_pos rfl]

theorem replaced_other (hvisible : Visible other) (hne : other ≠ filename) :
    replaced dir filename n file files (dir.path ++ other.bytes) =
      files (dir.path ++ other.bytes) := by
  unfold replaced
  rw [if_neg fun heq => hne (path_injective heq), if_neg]
  intro htemp
  rcases htemp with ⟨i, _, heq⟩
  exact temp_ne_visible hvisible heq.symm

theorem tempsIn_replaced (hvisible : Visible filename) {i : Nat}
    (hclean : tempsIn dir other files i = none) :
    tempsIn dir other (replaced dir filename n file files) i = none := by
  unfold tempsIn replaced
  rw [if_neg (temp_ne_visible hvisible)]
  split
  · rfl
  · exact hclean

end Replaced

section Steps

variable {z : Zlib} {sites : ι -> Site} {version : FileName -> List UInt8}
  {s s' start : ι -> Files} {a : Fetch ι}

theorem fetchStep_other (h : fetchStep z sites s a = some s') {q : ι}
    (hq : q ≠ a.peer) : s' q = s q := by
  rcases Option.map_eq_some_iff.mp h with ⟨files, _, hfiles⟩
  rw [← hfiles, Function.update_of_ne hq]

def Elsewhere (site : Site) (path : List UInt8) : Prop :=
  forall filename, Visible filename -> path ≠ site.path filename ∧
    forall i, path ≠ site.dir.path ++ tempName filename (decimal i)

structure Spreads (sites : ι -> Site) (s s' : ι -> Files) : Prop where
  kept : forall q filename, Visible filename ->
    s q ((sites q).path filename) ≠ none ->
      s' q ((sites q).path filename) ≠ none
  elsewhere : forall q path, Elsewhere (sites q) path -> s' q path = s q path

omit [DecidableEq ι] in
theorem Spreads.trans {s'' : ι -> Files} (h : Spreads sites s s')
    (h' : Spreads sites s' s'') : Spreads sites s s'' where
  kept := fun q filename hvisible hfile =>
    h'.kept q filename hvisible (h.kept q filename hvisible hfile)
  elsewhere := fun q path hpath =>
    (h'.elsewhere q path hpath).trans (h.elsewhere q path hpath)

end Steps

/-!
## Three peers and a file
-/

def Sample.sites (_ : Fin 3) : Site where
  dir := Sample.sharedDir
  creatable := fun _ => true

def Sample.letterVersion (_ : FileName) : List UInt8 :=
  Sample.letters

def Sample.oneCopy : Fin 3 -> Files :=
  fun q => if q = 0 then Sample.lettersPeer.files else fun _ => none

def Sample.fetchLetters (peer first second : Fin 3) : Fetch (Fin 3) where
  peer := peer
  arg := Sample.lettersArg
  folder := [Sample.fileA.bytes]
  opens := true
  sources := fun i => if i = 0 then first else second
  m := fun _ => { stale := [], behind := [], after := fun _ => [0] }

theorem Sample.visible_fileA : Visible Sample.fileA := by
  unfold Visible
  decide

theorem Sample.replicated_oneCopy :
    Replicated Sample.sites Sample.letterVersion Sample.oneCopy where
  same := by
    intro q filename _ bytes hbytes
    unfold Sample.oneCopy at hbytes
    split at hbytes
    · unfold Sample.lettersPeer at hbytes
      dsimp only at hbytes
      split at hbytes
      · exact (Option.some_inj.mp hbytes).symm
      · cases hbytes
    · cases hbytes
  clean := by
    intro q filename _ i
    unfold tempsIn Sample.oneCopy
    split
    · have hne := @temp_ne_visible Sample.sharedDir _ filename i
        Sample.visible_fileA
      unfold Sample.lettersPeer
      dsimp only
      rw [show (Sample.sites q).dir = Sample.sharedDir from rfl, if_neg hne]
    · rfl

theorem Sample.sound_fetchLetters {s : Fin 3 -> Files}
    {peer first second : Fin 3} (hempty : s peer = fun _ => none)
    (hfirst : s first ((Sample.sites first).path Sample.fileA) ≠ none)
    (hsecond : s second ((Sample.sites second).path Sample.fileA) ≠ none) :
    Sound Sample.deflate Sample.sites Sample.letterVersion s
      (Sample.fetchLetters peer first second) where
  opens := rfl
  visible := Sample.visible_fileA
  size := Sample.length_letters.symm
  nonempty := show 1 ≤ (1465 : UInt64).toNat by decide
  small := show (1465 : UInt64).toNat < 2 ^ 31 by decide
  peers := ⟨show 1 ≤ 2 by decide, show 2 ≤ MAX_PEER_NUM by decide⟩
  unlisted :=
    { visits := by
        intro path hpath
        change s peer _ ≠ none at hpath
        rw [hempty] at hpath
        exact absurd rfl hpath
      unlisted := by
        intro baseName hmem
        rw [List.mem_singleton.mp hmem]
        exact show listed Sample.fileA Sample.fileA.bytes = false by decide }
  divides := Or.inr (show 2 ≤ (1465 : UInt64).toNat ∧
    2 - 1 ≤ (1465 : UInt64).toNat by decide)
  find := show FindFits Sample.sharedDir Sample.fileA by decide
  place := Sample.placeable_letters
  offered := by
    intro i _
    refine ⟨show (Sample.sharedDir.path ++ Sample.fileA.bytes).length <
      FILE_NAME_LEN by decide, ?_⟩
    change s (if i = 0 then first else second) _ ≠ none
    split
    · exact hfirst
    · exact hsecond
  survive := Sample.pieces_survive

end Transfer
end DartSync
