import DartSync.Common.Constant
import DartSync.Foundation.Codec
import DartSync.Foundation.Memory
import DartSync.Foundation.Paths

/-!
# Data requests

`ptp_listening` of `peer/peer.c` with `recv_data_request` of `peer/p2p.c`: a
request is read from a connection, and the file it names is uploaded.
-/

namespace DartSync
namespace Transfer

open Foundation

/-- `sync_dir` as `readConfigFile` leaves it: a folder with a slash behind it, in
an array of `FILE_NAME_LEN` bytes. -/
structure SyncDir where
  folder : List UInt8
  noNul : (0 : UInt8) ∉ folder
  fits : folder.length + 1 < FILE_NAME_LEN

def SyncDir.path (dir : SyncDir) : List UInt8 :=
  dir.folder ++ [47]

/-- `ptp_request_t`: `filename`, `offset`, `size` and `pieceNum`, and padding. -/
def requestCodec :
    Codec (Vector UInt8 FILE_NAME_LEN × UInt64 × UInt64 × Int32) :=
  (Codec.byte.vector FILE_NAME_LEN).prod
    (Codec.uint64.prod (Codec.uint64.prod (Codec.int32.padded 4)))

/-- The argument of a `ptp_upload` thread. -/
structure Upload where
  file_path : List UInt8
  pieceNum : Int32
  offset : UInt64
  size : UInt64

/-- `strcpy` to an array; `none` if the string does not fit. -/
def strcpy (capacity : Nat) (src : List UInt8) : Option (List UInt8) :=
  if (cstr src).length < capacity then some (cstr src) else none

def strcat (capacity : Nat) (dest src : List UInt8) : Option (List UInt8) :=
  if dest.length + (cstr src).length < capacity then some (dest ++ cstr src)
  else none

/-- The loop of `recv_data_request`: the bytes of `request_pkt` behind it, which
are those that were there before if the stream ends too early. -/
def recvRequest (stale : List UInt8) :
    List UInt8 -> List UInt8 -> List UInt8
  | _, [] => stale
  | buf, c :: conn =>
      if buf.length = requestCodec.size - 1 then buf ++ [c]
      else recvRequest stale (buf ++ [c]) conn

/-- A turn of the loop of `ptp_listening`, which always starts an upload; `none`
if a string leaves its array.  `after` is what lies in memory behind
`request_pkt`. -/
def ptpListening (dir : SyncDir) (stale after conn : List UInt8) :
    Option Upload :=
  let bytes := recvRequest stale [] conn
  let request_pkt := requestCodec.decode bytes
  (strcpy FILE_NAME_LEN (bytes ++ after)).bind fun filename =>
    (strcpy FILE_NAME_LEN dir.path).bind fun file_path =>
      (strcat FILE_NAME_LEN file_path filename).map fun file_path =>
        { file_path := file_path
          pieceNum := request_pkt.2.2.2
          offset := request_pkt.2.1
          size := request_pkt.2.2.1 }

/-- The upload that is started is for a complete request, and for a path inside
the sync folder that fits its array. -/
def ServesValid (dir : SyncDir) (stale after conn : List UInt8) : Prop :=
  exists upload, ptpListening dir stale after conn = some upload ∧
    requestCodec.size ≤ conn.length ∧
    upload.file_path.length < FILE_NAME_LEN ∧
    Paths.Below (Paths.place dir.path) (Paths.place upload.file_path)

def requestedName (conn : List UInt8) : List UInt8 :=
  cstr (conn.take FILE_NAME_LEN)

/-- A request that can be served: all its bytes are there, its name leaves room
for the folder, and leads from the folder to something below it. -/
structure ValidRequest (dir : SyncDir) (conn : List UInt8) : Prop where
  complete : requestCodec.size ≤ conn.length
  fits : dir.path.length + (requestedName conn).length < FILE_NAME_LEN
  inside : Paths.LeadsBelow (Paths.isAbsolute dir.path)
    (Paths.place dir.path) (Paths.components (requestedName conn))

section Request

variable {dir : SyncDir} {stale after conn buf : List UInt8}

theorem size_requestCodec : requestCodec.size = 280 := rfl

theorem recvRequest_eq (h : buf.length < requestCodec.size) :
    recvRequest stale buf conn =
      if requestCodec.size ≤ buf.length + conn.length then
        buf ++ conn.take (requestCodec.size - buf.length)
      else stale := by
  induction conn generalizing buf with
  | nil =>
      rw [recvRequest, List.length_nil, Nat.add_zero,
        if_neg (Nat.not_le.mpr h)]
  | cons c conn ih =>
      rw [recvRequest, List.length_cons]
      cases Classical.em (buf.length = requestCodec.size - 1) with
      | inl hlast =>
          have hone : requestCodec.size - buf.length = 0 + 1 := by omega
          rw [if_pos hlast, if_pos (by omega), hone, List.take_succ_cons,
            List.take_zero]
      | inr hmore =>
          have hlength : (buf ++ [c]).length = buf.length + 1 := by simp
          have hrest : requestCodec.size - buf.length =
              requestCodec.size - (buf.length + 1) + 1 := by omega
          rw [if_neg hmore, ih (by omega), hlength, hrest,
            List.take_succ_cons, List.append_assoc]
          congr 1
          rw [Nat.add_assoc, Nat.add_comm 1]

theorem cstr_path (dir : SyncDir) : cstr dir.path = dir.path := by
  apply cstr_of_no_zero
  unfold SyncDir.path
  rw [List.mem_append, not_or]
  exact ⟨dir.noNul, by decide⟩

theorem cstr_cstr (bytes : List UInt8) : cstr (cstr bytes) = cstr bytes :=
  cstr_of_no_zero (zero_not_mem_cstr bytes)

theorem strcpy_request {bytes : List UInt8}
    (hlength : FILE_NAME_LEN ≤ bytes.length) :
    strcpy FILE_NAME_LEN (bytes ++ after) =
      strcpy FILE_NAME_LEN (bytes.take FILE_NAME_LEN) := by
  have hsplit : bytes ++ after =
      bytes.take FILE_NAME_LEN ++ (bytes.drop FILE_NAME_LEN ++ after) := by
    rw [← List.append_assoc, List.take_append_drop]
  rw [hsplit]
  unfold strcpy
  cases Classical.em ((0 : UInt8) ∈ bytes.take FILE_NAME_LEN) with
  | inl hzero => rw [cstr_append_of_zero hzero]
  | inr hno =>
      rw [cstr_append_of_no_zero hno, cstr_of_no_zero hno, List.length_append,
        List.length_take, Nat.min_eq_left hlength, if_neg (by omega),
        if_neg (by omega)]

theorem ptpListening_of_complete
    (hcomplete : requestCodec.size ≤ conn.length) :
    ptpListening dir stale after conn =
      if dir.path.length + (requestedName conn).length < FILE_NAME_LEN then
        some
          { file_path := dir.path ++ requestedName conn
            pieceNum := (requestCodec.decode
              (conn.take requestCodec.size)).2.2.2
            offset := (requestCodec.decode (conn.take requestCodec.size)).2.1
            size :=
              (requestCodec.decode (conn.take requestCodec.size)).2.2.1 }
      else none := by
  have hrecv := @recvRequest_eq stale conn [] (by decide)
  have hinside : FILE_NAME_LEN ≤ (conn.take requestCodec.size).length := by
    rw [List.length_take, Nat.min_eq_left hcomplete]
    decide
  have htake : (conn.take requestCodec.size).take FILE_NAME_LEN =
      conn.take FILE_NAME_LEN := by
    rw [List.take_take]
    rfl
  have hdir : strcpy FILE_NAME_LEN dir.path = some dir.path := by
    have hfits : dir.path.length < FILE_NAME_LEN := by
      unfold SyncDir.path
      rw [List.length_append]
      exact dir.fits
    unfold strcpy
    rw [cstr_path, if_pos hfits]
  rw [List.length_nil, Nat.zero_add, if_pos hcomplete, List.nil_append,
    Nat.sub_zero] at hrecv
  unfold ptpListening
  dsimp only
  rw [hrecv, strcpy_request hinside, htake, hdir]
  unfold strcpy
  rw [← requestedName]
  cases Nat.lt_or_ge (requestedName conn).length FILE_NAME_LEN with
  | inl hname =>
      have hcstr : cstr (requestedName conn) = requestedName conn :=
        cstr_cstr _
      rw [if_pos hname, Option.bind_some, Option.bind_some]
      unfold strcat
      rw [hcstr]
      split <;> rfl
  | inr hlarge =>
      rw [if_neg (by omega), if_neg (by omega)]
      rfl

theorem place_file_path (dir : SyncDir) (name : List UInt8) :
    Paths.place (dir.path ++ name) =
      Paths.walk (Paths.isAbsolute dir.path) (Paths.place dir.path)
        (Paths.components name) := by
  unfold SyncDir.path
  rw [List.append_assoc, List.singleton_append]
  exact Paths.place_folder_append dir.folder name

/-- What is received is served as it should be exactly when it is a valid
request: nothing is checked. -/
theorem servesValid_iff :
    ServesValid dir stale after conn <-> ValidRequest dir conn := by
  unfold ServesValid
  constructor
  · intro h
    rcases h with ⟨upload, hupload, hcomplete, _, hinside⟩
    rw [ptpListening_of_complete hcomplete] at hupload
    split at hupload
    · next hfits =>
        cases hupload
        dsimp only at hinside
        rw [place_file_path, Paths.below_walk_iff] at hinside
        exact ⟨hcomplete, hfits, hinside⟩
    · cases hupload
  · intro h
    rw [ptpListening_of_complete h.complete, if_pos h.fits]
    refine ⟨_, rfl, h.complete, ?_, ?_⟩
    · rw [List.length_append]
      exact h.fits
    · rw [place_file_path, Paths.below_walk_iff]
      exact h.inside

theorem validRequest_of_proper
    (hcomplete : requestCodec.size ≤ conn.length)
    (hfits : dir.path.length + (requestedName conn).length < FILE_NAME_LEN)
    (h : forall c, c ∈ Paths.components (requestedName conn) ->
      Paths.Proper c) :
    ValidRequest dir conn := by
  refine ⟨hcomplete, hfits, ?_⟩
  unfold Paths.LeadsBelow
  rw [Paths.simplify_of_proper h]
  refine ⟨Or.inr (Nat.zero_le _), _, ?_, (List.append_nil _).symm⟩
  rw [ne_eq, List.reverse_eq_nil_iff]
  exact Paths.components_ne_nil _

theorem requestedName_append {name rest : List UInt8}
    (hno : (0 : UInt8) ∉ name) (hlength : name.length < FILE_NAME_LEN) :
    requestedName (name ++ 0 :: rest) = name := by
  have hone : FILE_NAME_LEN - name.length =
      FILE_NAME_LEN - name.length - 1 + 1 := by omega
  unfold requestedName
  rw [List.take_append, List.take_of_length_le (by omega), hone,
    List.take_succ_cons]
  exact cstr_append_zero hno _

end Request

namespace Sample

def sharedDir : SyncDir :=
  { folder := [115, 121, 110, 99]
    noNul := by decide
    fits := by decide }

def escaping : List UInt8 :=
  [46, 46, 47, 97] ++ 0 :: List.replicate 275 0

end Sample

theorem not_servesValid_escaping :
    ¬ forall dir stale after conn, ServesValid dir stale after conn := by
  intro h
  rcases h Sample.sharedDir [] [] Sample.escaping with
    ⟨upload, hupload, _, _, names, hne, _, hplace⟩
  have hcomplete : requestCodec.size ≤ Sample.escaping.length := by
    have hlength : Sample.escaping.length = 4 + (275 + 1) := by
      unfold Sample.escaping
      rw [List.length_append, @List.length_cons _ 0 (List.replicate 275 0),
        List.length_replicate]
      rfl
    rw [hlength, size_requestCodec]
  have hname : requestedName Sample.escaping = [46, 46, 47, 97] :=
    requestedName_append (by decide) (by decide)
  rw [ptpListening_of_complete hcomplete, hname, if_pos (by decide)] at hupload
  cases hupload
  -- The place is `a` beside the folder: one component, as the folder has.
  have hout : (Paths.place (Sample.sharedDir.path ++ [46, 46, 47, 97])).length =
      1 := by decide
  have hfolder : (Paths.place Sample.sharedDir.path).length = 1 := by decide
  have hlength := congrArg List.length hplace
  dsimp only at hlength
  rw [List.length_append, hout, hfolder] at hlength
  have hnil : names = [] := List.eq_nil_of_length_eq_zero (by omega)
  exact hne hnil

end Transfer
end DartSync
