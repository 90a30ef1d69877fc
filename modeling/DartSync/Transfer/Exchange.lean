import DartSync.Common.PeerWire
import DartSync.Transfer.Frames
import DartSync.Transfer.Requests

/-!
# A piece request and its answer

Both sides of a piece download: the request that `piece_download` of
`peer/peer.c` sends with `download_send` of `peer/p2p.c`, the upload that
`ptp_listening` starts for it on the other peer, and the bytes that come back.
-/

namespace DartSync
namespace Transfer

open Foundation

abbrev Files := List UInt8 -> Option (List UInt8)

structure Uploader where
  dir : SyncDir
  files : Files

/-- What lies in memory: in and behind `request_pkt` on the stack of
`recv_data_request`, and behind the blocks that `uncompress` fills. -/
structure Surroundings where
  stale : List UInt8
  behind : List UInt8
  after : Nat -> List UInt8

/-- What `download_send` sends; the packet comes from `calloc`. -/
def request (filename : FileName) (offset size : UInt64) (pieceNum : Int32) :
    List UInt8 :=
  requestCodec.encode (filename.array, offset, size, pieceNum)

/-- What a `ptp_upload` thread sends before it closes the connection: nothing if
the file cannot be opened. -/
def ptpUpload (z : Zlib) (files : Files) (upload : Upload) :
    Option (List UInt8) :=
  match files upload.file_path with
  | none => some []
  | some content => uploadPiece z content upload.offset upload.size

/-- The bytes that `piece_download` appends for a request; `none` if one of the
two processes faults or exits. -/
def exchange (z : Zlib) (uploader : Uploader) (m : Surroundings)
    (filename : FileName) (offset size : UInt64) (pieceNum : Int32) :
    Option (List UInt8) :=
  ((ptpListening uploader.dir m.stale m.behind
      (request filename offset size pieceNum)).bind
    (ptpUpload z uploader.files)).bind (downloadPiece z m.after size)

section Exchange

variable {z : Zlib} {uploader : Uploader} {m : Surroundings}
  {filename : FileName} {offset size : UInt64} {pieceNum : Int32}
  {content : List UInt8}

theorem length_request :
    (request filename offset size pieceNum).length = requestCodec.size :=
  requestCodec.length_encode _

theorem requestedName_request :
    requestedName (request filename offset size pieceNum) =
      filename.bytes := by
  have harray : (Codec.byte.vector FILE_NAME_LEN).encode filename.array =
      pad filename.bytes FILE_NAME_LEN :=
    List.flatMap_singleton' _
  have hlength : (pad filename.bytes FILE_NAME_LEN).length = FILE_NAME_LEN :=
    length_pad (Nat.le_of_lt filename.fits)
  have hname : (request filename offset size pieceNum).take FILE_NAME_LEN =
      pad filename.bytes FILE_NAME_LEN := by
    unfold request requestCodec Codec.prod
    dsimp only
    rw [harray, List.take_left' hlength]
  unfold requestedName
  rw [hname, cstr_pad filename.noNul]

theorem ptpListening_request (dir : SyncDir) (stale behind : List UInt8) :
    ptpListening dir stale behind (request filename offset size pieceNum) =
      if dir.path.length + filename.bytes.length < FILE_NAME_LEN then
        some
          { file_path := dir.path ++ filename.bytes
            pieceNum := pieceNum
            offset := offset
            size := size }
      else none := by
  have hlength := @length_request filename offset size pieceNum
  have hdecode := requestCodec.decode_encode
    (filename.array, offset, size, pieceNum) []
  rw [List.append_nil] at hdecode
  rw [ptpListening_of_complete (Nat.le_of_eq hlength.symm),
    requestedName_request, ← hlength, List.take_length]
  unfold request
  rw [hdecode]

theorem exchange_eq (hfits :
    uploader.dir.path.length + filename.bytes.length < FILE_NAME_LEN)
    (hfile : uploader.files (uploader.dir.path ++ filename.bytes) =
      some content) :
    exchange z uploader m filename offset size pieceNum =
      (uploadPiece z content offset size).bind
        (downloadPiece z m.after size) := by
  unfold exchange
  rw [ptpListening_request, if_pos hfits, Option.bind_some]
  unfold ptpUpload
  rw [hfile]

theorem exchange_eq_transfer (hfits :
    uploader.dir.path.length + filename.bytes.length < FILE_NAME_LEN)
    (hfile : uploader.files (uploader.dir.path ++ filename.bytes) =
      some content) (hsize : size.toNat < 2 ^ 31) :
    exchange z uploader m filename offset size pieceNum =
      transfer z m.after content offset size := by
  have hint : (Int32.ofNat size.toNat).toInt = size.toNat :=
    Int32.toInt_ofNat_of_lt hsize
  have hnonneg : ¬ (Int32.ofNat size.toNat).toInt < 0 := by omega
  have hdownload : downloadPiece z m.after size =
      pieceDownload z m.after size := by
    funext conn
    exact if_neg hnonneg
  rw [exchange_eq hfits hfile, hdownload, uploadPiece, if_neg hnonneg]
  rfl

theorem exchange_eq_piece_iff (hz : z.Lawful) (hfits :
    uploader.dir.path.length + filename.bytes.length < FILE_NAME_LEN)
    (hfile : uploader.files (uploader.dir.path ++ filename.bytes) =
      some content) (hsize : size.toNat < 2 ^ 31)
    (hinside : offset.toNat + size.toNat ≤ content.length) :
    exchange z uploader m filename offset size pieceNum =
        some (pieceOf content offset size) <->
      forall i, i < pktCount size.toNat ->
        Survives z m.after (pieceOf content offset size) i := by
  rw [exchange_eq_transfer hfits hfile hsize]
  exact transfer_iff hz m.after hsize hinside

end Exchange

end Transfer
end DartSync
