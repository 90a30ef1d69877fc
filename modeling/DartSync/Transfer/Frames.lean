import DartSync.Transfer.Piece

/-!
# Frames

What `upload_send` sends for a piece is a sequence of frames, one for each
packet: the number of compressed bytes as a machine word, then these bytes.
`piece_download` reads them with two calls of `recv` for each frame.

Of zlib it is used here that its output does not start with a zero, as the
first byte names the compression method, and that the length of the output is
an `unsigned long`.
-/

namespace DartSync
namespace Transfer

open Foundation

structure Zlib.Format (z : Zlib) : Prop where
  head : forall x, x.length ≤ MAX_DATA_LEN ->
    exists first rest, z.compress x = first :: rest ∧ first ≠ 0
  length_lt : forall x, x.length ≤ MAX_DATA_LEN ->
    (z.compress x).length < 2 ^ 64

def payload (z : Zlib) (piece : List UInt8) (i : Nat) : List UInt8 :=
  z.compress (copied piece i)

def frame (bytes : List UInt8) : List UInt8 :=
  Codec.uint64.encode (UInt64.ofNat bytes.length) ++ bytes

def frameStream (payload : Nat -> List UInt8) : Nat -> Nat -> List UInt8
  | 0, _ => []
  | left + 1, i => frame (payload i) ++ frameStream payload left (i + 1)

def sentBytes (z : Zlib) (piece : List UInt8) : List UInt8 :=
  frameStream (payload z piece) (pktCount piece.length) 0

/-- The buffer of `upload_send`: what the file has of the piece, and zeros. -/
def uploadBuffer (content : List UInt8) (offset size : UInt64) : List UInt8 :=
  pad ((content.drop offset.toNat).take (intOf size)) (intOf size)

/-- `upload_send` for offsets below `2 ^ 63`, which has no buffer for a negative
`fileLen`. -/
def uploadPiece (z : Zlib) (content : List UInt8) (offset size : UInt64) :
    Option (List UInt8) :=
  if (Int32.ofNat size.toNat).toInt < 0 then none
  else uploadSend z content offset size

/-- `piece_download`, which has no buffer for a negative `size`. -/
def downloadPiece (z : Zlib) (after : Nat -> List UInt8) (size : UInt64)
    (conn : List UInt8) : Option (List UInt8) :=
  if (Int32.ofNat size.toNat).toInt < 0 then none
  else pieceDownload z after size conn

theorem length_copied_le (piece : List UInt8) (i : Nat) :
    (copied piece i).length ≤ MAX_DATA_LEN := by
  rw [length_copied]
  exact length_chunk_le piece i

theorem Zlib.Format.head_payload {z : Zlib} (h : z.Format)
    (piece : List UInt8) (i : Nat) :
    exists first rest, payload z piece i = first :: rest ∧ first ≠ 0 :=
  h.head _ (length_copied_le piece i)

theorem Zlib.Format.length_payload {z : Zlib} (h : z.Format)
    (piece : List UInt8) (i : Nat) : (payload z piece i).length < 2 ^ 64 :=
  h.length_lt _ (length_copied_le piece i)

theorem Zlib.Lawful.uncompress_payload {z : Zlib} (h : z.Lawful)
    (piece : List UInt8) (i : Nat) :
    z.uncompress MAX_DATA_LEN (payload z piece i) = some (copied piece i) :=
  h _ (length_copied_le piece i)

theorem length_uploadBuffer (content : List UInt8) (offset size : UInt64) :
    (uploadBuffer content offset size).length = intOf size :=
  length_pad (List.length_take_le _ _)

theorem sendLoop_of_fits {z : Zlib} {piece : List UInt8} {left i : Nat}
    (hcount : i + left ≤ pktCount piece.length)
    (hfits : forall k, k < left ->
      (payload z piece (i + k)).length ≤ MAX_DATA_LEN) :
    sendLoop z piece piece.length left i =
      some (frameStream (payload z piece) left i) := by
  induction left generalizing i with
  | zero => rfl
  | succ left ih =>
      have hfirst : (z.compress (copied piece i)).length ≤ MAX_DATA_LEN :=
        hfits 0 (Nat.succ_pos left)
      have hrest := @ih (i + 1) (by omega) (by
        intro k hk
        rw [Nat.succ_add_eq_add_succ]
        exact hfits (k + 1) (Nat.succ_lt_succ hk))
      rw [sendLoop, sendPkt_eq (by omega), if_pos hfirst, hrest]
      rfl

theorem sendLoop_eq_frameStream {z : Zlib} {piece stream : List UInt8}
    {left i : Nat} (hcount : i + left ≤ pktCount piece.length)
    (h : sendLoop z piece piece.length left i = some stream) :
    stream = frameStream (payload z piece) left i := by
  induction left generalizing i stream with
  | zero =>
      cases h
      rfl
  | succ left ih =>
      rw [sendLoop, sendPkt_eq (by omega)] at h
      split at h
      · cases h
      · next sent hsent =>
          split at hsent
          · cases hsent
            rcases Option.map_eq_some_iff.mp h with ⟨later, hlater, rfl⟩
            rw [ih (by omega) hlater]
            rfl
          · cases hsent

theorem uploadPiece_eq_sentBytes {z : Zlib} {content stream : List UInt8}
    {offset size : UInt64} (h : uploadPiece z content offset size = some stream) :
    stream = sentBytes z (uploadBuffer content offset size) := by
  have hlength := length_uploadBuffer content offset size
  unfold uploadPiece at h
  split at h
  · cases h
  · unfold sentBytes
    rw [hlength]
    apply sendLoop_eq_frameStream (by rw [hlength, Nat.zero_add])
    rw [hlength]
    exact h

theorem uploadPiece_of_fits {z : Zlib} {content : List UInt8}
    {offset size : UInt64} (hsize : 0 ≤ (Int32.ofNat size.toNat).toInt)
    (hfits : forall i, i < pktCount (intOf size) ->
      (payload z (uploadBuffer content offset size) i).length ≤
        MAX_DATA_LEN) :
    uploadPiece z content offset size =
      some (sentBytes z (uploadBuffer content offset size)) := by
  have hlength := length_uploadBuffer content offset size
  have hloop := @sendLoop_of_fits z (uploadBuffer content offset size)
    (pktCount (intOf size)) 0 (by rw [hlength, Nat.zero_add]) (by
      intro i hi
      rw [Nat.zero_add]
      exact hfits i hi)
  rw [hlength] at hloop
  unfold uploadPiece sentBytes
  rw [if_neg (Int.not_lt.mpr hsize), hlength]
  exact hloop

theorem Sample.uploadPiece_letter :
    uploadPiece Sample.deflate [97] 0 1 =
      some (frame [120, 156, 75, 4, 0, 0, 98, 0, 98]) := by
  apply uploadPiece_of_fits (by decide)
  intro i hi
  rw [Nat.lt_one_iff.mp hi]
  decide

theorem Sample.uploadBuffer_letters :
    uploadBuffer Sample.letters 0 1465 = Sample.letters := by
  have htake : (Sample.letters.drop (0 : UInt64).toNat).take
      (intOf (1465 : UInt64)) = Sample.letters :=
    List.take_of_length_le (Nat.le_of_eq Sample.length_letters)
  unfold uploadBuffer
  rw [htake, show intOf (1465 : UInt64) = Sample.letters.length from
    Sample.length_letters.symm, pad_length]

theorem Sample.payload_letters :
    payload Sample.deflate Sample.letters 0 = Sample.packed ∧
      payload Sample.deflate Sample.letters 1 =
        [120, 156, 75, 4, 0, 0, 98, 0, 98] := by
  unfold payload
  rw [copied_of_padded (Sample.kept_letters 0).padded,
    copied_of_padded (Sample.kept_letters 1).padded,
    Sample.chunk_letters.left, Sample.chunk_letters.right,
    Sample.compress_fullPacket]
  exact ⟨rfl, rfl⟩

theorem Sample.sentBytes_letters :
    sentBytes Sample.deflate Sample.letters = frame Sample.packed ++
      frame [120, 156, 75, 4, 0, 0, 98, 0, 98] := by
  unfold sentBytes
  rw [Sample.length_letters, show pktCount 1465 = 2 from rfl, frameStream,
    frameStream, frameStream, Sample.payload_letters.left,
    Sample.payload_letters.right, List.append_nil]

theorem Sample.uploadPiece_letters :
    uploadPiece Sample.deflate Sample.letters 0 1465 =
      some (frame Sample.packed ++
        frame [120, 156, 75, 4, 0, 0, 98, 0, 98]) := by
  rw [uploadPiece_of_fits (by decide), Sample.uploadBuffer_letters,
    Sample.sentBytes_letters]
  intro i hi
  rw [Sample.uploadBuffer_letters]
  cases Nat.lt_or_ge i 1 with
  | inl hfirst =>
      rw [Nat.lt_one_iff.mp hfirst, Sample.payload_letters.left]
      decide
  | inr hlast =>
      have hlt : i < 2 := hi
      have hone : i = 1 := by omega
      rw [hone, Sample.payload_letters.right]
      decide

theorem Sample.deflate_format : Sample.deflate.Format where
  head := by
    intro x _
    unfold Sample.deflate
    dsimp only
    split
    · exact ⟨120, _, rfl, by decide⟩
    · split
      · exact ⟨120, _, rfl, by decide⟩
      · split
        · exact ⟨120, _, rfl, by decide⟩
        · exact ⟨1, _, rfl, by decide⟩
  length_lt := by
    intro x hx
    unfold Sample.deflate
    dsimp only
    split
    · decide
    · split
      · decide
      · split
        · decide
        · rw [List.length_cons, List.length_append, List.length_singleton]
          exact Nat.lt_of_le_of_lt (Nat.add_le_add_right hx 2)
            (show MAX_DATA_LEN + 2 < 2 ^ 64 by decide)

end Transfer
end DartSync
