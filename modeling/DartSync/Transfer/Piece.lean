import DartSync.Common.Constant
import DartSync.Foundation.Codec
import DartSync.Foundation.Memory

/-!
# Transferring a piece

`upload_send` of `peer/p2p.c` and the receiving loop of `piece_download` of
`peer/peer.c`, for one piece of a file.  Sizes are cast to `int` on both sides
and do not get negative here.
-/

namespace DartSync
namespace Transfer

open Foundation

/-- `compress` and `uncompress` of zlib; `uncompress` gets the size of its
destination, and `compress` has room enough. -/
structure Zlib where
  compress : List UInt8 -> List UInt8
  uncompress : Nat -> List UInt8 -> Option (List UInt8)

def Zlib.Lawful (z : Zlib) : Prop :=
  forall x, x.length ≤ MAX_DATA_LEN ->
    z.uncompress MAX_DATA_LEN (z.compress x) = some x

def pktCount (fileLen : Nat) : Nat :=
  fileLen / MAX_DATA_LEN + if fileLen % MAX_DATA_LEN > 0 then 1 else 0

def intOf (size : UInt64) : Nat :=
  (Int32.ofNat size.toNat).toInt.toNat

/-!
## Sending
-/

def pktLength (fileLen i : Nat) : Nat :=
  if fileLen % MAX_DATA_LEN > 0 ∧ i = pktCount fileLen - 1 then
    fileLen % MAX_DATA_LEN
  else MAX_DATA_LEN

/-- The bytes sent for packet `i`.  The compressed piece is also copied into
the packet, which must hold it. -/
def sendPkt (z : Zlib) (buffer : List UInt8) (fileLen i : Nat) :
    Option (List UInt8) :=
  let length := pktLength fileLen i
  let data := pad ((buffer.drop (i * MAX_DATA_LEN)).take length) MAX_DATA_LEN
  let source := strncpy data length
  let compPiece := z.compress source
  (memmove data 0 (strncpy compPiece compPiece.length)).map fun _ =>
    Codec.uint64.encode (UInt64.ofNat compPiece.length) ++ compPiece

def sendLoop (z : Zlib) (buffer : List UInt8) (fileLen : Nat) :
    Nat -> Nat -> Option (List UInt8)
  | 0, _ => some []
  | left + 1, i =>
      match sendPkt z buffer fileLen i with
      | none => none
      | some sent => (sendLoop z buffer fileLen left (i + 1)).map (sent ++ ·)

/-- The bytes sent for a piece of a file, whose offset is below `2 ^ 63`: from
there on `fseek` fails and the file is read from its start. -/
def uploadSend (z : Zlib) (content : List UInt8) (offset size : UInt64) :
    Option (List UInt8) :=
  let fileLen := intOf size
  let buffer := pad ((content.drop offset.toNat).take fileLen) fileLen
  sendLoop z buffer fileLen (pktCount fileLen) 0

/-!
## Receiving

The block that `uncompress` fills ends with the last byte uncompressed;
`after i` is what lies in memory after the block of packet `i`.
-/

def recvInto (n : Nat) (conn : List UInt8) : List UInt8 × List UInt8 :=
  (pad (conn.take n) n, conn.drop n)

/-- One uncompressed block, and what is left to receive. -/
def recvBlock (z : Zlib) (conn : List UInt8) :
    Option (List UInt8 × List UInt8) :=
  let (header, conn) := recvInto Codec.uint64.size conn
  let compLen := (Codec.uint64.decode header).toNat
  let (source, conn) := recvInto compLen conn
  (z.uncompress MAX_DATA_LEN source).map fun decompString =>
    (decompString, conn)

/-- Each block is copied up to its first zero byte, as `strlen` has it. -/
def recvLoop (z : Zlib) (after : Nat -> List UInt8) :
    Nat -> Nat -> List UInt8 -> List UInt8 -> Option (List UInt8)
  | 0, _, buffer, _ => some buffer
  | left + 1, i, buffer, conn =>
      match recvBlock z conn with
      | none => none
      | some (decompString, conn) =>
          (memmove buffer (i * MAX_DATA_LEN)
              (cstr (decompString ++ after i))).bind fun buffer =>
            recvLoop z after left (i + 1) buffer conn

/-- The bytes appended to the temporary file. -/
def pieceDownload (z : Zlib) (after : Nat -> List UInt8) (size : UInt64)
    (conn : List UInt8) : Option (List UInt8) :=
  let size := intOf size
  recvLoop z after (pktCount size) 0 (List.replicate size 0) conn

def transfer (z : Zlib) (after : Nat -> List UInt8) (content : List UInt8)
    (offset size : UInt64) : Option (List UInt8) :=
  (uploadSend z content offset size).bind (pieceDownload z after size)

/-!
## Packets and chunks
-/

def chunk (piece : List UInt8) (i : Nat) : List UInt8 :=
  (piece.drop (i * MAX_DATA_LEN)).take MAX_DATA_LEN

/-- What is compressed for packet `i`. -/
def copied (piece : List UInt8) (i : Nat) : List UInt8 :=
  pad (cstr (chunk piece i)) (chunk piece i).length

theorem intOf_eq {size : UInt64} (h : size.toNat < 2 ^ 31) :
    intOf size = size.toNat := by
  unfold intOf
  rw [Int32.toInt_ofNat_of_lt h, Int.toNat_natCast]

theorem pktCount_zero : pktCount 0 = 0 := rfl

theorem pktCount_of_pos {n : Nat} (h : 0 < n) :
    pktCount n = pktCount (n - MAX_DATA_LEN) + 1 := by
  unfold pktCount
  simp only [MAX_DATA_LEN]
  split <;> split <;> omega

theorem eq_zero_of_pktCount {n : Nat} (h : pktCount n = 0) : n = 0 := by
  cases Nat.eq_zero_or_pos n with
  | inl hzero => exact hzero
  | inr hpositive =>
      rw [pktCount_of_pos hpositive] at h
      cases h

theorem length_chunk (piece : List UInt8) (i : Nat) :
    (chunk piece i).length =
      min MAX_DATA_LEN (piece.length - i * MAX_DATA_LEN) := by
  rw [chunk, List.length_take, List.length_drop]

theorem length_chunk_le (piece : List UInt8) (i : Nat) :
    (chunk piece i).length ≤ MAX_DATA_LEN := by
  rw [length_chunk]
  exact Nat.min_le_left _ _

theorem pktLength_eq {piece : List UInt8} {i : Nat}
    (h : i < pktCount piece.length) :
    pktLength piece.length i = (chunk piece i).length := by
  rw [length_chunk]
  unfold pktLength
  unfold pktCount at h ⊢
  cases Nat.eq_zero_or_pos (piece.length % MAX_DATA_LEN) with
  | inl hfull =>
      rw [if_neg (by omega)] at h
      rw [if_neg (by omega)]
      simp only [MAX_DATA_LEN] at h hfull ⊢
      omega
  | inr hremainder =>
      rw [if_pos hremainder] at h
      simp only [if_pos hremainder]
      simp only [MAX_DATA_LEN] at h hremainder ⊢
      split <;> omega

theorem length_copied (piece : List UInt8) (i : Nat) :
    (copied piece i).length = (chunk piece i).length :=
  length_pad (length_cstr_le _)

theorem copied_of_padded {piece : List UInt8} {i : Nat}
    (h : Padded (chunk piece i)) : copied piece i = chunk piece i :=
  (padded_iff.mp h).symm

/-!
## The stream
-/

section Stream

variable {z : Zlib} {piece : List UInt8}

theorem strncpy_data {length : Nat} {found : List UInt8}
    (hlength : found.length = length) (h : length ≤ MAX_DATA_LEN) :
    strncpy (pad found MAX_DATA_LEN) length = pad (cstr found) length := by
  rw [← hlength] at h ⊢
  have htake : (pad found MAX_DATA_LEN).take found.length = found := by
    rw [take_pad h h, List.take_length, pad, Nat.sub_self,
      List.replicate_zero, List.append_nil]
  rw [strncpy, htake]

theorem sendPkt_eq {i : Nat} (h : i < pktCount piece.length) :
    sendPkt z piece piece.length i =
      if (z.compress (copied piece i)).length ≤ MAX_DATA_LEN then
        some (Codec.uint64.encode
            (UInt64.ofNat (z.compress (copied piece i)).length) ++
          z.compress (copied piece i))
      else none := by
  have hlength := pktLength_eq h
  have hbound := length_chunk_le piece i
  have hfound : (piece.drop (i * MAX_DATA_LEN)).take (chunk piece i).length =
      chunk piece i := by
    rw [chunk, List.length_take, ← List.take_eq_take_min]
  unfold sendPkt
  rw [hlength]
  dsimp only
  rw [hfound, strncpy_data rfl hbound, memmove, length_strncpy,
    length_pad hbound, Nat.zero_add]
  split
  · next hfits =>
      rw [if_pos (by exact hfits)]
      rfl
  · next hlarge =>
      rw [if_neg (by exact hlarge)]
      rfl

theorem recvInto_append (bytes rest : List UInt8) :
    recvInto bytes.length (bytes ++ rest) = (bytes, rest) := by
  unfold recvInto
  rw [List.take_left, List.drop_left, pad, Nat.sub_self, List.replicate_zero,
    List.append_nil]

theorem recvBlock_sent (hz : z.Lawful) {x : List UInt8}
    (hx : x.length ≤ MAX_DATA_LEN)
    (hfits : (z.compress x).length ≤ MAX_DATA_LEN) (rest : List UInt8) :
    recvBlock z (Codec.uint64.encode (UInt64.ofNat (z.compress x).length) ++
      z.compress x ++ rest) = some (x, rest) := by
  have hword := Codec.uint64.length_encode
    (UInt64.ofNat (z.compress x).length)
  have hheader := recvInto_append
    (Codec.uint64.encode (UInt64.ofNat (z.compress x).length))
    (z.compress x ++ rest)
  have hdecode := Codec.uint64.decode_encode
    (UInt64.ofNat (z.compress x).length) []
  have hlength : (UInt64.ofNat (z.compress x).length).toNat =
      (z.compress x).length := by
    apply UInt64.toNat_ofNat_of_lt'
    exact Nat.lt_of_le_of_lt hfits (by decide)
  rw [hword] at hheader
  rw [List.append_nil] at hdecode
  unfold recvBlock
  rw [List.append_assoc, hheader]
  dsimp only
  rw [hdecode, hlength, recvInto_append]
  dsimp only
  rw [hz x hx]
  rfl

def place (strings : Nat -> List UInt8) :
    Nat -> Nat -> List UInt8 -> Option (List UInt8)
  | 0, _, buffer => some buffer
  | left + 1, i, buffer =>
      (memmove buffer (i * MAX_DATA_LEN) (strings i)).bind fun buffer =>
        place strings left (i + 1) buffer

/-- The string found at the block of packet `i`: the zero that ends it is that
of the chunk, or one that lies after the block. -/
def found (after : Nat -> List UInt8) (piece : List UInt8) (i : Nat) :
    List UInt8 :=
  cstr (chunk piece i ++ after i)

theorem cstr_copied (after : Nat -> List UInt8) (piece : List UInt8)
    (i : Nat) : cstr (copied piece i ++ after i) = found after piece i := by
  cases Classical.em ((0 : UInt8) ∈ chunk piece i) with
  | inl hzero =>
      have hpad := zero_mem_pad (length_cstr_lt hzero)
      unfold found copied
      rw [cstr_append_of_zero hpad, cstr_append_of_zero hzero,
        cstr_pad (zero_not_mem_cstr _)]
  | inr hno =>
      unfold found copied
      rw [cstr_of_no_zero hno, pad, Nat.sub_self, List.replicate_zero,
        List.append_nil]

theorem sendLoop_of_large {left i k : Nat}
    (hcount : i + left ≤ pktCount piece.length) (hk : k < left)
    (hlarge : ¬ (z.compress (copied piece (i + k))).length ≤ MAX_DATA_LEN) :
    sendLoop z piece piece.length left i = none := by
  induction left generalizing i k with
  | zero => cases hk
  | succ left ih =>
      rw [sendLoop, sendPkt_eq (by omega)]
      cases k with
      | zero =>
          rw [Nat.add_zero] at hlarge
          rw [if_neg hlarge]
      | succ k =>
          have hrest := @ih (i + 1) k (by omega) (by omega)
            (by rw [Nat.add_right_comm, Nat.add_assoc]; exact hlarge)
          rw [hrest]
          split <;> rfl

theorem recvLoop_sendLoop (hz : z.Lawful) (after : Nat -> List UInt8)
    {left i : Nat} (hcount : i + left ≤ pktCount piece.length)
    (hfits : forall k, k < left ->
      (z.compress (copied piece (i + k))).length ≤ MAX_DATA_LEN) :
    exists conn, sendLoop z piece piece.length left i = some conn ∧
      forall buffer, recvLoop z after left i buffer conn =
        place (found after piece) left i buffer := by
  induction left generalizing i with
  | zero => exact ⟨[], rfl, fun _ => rfl⟩
  | succ left ih =>
      have hfirst := hfits 0 (Nat.succ_pos left)
      rw [Nat.add_zero] at hfirst
      rcases @ih (i + 1) (by omega) (by
        intro k hk
        rw [Nat.add_right_comm, Nat.add_assoc]
        exact hfits (k + 1) (Nat.succ_lt_succ hk)) with ⟨conn, hconn, hrest⟩
      have hblock := recvBlock_sent hz
        (Nat.le_trans (Nat.le_of_eq (length_copied piece i))
          (length_chunk_le piece i)) hfirst conn
      rw [sendLoop, sendPkt_eq (by omega), if_pos hfirst, hconn]
      refine ⟨_, rfl, ?_⟩
      intro buffer
      rw [recvLoop, place, hblock]
      dsimp only
      rw [cstr_copied]
      congr 1
      funext written
      exact hrest written

end Stream

/-!
## The buffer
-/

section Buffer

variable {after : Nat -> List UInt8} {piece : List UInt8}

/-- Packet `i` is kept by the string functions: after a zero it has only zeros;
and if it has none, then the bytes up to the first zero after its block are
overwritten, or do not exist. -/
structure Kept (after : Nat -> List UInt8) (piece : List UInt8) (i : Nat) :
    Prop where
  padded : Padded (chunk piece i)
  covered : (0 : UInt8) ∉ chunk piece i -> (cstr (after i)).length ≤
    (cstr (piece.drop ((i + 1) * MAX_DATA_LEN))).length

theorem take_place {strings : Nat -> List UInt8} {left i : Nat}
    {buffer out : List UInt8} (h : place strings left i buffer = some out) :
    out.take (i * MAX_DATA_LEN) = buffer.take (i * MAX_DATA_LEN) := by
  induction left generalizing i buffer with
  | zero =>
      cases h
      rfl
  | succ left ih =>
      rw [place, memmove] at h
      split at h
      · next hfits =>
          have hrest := congrArg (List.take (i * MAX_DATA_LEN)) (ih h)
          rw [List.take_take, List.take_take, Nat.succ_mul,
            Nat.min_eq_left (Nat.le_add_right _ _)] at hrest
          have hinside : i * MAX_DATA_LEN ≤
              (buffer.take (i * MAX_DATA_LEN)).length := by
            rw [List.length_take]
            exact Nat.le_min.mpr ⟨Nat.le_refl _,
              Nat.le_trans (Nat.le_add_right _ _) hfits⟩
          rw [hrest, List.append_assoc,
            List.take_append_of_le_length hinside, List.take_take,
            Nat.min_self]
      · cases h

theorem drop_eq_chunk (piece : List UInt8) (i : Nat) :
    piece.drop (i * MAX_DATA_LEN) =
      chunk piece i ++ piece.drop ((i + 1) * MAX_DATA_LEN) := by
  have hdrop : piece.drop ((i + 1) * MAX_DATA_LEN) =
      (piece.drop (i * MAX_DATA_LEN)).drop MAX_DATA_LEN := by
    rw [List.drop_drop, Nat.succ_mul]
  rw [hdrop]
  exact (List.take_append_drop _ _).symm

theorem found_of_zero {i : Nat} (h : (0 : UInt8) ∈ chunk piece i) :
    found after piece i = cstr (piece.drop (i * MAX_DATA_LEN)) := by
  rw [drop_eq_chunk, found, cstr_append_of_zero h, cstr_append_of_zero h]

theorem found_of_no_zero {i : Nat} (h : (0 : UInt8) ∉ chunk piece i) :
    found after piece i = chunk piece i ++ cstr (after i) :=
  cstr_append_of_no_zero h

theorem length_rest (piece : List UInt8) (i : Nat) :
    (piece.drop ((i + 1) * MAX_DATA_LEN)).length =
      piece.length - i * MAX_DATA_LEN - MAX_DATA_LEN := by
  rw [List.length_drop, Nat.succ_mul, Nat.sub_add_eq]

theorem length_append_chunk {done : List UInt8} {i : Nat}
    (hdone : done.length = i * MAX_DATA_LEN)
    (hmore : piece.length - (i + 1) * MAX_DATA_LEN ≠ 0) :
    (done ++ chunk piece i).length = (i + 1) * MAX_DATA_LEN := by
  rw [Nat.succ_mul, Nat.sub_add_eq] at hmore
  rw [List.length_append, hdone, length_chunk,
    Nat.min_eq_left (Nat.le_of_lt (Nat.lt_of_sub_ne_zero hmore)),
    Nat.succ_mul]

theorem written_iff {i : Nat} {stale : List UInt8}
    (hstale : (0 : UInt8) ∉ stale)
    (hlength : stale.length ≤ piece.length - i * MAX_DATA_LEN) :
    ((found after piece i).length ≤ piece.length - i * MAX_DATA_LEN ∧
      pad ((overwritten (found after piece i) stale).take
        (chunk piece i).length) (chunk piece i).length = chunk piece i ∧
      ((overwritten (found after piece i) stale).drop MAX_DATA_LEN).length ≤
        (cstr (piece.drop ((i + 1) * MAX_DATA_LEN))).length) <->
      stale.length ≤ (cstr (piece.drop (i * MAX_DATA_LEN))).length ∧
        Kept after piece i := by
  have hchunk := length_chunk piece i
  have hfound : (0 : UInt8) ∉ found after piece i := zero_not_mem_cstr _
  have hclean := zero_not_mem_overwritten hfound hstale
  have htake : (0 : UInt8) ∉ (overwritten (found after piece i) stale).take
      (chunk piece i).length := fun h => hclean (List.mem_of_mem_take h)
  have hover := length_overwritten (found after piece i) stale
  have hrest := length_cstr_le (piece.drop ((i + 1) * MAX_DATA_LEN))
  rw [length_rest] at hrest
  rw [pad_eq_iff htake, List.length_drop]
  cases Classical.em ((0 : UInt8) ∈ chunk piece i) with
  | inl hzero =>
      have hcstr : found after piece i = cstr (chunk piece i) :=
        cstr_append_of_zero hzero
      have hshort := length_cstr_lt hzero
      rw [← hcstr] at hshort
      rw [← @found_of_zero after piece i hzero, ← hcstr]
      constructor
      · intro h
        have hkept := congrArg List.length h.right.left.right
        rw [List.length_take] at hkept
        refine ⟨by omega, h.right.left.left, ?_⟩
        intro hno
        exact absurd hzero hno
      · intro h
        have hover' : overwritten (found after piece i) stale =
            found after piece i := by
          rw [overwritten, List.drop_of_length_le h.left, List.append_nil]
        rw [hover'] at hover ⊢
        refine ⟨by omega, ⟨h.right.padded, ?_⟩, by omega⟩
        exact List.take_of_length_le (Nat.le_of_lt hshort)
  | inr hno =>
      have hlong := congrArg List.length (@found_of_no_zero after piece i hno)
      have hkept : (overwritten (found after piece i) stale).take
          (chunk piece i).length = cstr (chunk piece i) := by
        rw [overwritten, found_of_no_zero hno, List.append_assoc,
          List.take_left, cstr_of_no_zero hno]
      rw [List.length_append] at hlong
      rw [drop_eq_chunk piece i, cstr_append_of_no_zero hno,
        List.length_append]
      constructor
      · intro h
        refine ⟨by omega, padded_of_no_zero hno, ?_⟩
        intro _
        omega
      · intro h
        have hcovered := h.right.covered hno
        exact ⟨by omega, ⟨padded_of_no_zero hno, hkept⟩, by omega⟩

theorem place_succ_iff {left i : Nat} {done stale : List UInt8}
    (hdone : done.length = i * MAX_DATA_LEN)
    (hlength : stale.length ≤ piece.length - i * MAX_DATA_LEN) :
    place (found after piece) (left + 1) i
        (done ++ pad stale (piece.length - i * MAX_DATA_LEN)) =
        some (done ++ piece.drop (i * MAX_DATA_LEN)) <->
      (found after piece i).length ≤ piece.length - i * MAX_DATA_LEN ∧
        pad ((overwritten (found after piece i) stale).take
          (chunk piece i).length) (chunk piece i).length = chunk piece i ∧
        place (found after piece) left (i + 1)
          (done ++ chunk piece i ++
            pad ((overwritten (found after piece i) stale).drop MAX_DATA_LEN)
              (piece.length - (i + 1) * MAX_DATA_LEN)) =
          some (done ++ chunk piece i ++
            piece.drop ((i + 1) * MAX_DATA_LEN)) := by
  have hwrite := memmove_append done
    (pad stale (piece.length - i * MAX_DATA_LEN)) (found after piece i)
  rw [length_pad hlength, append_drop_pad, hdone] at hwrite
  rw [place, hwrite]
  cases Nat.lt_or_ge (piece.length - i * MAX_DATA_LEN)
      (found after piece i).length with
  | inl hlarge =>
      rw [if_neg (by omega)]
      apply iff_of_false
      · intro h
        cases h
      · intro h
        omega
  | inr hfits =>
      rw [if_pos hfits, Option.bind_some]
      have hwritten : (overwritten (found after piece i) stale).length ≤
          piece.length - i * MAX_DATA_LEN := by
        rw [length_overwritten]
        omega
      have htake : (pad (overwritten (found after piece i) stale)
          (piece.length - i * MAX_DATA_LEN)).take MAX_DATA_LEN =
            pad ((overwritten (found after piece i) stale).take
              (chunk piece i).length) (chunk piece i).length := by
        rw [List.take_eq_take_min, length_pad hwritten, ← length_chunk]
        apply take_pad hwritten
        rw [length_chunk]
        exact Nat.min_le_right _ _
      have hdrop : (pad (overwritten (found after piece i) stale)
          (piece.length - i * MAX_DATA_LEN)).drop MAX_DATA_LEN =
            pad ((overwritten (found after piece i) stale).drop MAX_DATA_LEN)
              (piece.length - (i + 1) * MAX_DATA_LEN) := by
        rw [drop_pad, Nat.succ_mul, Nat.sub_add_eq]
      have hsplit := List.take_append_drop MAX_DATA_LEN
        (pad (overwritten (found after piece i) stale)
          (piece.length - i * MAX_DATA_LEN))
      rw [htake, hdrop] at hsplit
      rw [List.append_assoc, List.append_assoc, ← drop_eq_chunk]
      constructor
      · intro h
        have hkept := take_place h
        rw [Nat.succ_mul, ← hdone, List.take_length_add_append,
          List.take_length_add_append, hdone, htake] at hkept
        have hchunk := List.append_cancel_left hkept
        refine ⟨hfits, hchunk.symm, ?_⟩
        rw [← hsplit, ← hchunk] at h
        exact h
      · intro h
        rw [← hsplit, h.right.left]
        exact h.right.right

/-- `left` packets fill the rest of the buffer, which holds what earlier packets
have left there and zeros. -/
theorem place_iff {left i : Nat} {done stale : List UInt8}
    (hleft : left = pktCount (piece.length - i * MAX_DATA_LEN))
    (hdone : left ≠ 0 -> done.length = i * MAX_DATA_LEN)
    (hstale : (0 : UInt8) ∉ stale)
    (hlength : stale.length ≤ piece.length - i * MAX_DATA_LEN) :
    place (found after piece) left i
        (done ++ pad stale (piece.length - i * MAX_DATA_LEN)) =
        some (done ++ piece.drop (i * MAX_DATA_LEN)) <->
      stale.length ≤ (cstr (piece.drop (i * MAX_DATA_LEN))).length ∧
        forall k, k < left -> Kept after piece (i + k) := by
  induction left generalizing i done stale with
  | zero =>
      have hend := eq_zero_of_pktCount hleft.symm
      have hnil : stale = [] := by
        rw [hend] at hlength
        exact List.length_eq_zero_iff.mp (Nat.le_zero.mp hlength)
      rw [hend, hnil, List.drop_of_length_le (Nat.le_of_sub_eq_zero hend)]
      apply iff_of_true rfl
      constructor
      · exact Nat.zero_le _
      · intro k hk
        cases hk
  | succ left ih =>
      have hpositive : 0 < piece.length - i * MAX_DATA_LEN := by
        apply Nat.pos_of_ne_zero
        intro hzero
        rw [hzero, pktCount_zero] at hleft
        cases hleft
      rw [pktCount_of_pos hpositive, Nat.sub_sub, ← Nat.succ_mul,
        Nat.succ_inj] at hleft
      have hfound : (0 : UInt8) ∉ found after piece i := zero_not_mem_cstr _
      have hnext : left ≠ 0 ->
          (done ++ chunk piece i).length = (i + 1) * MAX_DATA_LEN := by
        intro hmore
        apply length_append_chunk (hdone (Nat.succ_ne_zero left))
        intro hzero
        rw [hzero, pktCount_zero] at hleft
        exact hmore hleft
      have hrest : (found after piece i).length ≤
          piece.length - i * MAX_DATA_LEN -> _ := fun hfits =>
        @ih (i + 1) (done ++ chunk piece i)
          ((overwritten (found after piece i) stale).drop MAX_DATA_LEN) hleft
          hnext
          (fun h => zero_not_mem_overwritten hfound hstale
            (List.mem_of_mem_drop h))
          (by
            rw [List.length_drop, length_overwritten, Nat.succ_mul,
              Nat.sub_add_eq]
            omega)
      rw [place_succ_iff (hdone (Nat.succ_ne_zero left)) hlength,
        Nat.forall_lt_succ_left]
      constructor
      · intro h
        rcases h with ⟨hfits, hchunk, hplace⟩
        rcases (hrest hfits).mp hplace with ⟨hcovered, hlater⟩
        rcases (written_iff hstale hlength).mp ⟨hfits, hchunk, hcovered⟩ with
          ⟨hstart, hkept⟩
        refine ⟨hstart, hkept, ?_⟩
        intro k hk
        rw [← Nat.succ_add_eq_add_succ]
        exact hlater k hk
      · intro h
        rcases h with ⟨hstart, hkept, hlater⟩
        rcases (written_iff hstale hlength).mpr ⟨hstart, hkept⟩ with
          ⟨hfits, hchunk, hcovered⟩
        refine ⟨hfits, hchunk, (hrest hfits).mpr ⟨hcovered, ?_⟩⟩
        intro k hk
        rw [Nat.succ_add_eq_add_succ]
        exact hlater k hk

end Buffer

/-!
## The result
-/

def pieceOf (content : List UInt8) (offset size : UInt64) : List UInt8 :=
  (content.drop offset.toNat).take size.toNat

/-- What packet `i` needs: its chunk is kept by the string functions, and does
not get longer than a packet when it is compressed. -/
def Survives (z : Zlib) (after : Nat -> List UInt8) (piece : List UInt8)
    (i : Nat) : Prop :=
  Kept after piece i ∧ (z.compress (chunk piece i)).length ≤ MAX_DATA_LEN

section Transfer

variable {z : Zlib} {content : List UInt8} {offset size : UInt64}

theorem length_pieceOf (hfile : offset.toNat + size.toNat ≤ content.length) :
    (pieceOf content offset size).length = size.toNat := by
  rw [pieceOf, List.length_take, List.length_drop]
  omega

theorem uploadSend_eq (hsize : size.toNat < 2 ^ 31)
    (hfile : offset.toNat + size.toNat ≤ content.length) :
    uploadSend z content offset size =
      sendLoop z (pieceOf content offset size)
        (pieceOf content offset size).length (pktCount size.toNat) 0 := by
  have hlength := length_pieceOf hfile
  unfold uploadSend
  dsimp only
  rw [intOf_eq hsize, hlength]
  congr 1
  have hread : (content.drop offset.toNat).take size.toNat =
      pieceOf content offset size := rfl
  rw [hread, pad, hlength, Nat.sub_self, List.replicate_zero, List.append_nil]

theorem place_all_iff {after : Nat -> List UInt8} {piece : List UInt8} :
    place (found after piece) (pktCount piece.length) 0
        (List.replicate piece.length 0) = some piece <->
      forall i, i < pktCount piece.length -> Kept after piece i := by
  have hplace := @place_iff after piece (pktCount piece.length) 0 [] []
    (by rw [Nat.zero_mul, Nat.sub_zero]) (fun _ => (Nat.zero_mul _).symm)
    List.not_mem_nil (Nat.zero_le _)
  rw [Nat.zero_mul, Nat.sub_zero, List.drop_zero, pad, List.nil_append,
    List.nil_append, List.nil_append, List.length_nil, Nat.sub_zero] at hplace
  rw [hplace]
  constructor
  · intro h i hi
    have hkept := h.right i hi
    rw [Nat.zero_add] at hkept
    exact hkept
  · intro h
    refine ⟨Nat.zero_le _, ?_⟩
    intro i hi
    rw [Nat.zero_add]
    exact h i hi

theorem transfer_of_fits (hz : z.Lawful) (after : Nat -> List UInt8)
    (hsize : size.toNat < 2 ^ 31)
    (hfile : offset.toNat + size.toNat ≤ content.length)
    (hfits : forall i, i < pktCount size.toNat ->
      (z.compress (copied (pieceOf content offset size) i)).length ≤
        MAX_DATA_LEN) :
    transfer z after content offset size =
        some (pieceOf content offset size) <->
      forall i, i < pktCount size.toNat ->
        Kept after (pieceOf content offset size) i := by
  have hlength := length_pieceOf hfile
  unfold transfer
  rw [uploadSend_eq hsize hfile]
  generalize pieceOf content offset size = piece at hlength hfits ⊢
  rw [← hlength] at hfits ⊢
  rcases @recvLoop_sendLoop z piece hz after (pktCount piece.length) 0
    (by omega) (by
      intro k hk
      rw [Nat.zero_add]
      exact hfits k hk) with ⟨conn, hconn, hrecv⟩
  rw [hconn, Option.bind_some, pieceDownload, intOf_eq hsize, ← hlength, hrecv,
    place_all_iff]

theorem transfer_of_large (after : Nat -> List UInt8)
    (hsize : size.toNat < 2 ^ 31)
    (hfile : offset.toNat + size.toNat ≤ content.length) {i : Nat}
    (hi : i < pktCount size.toNat)
    (hlarge : ¬ (z.compress (copied (pieceOf content offset size) i)).length ≤
      MAX_DATA_LEN) : transfer z after content offset size = none := by
  have hlength := length_pieceOf hfile
  unfold transfer
  rw [uploadSend_eq hsize hfile]
  rw [← hlength] at hi ⊢
  have hnone := @sendLoop_of_large z (pieceOf content offset size)
    (pktCount (pieceOf content offset size).length) 0 i (by omega) hi (by
      rw [Nat.zero_add]
      exact hlarge)
  rw [hnone]
  rfl

/-- A piece arrives as it is in the file exactly when all its packets survive. -/
theorem transfer_iff (hz : z.Lawful) (after : Nat -> List UInt8)
    (hsize : size.toNat < 2 ^ 31)
    (hfile : offset.toNat + size.toNat ≤ content.length) :
    transfer z after content offset size =
        some (pieceOf content offset size) <->
      forall i, i < pktCount size.toNat ->
        Survives z after (pieceOf content offset size) i := by
  cases Classical.em (forall i, i < pktCount size.toNat ->
      (z.compress (copied (pieceOf content offset size) i)).length ≤
        MAX_DATA_LEN) with
  | inl hfits =>
      rw [transfer_of_fits hz after hsize hfile hfits]
      constructor
      · intro h i hi
        refine ⟨h i hi, ?_⟩
        rw [← copied_of_padded (h i hi).padded]
        exact hfits i hi
      · intro h i hi
        exact (h i hi).left
  | inr hlarge =>
      rw [not_forall] at hlarge
      rcases hlarge with ⟨i, hlarge⟩
      rw [Classical.not_imp] at hlarge
      rw [transfer_of_large after hsize hfile hlarge.left hlarge.right]
      apply iff_of_false
      · intro h
        cases h
      · intro h
        have hsurvives := h i hlarge.left
        apply hlarge.right
        rw [copied_of_padded hsurvives.left.padded]
        exact hsurvives.right

end Transfer

def Sample.fullPacket : List UInt8 :=
  List.replicate MAX_DATA_LEN 97

def Sample.packed : List UInt8 :=
  [120, 156, 75, 76, 28, 5, 163, 96, 20, 140, 130, 81, 48, 148, 0, 0, 158, 49,
    42, 215]

/-- zlib on three inputs, and a coding with a mark at each end on the rest. -/
def Sample.deflate : Zlib where
  compress x :=
    if x = [97] then [120, 156, 75, 4, 0, 0, 98, 0, 98]
    else if x = [0, 0] then [120, 156, 99, 96, 0, 0, 0, 2, 0, 1]
    else if x = Sample.fullPacket then Sample.packed
    else 1 :: (x ++ [1])
  uncompress n bytes :=
    let dest :=
      if bytes = [120, 156, 75, 4, 0, 0, 98, 0, 98] then some [97]
      else if bytes = [120, 156, 99, 96, 0, 0, 0, 2, 0, 1] then some [0, 0]
      else if bytes = Sample.packed then some Sample.fullPacket
      else if bytes.head? = some 1 ∧ bytes.getLast? = some 1 then
        some bytes.tail.dropLast
      else none
    dest.filter fun x => x.length ≤ n

theorem Sample.length_fullPacket : Sample.fullPacket.length = MAX_DATA_LEN :=
  List.length_replicate

theorem Sample.compress_fullPacket :
    Sample.deflate.compress Sample.fullPacket = Sample.packed := by
  have hlong : forall x : List UInt8, x.length ≤ 2 ->
      Sample.fullPacket ≠ x := by
    intro x hx heq
    rw [← heq, Sample.length_fullPacket] at hx
    exact absurd hx (by decide)
  unfold Sample.deflate
  dsimp only
  rw [if_neg (hlong _ (by decide)), if_neg (hlong _ (by decide)), if_pos rfl]

theorem Sample.compress_of_ne {x : List UInt8} (ha : x ≠ [97])
    (hzeros : x ≠ [0, 0]) (hfull : x ≠ Sample.fullPacket) :
    Sample.deflate.compress x = 1 :: (x ++ [1]) := by
  unfold Sample.deflate
  dsimp only
  rw [if_neg ha, if_neg hzeros, if_neg hfull]

theorem Sample.deflate_lawful : Sample.deflate.Lawful := by
  intro x hx
  cases Classical.em (x = [97]) with
  | inl ha =>
      rw [ha]
      decide
  | inr ha =>
      cases Classical.em (x = [0, 0]) with
      | inl hzeros =>
          rw [hzeros]
          decide
      | inr hzeros =>
          cases Classical.em (x = Sample.fullPacket) with
          | inl hfull =>
              rw [hfull, Sample.compress_fullPacket]
              unfold Sample.deflate
              dsimp only
              rw [if_neg (by decide), if_neg (by decide), if_pos rfl,
                Option.filter_some_pos]
              rw [Sample.length_fullPacket]
              exact decide_eq_true (Nat.le_refl _)
          | inr hfull =>
              have hlast : (1 :: (x ++ [(1 : UInt8)])).getLast? = some 1 := by
                rw [← List.cons_append]
                exact List.getLast?_concat
              have hmark : forall bytes : List UInt8,
                  1 :: (x ++ [1]) ≠ 120 :: bytes := by
                intro bytes heq
                exact absurd (List.cons.inj heq).left (by decide)
              rw [Sample.compress_of_ne ha hzeros hfull]
              unfold Sample.deflate
              dsimp only
              rw [if_neg (hmark _), if_neg (hmark _),
                if_neg (show _ ≠ Sample.packed from hmark _), hlast, if_pos ⟨rfl, rfl⟩,
                List.tail_cons, List.dropLast_concat, Option.filter_some_pos]
              exact decide_eq_true hx

def Sample.letters : List UInt8 :=
  Sample.fullPacket ++ [97]

theorem Sample.length_letters : Sample.letters.length = 1465 := by
  unfold Sample.letters
  rw [List.length_append, Sample.length_fullPacket]
  rfl

theorem Sample.no_zero_letters : (0 : UInt8) ∉ Sample.letters := by
  intro hmem
  unfold Sample.letters Sample.fullPacket at hmem
  rcases List.mem_append.mp hmem with hfull | hlast
  · exact absurd (List.eq_of_mem_replicate hfull) (by decide)
  · exact absurd (List.mem_singleton.mp hlast) (by decide)

theorem Sample.chunk_letters :
    chunk Sample.letters 0 = Sample.fullPacket ∧
      chunk Sample.letters 1 = [97] := by
  unfold chunk Sample.letters
  rw [Nat.zero_mul, List.drop_zero, Nat.one_mul, List.take_left'
    Sample.length_fullPacket, List.drop_left' Sample.length_fullPacket]
  exact ⟨rfl, rfl⟩

theorem Sample.kept_letters (i : Nat) :
    Kept (fun _ => [0]) Sample.letters i where
  padded := by
    apply padded_of_no_zero
    intro hmem
    exact Sample.no_zero_letters
      (List.mem_of_mem_drop (List.mem_of_mem_take hmem))
  covered := fun _ => Nat.zero_le _

theorem Sample.survives_letters {i : Nat} (hi : i < 2) :
    Survives Sample.deflate (fun _ => [0]) Sample.letters i := by
  refine ⟨Sample.kept_letters i, ?_⟩
  cases Nat.lt_or_ge i 1 with
  | inl hfirst =>
      rw [Nat.lt_one_iff.mp hfirst, Sample.chunk_letters.left,
        Sample.compress_fullPacket]
      decide
  | inr hlast =>
      have hone : i = 1 := by omega
      rw [hone, Sample.chunk_letters.right]
      decide

theorem Sample.survives_of_short {piece : List UInt8}
    (hzero : (0 : UInt8) ∉ piece) (hshort : piece.length + 2 ≤ MAX_DATA_LEN)
    (i : Nat) : Survives Sample.deflate (fun _ => [0]) piece i := by
  have hchunk : (chunk piece i).length ≤ piece.length := by
    unfold chunk
    rw [List.length_take, List.length_drop]
    omega
  refine ⟨⟨?_, fun _ => Nat.zero_le _⟩, ?_⟩
  · apply padded_of_no_zero
    intro hmem
    exact hzero (List.mem_of_mem_drop (List.mem_of_mem_take hmem))
  · unfold Sample.deflate
    dsimp only
    split
    · decide
    · split
      · decide
      · split
        · decide
        · rw [List.length_cons, List.length_append, List.length_singleton]
          omega

theorem transfer_two_packets :
    transfer Sample.deflate (fun _ => [0]) (98 :: (Sample.letters ++ [99])) 1
        1465 =
      some (pieceOf (98 :: (Sample.letters ++ [99])) 1 1465) := by
  have hpiece : pieceOf (98 :: (Sample.letters ++ [99])) 1 1465 =
      Sample.letters := List.take_left' Sample.length_letters
  apply (transfer_iff Sample.deflate_lawful _ (by decide) (by
    rw [List.length_cons, List.length_append, Sample.length_letters]
    decide)).mpr
  intro i hi
  rw [hpiece]
  exact Sample.survives_letters hi

/-- The byte after a zero byte is lost. -/
theorem not_transfer_zero_one :
    ¬ forall (z : Zlib) (after : Nat -> List UInt8) (content : List UInt8)
      (offset size : UInt64), z.Lawful -> 0 < size.toNat ->
      size.toNat < 2 ^ 31 -> offset.toNat + size.toNat ≤ content.length ->
      transfer z after content offset size =
        some (pieceOf content offset size) := by
  intro h
  have htransfer := h Sample.deflate (fun _ => []) [0, 1] 0 2 Sample.deflate_lawful
    (by decide) (by decide) (by decide)
  have hkept := (transfer_of_fits Sample.deflate_lawful (fun _ => []) (by decide)
    (by decide) (by
      intro i hi
      rw [Nat.lt_one_iff.mp hi]
      decide)).mp htransfer 0 (by decide)
  cases hkept.padded [] [1] rfl 1 List.mem_cons_self

end Transfer
end DartSync
