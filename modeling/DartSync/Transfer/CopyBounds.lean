import DartSync.Transfer.Frames

/-!
# The bounds of the copies

The copies that `upload_send` of `peer/p2p.c` and `piece_download` of
`peer/peer.c` make for one packet, as the ranges that they read and write of
their blocks.
-/

namespace DartSync
namespace Transfer

open Foundation

/-- Bytes that are read or written in a block of `size` bytes. -/
structure Access where
  size : Nat
  offset : Nat
  count : Nat
deriving DecidableEq

def Access.Inside (a : Access) : Prop :=
  a.offset + a.count ≤ a.size

instance (a : Access) : Decidable a.Inside :=
  inferInstanceAs (Decidable (a.offset + a.count ≤ a.size))

/-- What `strncpy` reads for `n` bytes: a string with its zero, and no more than
`n`. -/
def strncpyReads (src : List UInt8) (n : Nat) : Nat :=
  min n ((cstr src).length + 1)

/-- Packet `i` in `upload_send`: `buffer` to `pkt->data`, that to `source`, and
`compPiece` to `pkt->data` again. -/
def uploadCopies (z : Zlib) (buffer : List UInt8) (i : Nat) : List Access :=
  let length := pktLength buffer.length i
  let data :=
    pad ((buffer.drop (i * MAX_DATA_LEN)).take length) MAX_DATA_LEN
  let source := strncpy data length
  let compPiece := z.compress source
  [ { size := buffer.length, offset := i * MAX_DATA_LEN, count := length },
    { size := MAX_DATA_LEN, offset := 0, count := length },
    { size := MAX_DATA_LEN, offset := 0, count := strncpyReads data length },
    { size := length, offset := 0, count := length },
    { size := compPiece.length
      offset := 0
      count := strncpyReads compPiece compPiece.length },
    { size := MAX_DATA_LEN, offset := 0, count := compPiece.length } ]

/-- Packet `i` in `piece_download`: `strlen` of the block that was uncompressed,
with `after` behind it, and the move of so many bytes to the buffer. -/
def downloadCopies (decompString after : List UInt8) (size i : Nat) :
    List Access :=
  let strlen := (cstr (decompString ++ after)).length
  [ { size := decompString.length, offset := 0, count := strlen + 1 },
    { size := decompString.length, offset := 0, count := strlen },
    { size := size, offset := i * MAX_DATA_LEN, count := strlen } ]

/-- All copies for packet `i`, if `uncompress` accepts it. -/
def packetCopies (z : Zlib) (after : Nat -> List UInt8) (piece : List UInt8)
    (i : Nat) : Option (List Access) :=
  (z.uncompress MAX_DATA_LEN (payload z piece i)).map fun decompString =>
    uploadCopies z piece i ++
      downloadCopies decompString (after i) piece.length i

section Copies

variable {z : Zlib} {after : Nat -> List UInt8} {piece : List UInt8} {i : Nat}

theorem source_eq_copied (h : i < pktCount piece.length) :
    strncpy (pad ((piece.drop (i * MAX_DATA_LEN)).take
        (pktLength piece.length i)) MAX_DATA_LEN) (pktLength piece.length i) =
      copied piece i := by
  have hfound : (piece.drop (i * MAX_DATA_LEN)).take (chunk piece i).length =
      chunk piece i := by
    rw [chunk, List.length_take, ← List.take_eq_take_min]
  rw [pktLength_eq h, hfound,
    strncpy_data rfl (length_chunk_le piece i)]
  rfl

theorem zero_mem_copied_iff :
    (0 : UInt8) ∈ copied piece i <-> (0 : UInt8) ∈ chunk piece i := by
  constructor
  · intro h
    by_contra hno
    unfold copied at h
    rw [cstr_of_no_zero hno, pad_length] at h
    exact hno h
  · intro h
    exact zero_mem_pad (length_cstr_lt h)

theorem strlen_inside_iff {bytes rest : List UInt8} :
    (cstr (bytes ++ rest)).length + 1 ≤ bytes.length <->
      (0 : UInt8) ∈ bytes := by
  cases Classical.em ((0 : UInt8) ∈ bytes) with
  | inl hzero =>
      rw [cstr_append_of_zero hzero]
      exact iff_of_true (length_cstr_lt hzero) hzero
  | inr hno =>
      rw [cstr_append_of_no_zero hno, List.length_append]
      exact iff_of_false (by omega) hno

theorem chunk_inside (h : i < pktCount piece.length) :
    i * MAX_DATA_LEN + (chunk piece i).length ≤ piece.length := by
  have hlt : i * MAX_DATA_LEN < piece.length := by
    have hcount : i < piece.length / MAX_DATA_LEN +
        if piece.length % MAX_DATA_LEN > 0 then 1 else 0 := h
    simp only [MAX_DATA_LEN] at hcount ⊢
    split at hcount <;> omega
  rw [length_chunk]
  omega

/-- The copies for a packet stay in bounds exactly when its chunk has a zero
byte, and does not get longer than a packet when it is compressed. -/
theorem packetCopies_inside_iff (hz : z.Lawful)
    (h : i < pktCount piece.length) :
    (exists copies, packetCopies z after piece i = some copies ∧
        forall a, a ∈ copies -> a.Inside) <->
      (0 : UInt8) ∈ chunk piece i ∧
        (payload z piece i).length ≤ MAX_DATA_LEN := by
  have hsource := source_eq_copied h
  have hlength := pktLength_eq h
  have hchunk := length_chunk_le piece i
  have hinside := chunk_inside h
  have hcopied := length_copied piece i
  unfold packetCopies uploadCopies downloadCopies
  rw [hz.uncompress_payload, Option.map_some]
  dsimp only
  rw [hsource]
  constructor
  · intro hexists
    rcases hexists with ⟨copies, heq, hall⟩
    cases heq
    constructor
    · have hstrlen := hall
        { size := (copied piece i).length
          offset := 0
          count := (cstr (copied piece i ++ after i)).length + 1 } (by simp)
      unfold Access.Inside at hstrlen
      dsimp only at hstrlen
      rw [Nat.zero_add, strlen_inside_iff] at hstrlen
      exact zero_mem_copied_iff.mp hstrlen
    · have hdata := hall
        { size := MAX_DATA_LEN
          offset := 0
          count := (z.compress (copied piece i)).length } (by simp)
      unfold Access.Inside at hdata
      dsimp only at hdata
      rw [Nat.zero_add] at hdata
      exact hdata
  · intro hboth
    rcases hboth with ⟨hzero, hfits⟩
    have hfits' : (z.compress (copied piece i)).length ≤ MAX_DATA_LEN := hfits
    have hmem := zero_mem_copied_iff.mpr hzero
    have hstrlen := (@strlen_inside_iff (copied piece i) (after i)).mpr hmem
    refine ⟨_, rfl, ?_⟩
    intro a ha
    rw [List.mem_append] at ha
    simp only [List.mem_cons, List.not_mem_nil, or_false] at ha
    rcases ha with (rfl | rfl | rfl | rfl | rfl | rfl) | rfl | rfl | rfl
    all_goals
      unfold Access.Inside
      try unfold strncpyReads
      dsimp only
      omega

end Copies

theorem zeros_copies_inside :
    exists copies, packetCopies Sample.deflate (fun _ => []) [0, 0] 0 =
        some copies ∧ forall a, a ∈ copies -> a.Inside :=
  (packetCopies_inside_iff Sample.deflate_lawful (by decide)).mpr
    ⟨by decide, by decide⟩

/-- One letter: `strlen` has no zero to stop at. -/
theorem not_copies_inside_letter :
    ¬ forall (z : Zlib) (compressBound : Nat -> Nat)
      (after : Nat -> List UInt8) (piece : List UInt8) (i : Nat), z.Lawful ->
      (forall x, 1 ≤ (z.compress x).length ∧
        (z.compress x).length ≤ compressBound x.length) ->
      i < pktCount piece.length ->
      exists copies, packetCopies z after piece i = some copies ∧
        forall a, a ∈ copies -> a.Inside := by
  intro h
  have hbound : forall x, 1 ≤ (Sample.deflate.compress x).length ∧
      (Sample.deflate.compress x).length ≤ x.length + 13 := by
    intro x
    unfold Sample.deflate
    dsimp only
    split
    · next hx =>
        rw [hx]
        decide
    · split
      · next hx =>
          rw [hx]
          decide
      · split
        · next hx =>
            rw [hx, Sample.length_fullPacket]
            decide
        · rw [List.length_cons, List.length_append, List.length_singleton]
          omega
  rcases h Sample.deflate (fun n => n + 13) (fun _ => [0]) [97] 0
    Sample.deflate_lawful hbound (by decide) with ⟨copies, heq, hall⟩
  have hstrlen : (some copies).any (fun copies =>
      copies.all fun a => decide a.Inside) = true := by
    rw [Option.any_some, List.all_eq_true]
    intro a ha
    exact decide_eq_true (hall a ha)
  rw [← heq] at hstrlen
  revert hstrlen
  decide

end Transfer
end DartSync
