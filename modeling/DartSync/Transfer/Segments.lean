import DartSync.Transfer.Frames

/-!
# Short reads

`recv` returns what has arrived, which may be less than what was asked for, and
`piece_download` of `peer/peer.c` does not ask again.  The frames that it reads
are compared with those that were sent, for every way in which the reads may be
cut short.
-/

namespace DartSync
namespace Transfer

open Foundation

/-- A `recv` into `n` zero bytes that returns at most `k` bytes. -/
def recvUpTo (k n : Nat) (conn : List UInt8) : List UInt8 × List UInt8 :=
  (pad (conn.take (min n k)) n, conn.drop (min n k))

/-- The length and the payload of each frame that is read; `cut j` bounds the
`recv` with number `j`.  The process exits at a payload that is refused. -/
def readFrames (z : Zlib) (cut : Nat -> Nat) :
    Nat -> Nat -> List UInt8 -> List (UInt64 × List UInt8)
  | 0, _, _ => []
  | left + 1, i, conn =>
      let (header, conn) := recvUpTo (cut (2 * i)) Codec.uint64.size conn
      let compLen := Codec.uint64.decode header
      let (source, conn) := recvUpTo (cut (2 * i + 1)) compLen.toNat conn
      (compLen, source) ::
        match z.uncompress MAX_DATA_LEN source with
        | none => []
        | some _ => readFrames z cut left (i + 1) conn

def sentFrames (payload : Nat -> List UInt8) :
    Nat -> Nat -> List (UInt64 × List UInt8)
  | 0, _ => []
  | left + 1, i =>
      (UInt64.ofNat (payload i).length, payload i) ::
        sentFrames payload left (i + 1)

/-- The two reads of frame `i` get all its bytes, but for zeros at the end of the
last frame. -/
def GetsFrame (cut : Nat -> Nat) (payload : Nat -> List UInt8)
    (count i : Nat) : Prop :=
  Codec.uint64.size ≤ cut (2 * i) ∧
    ((payload i).length ≤ cut (2 * i + 1) ∨
      (i + 1 = count ∧
        forall x, x ∈ (payload i).drop (cut (2 * i + 1)) -> x = 0))

def storeFrames (z : Zlib) (after : Nat -> List UInt8) :
    Nat -> List (UInt64 × List UInt8) -> List UInt8 -> Option (List UInt8)
  | _, [], buffer => some buffer
  | i, read :: later, buffer =>
      (z.uncompress MAX_DATA_LEN read.2).bind fun decompString =>
        (memmove buffer (i * MAX_DATA_LEN)
            (cstr (decompString ++ after i))).bind fun buffer =>
          storeFrames z after (i + 1) later buffer

/-!
## One read
-/

section Read

variable {bytes rest : List UInt8} {k n : Nat}

theorem recvUpTo_append (hlength : bytes.length = n) :
    recvUpTo k n (bytes ++ rest) =
      (pad (bytes.take k) n, bytes.drop k ++ rest) := by
  have hinside : min n k ≤ bytes.length := by omega
  unfold recvUpTo
  rw [List.take_append_of_le_length hinside,
    List.drop_append_of_le_length hinside]
  cases Nat.le_total n k with
  | inl hall =>
      rw [Nat.min_eq_left hall, ← hlength, List.take_length, List.drop_length,
        List.take_of_length_le (by omega), List.drop_of_length_le (by omega)]
  | inr hshort => rw [Nat.min_eq_right hshort]

theorem recvUpTo_of_le {conn : List UInt8} (h : n ≤ k) :
    recvUpTo k n conn = recvInto n conn := by
  unfold recvUpTo recvInto
  rw [Nat.min_eq_left h]

theorem toNat_ofNat_length (h : bytes.length < 2 ^ 64) :
    (UInt64.ofNat bytes.length).toNat = bytes.length :=
  UInt64.toNat_ofNat_of_lt' h

theorem head_of_zeros {zeros : List UInt8} (hne : zeros ≠ [])
    (hzeros : forall x, x ∈ zeros -> x = 0) (hn : 0 < n) (m : Nat) :
    (pad ((zeros ++ rest).take m) n).head? = some 0 := by
  cases zeros with
  | nil => exact absurd rfl hne
  | cons x zeros =>
      rw [hzeros x List.mem_cons_self]
      cases m with
      | zero =>
          cases n with
          | zero => cases hn
          | succ n => rfl
      | succ m => rfl

end Read

/-!
## One frame
-/

section Frame

variable {z : Zlib} {cut : Nat -> Nat} {left i : Nat}
  {bytes rest : List UInt8} {later : List (UInt64 × List UInt8)}

theorem decode_header (rest : List UInt8) :
    Codec.uint64.decode
        (Codec.uint64.encode (UInt64.ofNat bytes.length) ++ rest) =
      UInt64.ofNat bytes.length :=
  Codec.uint64.decode_encode _ _

theorem eq_header {header : List UInt8}
    (hlength : header.length = Codec.uint64.size)
    (h : Codec.uint64.decode header = UInt64.ofNat bytes.length) :
    header = Codec.uint64.encode (UInt64.ofNat bytes.length) := by
  rw [← h, Codec.uint64_encode_decode hlength]

theorem length_recvUpTo (k n : Nat) (conn : List UInt8) :
    (recvUpTo k n conn).1.length = n := by
  apply length_pad
  rw [List.length_take]
  omega

theorem readFrames_of_short_header (hhead : exists first tail,
      bytes = first :: tail ∧ first ≠ 0)
    (hlt : bytes.length < 2 ^ 64)
    (hshort : cut (2 * i) < Codec.uint64.size) :
    readFrames z cut (left + 1) i (frame bytes ++ rest) ≠
      (UInt64.ofNat bytes.length, bytes) :: later := by
  intro h
  have hword := Codec.uint64.length_encode (UInt64.ofNat bytes.length)
  rw [readFrames, frame, List.append_assoc, recvUpTo_append hword] at h
  dsimp only at h
  rw [List.cons.injEq, Prod.mk.injEq] at h
  rcases h with ⟨⟨hlen, hsource⟩, _⟩
  have hpad := eq_header (length_pad (by
    rw [List.length_take]
    omega)) hlen
  rw [← hword, pad_take_eq_iff] at hpad
  rw [hlen, toNat_ofNat_length hlt] at hsource
  rcases hhead with ⟨first, tail, rfl, hfirst⟩
  have hzero := @head_of_zeros (first :: tail ++ rest)
    (first :: tail).length _ (by
      rw [ne_eq, List.drop_eq_nil_iff, hword]
      omega) hpad (Nat.succ_pos tail.length)
    (min (first :: tail).length (cut (2 * i + 1)))
  unfold recvUpTo at hsource
  dsimp only at hsource
  rw [hsource] at hzero
  exact hfirst (Option.some.inj hzero)

theorem readFrames_succ_iff (hhead : exists first tail,
      bytes = first :: tail ∧ first ≠ 0)
    (hlt : bytes.length < 2 ^ 64)
    (haccepted : z.uncompress MAX_DATA_LEN bytes ≠ none) :
    readFrames z cut (left + 1) i (frame bytes ++ rest) =
        (UInt64.ofNat bytes.length, bytes) :: later <->
      Codec.uint64.size ≤ cut (2 * i) ∧
        (forall x, x ∈ bytes.drop (cut (2 * i + 1)) -> x = 0) ∧
        readFrames z cut left (i + 1)
          (bytes.drop (cut (2 * i + 1)) ++ rest) = later := by
  have hword := Codec.uint64.length_encode (UInt64.ofNat bytes.length)
  cases Nat.lt_or_ge (cut (2 * i)) Codec.uint64.size with
  | inl hshort =>
      apply iff_of_false (readFrames_of_short_header hhead hlt hshort)
      intro h
      omega
  | inr hall =>
      rw [readFrames, frame, List.append_assoc, recvUpTo_append hword]
      dsimp only
      rw [List.take_of_length_le (by omega), List.drop_of_length_le (by omega),
        pad, hword, Nat.sub_self, List.replicate_zero, decode_header,
        toNat_ofNat_length hlt, List.nil_append, recvUpTo_append rfl]
      dsimp only
      rw [List.cons.injEq, Prod.mk.injEq, pad_take_eq_iff]
      constructor
      · intro h
        rcases h with ⟨⟨_, hzeros⟩, hrest⟩
        refine ⟨hall, hzeros, ?_⟩
        rw [(pad_take_eq_iff _).mpr hzeros] at hrest
        cases hblock : z.uncompress MAX_DATA_LEN bytes with
        | none => exact absurd hblock haccepted
        | some block =>
            rw [hblock] at hrest
            exact hrest
      · intro h
        rcases h with ⟨_, hzeros, hrest⟩
        refine ⟨⟨rfl, hzeros⟩, ?_⟩
        rw [(pad_take_eq_iff _).mpr hzeros]
        cases hblock : z.uncompress MAX_DATA_LEN bytes with
        | none => exact absurd hblock haccepted
        | some block => exact hrest

theorem readFrames_of_left {payload zeros : List UInt8} (hne : zeros ≠ [])
    (hzeros : forall x, x ∈ zeros -> x = 0) (hbytes : bytes ≠ [])
    (hlt : bytes.length < 2 ^ 64) :
    readFrames z cut (left + 1) i (zeros ++ (frame bytes ++ rest)) ≠
      (UInt64.ofNat bytes.length, payload) :: later := by
  intro h
  have hword := Codec.uint64.length_encode (UInt64.ofNat bytes.length)
  rw [readFrames] at h
  dsimp only at h
  rw [List.cons.injEq, Prod.mk.injEq] at h
  have hheader := eq_header (length_recvUpTo _ _ _) h.left.left
  unfold recvUpTo frame at hheader
  dsimp only at hheader
  rw [List.eq_replicate_iff.mpr ⟨rfl, hzeros⟩, List.append_assoc, ← hword]
    at hheader
  have hshifted := eq_zero_of_shifted (List.length_pos_iff.mpr hne)
    hheader.symm
  -- the length is not zero, and its bytes would be
  have hencoded : Codec.uint64.encode (UInt64.ofNat bytes.length) =
      Codec.uint64.encode 0 := by
    rw [List.eq_replicate_iff.mpr ⟨rfl, hshifted⟩, hword]
    rfl
  have hdecoded := congrArg Codec.uint64.decode hencoded
  have hnumber := Codec.uint64.decode_encode (UInt64.ofNat bytes.length) []
  have hzero := Codec.uint64.decode_encode 0 []
  rw [List.append_nil] at hnumber hzero
  rw [hnumber, hzero] at hdecoded
  have hlength := toNat_ofNat_length hlt
  rw [hdecoded] at hlength
  exact hbytes (List.length_eq_zero_iff.mp hlength.symm)

end Frame

/-!
## All frames
-/

theorem readFrames_frameStream_iff {z : Zlib} {cut : Nat -> Nat}
    {payload : Nat -> List UInt8} {count left i : Nat}
    (hcount : i + left = count)
    (hhead : forall j, exists first tail,
      payload j = first :: tail ∧ first ≠ 0)
    (hlt : forall j, (payload j).length < 2 ^ 64)
    (haccepted : forall j, z.uncompress MAX_DATA_LEN (payload j) ≠ none) :
    readFrames z cut left i (frameStream payload left i) =
        sentFrames payload left i <->
      forall k, k < left -> GetsFrame cut payload count (i + k) := by
  induction left generalizing i with
  | zero =>
      apply iff_of_true rfl
      intro k hk
      cases hk
  | succ left ih =>
      have hrest := @ih (i + 1) (by omega)
      have hframes : (forall k, k < left + 1 ->
            GetsFrame cut payload count (i + k)) <->
          GetsFrame cut payload count i ∧ forall k, k < left ->
            GetsFrame cut payload count (i + 1 + k) := by
        rw [Nat.forall_lt_succ_left]
        simp only [Nat.succ_add_eq_add_succ, Nat.add_zero]
      rw [frameStream, sentFrames,
        readFrames_succ_iff (hhead i) (hlt i) (haccepted i), hframes]
      cases Nat.lt_or_ge (cut (2 * i + 1)) (payload i).length with
      | inr hall =>
          rw [List.drop_of_length_le hall, List.nil_append, hrest]
          constructor
          · intro h
            exact ⟨⟨h.left, Or.inl hall⟩, h.right.right⟩
          · intro h
            exact ⟨h.left.left, fun x hx => (List.not_mem_nil hx).elim,
              h.right⟩
      | inl hshort =>
          have hne : (payload i).drop (cut (2 * i + 1)) ≠ [] := by
            rw [ne_eq, List.drop_eq_nil_iff]
            omega
          cases left with
          | zero =>
              constructor
              · intro h
                refine ⟨⟨h.left, Or.inr ⟨hcount, h.right.left⟩⟩, ?_⟩
                intro k hk
                cases hk
              · intro h
                cases h.left.right with
                | inl hall => omega
                | inr hlast => exact ⟨h.left.left, hlast.right, rfl⟩
          | succ left =>
              apply iff_of_false
              · intro h
                rcases hhead (i + 1) with ⟨first, tail, hcons, _⟩
                refine readFrames_of_left hne h.right.left ?_ (hlt (i + 1))
                  h.right.right
                rw [hcons]
                exact List.cons_ne_nil first tail
              · intro h
                cases h.left.right with
                | inl hall => omega
                | inr hlast => omega

theorem recvLoop_eq_storeFrames {z : Zlib} {after : Nat -> List UInt8}
    {left i : Nat} {conn buffer : List UInt8} :
    recvLoop z after left i buffer conn =
      storeFrames z after i (readFrames z (fun _ => 2 ^ 64) left i conn)
        buffer := by
  induction left generalizing i conn buffer with
  | zero => rfl
  | succ left ih =>
      rw [recvLoop, recvBlock, readFrames,
        recvUpTo_of_le (show Codec.uint64.size ≤ 2 ^ 64 by decide)]
      dsimp only
      rw [recvUpTo_of_le (Nat.le_of_lt (UInt64.toNat_lt _))]
      rw [storeFrames]
      dsimp only
      split
      · next hblock =>
          rw [Option.map_eq_none_iff] at hblock
          rw [hblock]
          rfl
      · next block rest hblock =>
          rcases Option.map_eq_some_iff.mp hblock with ⟨x, hx, hpair⟩
          cases hpair
          rw [hx, Option.bind_some]
          congr 1
          funext written
          exact ih

/-- Whatever `upload_send` sends for a piece is read as it was sent exactly when
every frame is got by its two reads. -/
theorem readFrames_uploadPiece_iff {z : Zlib} (hz : z.Lawful)
    (hformat : z.Format) {content stream : List UInt8} {offset size : UInt64}
    (hsend : uploadPiece z content offset size = some stream)
    (cut : Nat -> Nat) :
    readFrames z cut (pktCount (intOf size)) 0 stream =
        sentFrames (payload z (uploadBuffer content offset size))
          (pktCount (intOf size)) 0 <->
      forall i, i < pktCount (intOf size) ->
        GetsFrame cut (payload z (uploadBuffer content offset size))
          (pktCount (intOf size)) i := by
  have hlength := length_uploadBuffer content offset size
  have hstream := uploadPiece_eq_sentBytes hsend
  generalize uploadBuffer content offset size = piece at hlength hstream ⊢
  unfold sentBytes at hstream
  rw [hstream, hlength, readFrames_frameStream_iff (Nat.zero_add _)
    (hformat.head_payload piece) (hformat.length_payload piece)]
  · simp only [Nat.zero_add]
  · intro j hrefused
    rw [hz.uncompress_payload piece j] at hrefused
    cases hrefused

theorem readFrames_two_packets :
    readFrames Sample.deflate (fun j => if j % 2 = 0 then 8 else 20) 2 0
        (frame Sample.packed ++ frame [120, 156, 75, 4, 0, 0, 98, 0, 98]) =
      [(20, Sample.packed), (9, [120, 156, 75, 4, 0, 0, 98, 0, 98])] := by
  have hsent : sentFrames (payload Sample.deflate Sample.letters) 2 0 =
      [(20, Sample.packed), (9, [120, 156, 75, 4, 0, 0, 98, 0, 98])] := by
    rw [sentFrames, sentFrames, sentFrames, Sample.payload_letters.left,
      Sample.payload_letters.right]
    rfl
  have hread := (@readFrames_uploadPiece_iff Sample.deflate
    Sample.deflate_lawful Sample.deflate_format Sample.letters _ 0 1465
    Sample.uploadPiece_letters fun j => if j % 2 = 0 then 8 else 20).mpr
  rw [Sample.uploadBuffer_letters, show pktCount (intOf 1465) = 2 from rfl,
    hsent] at hread
  apply hread
  intro i hi
  cases Nat.lt_or_ge i 1 with
  | inl hfirst =>
      rw [Nat.lt_one_iff.mp hfirst]
      refine ⟨by decide, Or.inl ?_⟩
      rw [Sample.payload_letters.left]
      decide
  | inr hlast =>
      have hone : i = 1 := by omega
      rw [hone]
      refine ⟨by decide, Or.inl ?_⟩
      rw [Sample.payload_letters.right]
      decide

/-- One frame, of whose payload only four bytes are there at first. -/
theorem not_readFrames_short :
    ¬ forall (z : Zlib) (content stream : List UInt8) (offset size : UInt64)
      (cut : Nat -> Nat), z.Lawful -> z.Format ->
      uploadPiece z content offset size = some stream ->
      (forall j, 0 < cut j) ->
      readFrames z cut (pktCount (intOf size)) 0 stream =
        sentFrames (payload z (uploadBuffer content offset size))
          (pktCount (intOf size)) 0 := by
  intro h
  have hread := h Sample.deflate [97] _ 0 1 (fun j => if j = 1 then 4 else 9)
    Sample.deflate_lawful Sample.deflate_format Sample.uploadPiece_letter (by
      intro j
      split <;> decide)
  revert hread
  decide

end Transfer
end DartSync
