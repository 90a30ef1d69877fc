import DartSync.Transfer.Frames
import DartSync.Transfer.Plan

/-!
# A source that stops

The uploading side may stop at any byte of what it has to send, or send nothing
because its file is missing.  `recv` then returns 0, and `piece_download` of
`peer/peer.c` goes on with the zeros of its blocks.  The reads get all that is
there; reads that are cut short are the subject of the frames.

`uncompress` is documented to refuse data that is incomplete, and `decompressString`
then exits.  It tells such data by a checksum; where that is met by chance, what
comes out is taken not to be the start of the chunk.  It would be too little that
it is not the chunk: the rest may lie in memory behind it.  A block of zeros is
not compressed data.
-/

namespace DartSync
namespace Transfer

open Foundation Peer

structure Zlib.Strict (z : Zlib) : Prop where
  incomplete : forall x k y, x.length ≤ MAX_DATA_LEN ->
    pad ((z.compress x).take k) (z.compress x).length ≠ z.compress x ->
    z.uncompress MAX_DATA_LEN
      (pad ((z.compress x).take k) (z.compress x).length) = some y ->
    ¬ cstr y <+: x
  zeros : forall n, z.uncompress MAX_DATA_LEN (List.replicate n 0) = none

/-!
## Reads at the end of the stream
-/

section Reads

variable {z : Zlib} {after : Nat -> List UInt8} {conn bytes : List UInt8}

theorem recvInto_append_zeros (n m : Nat) (conn : List UInt8) :
    exists m', recvInto n (conn ++ List.replicate m 0) =
      ((recvInto n conn).1, (recvInto n conn).2 ++ List.replicate m' 0) := by
  refine ⟨m - (n - conn.length), ?_⟩
  have hblock : pad ((conn ++ List.replicate m 0).take n) n =
      pad (conn.take n) n := by
    unfold pad
    rw [List.take_append, List.take_replicate, List.append_assoc,
      List.replicate_append_replicate, List.length_append,
      List.length_replicate, List.length_take]
    congr 2
    omega
  have hrest : (conn ++ List.replicate m 0).drop n =
      conn.drop n ++ List.replicate (m - (n - conn.length)) 0 := by
    rw [List.drop_append, List.drop_replicate]
  unfold recvInto
  rw [hblock, hrest]

theorem recvBlock_append_zeros (m : Nat) (conn : List UInt8) :
    exists m', recvBlock z (conn ++ List.replicate m 0) =
      (recvBlock z conn).map fun result =>
        (result.1, result.2 ++ List.replicate m' 0) := by
  rcases recvInto_append_zeros Codec.uint64.size m conn with ⟨m1, hheader⟩
  unfold recvBlock
  rw [hheader]
  cases recvInto Codec.uint64.size conn with
  | mk header rest =>
      rcases recvInto_append_zeros (Codec.uint64.decode header).toNat m1 rest
        with ⟨m2, hsource⟩
      refine ⟨m2, ?_⟩
      dsimp only
      rw [hsource]
      cases recvInto (Codec.uint64.decode header).toNat rest with
      | mk source later =>
          dsimp only
          rw [Option.map_map]
          rfl

theorem recvLoop_append_zeros {left i : Nat} {buffer : List UInt8} (m : Nat)
    (conn : List UInt8) :
    recvLoop z after left i buffer (conn ++ List.replicate m 0) =
      recvLoop z after left i buffer conn := by
  induction left generalizing i buffer conn m with
  | zero => rfl
  | succ left ih =>
      rcases @recvBlock_append_zeros z m conn with ⟨m', hblock⟩
      rw [recvLoop, recvLoop, hblock]
      cases recvBlock z conn with
      | none => rfl
      | some result =>
          rw [Option.map_some]
          dsimp only
          congr 1
          funext written
          exact ih m' result.2

theorem recvBlock_frame (rest : List UInt8) (h : bytes.length < 2 ^ 64) :
    recvBlock z (frame bytes ++ rest) =
      (z.uncompress MAX_DATA_LEN bytes).map fun block => (block, rest) := by
  have hword := Codec.uint64.length_encode (UInt64.ofNat bytes.length)
  have hheader := recvInto_append
    (Codec.uint64.encode (UInt64.ofNat bytes.length)) (bytes ++ rest)
  have hdecode := Codec.uint64.decode_encode (UInt64.ofNat bytes.length) []
  have hlength : (UInt64.ofNat bytes.length).toNat = bytes.length :=
    UInt64.toNat_ofNat_of_lt' h
  rw [hword] at hheader
  rw [List.append_nil] at hdecode
  unfold recvBlock frame
  rw [List.append_assoc, hheader]
  dsimp only
  rw [hdecode, hlength, recvInto_append]

theorem recvBlock_of_short (hstrict : z.Strict)
    (hshort : conn.length < Codec.uint64.size) : recvBlock z conn = none := by
  have hrest : (recvInto Codec.uint64.size conn).2 = [] :=
    List.drop_of_length_le (Nat.le_of_lt hshort)
  unfold recvBlock
  dsimp only
  rw [hrest, recvInto, List.take_nil, pad, List.length_nil, Nat.sub_zero,
    List.nil_append, hstrict.zeros]
  rfl

theorem recvBlock_of_cut (hstrict : z.Strict) {x y front missing rest : List UInt8}
    (hx : x.length ≤ MAX_DATA_LEN) (hlt : (z.compress x).length < 2 ^ 64)
    (hsplit : z.compress x = front ++ missing)
    (hmissing : ¬ forall b, b ∈ missing -> b = 0)
    (h : recvBlock z (Codec.uint64.encode
      (UInt64.ofNat (z.compress x).length) ++ front) = some (y, rest)) :
    rest = [] ∧ ¬ cstr y <+: x := by
  have hword := Codec.uint64.length_encode
    (UInt64.ofNat (z.compress x).length)
  have hheader := recvInto_append
    (Codec.uint64.encode (UInt64.ofNat (z.compress x).length)) front
  have hdecode := Codec.uint64.decode_encode
    (UInt64.ofNat (z.compress x).length) []
  have hlength : (UInt64.ofNat (z.compress x).length).toNat =
      (z.compress x).length := UInt64.toNat_ofNat_of_lt' hlt
  have hfront : front = (z.compress x).take front.length := by
    rw [hsplit, List.take_left]
  have hshort : front.length ≤ (z.compress x).length := by
    rw [hsplit, List.length_append]
    exact Nat.le_add_right _ _
  rw [hword] at hheader
  rw [List.append_nil] at hdecode
  unfold recvBlock at h
  rw [hheader] at h
  dsimp only at h
  rw [hdecode, hlength, recvInto, List.take_of_length_le hshort,
    List.drop_of_length_le hshort] at h
  rcases Option.map_eq_some_iff.mp h with ⟨block, hblock, hpair⟩
  rw [Prod.mk.injEq] at hpair
  rcases hpair with ⟨rfl, hrest⟩
  refine ⟨hrest.symm, ?_⟩
  rw [hfront] at hblock
  apply hstrict.incomplete x front.length block hx _ hblock
  rw [ne_eq, pad_take_eq_iff]
  intro hzeros
  apply hmissing
  rw [hsplit, List.drop_left] at hzeros
  exact hzeros

end Reads

/-!
## The loop of a piece
-/

section Loop

variable {z : Zlib} {after : Nat -> List UInt8} {piece : List UInt8}
  {left i : Nat} {buffer conn missing : List UInt8}

theorem recvLoop_frameStream (hz : z.Lawful) (hformat : z.Format) :
    recvLoop z after left i buffer
        (frameStream (payload z piece) left i) =
      place (found after piece) left i buffer := by
  induction left generalizing i buffer with
  | zero => rfl
  | succ left ih =>
      rw [recvLoop, frameStream,
        recvBlock_frame _ (hformat.length_payload piece i),
        hz.uncompress_payload, place]
      dsimp only [Option.map_some]
      rw [cstr_copied]
      congr 1
      funext written
      exact ih

theorem recvBlock_of_part (hz : z.Lawful) (hformat : z.Format)
    (hstrict : z.Strict) (hframe : frame (payload z piece i) = conn ++ missing) :
    ((forall x, x ∈ missing -> x = 0) ∧
      recvBlock z conn = some (copied piece i, [])) ∨
    forall y rest, recvBlock z conn = some (y, rest) ->
      rest = [] ∧ ¬ cstr y <+: copied piece i := by
  have hx := length_copied_le piece i
  have hlt := hformat.length_lt _ hx
  have hword := Codec.uint64.length_encode
    (UInt64.ofNat (payload z piece i).length)
  cases Classical.em (forall x, x ∈ missing -> x = 0) with
  | inl hzeros =>
      left
      refine ⟨hzeros, ?_⟩
      have hwhole := @recvBlock_frame z (payload z piece i) [] hlt
      rcases @recvBlock_append_zeros z missing.length conn with ⟨m', hpart⟩
      rw [← List.eq_replicate_iff.mpr ⟨rfl, hzeros⟩, ← hframe,
        ← List.append_nil (frame _), hwhole, hz.uncompress_payload] at hpart
      rcases Option.map_eq_some_iff.mp hpart.symm with
        ⟨⟨block, rest⟩, hresult, hpair⟩
      rw [Prod.mk.injEq] at hpair
      rcases hpair with ⟨rfl, hnil⟩
      rcases List.append_eq_nil_iff.mp hnil with ⟨rfl, _⟩
      exact hresult
  | inr hmissing =>
      right
      intro y rest hblock
      cases Nat.lt_or_ge conn.length Codec.uint64.size with
      | inl hshort =>
          rw [recvBlock_of_short hstrict hshort] at hblock
          cases hblock
      | inr hlong =>
          unfold frame at hframe
          rcases List.append_eq_append_iff.mp hframe with
            ⟨front, hconn, hpayload⟩ | ⟨header, hheader, hmissing'⟩
          · rw [hconn] at hblock
            exact recvBlock_of_cut hstrict hx hlt hpayload hmissing hblock
          · have hlengths := congrArg List.length hheader
            rw [hword, List.length_append] at hlengths
            have hnil : header = [] :=
              List.length_eq_zero_iff.mp (by omega)
            rw [hnil, List.append_nil] at hheader
            rw [hnil, List.nil_append] at hmissing'
            rw [← hheader, ← List.append_nil (Codec.uint64.encode _)] at hblock
            rw [hmissing'] at hmissing
            exact recvBlock_of_cut hstrict hx hlt (List.nil_append _).symm
              hmissing hblock

theorem prefix_of_memmove {block written bytes : List UInt8} {offset : Nat}
    (h : memmove block offset bytes = some written) :
    bytes <+: written.drop offset := by
  unfold memmove at h
  split at h
  · next hfits =>
      cases h
      rw [List.append_assoc, List.drop_left' (List.length_take_of_le (by omega))]
      exact List.prefix_append _ _
  · cases h

theorem cstr_prefix_append (bytes rest : List UInt8) :
    cstr bytes <+: cstr (bytes ++ rest) := by
  cases Classical.em ((0 : UInt8) ∈ bytes) with
  | inl hzero =>
      refine ⟨[], ?_⟩
      rw [List.append_nil, cstr_append_of_zero hzero]
  | inr hnone =>
      rw [cstr_append_of_no_zero hnone, cstr_of_no_zero hnone]
      exact List.prefix_append _ _

theorem prefix_copied {y rest : List UInt8}
    (hlast : piece.length ≤ (i + 1) * MAX_DATA_LEN)
    (h : cstr (y ++ rest) <+: piece.drop (i * MAX_DATA_LEN)) :
    cstr y <+: copied piece i := by
  have hchunk : chunk piece i = piece.drop (i * MAX_DATA_LEN) := by
    unfold chunk
    apply List.take_of_length_le
    rw [List.length_drop]
    rw [Nat.succ_mul] at hlast
    omega
  rcases h with ⟨behind, hbehind⟩
  have hstring : cstr (y ++ rest) <+: cstr (chunk piece i) := by
    rw [hchunk, ← hbehind, cstr_append_of_no_zero (zero_not_mem_cstr _)]
    exact List.prefix_append _ _
  exact ((cstr_prefix_append y rest).trans hstring).trans
    (List.prefix_append _ _)

/-- With a byte missing that is not zero, the process ends or the piece is not
what was sent. -/
theorem recvLoop_of_missing (hz : z.Lawful) (hformat : z.Format)
    (hstrict : z.Strict) (hcount : i + left = pktCount piece.length)
    (hstream : conn ++ missing = frameStream (payload z piece) left i)
    (hmissing : ¬ forall x, x ∈ missing -> x = 0) :
    recvLoop z after left i buffer conn ≠ some piece := by
  induction left generalizing i buffer conn missing with
  | zero =>
      rw [(List.append_eq_nil_iff.mp hstream).right] at hmissing
      exact absurd (fun x hx => (List.not_mem_nil hx).elim) hmissing
  | succ left ih =>
      rw [recvLoop]
      rcases List.append_eq_append_iff.mp hstream.symm with
        ⟨rest, hconn, hrest⟩ | ⟨part, hframe, hmissing'⟩
      · rw [hconn, recvBlock_frame rest (hformat.length_payload piece i),
          hz.uncompress_payload]
        dsimp only [Option.map_some]
        intro h
        rcases Option.bind_eq_some_iff.mp h with ⟨written, _, hlater⟩
        exact ih (by omega) hrest.symm hmissing hlater
      · cases recvBlock_of_part hz hformat hstrict hframe with
        | inl hpart =>
            rcases hpart with ⟨hzeros, hsome⟩
            rw [hsome]
            dsimp only
            intro h
            rcases Option.bind_eq_some_iff.mp h with ⟨written, _, hlater⟩
            refine ih (by omega) (List.nil_append _) ?_ hlater
            intro hnone
            apply hmissing
            intro x hx
            rw [hmissing', List.mem_append] at hx
            rcases hx with hx | hx
            · exact hzeros x hx
            · exact hnone x hx
        | inr hwrong =>
            intro h
            split at h
            · cases h
            · next y rest hblock =>
                rcases hwrong y rest hblock with ⟨hnil, hnot⟩
                rcases Option.bind_eq_some_iff.mp h with
                  ⟨written, hwritten, hlater⟩
                rw [hnil] at hlater
                cases left with
                | zero =>
                    rw [recvLoop, Option.some_inj] at hlater
                    rw [hlater] at hwritten
                    apply hnot
                    apply prefix_copied _ (prefix_of_memmove hwritten)
                    unfold pktCount at hcount
                    simp only [MAX_DATA_LEN] at hcount ⊢
                    split at hcount <;> omega
                | succ left =>
                    -- The next header is read where nothing is left.
                    rw [recvLoop, recvBlock_of_short hstrict (by decide)]
                      at hlater
                    cases hlater

theorem length_of_memmove {block written bytes : List UInt8} {offset : Nat}
    (h : memmove block offset bytes = some written) :
    written.length = block.length := by
  unfold memmove at h
  split at h
  · cases h
    rw [List.length_append, List.length_append, List.length_take,
      List.length_drop]
    omega
  · cases h

theorem length_of_recvLoop {out : List UInt8}
    (h : recvLoop z after left i buffer conn = some out) :
    out.length = buffer.length := by
  induction left generalizing i buffer conn with
  | zero =>
      cases h
      rfl
  | succ left ih =>
      rw [recvLoop] at h
      split at h
      · cases h
      · rcases Option.bind_eq_some_iff.mp h with ⟨written, hwritten, hlater⟩
        rw [ih hlater, length_of_memmove hwritten]

end Loop

/-!
## A piece
-/

/-- The bytes that a request asks for, as a faultless transfer delivers them. -/
def requestedBytes (content : List UInt8) (offset size : UInt64) : List UInt8 :=
  pad ((content.drop offset.toNat).take size.toNat) size.toNat

def arriving (z : Zlib) (content : List UInt8) (offset size : UInt64)
    (stop : Nat) : List UInt8 :=
  (sentBytes z (uploadBuffer content offset size)).take stop

/-- When a piece is stored as it was asked for, although its source stops: only
zeros are missing, and the packets are kept by the string functions. -/
structure Unharmed (z : Zlib) (after : Nat -> List UInt8)
    (content : List UInt8) (offset size : UInt64) (stop : Nat) : Prop where
  representable : size.toNat < 2 ^ 31
  complete : forall x,
    x ∈ (sentBytes z (uploadBuffer content offset size)).drop stop -> x = 0
  kept : forall i, i < pktCount size.toNat ->
    Kept after (requestedBytes content offset size) i

section Piece

variable {z : Zlib} {after : Nat -> List UInt8} {content out : List UInt8}
  {offset size : UInt64} {stop : Nat}

theorem length_requestedBytes (content : List UInt8) (offset size : UInt64) :
    (requestedBytes content offset size).length = size.toNat :=
  length_pad (List.length_take_le _ _)

theorem uploadBuffer_eq (h : size.toNat < 2 ^ 31) :
    uploadBuffer content offset size = requestedBytes content offset size := by
  unfold uploadBuffer requestedBytes
  rw [intOf_eq h]

theorem intOf_lt (size : UInt64) : intOf size < 2 ^ 31 := by
  have hlt := (Int32.ofNat size.toNat).toInt_lt
  unfold intOf
  omega

theorem length_of_downloadPiece {conn : List UInt8}
    (h : downloadPiece z after size conn = some out) :
    out.length = intOf size := by
  unfold downloadPiece at h
  split at h
  · cases h
  · rw [length_of_recvLoop h, List.length_replicate]

theorem downloadPiece_eq {conn : List UInt8} (h : size.toNat < 2 ^ 31) :
    downloadPiece z after size conn =
      recvLoop z after (pktCount size.toNat) 0 (List.replicate size.toNat 0)
        conn := by
  have hint : (Int32.ofNat size.toNat).toInt = size.toNat :=
    Int32.toInt_ofNat_of_lt h
  unfold downloadPiece pieceDownload
  rw [if_neg (by omega), intOf_eq h]

theorem downloadPiece_arriving_iff (hz : z.Lawful) (hformat : z.Format)
    (hstrict : z.Strict) :
    downloadPiece z after size (arriving z content offset size stop) =
        some (requestedBytes content offset size) <->
      Unharmed z after content offset size stop := by
  have hlength := length_requestedBytes content offset size
  cases Nat.lt_or_ge size.toNat (2 ^ 31) with
  | inr hlarge =>
      apply iff_of_false
      · intro h
        have hshort := length_of_downloadPiece h
        have hlt := intOf_lt size
        omega
      · intro h
        exact Nat.not_lt.mpr hlarge h.representable
  | inl hsmall =>
      have hsent : sentBytes z (uploadBuffer content offset size) =
          frameStream (payload z (requestedBytes content offset size))
            (pktCount size.toNat) 0 := by
        rw [uploadBuffer_eq hsmall, sentBytes, hlength]
      have hplace := @place_all_iff after
        (requestedBytes content offset size)
      rw [hlength] at hplace
      rw [downloadPiece_eq hsmall, arriving, hsent]
      cases Classical.em (forall x,
          x ∈ (frameStream (payload z (requestedBytes content offset size))
            (pktCount size.toNat) 0).drop stop -> x = 0) with
      | inl hzeros =>
          have hfull := List.take_append_drop stop
            (frameStream (payload z (requestedBytes content offset size))
              (pktCount size.toNat) 0)
          rw [List.eq_replicate_iff.mpr ⟨rfl, hzeros⟩] at hfull
          rw [← recvLoop_append_zeros, hfull,
            recvLoop_frameStream hz hformat, hplace]
          constructor
          · intro h
            exact ⟨hsmall, hsent ▸ hzeros, h⟩
          · intro h
            exact h.kept
      | inr hmissing =>
          apply iff_of_false
          · exact recvLoop_of_missing hz hformat hstrict
              (by rw [hlength, Nat.zero_add])
              (List.take_append_drop stop _) hmissing
          · intro h
            apply hmissing
            rw [← hsent]
            exact h.complete

end Piece

/-!
## A file
-/

/-- What `piece_download` appends for piece `i`, if it does not end the process;
`stops i` is where the source of the piece stops. -/
def pieceArriving (z : Zlib) (after : Nat -> Nat -> List UInt8) (p : Plan)
    (content : List UInt8) (stops : Nat -> Nat) (i : Nat) :
    Option (List UInt8) :=
  downloadPiece z (after i) (p.sizeWord i)
    (arriving z content (p.offsetWord i) (p.sizeWord i) (stops i))

/-- The temporary files when the threads of the first `n` pieces are joined;
`none` if one of them has ended the process or was never created. -/
def fetchPieces (p : Plan) (downloads : Nat -> Option (List UInt8))
    (temps : Temps) : Nat -> Option Temps
  | 0 => some temps
  | n + 1 =>
      (fetchPieces p downloads temps n).bind fun fetched =>
        if p.needs n (curLength (temps n)) then
          (downloads n).map fun bytes => fun i =>
            if i = n then some ((temps n).getD [] ++ bytes) else fetched i
        else none

/-- The local file and its type in the table, when `ptp_download` has come to its
end. -/
structure Downloaded where
  file : List UInt8
  type : Int32

def ptpDownloadFrom (p : Plan) (downloads : Nat -> Option (List UInt8))
    (temps : Temps) : Option Downloaded :=
  (fetchPieces p downloads temps p.count).bind fun fetched =>
    (assemble fetched p.count).map fun file =>
      { file := file, type := FILE_DOWNLOAD }

/-- No requested piece ends the process or is stored wrongly, and the file is
replaced and marked only with the pieces that were asked for. -/
structure Contained (z : Zlib) (after : Nat -> Nat -> List UInt8) (p : Plan)
    (content : List UInt8) (temps : Temps) (stops : Nat -> Nat) : Prop where
  stored : forall i, i < p.count ->
    p.needs i (curLength (temps i)) = true ->
      pieceArriving z after p content stops i = some (p.delivered content i)
  replaced : forall result,
    ptpDownloadFrom p (pieceArriving z after p content stops) temps =
        some result ->
      ptpDownload p content temps = some result.file

section File

variable {p : Plan} {content : List UInt8} {temps : Temps}
  {downloads : Nat -> Option (List UInt8)}

theorem ptpDownloadFrom_of_exit {i : Nat} (hi : i < p.count)
    (hneeds : p.needs i (curLength (temps i)) = true)
    (hexit : downloads i = none) :
    ptpDownloadFrom p downloads temps = none := by
  have hnone : forall n, i < n -> fetchPieces p downloads temps n = none := by
    intro n hn
    induction n with
    | zero => cases hn
    | succ n ih =>
        rw [fetchPieces]
        cases Nat.lt_or_ge i n with
        | inl hlt =>
            rw [ih hlt]
            rfl
        | inr hge =>
            have hlast : n = i := by omega
            rw [hlast, Option.bind_eq_none_iff]
            intro fetched _
            rw [if_pos hneeds, hexit]
            rfl
  unfold ptpDownloadFrom
  rw [hnone p.count hi]
  rfl

theorem needs_of_fetchPieces {n i : Nat} {fetched : Temps}
    (h : fetchPieces p downloads temps n = some fetched) (hi : i < n) :
    p.needs i (curLength (temps i)) = true := by
  induction n generalizing fetched with
  | zero => cases hi
  | succ n ih =>
      rw [fetchPieces] at h
      rcases Option.bind_eq_some_iff.mp h with ⟨before, hbefore, hlast⟩
      rcases Nat.lt_succ_iff_lt_or_eq.mp hi with hlt | rfl
      · exact ih hbefore hlt
      · split at hlast
        · next hneeds => exact hneeds
        · cases hlast

theorem fetchPieces_of_delivered {n : Nat}
    (hneeds : forall i, i < n -> p.needs i (curLength (temps i)) = true)
    (h : forall i, i < n -> downloads i = some (p.delivered content i)) :
    exists fetched, fetchPieces p downloads temps n = some fetched ∧
      forall i, fetched i =
        if i < n then fetch p content temps i else temps i := by
  induction n with
  | zero => exact ⟨temps, rfl, fun i => rfl⟩
  | succ n ih =>
      rcases ih (fun i hi => hneeds i (Nat.lt_succ_of_lt hi))
        (fun i hi => h i (Nat.lt_succ_of_lt hi)) with
        ⟨fetched, hfetched, hsame⟩
      have hlast := hneeds n (Nat.lt_succ_self n)
      rw [fetchPieces, hfetched, Option.bind_some, if_pos hlast,
        h n (Nat.lt_succ_self n)]
      refine ⟨_, rfl, ?_⟩
      intro i
      dsimp only
      rcases Nat.lt_trichotomy i n with hlt | rfl | hgt
      · rw [if_neg (by omega), hsame i, if_pos hlt,
          if_pos (Nat.lt_succ_of_lt hlt)]
      · rw [if_pos rfl, if_pos (Nat.lt_succ_self i), fetch, if_pos hlast]
      · rw [if_neg (by omega), hsame i, if_neg (by omega),
          if_neg (by omega)]

theorem assemble_congr {temps temps' : Temps} {n : Nat}
    (h : forall i, i < n -> temps i = temps' i) :
    assemble temps n = assemble temps' n := by
  induction n with
  | zero => rfl
  | succ n ih =>
      rw [assemble, assemble, ih fun i hi => h i (Nat.lt_succ_of_lt hi),
        h n (Nat.lt_succ_self n)]

theorem ptpDownloadFrom_of_delivered
    (h : forall i, i < p.count -> p.needs i (curLength (temps i)) = true ->
      downloads i = some (p.delivered content i)) :
    ptpDownloadFrom p downloads temps =
      (ptpDownload p content temps).map fun file =>
        { file := file, type := FILE_DOWNLOAD } := by
  cases Classical.em (p.Joins temps) with
  | inl hjoins =>
      rcases fetchPieces_of_delivered hjoins
        (fun i hi => h i hi (hjoins i hi)) with ⟨fetched, hfetched, hsame⟩
      have hassemble : assemble fetched p.count =
          assemble (fetch p content temps) p.count := by
        apply assemble_congr
        intro i hi
        rw [hsame i, if_pos hi]
      unfold ptpDownloadFrom ptpDownload
      rw [hfetched, Option.bind_some, hassemble, if_pos hjoins]
  | inr hmissing =>
      have hnone : fetchPieces p downloads temps p.count = none := by
        rw [Option.eq_none_iff_forall_ne_some]
        intro fetched hfetched
        exact hmissing fun i hi => needs_of_fetchPieces hfetched hi
      unfold ptpDownloadFrom ptpDownload
      rw [hnone, if_neg hmissing]
      rfl

theorem delivered_eq_requestedBytes {peerNum fileSize : Int} (h : 0 ≤ fileSize)
    (hlt : fileSize < 2 ^ 64) (content : List UInt8) (i : Nat) :
    (plan peerNum fileSize).delivered content i =
      requestedBytes content ((plan peerNum fileSize).offsetWord i)
        ((plan peerNum fileSize).sizeWord i) := by
  have hsize := @size_plan_bounds peerNum fileSize h hlt i
  have hoffset : 0 ≤ (plan peerNum fileSize).offset i ∧
      (plan peerNum fileSize).offset i < 2 ^ 64 := by
    unfold Plan.offset ulong
    omega
  have hsizeLt : ((plan peerNum fileSize).size i).toNat < 2 ^ 64 := by
    omega
  have hoffsetLt : ((plan peerNum fileSize).offset i).toNat < 2 ^ 64 := by
    omega
  have hsizeWord : ((plan peerNum fileSize).sizeWord i).toNat =
      ((plan peerNum fileSize).size i).toNat :=
    UInt64.toNat_ofNat_of_lt' hsizeLt
  have hoffsetWord : ((plan peerNum fileSize).offsetWord i).toNat =
      ((plan peerNum fileSize).offset i).toNat :=
    UInt64.toNat_ofNat_of_lt' hoffsetLt
  unfold Plan.delivered requestedBytes
  rw [hsizeWord, hoffsetWord]

end File

/-- Sources that stop are contained exactly when no requested piece is harmed. -/
theorem contained_iff {z : Zlib} (hz : z.Lawful) (hformat : z.Format)
    (hstrict : z.Strict) (after : Nat -> Nat -> List UInt8) (peerNum : Int32)
    (fileSize : UInt64) (content : List UInt8) (temps : Temps)
    (stops : Nat -> Nat) :
    Contained z after (plan peerNum.toInt fileSize.toNat) content temps
        stops <->
      forall i : Nat, i < (plan peerNum.toInt fileSize.toNat).count ->
        (plan peerNum.toInt fileSize.toNat).needs i (curLength (temps i)) =
            true ->
          Unharmed z (after i) content
            ((plan peerNum.toInt fileSize.toNat).offsetWord i)
            ((plan peerNum.toInt fileSize.toNat).sizeWord i) (stops i) := by
  have hpiece : forall i : Nat,
      pieceArriving z after (plan peerNum.toInt fileSize.toNat) content stops
          i =
        some ((plan peerNum.toInt fileSize.toNat).delivered content i) <->
      Unharmed z (after i) content
        ((plan peerNum.toInt fileSize.toNat).offsetWord i)
        ((plan peerNum.toInt fileSize.toNat).sizeWord i) (stops i) := by
    intro i
    rw [delivered_eq_requestedBytes (Int.natCast_nonneg _)
      (by exact_mod_cast fileSize.toNat_lt)]
    exact downloadPiece_arriving_iff hz hformat hstrict
  constructor
  · intro h i hi hneeds
    exact (hpiece i).mp (h.stored i hi hneeds)
  · intro h
    have hstored : forall i : Nat,
        i < (plan peerNum.toInt fileSize.toNat).count ->
        (plan peerNum.toInt fileSize.toNat).needs i (curLength (temps i)) =
            true -> _ := fun i hi hneeds => (hpiece i).mpr (h i hi hneeds)
    refine ⟨hstored, ?_⟩
    intro result hresult
    rw [ptpDownloadFrom_of_delivered hstored] at hresult
    rcases Option.map_eq_some_iff.mp hresult with ⟨file, hfile, rfl⟩
    exact hfile

theorem Sample.deflate_refuses (front : List UInt8) (n : Nat) :
    Sample.deflate.uncompress n (front ++ [0]) = none := by
  have hlast : (front ++ [(0 : UInt8)]).getLast? = some 0 :=
    List.getLast?_concat
  have hother : forall bytes : List UInt8, bytes.getLast? ≠ some 0 ->
      front ++ [0] ≠ bytes := by
    intro bytes hbytes heq
    rw [heq] at hlast
    exact hbytes hlast
  unfold Sample.deflate
  dsimp only
  rw [if_neg (hother _ (by decide)), if_neg (hother _ (by decide)),
    if_neg (hother _ (by decide)), hlast,
    if_neg fun hmarks => absurd hmarks.right (by decide)]
  rfl

theorem Sample.deflate_strict : Sample.deflate.Strict where
  incomplete := by
    intro x k y hx hne huncompress
    generalize Sample.deflate.compress x = bytes at hne huncompress
    have hk : k < bytes.length := by
      by_contra hge
      apply hne
      rw [List.take_of_length_le (Nat.le_of_not_lt hge), pad_length]
    have hrest : bytes.length - (bytes.take k).length =
        bytes.length - k - 1 + 1 := by
      rw [List.length_take]
      omega
    unfold pad at huncompress
    rw [hrest, List.replicate_succ', ← List.append_assoc,
      Sample.deflate_refuses] at huncompress
    cases huncompress
  zeros := by
    intro n
    cases n with
    | zero => rfl
    | succ n =>
        rw [List.replicate_succ']
        exact Sample.deflate_refuses _ _

theorem two_packets_contained :
    Contained Sample.deflate (fun _ _ => [0]) (plan (1 : Int32).toInt
      (1465 : UInt64).toNat) Sample.letters (fun _ => none) (fun _ => 45) := by
  apply (contained_iff Sample.deflate_lawful Sample.deflate_format
    Sample.deflate_strict _ 1 1465 _ _ _).mpr
  intro i hi _
  have hzero : i = 0 := Nat.lt_one_iff.mp hi
  have hoffset : (plan (1 : Int32).toInt
      (1465 : UInt64).toNat).offsetWord 0 = 0 := by decide
  have hsize : (plan (1 : Int32).toInt
      (1465 : UInt64).toNat).sizeWord 0 = 1465 := by decide
  rw [hzero, hoffset, hsize]
  refine ⟨by decide, ?_, ?_⟩
  · rw [Sample.uploadBuffer_letters, Sample.sentBytes_letters,
      List.drop_of_length_le (by decide)]
    intro x hx
    cases hx
  · intro j _
    rw [← uploadBuffer_eq (by decide), Sample.uploadBuffer_letters]
    exact Sample.kept_letters j

/-- A request to a source without the file. -/
theorem not_contained_missing :
    ¬ forall (z : Zlib) (after : Nat -> Nat -> List UInt8) (peerNum : Int32)
      (fileSize : UInt64) (content : List UInt8) (temps : Temps)
      (stops : Nat -> Nat), z.Lawful -> z.Format -> z.Strict ->
      0 < peerNum -> fileSize.toNat = content.length ->
      content.length < 2 ^ 31 -> (forall i, temps i = none) ->
      Contained z after (plan peerNum.toInt fileSize.toNat) content temps
        stops := by
  intro h
  have hcontained := h Sample.deflate (fun _ _ => [0]) 1 1 [97]
    (fun _ => none) (fun _ => 0) Sample.deflate_lawful Sample.deflate_format
    Sample.deflate_strict (by decide) rfl (by decide) (fun _ => rfl)
  have hstored := hcontained.stored 0 (by decide) (by decide)
  revert hstored
  decide

end Transfer
end DartSync
