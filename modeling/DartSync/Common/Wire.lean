import DartSync.Common.Pkt
import DartSync.Foundation.Codec

/-!
# Packets from tracker to peer

The bytes of `ptp_tracker_t` as `tracker_sendpkt` sends them and `peer_recvpkt`
reads them.  Here a node is its whole memory, with every byte of its character
arrays, on a machine with 64-bit `long` and pointers.
-/

namespace DartSync

open Foundation

/-- The fields of a `Node`, without its link. -/
structure NodeImage where
  status : Int16
  size : UInt64
  name : Vector UInt8 FILE_NAME_LEN
  timestamp : UInt64
  type : Int32
  newpeerip : Vector (Vector UInt8 (IP_LEN + 1)) MAX_PEER_NUM
deriving DecidableEq

structure PtpTracker where
  file_table_size : Int32
  file : Linked NodeImage
deriving DecidableEq

def zeroImage : Linked NodeImage where
  value :=
    { status := 0
      size := 0
      name := Vector.replicate _ 0
      timestamp := 0
      type := 0
      newpeerip := Vector.replicate _ (Vector.replicate _ 0) }
  pNext := 0

/-!
## Layout
-/

def nodeCodec : Codec (Linked NodeImage) :=
  (((Codec.int16.padded 6).prod <| Codec.uint64.prod <|
      (Codec.byte.vector FILE_NAME_LEN).prod <| Codec.uint64.prod <|
      (Codec.int32.padded 4).prod <| Codec.uint64.prod <|
      ((Codec.byte.vector (IP_LEN + 1)).vector MAX_PEER_NUM).padded 3)).map
    (fun (status, size, name, timestamp, type, pNext, newpeerip) =>
      { value := { status, size, name, timestamp, type, newpeerip }, pNext })
    (fun node => (node.value.status, node.value.size, node.value.name,
      node.value.timestamp, node.value.type, node.pNext, node.value.newpeerip))
    fun _ => rfl

def trackerCodec : Codec PtpTracker :=
  ((Codec.int32.padded 4).prod nodeCodec).map
    (fun (file_table_size, file) => { file_table_size, file })
    (fun pkt => (pkt.file_table_size, pkt.file))
    fun _ => rfl

example : trackerCodec.size = 392 := rfl

/-!
## Sending
-/

/-- The argument of `tracker_sendpkt`: `NULL`, or a list in memory. -/
abbrev SentTable := Option (List (Placed NodeImage))

def SentTable.nodes (ft : SentTable) : List (Placed NodeImage) :=
  ft.getD []

/-- The packets `tracker_sendpkt` sends. -/
def trackerSendpkt (ft : SentTable) : List PtpTracker :=
  let file_count := Int32.ofNat ft.nodes.length
  { file_table_size := file_count, file := zeroImage } ::
    match ft with
    | none => []
    | some nodes =>
        (link nodes).map fun ftemp => { file_table_size := -1, file := ftemp }

def sent (pkts : List PtpTracker) : List UInt8 :=
  pkts.flatMap trackerCodec.encode

/-!
## Receiving

A receiver gets the bytes that are to come before the connection ends, and
leaves those that it has not read.
-/

def fill (bufsize : Nat) : List UInt8 -> List UInt8 ->
    Option (List UInt8) × List UInt8
  | _, [] => (none, [])
  | buf, c :: conn =>
      if buf.length = bufsize - 1 then (some (buf ++ [c]), conn)
      else fill bufsize (buf ++ [c]) conn

def peerReceiver (conn : List UInt8) : Option PtpTracker × List UInt8 :=
  match fill trackerCodec.size [] conn with
  | (none, rest) => (none, rest)
  | (some buf, rest) => (some (trackerCodec.decode buf), rest)

/-- The loop of `peer_recvpkt`, with the nodes that are still to be read and
those read so far. -/
def recvNodes : Nat -> List (Linked NodeImage) -> List UInt8 ->
    Option (List (Linked NodeImage)) × List UInt8
  | 0, ft, conn => (some ft, conn)
  | n + 1, ft, conn =>
      match peerReceiver conn with
      | (none, rest) => (none, rest)
      | (some pkt, rest) => recvNodes n (ft ++ [pkt.file]) rest

/-- The table read into an empty one; `none` where the call returns -1. -/
def peerRecvpkt (conn : List UInt8) :
    Option (List (Linked NodeImage)) × List UInt8 :=
  match peerReceiver conn with
  | (none, rest) => (none, rest)
  | (some pkt, rest) => recvNodes pkt.file_table_size.toInt.toNat [] rest

def successive : Nat -> List UInt8 -> List (Option (List (Linked NodeImage)))
  | 0, _ => []
  | n + 1, conn =>
      let result := peerRecvpkt conn
      result.1 :: successive n result.2

/-!
## One packet
-/

theorem fill_of_short {bufsize : Nat} {buf conn : List UInt8}
    (h : buf.length + conn.length < bufsize) :
    fill bufsize buf conn = (none, []) := by
  induction conn generalizing buf with
  | nil => rfl
  | cons c conn ih =>
      rw [List.length_cons] at h
      rw [fill, if_neg (by omega), ih]
      rw [List.length_append, List.length_singleton]
      omega

theorem fill_of_full {bufsize : Nat} {buf bytes : List UInt8}
    (h : buf.length + bytes.length = bufsize) (hbytes : bytes ≠ [])
    (rest : List UInt8) :
    fill bufsize buf (bytes ++ rest) = (some (buf ++ bytes), rest) := by
  induction bytes generalizing buf with
  | nil => exact absurd rfl hbytes
  | cons c bytes ih =>
      rw [List.length_cons] at h
      rw [List.cons_append, fill]
      cases Classical.em (bytes = []) with
      | inl hlast =>
          rw [hlast, List.length_nil] at h
          rw [if_pos (by omega), hlast, List.nil_append]
      | inr hmore =>
          have hpositive := List.length_pos_iff.mpr hmore
          rw [if_neg (by omega), ih _ hmore, List.append_assoc,
            List.singleton_append]
          rw [List.length_append, List.length_singleton]
          omega

theorem peerReceiver_of_short {conn : List UInt8}
    (h : conn.length < trackerCodec.size) :
    peerReceiver conn = (none, []) := by
  unfold peerReceiver
  rw [fill_of_short]
  rw [List.length_nil, Nat.zero_add]
  exact h

theorem peerReceiver_encode (pkt : PtpTracker) (rest : List UInt8) :
    peerReceiver (trackerCodec.encode pkt ++ rest) = (some pkt, rest) := by
  have hlength := trackerCodec.length_encode pkt
  have hne : trackerCodec.encode pkt ≠ [] := by
    intro hnil
    rw [hnil] at hlength
    cases hlength
  have hdecode := trackerCodec.decode_encode pkt []
  rw [List.append_nil] at hdecode
  unfold peerReceiver
  rw [fill_of_full (by rw [List.length_nil, Nat.zero_add, hlength]) hne,
    List.nil_append]
  dsimp only
  rw [hdecode]

/-!
## One table
-/

theorem recvNodes_sent (pkts : List PtpTracker) (ft : List (Linked NodeImage))
    (rest : List UInt8) :
    recvNodes pkts.length ft (sent pkts ++ rest) =
      (some (ft ++ pkts.map PtpTracker.file), rest) := by
  induction pkts generalizing ft with
  | nil => rw [List.map_nil, List.append_nil]; rfl
  | cons pkt pkts ih =>
      unfold sent at ih ⊢
      rw [List.length_cons, recvNodes, List.flatMap_cons, List.append_assoc,
        peerReceiver_encode]
      dsimp only
      rw [ih, List.map_cons, List.append_assoc, List.singleton_append]

theorem recvNodes_of_short {n : Nat} {pkts : List PtpTracker}
    {tail : List UInt8} (hn : pkts.length < n)
    (htail : tail.length < trackerCodec.size)
    (ft : List (Linked NodeImage)) :
    recvNodes n ft (sent pkts ++ tail) = (none, []) := by
  induction pkts generalizing n ft with
  | nil =>
      cases n with
      | zero => cases hn
      | succ n =>
          rw [recvNodes]
          unfold sent
          rw [List.flatMap_nil, List.nil_append, peerReceiver_of_short htail]
  | cons pkt pkts ih =>
      cases n with
      | zero => cases hn
      | succ n =>
          unfold sent at ih ⊢
          rw [recvNodes, List.flatMap_cons, List.append_assoc,
            peerReceiver_encode]
          exact ih (Nat.lt_of_succ_lt_succ hn) _

theorem peerRecvpkt_of_complete {header : PtpTracker} {pkts : List PtpTracker}
    (h : header.file_table_size.toInt.toNat = pkts.length)
    (later : List PtpTracker) (tail : List UInt8) :
    peerRecvpkt (sent (header :: pkts ++ later) ++ tail) =
      (some (pkts.map PtpTracker.file), sent later ++ tail) := by
  have hsplit : sent (header :: pkts ++ later) ++ tail =
      trackerCodec.encode header ++ (sent pkts ++ (sent later ++ tail)) := by
    unfold sent
    rw [List.cons_append, List.flatMap_cons, List.flatMap_append,
      List.append_assoc, List.append_assoc]
  unfold peerRecvpkt
  rw [hsplit, peerReceiver_encode]
  dsimp only
  rw [h, recvNodes_sent, List.nil_append]

theorem peerRecvpkt_of_short {header : PtpTracker} {pkts : List PtpTracker}
    {tail : List UInt8}
    (h : pkts.length < header.file_table_size.toInt.toNat)
    (htail : tail.length < trackerCodec.size) :
    peerRecvpkt (sent (header :: pkts) ++ tail) = (none, []) := by
  have hsplit : sent (header :: pkts) ++ tail =
      trackerCodec.encode header ++ (sent pkts ++ tail) := by
    unfold sent
    rw [List.flatMap_cons, List.append_assoc]
  unfold peerRecvpkt
  rw [hsplit, peerReceiver_encode]
  exact recvNodes_of_short h htail []

theorem peerRecvpkt_of_end {tail : List UInt8}
    (h : tail.length < trackerCodec.size) :
    peerRecvpkt tail = (none, []) := by
  unfold peerRecvpkt
  rw [peerReceiver_of_short h]

theorem successive_of_none {conn : List UInt8}
    (h : peerRecvpkt conn = (none, [])) (n : Nat) :
    successive n conn = List.replicate n none := by
  induction n generalizing conn with
  | zero => rfl
  | succ n ih =>
      rw [successive, h, List.replicate_succ]
      exact congrArg _ (ih (peerRecvpkt_of_end (by decide)))

end DartSync
