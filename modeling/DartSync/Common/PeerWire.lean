import DartSync.Common.Framing
import DartSync.Foundation.Memory

/-!
# Packets from peer to tracker in memory

The bytes of `ptp_peer_t` as `peer_sendpkt` sends them and `tracker_recvpkt`
reads them, with the reserved bytes.  The node and the address in a packet are
character arrays here; the strings that the other modules work with are what
these arrays hold up to their first zero byte.
-/

namespace DartSync

open Foundation

abbrev RESERVED_LEN : Nat := 512

structure PeerImage where
  type : Int32
  reserved : Vector UInt8 RESERVED_LEN
  peer_ip : Vector UInt8 IP_LEN
  port : Int32
  file_table_size : Int32
  file : Linked NodeImage
deriving DecidableEq

def peerCodec : Codec PeerImage :=
  (Codec.int32.prod <| (Codec.byte.vector RESERVED_LEN).prod <|
      (Codec.byte.vector IP_LEN).prod <| Codec.int32.prod <|
      (Codec.int32.padded 4).prod nodeCodec).map
    (fun (type, reserved, peer_ip, port, file_table_size, file) =>
      { type, reserved, peer_ip, port, file_table_size, file })
    (fun pkt => (pkt.type, pkt.reserved, pkt.peer_ip, pkt.port,
      pkt.file_table_size, pkt.file))
    fun _ => rfl

example : peerCodec.size = 928 := rfl

/-!
## Strings in arrays
-/

section Arrays

variable {n : Nat}

def CString.ofArray (array : Vector UInt8 n) (h : 0 ∈ array.toList) :
    CString n where
  bytes := cstr array.toList
  noNul := zero_not_mem_cstr array.toList
  fits := by
    have hlength := length_cstr_lt h
    rw [Vector.length_toList] at hlength
    exact hlength

/-- The string at the front of zeros, as `strcpy` leaves it in memory from
`calloc`. -/
def CString.array (s : CString n) : Vector UInt8 n :=
  ⟨(pad s.bytes n).toArray, by
    rw [List.size_toArray, length_pad (Nat.le_of_lt s.fits)]⟩

theorem CString.toList_array (s : CString n) :
    s.array.toList = pad s.bytes n := rfl

theorem CString.terminated_array (s : CString n) : 0 ∈ s.array.toList := by
  rw [s.toList_array]
  exact zero_mem_pad s.fits

theorem CString.ofArray_array (s : CString n) (h : 0 ∈ s.array.toList) :
    CString.ofArray s.array h = s :=
  CString.eq_of_bytes_eq (cstr_pad s.noNul)

end Arrays

/-!
## Nodes
-/

structure NodeImage.Terminated (image : NodeImage) : Prop where
  name : 0 ∈ image.name.toList
  newpeerip : forall i : Fin MAX_PEER_NUM, 0 ∈ (image.newpeerip.get i).toList

instance NodeImage.instDecidableTerminated (image : NodeImage) :
    Decidable image.Terminated :=
  decidable_of_iff
    (0 ∈ image.name.toList ∧
      forall i : Fin MAX_PEER_NUM, 0 ∈ (image.newpeerip.get i).toList)
    ⟨fun h => ⟨h.left, h.right⟩, fun h => ⟨h.name, h.newpeerip⟩⟩

/-- The node in some memory; `none` where a string would be read past its
array. -/
def NodeImage.read (image : NodeImage) : Option Node :=
  if h : image.Terminated then
    some
      { status := image.status
        size := image.size
        name := CString.ofArray image.name h.name
        timestamp := image.timestamp
        type := image.type
        newpeerip := Vector.ofFn fun i =>
          CString.ofArray (image.newpeerip.get i) (h.newpeerip i) }
  else none

def Node.image (node : Node) : NodeImage where
  status := node.status
  size := node.size
  name := node.name.array
  timestamp := node.timestamp
  type := node.type
  newpeerip := Vector.ofFn fun i => (node.newpeerip.get i).array

theorem Node.get_newpeerip_image (node : Node) (i : Fin MAX_PEER_NUM) :
    node.image.newpeerip.get i = (node.newpeerip.get i).array :=
  Vector.getElem_ofFn i.isLt

theorem Node.terminated_image (node : Node) : node.image.Terminated where
  name := node.name.terminated_array
  newpeerip := by
    intro i
    rw [node.get_newpeerip_image]
    exact (node.newpeerip.get i).terminated_array

theorem CString.ofArray_congr {n : Nat} {a b : Vector UInt8 n} (hab : a = b)
    (ha : 0 ∈ a.toList) (hb : 0 ∈ b.toList) :
    CString.ofArray a ha = CString.ofArray b hb := by
  cases hab
  rfl

theorem Node.read_image (node : Node) : node.image.read = some node := by
  have hips : (Vector.ofFn fun i => CString.ofArray (node.image.newpeerip.get i)
      (node.terminated_image.newpeerip i)) = node.newpeerip := by
    apply Vector.ext
    intro i hi
    rw [Vector.getElem_ofFn, CString.ofArray_congr
      (node.get_newpeerip_image ⟨i, hi⟩) _ (CString.terminated_array _),
      CString.ofArray_array]
    rfl
  unfold NodeImage.read
  rw [dif_pos node.terminated_image, hips,
    show CString.ofArray node.image.name node.terminated_image.name =
      node.name from CString.ofArray_array _ _]
  rfl

def Placed.read (x : Placed NodeImage) : Option (Placed Node) :=
  x.value.read.map fun node =>
    { address := x.address, notNull := x.notNull, value := node }

def Linked.read (x : Linked NodeImage) : Option (Linked Node) :=
  x.value.read.map fun node => { value := node, pNext := x.pNext }

def Stores (images : List (Placed NodeImage)) (P : List (Placed Node)) : Prop :=
  images.map Placed.read = P.map some

theorem Placed.read_eq_some_iff {x : Placed NodeImage} {y : Placed Node} :
    x.read = some y <-> x.value.read = some y.value ∧ x.address = y.address := by
  unfold Placed.read
  cases x.value.read with
  | none => simp
  | some node =>
      cases y with
      | mk address notNull value => simp [and_comm]

theorem Stores.length_eq {images : List (Placed NodeImage)}
    {P : List (Placed Node)} (h : Stores images P) :
    images.length = P.length := by
  have hlength := congrArg List.length h
  rw [List.length_map, List.length_map] at hlength
  exact hlength

theorem map_some_of_map_some {α β γ δ : Type} {f : α -> Option β}
    {g : γ -> Option δ} {pack : α -> γ} {pack' : β -> δ} {xs : List α}
    {ys : List β}
    (hread : forall x y, f x = some y -> g (pack x) = some (pack' y))
    (h : xs.map f = ys.map some) :
    xs.map (g ∘ pack) = (ys.map pack').map some := by
  induction xs generalizing ys with
  | nil =>
      rw [List.map_nil, eq_comm, List.map_eq_nil_iff] at h
      rw [h]
      rfl
  | cons x rest ih =>
      cases ys with
      | nil => cases h
      | cons y later =>
          rw [List.map_cons, List.map_cons, List.cons.injEq] at h
          rw [List.map_cons, List.map_cons, List.map_cons, ih h.right,
            Function.comp_apply, hread x y h.left]

theorem Stores.link {images : List (Placed NodeImage)}
    {P : List (Placed Node)} (h : Stores images P) :
    (DartSync.link images).map Linked.read =
      (DartSync.link P).map some := by
  unfold Stores at h
  induction images generalizing P with
  | nil =>
      rw [List.map_nil, eq_comm, List.map_eq_nil_iff] at h
      rw [h]
      rfl
  | cons x rest ih =>
      cases P with
      | nil => cases h
      | cons y later =>
          rw [List.map_cons, List.map_cons, List.cons.injEq] at h
          have hx := Placed.read_eq_some_iff.mp h.left
          have hrest := ih h.right
          cases rest with
          | nil =>
              cases later with
              | cons z later => cases h.right
              | nil =>
                  simp [DartSync.link, Linked.read, hx.left]
          | cons x' rest =>
              cases later with
              | nil => cases h.right
              | cons y' later =>
                  rw [List.map_cons, List.map_cons, List.cons.injEq] at h
                  have hx' := Placed.read_eq_some_iff.mp h.right.left
                  rw [DartSync.link, DartSync.link, List.map_cons,
                    List.map_cons, hrest]
                  simp [Linked.read, hx.left, hx'.right]

def images (P : List (Placed Node)) : List (Placed NodeImage) :=
  P.map fun x =>
    { address := x.address, notNull := x.notNull, value := x.value.image }

theorem exists_stores {images : List (Placed NodeImage)} {table : List Node}
    (h : images.map (fun x => x.value.read) = table.map some) :
    exists P, Stores images P ∧ P.map Placed.value = table := by
  induction images generalizing table with
  | nil =>
      rw [List.map_nil, eq_comm, List.map_eq_nil_iff] at h
      exact ⟨[], rfl, h.symm⟩
  | cons x rest ih =>
      cases table with
      | nil => cases h
      | cons node table =>
          rw [List.map_cons, List.map_cons, List.cons.injEq] at h
          rcases ih h.right with ⟨P, hP, htable⟩
          refine ⟨{ address := x.address, notNull := x.notNull, value := node } :: P, ?_, ?_⟩
          · unfold Stores
            rw [List.map_cons, List.map_cons, List.cons.injEq]
            exact ⟨Placed.read_eq_some_iff.mpr ⟨h.left, rfl⟩, hP⟩
          · rw [List.map_cons, htable]

/-!
## Sending
-/

def peerPackets (myip : CString IP_LEN) (ft : List (Placed NodeImage))
    (type : Int32) : List PeerImage :=
  let send_pkt (file_table_size : Int32) (file : Linked NodeImage) :
      PeerImage :=
    { type := type
      reserved := Vector.replicate _ 0
      peer_ip := myip.array
      port := P2P_PORT
      file_table_size := file_table_size
      file := file }
  if type = FILE_UPDATE then
    send_pkt (Int32.ofNat ft.length) zeroImage ::
      (link ft).map (send_pkt (-1))
  else [send_pkt (-1) zeroImage]

/-- The packet that the tracker works with; `none` where a string would be read
past its array. -/
def PeerImage.read (pkt : PeerImage) : Option PtpPeer :=
  if h : 0 ∈ pkt.peer_ip.toList then
    pkt.file.read.map fun file =>
      { type := pkt.type
        peer_ip := CString.ofArray pkt.peer_ip h
        port := pkt.port
        file_table_size := pkt.file_table_size
        file := file }
  else none

theorem PeerImage.read_of_file {pkt : PeerImage} {myip : CString IP_LEN}
    {file : Linked Node} (hip : pkt.peer_ip = myip.array)
    (hfile : pkt.file.read = some file) :
    pkt.read = some
      { type := pkt.type
        peer_ip := myip
        port := pkt.port
        file_table_size := pkt.file_table_size
        file := file } := by
  have hterminated : 0 ∈ pkt.peer_ip.toList := by
    rw [hip]
    exact myip.terminated_array
  unfold PeerImage.read
  rw [dif_pos hterminated, hfile, Option.map_some,
    CString.ofArray_congr hip hterminated myip.terminated_array,
    CString.ofArray_array]

def PtpPeer.image (pkt : PtpPeer) : PeerImage where
  type := pkt.type
  reserved := Vector.replicate _ 0
  peer_ip := pkt.peer_ip.array
  port := pkt.port
  file_table_size := pkt.file_table_size
  file := { value := pkt.file.value.image, pNext := pkt.file.pNext }

theorem PtpPeer.read_image (pkt : PtpPeer) : pkt.image.read = some pkt := by
  have hfile : pkt.image.file.read = some pkt.file := by
    show pkt.file.value.image.read.map _ = _
    rw [pkt.file.value.read_image]
    rfl
  exact PeerImage.read_of_file rfl hfile

theorem zeroImage_eq : zeroImage.value = zeroNode.image := by
  decide +kernel

theorem read_zeroImage :
    zeroImage.read = some { value := zeroNode, pNext := 0 } := by
  unfold Linked.read
  rw [zeroImage_eq, zeroNode.read_image]
  rfl

theorem read_peerPackets {ft : List (Placed NodeImage)}
    {P : List (Placed Node)} (h : Stores ft P) (myip : CString IP_LEN)
    (type : Int32) :
    (peerPackets myip ft type).map PeerImage.read =
      (peerSendpkt myip P type).map some := by
  unfold peerPackets peerSendpkt
  dsimp only
  split
  · rw [List.map_cons, List.map_cons, List.map_map,
      PeerImage.read_of_file rfl read_zeroImage, h.length_eq]
    congr 1
    apply map_some_of_map_some _ h.link
    intro file file' hfile
    exact PeerImage.read_of_file rfl hfile
  · rw [List.map_singleton, List.map_singleton,
      PeerImage.read_of_file rfl read_zeroImage]

/-!
## Receiving
-/

/-- `tracker_receiver`: the bytes are stored as in `peer_receiver`. -/
def trackerReceiver (conn : List UInt8) : Option PeerImage × List UInt8 :=
  match fill peerCodec.size [] conn with
  | (none, rest) => (none, rest)
  | (some buf, rest) => (some (peerCodec.decode buf), rest)

theorem trackerReceiver_of_short {conn : List UInt8}
    (h : conn.length < peerCodec.size) : trackerReceiver conn = (none, []) := by
  unfold trackerReceiver
  rw [fill_of_short]
  rw [List.length_nil, Nat.zero_add]
  exact h

theorem trackerReceiver_encode (pkt : PeerImage) (rest : List UInt8) :
    trackerReceiver (peerCodec.encode pkt ++ rest) = (some pkt, rest) := by
  have hlength := peerCodec.length_encode pkt
  have hne : peerCodec.encode pkt ≠ [] := by
    intro hnil
    rw [hnil] at hlength
    cases hlength
  have hdecode := peerCodec.decode_encode pkt []
  rw [List.append_nil] at hdecode
  unfold trackerReceiver
  rw [fill_of_full (by rw [List.length_nil, Nat.zero_add, hlength]) hne,
    List.nil_append]
  dsimp only
  rw [hdecode]

/-- The packets of successive `tracker_recvpkt` calls up to the one that fails,
with a bound on their number. -/
def receivedPackets : Nat -> List UInt8 -> List PeerImage
  | 0, _ => []
  | n + 1, conn =>
      match trackerReceiver conn with
      | (none, _) => []
      | (some pkt, rest) => pkt :: receivedPackets n rest

def received (conn : List UInt8) : List PeerImage :=
  receivedPackets conn.length conn

theorem receivedPackets_encode {n : Nat} {pkts : List PeerImage}
    (hn : pkts.length ≤ n) {tail : List UInt8}
    (htail : tail.length < peerCodec.size) :
    receivedPackets n (pkts.flatMap peerCodec.encode ++ tail) = pkts := by
  induction pkts generalizing n with
  | nil =>
      cases n with
      | zero => rfl
      | succ n =>
          rw [receivedPackets, List.flatMap_nil, List.nil_append,
            trackerReceiver_of_short htail]
  | cons pkt pkts ih =>
      cases n with
      | zero => cases hn
      | succ n =>
          rw [receivedPackets, List.flatMap_cons, List.append_assoc,
            trackerReceiver_encode]
          dsimp only
          rw [ih (Nat.le_of_succ_le_succ hn)]

theorem received_encode (pkts : List PeerImage) {tail : List UInt8}
    (htail : tail.length < peerCodec.size) :
    received (pkts.flatMap peerCodec.encode ++ tail) = pkts := by
  apply receivedPackets_encode _ htail
  rw [List.length_append, peerCodec.length_flatMap_encode]
  have hsize : 1 ≤ peerCodec.size := by decide
  have hmul := Nat.mul_le_mul_left pkts.length hsize
  omega

theorem received_of_prefix {pkts : List PeerImage} {conn : List UInt8}
    (h : conn <+: pkts.flatMap peerCodec.encode) :
    exists i, i ≤ pkts.length ∧ received conn = pkts.take i ∧
      i * peerCodec.size ≤ conn.length ∧
      conn.length < (i + 1) * peerCodec.size := by
  rcases peerCodec.prefix_flatMap_encode (by decide) pkts h with
    ⟨i, tail, hsplit, hi, htail⟩
  refine ⟨i, hi, ?_, ?_⟩
  · rw [hsplit, received_encode _ htail]
  · rw [hsplit, List.length_append, peerCodec.length_flatMap_encode,
      List.length_take, Nat.min_eq_left hi, Nat.succ_mul]
    omega

end DartSync
