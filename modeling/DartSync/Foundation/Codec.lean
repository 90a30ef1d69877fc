import Mathlib.Data.List.Basic
import Mathlib.Data.Vector.Basic

/-!
# Fixed-size encodings

A codec writes every value of a type as the same number of bytes and reads it
back from the front of any bytes.  Reading is total, as a read of memory is; a
missing byte is read as zero.  Codecs compose, which is how the layout of a
structure is put together from its fields and its padding.
-/

namespace DartSync
namespace Foundation

universe u v

structure Codec (α : Type u) where
  size : Nat
  encode : α -> List UInt8
  decode : List UInt8 -> α
  length_encode : forall x, (encode x).length = size
  decode_encode : forall x suffix, decode (encode x ++ suffix) = x

namespace Codec

section Compose

variable {α : Type u} {β : Type v}

def byte : Codec UInt8 where
  size := 1
  encode x := [x]
  decode bytes := bytes.headD 0
  length_encode _ := rfl
  decode_encode _ _ := rfl

def prod (c : Codec α) (d : Codec β) : Codec (α × β) where
  size := c.size + d.size
  encode x := c.encode x.1 ++ d.encode x.2
  decode bytes := (c.decode bytes, d.decode (bytes.drop c.size))
  length_encode := by
    intro x
    rw [List.length_append, c.length_encode, d.length_encode]
  decode_encode := by
    intro x suffix
    rw [List.append_assoc, c.decode_encode,
      List.drop_left' (c.length_encode x.1), d.decode_encode]

def map (c : Codec α) (pack : α -> β) (unpack : β -> α)
    (h : forall y, pack (unpack y) = y) : Codec β where
  size := c.size
  encode y := c.encode (unpack y)
  decode bytes := pack (c.decode bytes)
  length_encode := by
    intro y
    exact c.length_encode (unpack y)
  decode_encode := by
    intro y suffix
    rw [c.decode_encode, h]

def padded (c : Codec α) (n : Nat) : Codec α where
  size := c.size + n
  encode x := c.encode x ++ List.replicate n 0
  decode := c.decode
  length_encode := by
    intro x
    rw [List.length_append, c.length_encode, List.length_replicate]
  decode_encode := by
    intro x suffix
    rw [List.append_assoc, c.decode_encode]

end Compose

/-!
## Sequences
-/

section Sequence

variable {α : Type u} (c : Codec α)

theorem length_flatMap_encode (xs : List α) :
    (xs.flatMap c.encode).length = xs.length * c.size := by
  induction xs with
  | nil => simp
  | cons x rest ih =>
      rw [List.flatMap_cons, List.length_append, c.length_encode, ih,
        List.length_cons, Nat.succ_mul, Nat.add_comm]

theorem drop_flatMap_encode (xs : List α) (suffix : List UInt8) {i : Nat}
    (h : i ≤ xs.length) :
    (xs.flatMap c.encode ++ suffix).drop (i * c.size) =
      (xs.drop i).flatMap c.encode ++ suffix := by
  induction i generalizing xs with
  | zero => rw [Nat.zero_mul, List.drop_zero, List.drop_zero]
  | succ i ih =>
      cases xs with
      | nil => cases h
      | cons x rest =>
          rw [Nat.succ_mul, Nat.add_comm, ← List.drop_drop, List.flatMap_cons,
            List.append_assoc, List.drop_left' (c.length_encode x),
            ih rest (Nat.le_of_succ_le_succ h), List.drop_succ_cons]

theorem prefix_flatMap_encode (hsize : 0 < c.size) (xs : List α)
    {bytes : List UInt8} (h : bytes <+: xs.flatMap c.encode) :
    exists i tail, bytes = (xs.take i).flatMap c.encode ++ tail ∧
      i ≤ xs.length ∧ tail.length < c.size := by
  induction xs generalizing bytes with
  | nil =>
      rw [List.flatMap_nil, List.prefix_nil] at h
      exact ⟨0, [], by rw [h]; rfl, Nat.le_refl 0, hsize⟩
  | cons x rest ih =>
      rw [List.flatMap_cons] at h
      cases Nat.lt_or_ge bytes.length c.size with
      | inl hshort => exact ⟨0, bytes, rfl, Nat.zero_le _, hshort⟩
      | inr hlong =>
          rw [← c.length_encode x] at hlong
          have hfirst : c.encode x <+: bytes :=
            List.prefix_of_prefix_length_le (List.prefix_append _ _) h hlong
          rcases hfirst with ⟨later, hlater⟩
          rw [← hlater, List.prefix_append_right_inj] at h
          rcases ih h with ⟨i, tail, hbytes, hi, htail⟩
          refine ⟨i + 1, tail, ?_, Nat.succ_le_succ hi, htail⟩
          rw [← hlater, hbytes, List.take_succ_cons, List.flatMap_cons,
            List.append_assoc]

def vector (n : Nat) : Codec (Vector α n) where
  size := n * c.size
  encode xs := xs.toList.flatMap c.encode
  decode bytes := Vector.ofFn fun i => c.decode (bytes.drop (i * c.size))
  length_encode := by
    intro xs
    rw [c.length_flatMap_encode, Vector.length_toList]
  decode_encode := by
    intro xs suffix
    apply Vector.ext
    intro i hi
    have hlength : i < xs.toList.length := by
      rw [Vector.length_toList]
      exact hi
    rw [Vector.getElem_ofFn, c.drop_flatMap_encode _ _ (Nat.le_of_lt hlength),
      List.drop_eq_getElem_cons hlength, List.flatMap_cons, List.append_assoc,
      c.decode_encode, Vector.getElem_toList]

end Sequence

/-!
## Words
-/

def littleEndian : Nat -> Nat -> List UInt8
  | 0, _ => []
  | k + 1, n => UInt8.ofNat n :: littleEndian k (n / 256)

def ofLittleEndian : Nat -> List UInt8 -> Nat
  | 0, _ => 0
  | k + 1, bytes => (bytes.headD 0).toNat + 256 * ofLittleEndian k bytes.tail

theorem length_littleEndian (k n : Nat) : (littleEndian k n).length = k := by
  induction k generalizing n with
  | zero => rfl
  | succ k ih => rw [littleEndian, List.length_cons, ih]

theorem ofLittleEndian_littleEndian {k n : Nat} (h : n < 256 ^ k)
    (suffix : List UInt8) :
    ofLittleEndian k (littleEndian k n ++ suffix) = n := by
  induction k generalizing n with
  | zero =>
      rw [Nat.pow_zero] at h
      rw [ofLittleEndian]
      omega
  | succ k ih =>
      have hquotient : n / 256 < 256 ^ k := by
        apply Nat.div_lt_of_lt_mul
        rw [Nat.mul_comm, ← Nat.pow_succ]
        exact h
      rw [littleEndian, List.cons_append, ofLittleEndian, List.headD_cons,
        List.tail_cons, ih hquotient, UInt8.toNat_ofNat']
      omega

theorem ofLittleEndian_lt (k : Nat) (bytes : List UInt8) :
    ofLittleEndian k bytes < 256 ^ k := by
  induction k generalizing bytes with
  | zero => exact Nat.one_pos
  | succ k ih =>
      have hrest := ih bytes.tail
      have hfirst := (bytes.headD 0).toNat_lt
      rw [ofLittleEndian, Nat.pow_succ]
      omega

theorem littleEndian_ofLittleEndian {k : Nat} {bytes : List UInt8}
    (h : bytes.length = k) : littleEndian k (ofLittleEndian k bytes) = bytes := by
  induction k generalizing bytes with
  | zero => exact (List.length_eq_zero_iff.mp h).symm
  | succ k ih =>
      cases bytes with
      | nil => cases h
      | cons first rest =>
          have hfirst := first.toNat_lt
          have hquotient : (first.toNat + 256 * ofLittleEndian k rest) / 256 =
              ofLittleEndian k rest := by omega
          have hlow : UInt8.ofNat
              (first.toNat + 256 * ofLittleEndian k rest) = first := by
            apply UInt8.toNat_inj.mp
            rw [UInt8.toNat_ofNat']
            omega
          rw [ofLittleEndian, List.headD_cons, List.tail_cons, littleEndian,
            hquotient, hlow, ih (Nat.succ.inj h)]

def word (k : Nat) : Codec (BitVec (8 * k)) where
  size := k
  encode x := littleEndian k x.toNat
  decode bytes := BitVec.ofNat (8 * k) (ofLittleEndian k bytes)
  length_encode := by
    intro x
    exact length_littleEndian k x.toNat
  decode_encode := by
    intro x suffix
    have hx : x.toNat < 256 ^ k := by
      have hlt := x.isLt
      rw [Nat.pow_mul] at hlt
      exact hlt
    rw [ofLittleEndian_littleEndian hx, BitVec.ofNat_toNat, BitVec.setWidth_eq]

def int16 : Codec Int16 :=
  (word 2).map Int16.ofBitVec Int16.toBitVec fun _ => rfl

def int32 : Codec Int32 :=
  (word 4).map Int32.ofBitVec Int32.toBitVec fun _ => rfl

def uint32 : Codec UInt32 :=
  (word 4).map UInt32.ofBitVec UInt32.toBitVec fun _ => rfl

def uint64 : Codec UInt64 :=
  (word 8).map UInt64.ofBitVec UInt64.toBitVec fun _ => rfl

theorem uint64_encode_decode {bytes : List UInt8}
    (h : bytes.length = uint64.size) :
    uint64.encode (uint64.decode bytes) = bytes := by
  have hlt : ofLittleEndian 8 bytes < 2 ^ 64 := ofLittleEndian_lt 8 bytes
  change littleEndian 8 (BitVec.ofNat 64 (ofLittleEndian 8 bytes)).toNat = bytes
  rw [BitVec.toNat_ofNat, Nat.mod_eq_of_lt hlt]
  exact littleEndian_ofLittleEndian h

end Codec

end Foundation
end DartSync
