import Mathlib.Algebra.Order.Ring.Nat
import Mathlib.Data.Prod.Lex
import Mathlib.Order.Nat

/-!
# Shared constants and the file-table node

The definitions of `common/constant.h` that the tracker and the peers
share: the packet and node types, the sizes of the character arrays, and the
node of a file table.  A fixed-width C field keeps its width, so comparisons
are those of the machine words.

A character array is modelled by the C string it holds, that is by the bytes
before its terminator.  `strcmp(a, b) == 0` is then equality, and
`strlen(a) == 0` is equality with the empty string.
-/

namespace DartSync

/-- The C string held by a terminated `char` array of the given size. -/
structure CString (capacity : Nat) where
  bytes : List UInt8
  noNul : (0 : UInt8) ∉ bytes
  fits : bytes.length < capacity
deriving DecidableEq

namespace CString

/-- The string of an array filled with zero bytes. -/
def empty {capacity : Nat} [NeZero capacity] : CString capacity where
  bytes := []
  noNul := by simp
  fits := Nat.pos_of_neZero capacity

def strlen {capacity : Nat} (s : CString capacity) : Nat :=
  s.bytes.length

theorem eq_of_bytes_eq {capacity : Nat} {s t : CString capacity}
    (h : s.bytes = t.bytes) : s = t := by
  cases s
  cases t
  cases h
  rfl

theorem strlen_eq_zero_iff {capacity : Nat} [NeZero capacity]
    (s : CString capacity) : s.strlen = 0 <-> s = empty := by
  constructor
  · intro h
    exact eq_of_bytes_eq (List.length_eq_zero_iff.mp h)
  · intro h
    rw [h]
    rfl

end CString

abbrev FILE_NAME_LEN : Nat := 256
abbrev IP_LEN : Nat := 16
abbrev MAX_DATA_LEN : Nat := 1464
abbrev MAX_PEER_NUM : Nat := 5
abbrev HEARTBEAT_TIMEOUT : UInt64 := 240

instance neZero_ipLen : NeZero IP_LEN := ⟨by decide⟩

/-!
## Packet types and node types
-/

def REGISTER : Int32 := 0
def KEEP_ALIVE : Int32 := 1
def FILE_UPDATE : Int32 := 2

def FILE_CREATE : Int32 := 3
def FILE_MODIFY : Int32 := 4
def FILE_DELETE : Int32 := 5
def FILE_DOWNLOAD : Int32 := 8
def FILE_DOWNLOADING : Int32 := 9

def IS_FILE : Int16 := 1

abbrev FileName := CString FILE_NAME_LEN

abbrev Ip := CString (IP_LEN + 1)

/-- A `Node` without its link: the tables are lists, so `pNext` only
appears where nodes travel over a connection. -/
structure Node where
  status : Int16
  size : UInt64
  name : FileName
  timestamp : UInt64
  type : Int32
  newpeerip : Vector Ip MAX_PEER_NUM
deriving DecidableEq

/-!
## The version order

Every comparison of versions in the code looks at the timestamp first and then
at the size.
-/

abbrev Version := Nat ×ₗ Nat

def versionOf (timestamp size : UInt64) : Version :=
  toLex (timestamp.toNat, size.toNat)

def Node.version (n : Node) : Version :=
  versionOf n.timestamp n.size

theorem versionOf_eq_iff {t s t' s' : UInt64} :
    versionOf t s = versionOf t' s' <-> t = t' ∧ s = s' := by
  simp [versionOf, UInt64.toNat_inj]

theorem versionOf_lt_iff {t s t' s' : UInt64} :
    versionOf t s < versionOf t' s' <-> (t = t' ∧ s < s') ∨ t < t' := by
  simp only [versionOf, Prod.Lex.toLex_lt_toLex, UInt64.toNat_inj,
    UInt64.lt_iff_toNat_lt]
  exact or_comm

theorem versionOf_timestamp_le {t s t' s' : UInt64}
    (h : versionOf t s ≤ versionOf t' s') : t ≤ t' := by
  rw [versionOf, versionOf, Prod.Lex.toLex_le_toLex] at h
  rw [UInt64.le_iff_toNat_le]
  rcases h with h | h
  · exact Nat.le_of_lt h
  · exact Nat.le_of_eq h.left

theorem versionOf_le_of_timestamp_le {t t' size : UInt64} (h : t ≤ t') :
    versionOf t size ≤ versionOf t' size := by
  rw [versionOf, versionOf, Prod.Lex.toLex_le_toLex]
  rw [UInt64.le_iff_toNat_le] at h
  cases Nat.eq_or_lt_of_le h with
  | inl heq => exact Or.inr ⟨heq, Nat.le_refl _⟩
  | inr hlt => exact Or.inl hlt

theorem versionOf_le_iff_of_time {t size size' : UInt64} :
    versionOf t size ≤ versionOf t size' <-> size ≤ size' := by
  simp [versionOf, Prod.Lex.toLex_le_toLex, UInt64.le_iff_toNat_le]

theorem Node.version_eq_iff {a b : Node} :
    a.version = b.version <-> a.timestamp = b.timestamp ∧ a.size = b.size :=
  versionOf_eq_iff

theorem Node.version_lt_iff {a b : Node} :
    a.version < b.version <->
      (a.timestamp = b.timestamp ∧ a.size < b.size) ∨
        a.timestamp < b.timestamp :=
  versionOf_lt_iff

/-!
## Names and addresses for concrete runs
-/

namespace Sample

def fileA : FileName := ⟨[97], by decide, by decide⟩
def fileB : FileName := ⟨[98], by decide, by decide⟩
def ipA : Ip := ⟨[49], by decide, by decide⟩
def ipB : Ip := ⟨[50], by decide, by decide⟩

end Sample

end DartSync
